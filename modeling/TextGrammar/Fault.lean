import TextGrammar.Context
import TextGrammar.Markup.Reading

/-!
# Faults

Everything that can stop an operation of the engine, by its cause. The wording of each cause is
given once, in `Fault.message`; `Fault.kind` sorts the causes for callers that treat kinds of
faults differently. An expansion tells only one kind from the others: the faults for which
`Fault.isOverflow` holds are reported as an overflow, whatever their message.

Functions that a user hands to the engine raise faults of their own (`Fault.raised`).
-/

namespace TextGrammar

/-- What kind of fault a cause is. -/
inductive FaultKind where
  /-- Rule text is malformed. -/
  | markup
  /-- A rule may not have this name. -/
  | ruleName
  /-- A value is not of the kind asked for. -/
  | value
  /-- An expansion cannot go on. -/
  | evaluation
  /-- The context grew beyond its maximal depth. -/
  | stackOverflow
  /-- The evaluator was nested too deeply. -/
  | nesting
  /-- A key is missing. -/
  | key
  /-- A place is missing. -/
  | index
  /-- A value of the wrong type was used. -/
  | type
  /-- A value without the needed operation was used. -/
  | attribute
  /-- A number is too large. -/
  | range
  /-- A text cannot be written in an encoding. -/
  | encoding
  /-- There is no room for an answer. -/
  | memory
deriving DecidableEq, Repr

/-- Why an operation stopped. -/
inductive Fault where
  /-- Rule text is malformed. -/
  | markup (fault : MarkupFault)
  /-- Digits are no number. -/
  | numeral (fault : NumeralFault)
  /-- A rule name is not plain text. -/
  | nameNotPlain (shown : Text)
  /-- A rule name holds a mark that begins a node. -/
  | nameHoldsMark (shown : Text)
  /-- A value that has to be run through is no collection. -/
  | notIterable (kindName : Text)
  /-- A shuffled selector was made for no candidates. -/
  | nothingToShuffle
  /-- A weighted selector was made without weights. -/
  | nothingToWeigh
  /-- A weight is no positive whole number. -/
  | badWeight (shown : Text)
  /-- A selector was asked for another number of candidates than it was made for. -/
  | wrongCount (built : Nat) (asked : Int)
  /-- A shuffled selector was made for more candidates than can be counted. -/
  | tooManyToShuffle
  /-- A value of a kind that can change was to be a key. -/
  | badKey (kindName : Text)
  /-- A value names no tagging policy. -/
  | unknownPolicy (shown : Text)
  /-- Randomness cannot be seeded by a value of this kind. -/
  | badSeed
  /-- A text that holds a surrogate was to be written in UTF-8. -/
  | notEncodable (text : Text)
  /-- A blank stands where a number is compared with another. -/
  | blankNumber
  /-- The maximal depth is not positive. -/
  | badMaxDepth
  /-- The maximal depth asks for more nesting than can be provided. -/
  | nestingUnavailable
  /-- The context is full. -/
  | overflow (overflow : Overflow)
  /-- The evaluator is nested too deeply. -/
  | tooNested
  /-- A sequence holds something that is no node. -/
  | strayNode (shown : Text)
  /-- There is no modifier of this name. -/
  | unknownModifier (name : Text)
  /-- The selector of a rule gave no candidate. -/
  | noCandidate (rule : Text)
  /-- A missing text was to be expanded. -/
  | nothingToRead
  /-- A modifier gave no text for the part at this place of a sequence. -/
  | missingText (place : Nat)
  /-- A modifier looked for a character that its text does not have. -/
  | missingCharacter
  /-- A modifier has too few arguments. -/
  | missingArgument
  /-- The argument of `repeat` is no number. -/
  | badRepeat
  /-- The number of repetitions is out of range. -/
  | repeatOutOfRange
  /-- The repeated text would be too long. -/
  | repeatTooLong
  /-- There is no room for the repeated text, or for so many candidates. -/
  | outOfMemory
  /-- A missing text cannot be repeated. -/
  | repeatAbsent
  /-- A missing text has no ending. -/
  | possessiveAbsent
  /-- A function of a user raised a fault of its own. -/
  | raised (kind : FaultKind) (message : Text)
deriving DecidableEq, Repr

/-- The most that the length of a text or a list may be. -/
def maxLength : Nat := 9223372036854775807

/-- The longest text or list that there is room for. -/
def room : Nat := 4294967296

namespace Fault

def ofRead : ReadFault → Fault
  | .malformed fault => .markup fault
  | .weight fault => .numeral fault

def kind : Fault → FaultKind
  | markup _ => .markup
  | numeral _ => .value
  | nameNotPlain _ => .ruleName
  | nameHoldsMark _ => .ruleName
  | notIterable _ => .type
  | nothingToShuffle => .value
  | nothingToWeigh => .value
  | badWeight _ => .value
  | wrongCount .. => .value
  | tooManyToShuffle => .range
  | badKey _ => .type
  | unknownPolicy _ => .value
  | badSeed => .type
  | notEncodable _ => .encoding
  | blankNumber => .type
  | badMaxDepth => .value
  | nestingUnavailable => .range
  | overflow _ => .stackOverflow
  | tooNested => .nesting
  | strayNode _ => .evaluation
  | unknownModifier _ => .evaluation
  | noCandidate _ => .evaluation
  | nothingToRead => .type
  | missingText _ => .type
  | missingCharacter => .index
  | missingArgument => .index
  | badRepeat => .value
  | repeatOutOfRange => .range
  | repeatTooLong => .range
  | outOfMemory => .memory
  | repeatAbsent => .type
  | possessiveAbsent => .attribute
  | raised kind _ => kind

def message : Fault → Text
  | markup fault => fault.message
  | numeral fault => fault.message
  | nameNotPlain shown => "rule '" ++ shown ++ "' ignored - names must be plaintext"
  | nameHoldsMark shown => "rule '" ++ shown ++ "' ignored - names cannot contain # or ["
  | notIterable kindName => "'" ++ kindName ++ "' object is not iterable"
  | nothingToShuffle => "ShuffledSelector needs at least one candidate"
  | nothingToWeigh => "WeightedSelector needs at least one weight"
  | badWeight shown => "weights must be positive integers, got " ++ shown
  | wrongCount built asked =>
      "selector built for " ++ toString built ++ " candidates asked to pick from " ++
        toString asked
  | tooManyToShuffle => "Python int too large to convert to C ssize_t"
  | badKey kindName => "unhashable type: '" ++ kindName ++ "'"
  | unknownPolicy shown => shown ++ " is not a valid TaggingPolicy"
  | badSeed =>
      "The only supported seed types are: None,\nint, float, str, bytes, and bytearray."
  | notEncodable text =>
      let (before, rest) := text.toList.span (!·.isSurrogate)
      let run := rest.takeWhile (·.isSurrogate)
      let subject : Text := if run.length = 1 then
          "character '" ++ .ofList ((run.flatMap codePointEscape).map .char) ++ "' in position " ++
            toString before.length
        else
          "characters in position " ++ toString before.length ++ "-" ++
            toString (before.length + run.length - 1)
      "'utf-8' codec can't encode " ++ subject ++ ": surrogates not allowed"
  | blankNumber => "'<=' not supported between instances of 'list' and 'int'"
  | badMaxDepth => "max_depth must be positive"
  | nestingUnavailable => "Python int too large to convert to C int"
  | overflow _ => "stack overflow"
  | tooNested => "maximum recursion depth exceeded"
  | strayNode shown => "unexpected node " ++ shown
  | unknownModifier name => "unknown modifier '" ++ name ++ "'"
  | noCandidate rule => "selector for rule '" ++ rule ++ "' returned no candidate"
  | nothingToRead => "object of type 'NoneType' has no len()"
  | missingText place =>
      "sequence item " ++ toString place ++ ": expected str instance, NoneType found"
  | missingCharacter => "string index out of range"
  | missingArgument => "tuple index out of range"
  | badRepeat => "repeat expects one non-negative integer argument"
  | repeatOutOfRange => "cannot fit 'int' into an index-sized integer"
  | repeatTooLong => "repeated string is too long"
  | outOfMemory => ""
  | repeatAbsent => "unsupported operand type(s) for *: 'NoneType' and 'int'"
  | possessiveAbsent => "'NoneType' object has no attribute 'endswith'"
  | raised _ message => message

/-- Whether a fault is a kind of overflow: of the context, or of the evaluator's nesting. -/
def isOverflow (f : Fault) : Bool := f.kind = .stackOverflow || f.kind = .nesting

end Fault

theorem exists_of_map_eq_ok {ε α β : Type} {f : α → β} {x : Except ε α} {b : β}
    (h : x.map f = .ok b) : ∃ a, x = .ok a ∧ f a = b := by
  cases x with
  | error fault => cases h
  | ok a =>
      cases h
      exact ⟨a, rfl, rfl⟩

theorem eq_error_of_map_eq_error {α β : Type} {f : α → β} {x : Except Fault α} {fault : Fault}
    (h : x.map f = .error fault) : x = .error fault := by
  cases x with
  | error other =>
      cases h
      rfl
  | ok a => cases h

end TextGrammar
