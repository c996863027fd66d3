import TextGrammar.Json.Number
import TextGrammar.Lexicon

/-!
# Reading JSON

`readJson` reads a value and nothing but blanks around it. Beside the values of JSON it takes
the words `NaN`, `Infinity` and `-Infinity`. The entries of a table are kept as they are written,
repeated names included; `Value.collapse` lets the last entry of a name win, in the first place
of that name. A text that is no JSON is refused with the place where reading failed.
-/

namespace TextGrammar

def isJsonBlank (c : Char) : Bool := c = ' ' || c = '\t' || c = '\n' || c = '\r'

def skipBlanks (cs : List Char) : List Char := cs.dropWhile isJsonBlank

def jsonWords : List (String × Value) :=
  [("null", .null), ("true", .bool true), ("false", .bool false), ("NaN", .float .nan),
    ("Infinity", .float (.infinity false)), ("-Infinity", .float (.infinity true))]

def readWord? (cs : List Char) : Option (Value × List Char) :=
  jsonWords.findSome? fun w =>
    if w.1.toList.isPrefixOf cs then some (w.2, cs.drop w.1.length) else none

def readScalar (limit : Option Nat) (cs : List Char) : Except JsonStop (Value × List Char) :=
  match readWord? cs with
  | some r => .ok r
  | none => readNumber limit cs

def readName (cs : List Char) : Except JsonStop (Text × List Char) :=
  match cs with
  | '\"' :: rest =>
      match readQuoted cs.length rest with
      | .error stop => .error stop
      | .ok (name, rest) =>
          match skipBlanks rest with
          | ':' :: rest => .ok (name, skipBlanks rest)
          | rest => .error (.problem .colonExpected rest.length)
  | _ => .error (.problem .nameExpected cs.length)

mutual

/-- Reads a value, going into so many values and items inside one another. -/
def readValue (limit : Option Nat) : Nat → List Char → Except JsonStop (Value × List Char)
  | 0, cs => .error (.problem .valueExpected cs.length)
  | n + 1, cs =>
      match cs with
      | '\"' :: rest => (readQuoted cs.length rest).map fun r => (.text r.1, r.2)
      | '\x7b' :: rest =>
          match skipBlanks rest with
          | '\x7d' :: rest => .ok (.table [], rest)
          | rest => (readEntries limit n rest).map fun r => (.table r.1, r.2)
      | '[' :: rest =>
          match skipBlanks rest with
          | ']' :: rest => .ok (.list [], rest)
          | rest => (readItems limit n rest).map fun r => (.list r.1, r.2)
      | _ => readScalar limit cs

def readItems (limit : Option Nat) :
    Nat → List Char → Except JsonStop (List Value × List Char)
  | 0, cs => .error (.problem .valueExpected cs.length)
  | n + 1, cs =>
      match readValue limit n cs with
      | .error stop => .error stop
      | .ok (item, rest) =>
          match skipBlanks rest with
          | ']' :: rest => .ok ([item], rest)
          | ',' :: rest =>
              (readItems limit n (skipBlanks rest)).map fun r => (item :: r.1, r.2)
          | rest => .error (.problem .commaExpected rest.length)

def readEntries (limit : Option Nat) :
    Nat → List Char → Except JsonStop (List (Text × Value) × List Char)
  | 0, cs => .error (.problem .nameExpected cs.length)
  | n + 1, cs =>
      match readName cs with
      | .error stop => .error stop
      | .ok (name, rest) =>
          match readValue limit n rest with
          | .error stop => .error stop
          | .ok (item, rest) =>
              match skipBlanks rest with
              | '\x7d' :: rest => .ok ([(name, item)], rest)
              | ',' :: rest =>
                  (readEntries limit n (skipBlanks rest)).map fun r => ((name, item) :: r.1, r.2)
              | rest => .error (.problem .commaExpected rest.length)

end

/-- Reads characters that are one value. Every step inside a value takes at least one character
of two, so that twice their number bounds the nesting. -/
def readWhole (limit : Option Nat) (cs : List Char) : Except JsonStop Value :=
  if cs.head? = some '\ufeff' then .error (.problem .byteOrderMark cs.length)
  else
    match readValue limit (2 * cs.length + 2) (skipBlanks cs) with
    | .error stop => .error stop
    | .ok (v, rest) =>
        match skipBlanks rest with
        | [] => .ok v
        | rest => .error (.problem .moreAfterValue rest.length)

/-- Why a text is not read as JSON. -/
inductive JsonFault where
  | malformed (problem : JsonProblem) (place : Place)
  | numeral (fault : NumeralFault)
deriving DecidableEq, Repr

namespace JsonFault

def ofStop (cs : List Char) : JsonStop → JsonFault
  | .problem problem left => .malformed problem (.after (cs.take (cs.length - left)))
  | .numeral fault => .numeral fault

def message : JsonFault → Text
  | malformed problem place => problem.words ++ ": " ++ place.shown
  | numeral fault => fault.message

end JsonFault

def readJson (limit : Option Nat) (text : String) : Except JsonFault Value :=
  (readWhole limit text.toList).mapError (JsonFault.ofStop text.toList)

mutual

def Value.collapse : Value → Value
  | .list items => .list (Value.collapseItems items)
  | .table entries => .table (Lexicon.ofList (Value.collapseEntries entries)).entries
  | v => v

def Value.collapseItems : List Value → List Value
  | [] => []
  | item :: rest => item.collapse :: Value.collapseItems rest

def Value.collapseEntries : List (Text × Value) → List (Text × Value)
  | [] => []
  | (name, item) :: rest => (name, item.collapse) :: Value.collapseEntries rest

end

end TextGrammar
