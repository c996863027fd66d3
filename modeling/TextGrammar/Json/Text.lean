import TextGrammar.Json.Writing
import TextGrammar.Text.Lines
import TextGrammar.Text.Numeral

/-!
# Texts in JSON

A text in JSON stands between quotes. It is read in two steps: into code points, each a character
or the UTF-16 unit of a numeric escape, and from these the pairs of surrogates are joined. A
surrogate without its partner stays a code point of its own.

What is wrong with a text that is no JSON is a `JsonProblem`. While reading, its place is known
by the number of characters from there to the end.
-/

namespace TextGrammar

/-- What is wrong with a text that is no JSON. -/
inductive JsonProblem where
  | valueExpected
  | nameExpected
  | colonExpected
  | commaExpected
  | textUnterminated
  | controlCharacter
  | unknownEscape
  | badUnitEscape
  | moreAfterValue
  | byteOrderMark
deriving DecidableEq, Repr

namespace JsonProblem

def words : JsonProblem → Text
  | valueExpected => "Expecting value"
  | nameExpected => "Expecting property name enclosed in double quotes"
  | colonExpected => "Expecting ':' delimiter"
  | commaExpected => "Expecting ',' delimiter"
  | textUnterminated => "Unterminated string starting at"
  | controlCharacter => "Invalid control character at"
  | unknownEscape => "Invalid \\escape"
  | badUnitEscape => "Invalid \\uXXXX escape"
  | moreAfterValue => "Extra data"
  | byteOrderMark => "Unexpected UTF-8 BOM (decode using utf-8-sig)"

end JsonProblem

/-- Why reading stopped: a problem so many characters before the end, or a number that is too
long. -/
inductive JsonStop where
  | problem (problem : JsonProblem) (left : Nat)
  | numeral (fault : NumeralFault)
deriving DecidableEq, Repr

def hexValue? (c : Char) : Option Nat :=
  if c.isDigit then some (c.toNat - 48)
  else if 97 ≤ c.toNat && c.toNat ≤ 102 then some (c.toNat - 87)
  else if 65 ≤ c.toNat && c.toNat ≤ 70 then some (c.toNat - 55)
  else none

/-- The number that four hexadecimal digits write. -/
def hexUnit? (a b c d : Char) : Option Nat :=
  match hexValue? a, hexValue? b, hexValue? c, hexValue? d with
  | some a, some b, some c, some d => some (((a * 16 + b) * 16 + c) * 16 + d)
  | _, _, _, _ => none

def escapedChar? (c : Char) : Option Char :=
  if c = '\"' || c = '\\' || c = '/' then some c
  else if c = 'b' then some '\x08'
  else if c = 'f' then some '\x0c'
  else if c = 'n' then some '\n'
  else if c = 'r' then some '\r'
  else if c = 't' then some '\t'
  else none

/-- Reads the code points of a text up to its closing quote, each unit as one of its own. `start` is
the number of characters from the opening quote to the end. -/
def readPoints (start : Nat) : List Char → Except JsonStop (List CodePoint × List Char)
  | [] => .error (.problem .textUnterminated start)
  | '\"' :: rest => .ok ([], rest)
  | '\\' :: 'u' :: a :: b :: c :: d :: rest =>
      match hexUnit? a b c d, rest.isEmpty with
      | some n, false => (readPoints start rest).map fun r => (.ofNat n :: r.1, r.2)
      | _, _ => .error (.problem .badUnitEscape (rest.length + 5))
  | '\\' :: 'u' :: rest => .error (.problem .badUnitEscape (rest.length + 1))
  | '\\' :: c :: rest =>
      match escapedChar? c with
      | some e => (readPoints start rest).map fun r => (.char e :: r.1, r.2)
      | none => .error (.problem .unknownEscape (rest.length + 2))
  | ['\\'] => .error (.problem .textUnterminated start)
  | c :: rest =>
      if c.toNat < 0x20 then .error (.problem .controlCharacter (rest.length + 1))
      else (readPoints start rest).map fun r => (.char c :: r.1, r.2)

/-- Reads a text behind its opening quote. -/
def readQuoted (start : Nat) (cs : List Char) : Except JsonStop (Text × List Char) :=
  (readPoints start cs).map fun r => ((Text.ofList r.1).joinPairs, r.2)

end TextGrammar
