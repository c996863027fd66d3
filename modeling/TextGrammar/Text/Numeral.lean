import TextGrammar.Text.Blank
import TextGrammar.Text.Digit
import TextGrammar.Text.Quoted

/-!
# Whole numbers in text

Reading a whole number: blanks, a sign, decimal digits of any script, blanks. Single
underscores may stand between digits. A number of more than 4300 digits is refused, whatever
comes after its digits.

In a text of ASCII characters alone only the six blanks of that set may stand around the
number; in any other text every blank may, the separators U+001C to U+001F excepted.
-/

namespace TextGrammar

/-- The most digits that a number may be written with. -/
def maxDigits : Nat := 4300

/-- Why a text is not read as a whole number. -/
inductive NumeralFault where
  | notANumber (text : Text)
  | tooLong (digits : Nat)
deriving DecidableEq, Repr

namespace NumeralFault

/-- The message of a fault; a refused text is cited by at most 200 characters. -/
def message : NumeralFault → Text
  | notANumber text =>
      "invalid literal for int() with base 10: " ++
        .ofList ((quoted text).toList.take 200)
  | tooLong digits =>
      "Exceeds the limit (" ++ toString maxDigits ++
        " digits) for integer string conversion: value has " ++ toString digits ++
        " digits; use sys.set_int_max_str_digits() to increase the limit"

end NumeralFault

def isAsciiBlank (c : Char) : Bool := c = ' ' || (9 ≤ c.toNat && c.toNat ≤ 13)

/-- The ASCII character that a code point counts as in a number; one that can have no part in it
counts as a question mark. -/
def numeralChar : CodePoint → Char
  | .surrogate _ => '?'
  | .char c =>
      if c.toNat < 127 then c
      else if isBlank c then ' '
      else match decimalValue? c with
        | some n => Char.ofNat (48 + n)
        | none => '?'

/-- Splits a sign off; the answer says whether the number is negative. -/
def splitSign : List Char → Bool × List Char
  | '+' :: rest => (false, rest)
  | '-' :: rest => (true, rest)
  | cs => (false, cs)

/-- Whether every underscore stands between two digits, given the character before. -/
def wellGrouped (before : Char) : List Char → Bool
  | [] => before != '_'
  | c :: rest =>
      (if c = '_' then before.isDigit else before != '_' || c.isDigit) && wellGrouped c rest

def readInt (text : Text) : Except NumeralFault Int :=
  let (negative, cs) := splitSign ((text.toList.map numeralChar).dropWhile isAsciiBlank)
  let isPart := fun (c : Char) => c.isDigit || c = '_'
  let body := cs.takeWhile isPart
  let rest := (cs.dropWhile isPart).dropWhile isAsciiBlank
  let digits := body.filter (·.isDigit)
  if !wellGrouped ' ' body then .error (.notANumber text)
  else if maxDigits < digits.length then .error (.tooLong digits.length)
  else if digits.isEmpty || !rest.isEmpty then .error (.notANumber text)
  else .ok (if negative then -(digitsValue digits : Int) else digitsValue digits)

end TextGrammar
