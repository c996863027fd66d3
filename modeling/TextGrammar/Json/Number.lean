import TextGrammar.Json.Text
import TextGrammar.Number.Decimal

/-!
# Numbers in JSON

A number has a whole part, which is a lone zero or begins with another digit, and may have a
fraction and an exponent. Without these two it is a whole number, with one of them a floating
point number. A point or an `e` that no digit follows is not part of the number. Whole numbers
may be limited to so many digits.
-/

namespace TextGrammar

/-- Splits a minus sign off; the answer says whether there was one. -/
def splitMinus : List Char → Bool × List Char
  | '-' :: rest => (true, rest)
  | cs => (false, cs)

def splitWhole : List Char → List Char × List Char
  | '0' :: rest => (['0'], rest)
  | cs => spanDigits cs

def splitFraction : List Char → List Char × List Char
  | '.' :: rest =>
      if (spanDigits rest).1.isEmpty then ([], '.' :: rest)
      else ('.' :: (spanDigits rest).1, (spanDigits rest).2)
  | cs => ([], cs)

def splitExponentSign : List Char → List Char × List Char
  | '-' :: rest => (['-'], rest)
  | '+' :: rest => (['+'], rest)
  | cs => ([], cs)

def splitExponent : List Char → List Char × List Char
  | [] => ([], [])
  | e :: rest =>
      let (sign, body) := splitExponentSign rest
      let (digits, after) := spanDigits body
      if (e = 'e' || e = 'E') && !digits.isEmpty then (e :: (sign ++ digits), after)
      else ([], e :: rest)

/-- The whole number of a sign and digits, of which there may be a limited number. -/
def wholeNumber (limit : Option Nat) (negative : Bool) (digits : List Char) :
    Except JsonStop Value :=
  if limit.any (· < digits.length) then .error (.numeral (.tooLong digits.length))
  else .ok (.int (if negative then -(digitsValue digits : Int) else digitsValue digits))

def readNumber (limit : Option Nat) (cs : List Char) : Except JsonStop (Value × List Char) :=
  let (negative, body) := splitMinus cs
  let (whole, rest) := splitWhole body
  if whole.isEmpty then .error (.problem .valueExpected cs.length)
  else
    let (fraction, rest) := splitFraction rest
    let (exponent, rest) := splitExponent rest
    if fraction.isEmpty && exponent.isEmpty then
      (wholeNumber limit negative whole).map (·, rest)
    else
      match Binary64.readUnsigned? negative (whole ++ fraction ++ exponent) with
      | some x => .ok (.float x, rest)
      | none => .error (.problem .valueExpected cs.length)

end TextGrammar
