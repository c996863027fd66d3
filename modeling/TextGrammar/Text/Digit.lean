import TextGrammar.Text.Basic

/-!
# Digits

A decimal digit is a character with a value from 0 to 9 in a positional script; the scripts
give ten consecutive code points to their digits, so a table of the zeros is enough. Beside
them stand characters that count as digits without being decimal: superscripts, subscripts,
circled digits and their like. They pass for digits where a text is only asked whether it is
made of digits, and have no value where a number is read.
-/

namespace TextGrammar

def decimalZeros : List Nat := [
  48, 1632, 1776, 1984, 2406, 2534, 2662, 2790, 2918, 3046, 3174, 3302, 3430, 3558, 3664, 3792,
  3872, 4160, 4240, 6112, 6160, 6470, 6608, 6784, 6800, 6992, 7088, 7232, 7248, 42528, 43216,
  43264, 43472, 43504, 43600, 44016, 65296, 66720, 68912, 69734, 69872, 69942, 70096, 70384,
  70736, 70864, 71248, 71360, 71472, 71904, 72016, 72784, 73040, 73120, 92768, 92864, 93008,
  120782, 120792, 120802, 120812, 120822, 123200, 123632, 125264, 130032]

def otherDigitRanges : List (Nat × Nat) := [
  (178, 179), (185, 185), (4969, 4977), (6618, 6618), (8304, 8304), (8308, 8313), (8320, 8329),
  (9312, 9320), (9332, 9340), (9352, 9360), (9450, 9450), (9461, 9469), (9471, 9471),
  (10102, 10110), (10112, 10120), (10122, 10130), (68160, 68163), (69216, 69224), (69714, 69722),
  (127232, 127242)]

def decimalValue? (c : CodePoint) : Option Nat :=
  (decimalZeros.find? fun z => z ≤ c.toNat && c.toNat < z + 10).map (c.toNat - ·)

/-- Whether a character is a digit, decimal or not. -/
def isDigitChar (c : CodePoint) : Bool :=
  (decimalValue? c).isSome || CodePoint.inRanges otherDigitRanges c

def isDigitText (text : Text) : Bool :=
  !text.toList.isEmpty && text.toList.all isDigitChar

def spanDigits (cs : List Char) : List Char × List Char :=
  (cs.takeWhile (·.isDigit), cs.dropWhile (·.isDigit))

def digitsValue (cs : List Char) : Nat :=
  cs.foldl (fun n c => 10 * n + (c.toNat - 48)) 0

theorem isDigitChar_of_decimalValue? {c : CodePoint} {n : Nat} (h : decimalValue? c = some n) :
    isDigitChar c = true := by
  simp [isDigitChar, h]

end TextGrammar
