import TextGrammar.Number.Binary64
import TextGrammar.Text.Numeral

/-!
# Decimal text of floating point numbers

A floating point number is written with the fewest digits that read back as the same number,
and among those with the ones nearest to it. The digits are laid out positionally while the
decimal point falls less than four places before them or at most sixteen places after the first
digit's place, and with an exponent of at least two digits otherwise. A positional text always
has a point, so that it is told from a whole number.
-/

namespace TextGrammar

namespace Binary64

/-- A positive decimal `digits * 10 ^ exponent`. -/
structure Decimal where
  digits : Nat
  exponent : Int
deriving DecidableEq, Repr

/-- The quarter units of `2 ^ -1076` between which decimals read back as `units`, and whether
the ends do. -/
def readBack (units : Nat) : Nat × Nat × Bool :=
  let s := step units
  let below := if 1 < s && units = twoTo 52 * s then s else 2 * s
  (4 * units - below, 4 * units + 2 * s, (units / s) % 2 = 0)

/-- The exponent of the leading decimal digit of a number of quarter units. -/
def leadingExponent (quarters : Nat) : Int :=
  let atLeast := fun (e : Int) =>
    if 0 ≤ e then decide (twoTo 1076 * tenTo e.toNat ≤ quarters)
    else decide (twoTo 1076 ≤ quarters * tenTo (-e).toNat)
  let guess := ((quarters.log2 : Int) - 1076) * 30103 / 100000
  if atLeast (guess + 1) then guess + 1 else if atLeast guess then guess else guess - 1

/-- The nearest decimal of a grid of powers of ten that reads back as `units`, if the grid has
one. -/
def onGrid? (units : Nat) (exponent : Int) : Option Decimal :=
  let up := tenTo (-exponent).toNat
  let den := twoTo 1076 * tenTo exponent.toNat
  let (low, high, closed) := readBack units
  let num := 4 * units * up
  let inside := fun (c : Nat) =>
    if closed then decide (low * up ≤ c * den) && decide (c * den ≤ high * up)
    else decide (low * up < c * den) && decide (c * den < high * up)
  let floor := num / den
  let nearest := roundDiv num den
  let other := if nearest = floor then floor + 1 else floor
  if inside nearest then some ⟨nearest, exponent⟩
  else if inside other then some ⟨other, exponent⟩
  else none

/-- The first grid, from coarse to fine, with a decimal that reads back. -/
def firstOnGrid (units : Nat) : Nat → Int → Decimal
  | 0, exponent => ⟨roundDiv (4 * units * tenTo (-exponent).toNat)
      (twoTo 1076 * tenTo exponent.toNat), exponent⟩
  | more + 1, exponent =>
      match onGrid? units exponent with
      | some d => d
      | none => firstOnGrid units more (exponent - 1)

/-- The shortest decimal that reads back as a positive number of units. -/
def shortest (units : Nat) : Decimal :=
  firstOnGrid units 16 (leadingExponent (4 * units))

/-- The digits of a decimal without zeros at the end, and the place of the point relative to
their start. -/
def placed (d : Decimal) : List Char × Int :=
  let all := Nat.toDigits 10 d.digits
  ((all.reverse.dropWhile (· = '0')).reverse, all.length + d.exponent)

/-- The exponent of a decimal in scientific notation: its sign and at least two digits. -/
def exponentText (e : Int) : List Char :=
  let digits := Nat.toDigits 10 e.natAbs
  (if e < 0 then '-' else '+') :: (List.replicate (2 - digits.length) '0' ++ digits)

/-- Lays out digits with the point at a place relative to their start. -/
def layout (digits : List Char) (point : Int) : List Char :=
  if -4 < point && point ≤ 16 then
    if point ≤ 0 then '0' :: '.' :: (List.replicate (-point).toNat '0' ++ digits)
    else
      let n := point.toNat
      if digits.length ≤ n then
        digits ++ List.replicate (n - digits.length) '0' ++ ['.', '0']
      else digits.take n ++ '.' :: digits.drop n
  else
    let mantissa := match digits with
      | first :: second :: rest => first :: '.' :: second :: rest
      | _ => digits
    mantissa ++ 'e' :: exponentText (point - 1)

def text : Binary64 → String
  | .nan => "nan"
  | .infinity negative => if negative then "-inf" else "inf"
  | .finite negative units =>
      let body := if units = 0 then ['0', '.', '0']
        else
          let (digits, point) := placed (shortest units)
          layout digits point
      String.ofList (if negative then '-' :: body else body)

/-- Reads an exponent, or nothing where none is written. -/
def readExponent? : List Char → Option Int
  | [] => some 0
  | e :: cs =>
      if e = 'e' || e = 'E' then
        let (negative, ds) := match cs with
          | '-' :: rest => (true, rest)
          | '+' :: rest => (false, rest)
          | _ => (false, cs)
        if ds.isEmpty || !ds.all (·.isDigit) then none
        else some (if negative then -(digitsValue ds : Int) else digitsValue ds)
      else none

/-- Reads a decimal without its sign: digits with a point among them, and an exponent. -/
def readUnsigned? (negative : Bool) (cs : List Char) : Option Binary64 :=
  let (whole, rest) := spanDigits cs
  let (part, rest) := match rest with
    | '.' :: rest => spanDigits rest
    | _ => ([], rest)
  if whole.isEmpty && part.isEmpty then none
  else (readExponent? rest).map fun e =>
    ofDecimal negative (digitsValue (whole ++ part)) (e - part.length)

/-- Reads a number with its sign: a decimal, or one of the words for what is not finite. -/
def readSigned? (cs : List Char) : Option Binary64 :=
  let (negative, body) := splitSign cs
  let word := String.ofList (body.map Char.toLower)
  if word = "inf" || word = "infinity" then some (.infinity negative)
  else if word = "nan" then some .nan
  else readUnsigned? negative body

/-- Reads the text of a number. Blanks may stand around it, its digits may be those of any
script, and single underscores may stand between digits. -/
def read? (source : String) : Option Binary64 :=
  let cs := ((source.toList.map CodePoint.char).map numeralChar).dropWhile isAsciiBlank
  let cs := (cs.reverse.dropWhile isAsciiBlank).reverse
  if wellGrouped ' ' cs then readSigned? (cs.filter (· ≠ '_')) else none

end Binary64

end TextGrammar
