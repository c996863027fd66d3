import TextGrammar.Number.Power

/-!
# Binary floating point numbers

The numbers of the 64-bit binary format. A finite number is a sign and a count of units of
`2 ^ -1074`, the distance between the smallest of them; so every rounding is exact arithmetic
on natural numbers. A decimal is read as the number nearest to it, a tie going to the even
neighbour, and a decimal beyond the largest number as infinity.
-/

namespace TextGrammar

/-- A number of the 64-bit binary format; a finite one counts units of `2 ^ -1074`. -/
inductive Binary64 where
  | nan
  | infinity (negative : Bool)
  | finite (negative : Bool) (units : Nat)
deriving DecidableEq, Repr

namespace Binary64

/-- The quotient rounded to the nearest natural number, a tie going to the even one. -/
def roundDiv (num den : Nat) : Nat :=
  let q := num / den
  let r := num % den
  if 2 * r < den then q else if den < 2 * r then q + 1 else q + q % 2

/-- The distance, in units, between neighbouring numbers near `units`. -/
def step (units : Nat) : Nat := twoTo (units.log2 - 52)

/-- The least count of units beyond all finite numbers. -/
def overflowUnits : Nat := twoTo 2098

/-- The number nearest to a quotient. -/
def ofQuotient (negative : Bool) (num den : Nat) : Binary64 :=
  let scaled := num * twoTo 1074
  let s := step (scaled / den)
  let units := roundDiv scaled (den * s) * s
  if units < overflowUnits then .finite negative units else .infinity negative

/-- The number nearest to `digits * 10 ^ exponent`. Decimals far outside the range are settled
by their order of magnitude alone. -/
def ofDecimal (negative : Bool) (digits : Nat) (exponent : Int) : Binary64 :=
  let magnitude := (Nat.toDigits 10 digits).length + exponent
  if digits = 0 || magnitude < -330 then .finite negative 0
  else if 310 < magnitude then .infinity negative
  else if 0 ≤ exponent then ofQuotient negative (digits * tenTo exponent.toNat) 1
  else ofQuotient negative digits (tenTo (-exponent).toNat)

def whole? : Binary64 → Option Int
  | .finite negative units =>
      if units % twoTo 1074 = 0 then
        let n : Int := units / twoTo 1074
        some (if negative then -n else n)
      else none
  | _ => none

end Binary64

end TextGrammar
