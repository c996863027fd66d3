import TextGrammar.Selector.Shuffled
import TextGrammar.Value

/-!
# Weighted selection

A weighted selector draws a number below the sum of all weights. Among the running sums of the
weights it looks for the first that is greater than the number, and answers with the index there.
-/

namespace TextGrammar

variable {γ : Type}

/-- A weighted selector. -/
structure Weighted (γ : Type) where
  weights : List Nat
  own : Option γ

/-- The running sums of numbers, from a sum on. -/
def accumulate : Nat → List Nat → List Nat
  | _, [] => []
  | sum, n :: rest => (sum + n) :: accumulate (sum + n) rest

/-- Looks, between two places in ascending numbers, for the place after those that are at most
`point`. The places that are left are halved at each step. -/
def bisectBetween (sums : Array Nat) (point lo hi : Nat) (hhi : hi ≤ sums.size) : Nat :=
  if h : lo < hi then
    have hmid : (lo + hi) / 2 < sums.size := by omega
    if point < sums[(lo + hi) / 2] then
      bisectBetween sums point lo ((lo + hi) / 2) (Nat.le_of_lt hmid)
    else bisectBetween sums point ((lo + hi) / 2 + 1) hi hhi
  else lo
termination_by hi - lo

def bisectRight (sums : Array Nat) (point : Nat) : Nat :=
  bisectBetween sums point 0 sums.size (Nat.le_refl _)

namespace Weighted

def cumulative (w : Weighted γ) : Array Nat := (accumulate 0 w.weights).toArray

def total (w : Weighted γ) : Nat := w.cumulative.back?.getD 0

def weightOfValue (v : Value) : Except Fault Nat :=
  match v with
  | .int n => if 0 < n then .ok n.toNat else .error (.badWeight v.shown)
  | _ => .error (.badWeight v.shown)

/-- The weights that a value lists. A range begins with zero, which is none. -/
def weightsOfValue (v : Value) : Except Fault (List Nat) :=
  match v with
  | .range _ => .error (.badWeight (Value.int 0).shown)
  | _ =>
      match v.items? with
      | none => .error (.notIterable v.kindName)
      | some items => items.mapM weightOfValue

/-- A selector with given weights: at least one, and all of them positive whole numbers. -/
def create (weights : Value) (own : Option γ) : Except Fault (Weighted γ) :=
  if weights.isVacant then .error .nothingToWeigh
  else (weightsOfValue weights).map fun ws => ⟨ws, own⟩

variable [RandomSource γ]

/-- The index of a drawn number, or `-1` where there is nothing to pick from. A request for
another number of candidates is refused. -/
def pick (w : Weighted γ) (count : Int) (shared : γ) : Except Fault (Int × Weighted γ × γ) :=
  if count ≤ 0 then .ok (-1, w, shared)
  else if count ≠ w.weights.length then .error (.wrongCount w.weights.length count)
  else
    let (point, own, shared) := drawFrom (RandomSource.below w.total) w.own shared
    .ok (bisectRight w.cumulative point, { w with own := own }, shared)

end Weighted

end TextGrammar
