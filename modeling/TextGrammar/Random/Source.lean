/-!
# Sources of random numbers

All that selection asks of randomness: to put a list of numbers into a random order and to
draw a number below a bound. The two laws are all that is known of a source in general; a
concrete source proves them once, in its instance.
-/

namespace TextGrammar

/-- A state from which random orders and numbers are drawn. -/
class RandomSource (γ : Type) where
  /-- A random order of a list, and the state after it. -/
  shuffle : List Nat → γ → List Nat × γ
  /-- A number below a bound, and the state after it. -/
  below : Nat → γ → Nat × γ
  /-- A random order is an order of the same list. -/
  shuffle_perm : ∀ (xs : List Nat) (g : γ), (shuffle xs g).1.Perm xs
  /-- A drawn number is below its bound. -/
  below_lt : ∀ {n : Nat} (g : γ), 0 < n → (below n g).1 < n

end TextGrammar
