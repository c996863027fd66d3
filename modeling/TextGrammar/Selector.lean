import TextGrammar.Selector.Pick
import TextGrammar.Selector.Shuffled
import TextGrammar.Selector.Weighted

/-!
# Selectors

A selector chooses, each time a rule is expanded, which of its candidates is taken. Selectors
are made by the engine (the first candidate, a shuffled pass, weighted shares) or given by a
user. A user's selector is known by its answers: what it answers may depend on all it has been
asked before, and need not be an index at all.
-/

namespace TextGrammar

/-- A selector of a user: what it answers to a number of candidates, given the earlier numbers
it has answered to, oldest first. -/
structure CustomSelector where
  answer : List Int → Int → Except Fault Pick
  asked : List Int

namespace CustomSelector

def constant (pick : Pick) : CustomSelector := ⟨fun _ _ => .ok pick, []⟩

end CustomSelector

variable {γ : Type}

/-- A way to choose among the candidates of a rule. -/
inductive Selector (γ : Type) where
  | first
  | shuffled (state : Shuffled γ)
  | weighted (state : Weighted γ)
  | custom (state : CustomSelector)

namespace Selector

variable [RandomSource γ]

/-- The index that picking the first of `count` candidates gives. -/
def pickFirst (count : Int) : Int := if count ≤ 0 then -1 else 0

def pick (s : Selector γ) (count : Int) (shared : γ) : Except Fault (Pick × Selector γ × γ) :=
  match s with
  | .first => .ok (.number (pickFirst count), .first, shared)
  | .shuffled state =>
      (state.pick count shared).map fun (i, state, shared) =>
        (.number i, .shuffled state, shared)
  | .weighted state =>
      (state.pick count shared).map fun (i, state, shared) =>
        (.number i, .weighted state, shared)
  | .custom state =>
      (state.answer state.asked count).map fun pick =>
        (pick, .custom { state with asked := state.asked ++ [count] }, shared)

end Selector

end TextGrammar
