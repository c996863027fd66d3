import TextGrammar.Fault
import TextGrammar.Random.Source

/-!
# Shuffled selection

A shuffled selector goes through the candidates in random order and shuffles again when all have
been shown, so that no candidate comes back before every other one has had its turn. Its state
is the current pass, cut where it has got to: the indices already shown, and those still to
come. A new pass is a random order of the last one.

A selector draws from a source of its own or from one that it shares with others.
-/

namespace TextGrammar

variable {γ α : Type}

/-- Draws from a selector's own source where it has one, and from the shared source where it
has none. -/
def drawFrom (draw : γ → α × γ) (own : Option γ) (shared : γ) : α × Option γ × γ :=
  match own with
  | some g => ((draw g).1, some (draw g).2, shared)
  | none => ((draw shared).1, none, (draw shared).2)

/-- A shuffled selector: the indices shown in this pass, and those still to come. -/
structure Shuffled (γ : Type) where
  past : List Nat
  upcoming : List Nat
  own : Option γ

namespace Shuffled

variable [RandomSource γ]

/-- The number of candidates that the selector was made for. -/
def count (s : Shuffled γ) : Nat := s.past.length + s.upcoming.length

/-- A selector at the start of its first pass through `count` candidates. -/
def start (count : Nat) (own : Option γ) (shared : γ) : Shuffled γ × γ :=
  let (order, own, shared) := drawFrom (RandomSource.shuffle (List.range count)) own shared
  (⟨[], order, own⟩, shared)

/-- A selector for a given number of candidates, of which there has to be one, and not more than
there is room for. -/
def create (count : Int) (own : Option γ) (shared : γ) : Except Fault (Shuffled γ × γ) :=
  if count ≤ 0 then .error .nothingToShuffle
  else if maxLength < count then .error .tooManyToShuffle
  else if room < count then .error .outOfMemory
  else .ok (start count.toNat own shared)

/-- The selector with something to come: a pass that is used up is shuffled again. -/
def refill (s : Shuffled γ) (shared : γ) : Shuffled γ × γ :=
  match s.upcoming with
  | _ :: _ => (s, shared)
  | [] =>
      let (order, own, shared) := drawFrom (RandomSource.shuffle s.past) s.own shared
      (⟨[], order, own⟩, shared)

/-- The next index of the pass. A request for another number of candidates is refused. -/
def pick (s : Shuffled γ) (count : Int) (shared : γ) : Except Fault (Nat × Shuffled γ × γ) :=
  if count ≠ s.count then .error (.wrongCount s.count count)
  else
    let (t, shared) := s.refill shared
    match t.upcoming with
    | [] => .error .nothingToShuffle
    | i :: rest => .ok (i, { t with past := t.past ++ [i], upcoming := rest }, shared)

def remaining (s : Shuffled γ) : List Nat := s.upcoming

end Shuffled

end TextGrammar
