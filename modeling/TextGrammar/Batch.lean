import TextGrammar.Engine

/-!
# Batches

A batch expands one origin so many times with one engine. Every expansion begins with a reset, so
that the counts of the engine are those of the last expansion alone; the batch adds them up.
-/

namespace TextGrammar

def RuleCounts.addAll (counts more : RuleCounts) : RuleCounts :=
  more.entries.foldl (fun counts e => counts.add e.1 e.2) counts

/-- What a batch has come to: its engine, its answers, and the counts of all its expansions. -/
structure Batch (γ : Type) where
  engine : Engine γ
  answers : Array Text
  counts : RuleCounts

variable {γ : Type} [RandomSource γ]

namespace Batch

def start (e : Engine γ) : Batch γ := ⟨e, #[], .empty⟩

def step (origin : Origin) (b : Batch γ) : Batch γ :=
  let (answer, e) := b.engine.expandFrom origin true
  ⟨e, b.answers.push answer, b.counts.addAll e.session.counts⟩

def run (origin : Origin) : Nat → Batch γ → Batch γ
  | 0, b => b
  | n + 1, b => run origin n (b.step origin)

@[simp] theorem run_zero (origin : Origin) (b : Batch γ) : run origin 0 b = b := rfl

theorem run_succ (origin : Origin) (n : Nat) (b : Batch γ) :
    run origin (n + 1) b = run origin n (b.step origin) := rfl

theorem size_answers_run (origin : Origin) (n : Nat) (b : Batch γ) :
    (run origin n b).answers.size = b.answers.size + n := by
  induction n generalizing b with
  | zero => rfl
  | succ n ih =>
      rw [run_succ, ih]
      simp [step]
      omega

def failures (b : Batch γ) : Nat := (b.answers.toList.filter looksFailed).length

end Batch

end TextGrammar
