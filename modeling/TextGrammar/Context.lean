import TextGrammar.Text.Basic

/-!
# The context of an evaluation

The context is the chain of rules and tags whose evaluation is in progress, the innermost
first. It never grows beyond its maximal depth, which a context carries the proof of: entering
one frame too many is refused, and the refusal (`Overflow`) says at what depth it happened and
on which frame. Leaving an empty context changes nothing.

Evaluation nests as deep as the context, so the maximal depth also settles how much nesting of
the evaluator itself has to be provided for (`neededNesting`).
-/

namespace TextGrammar

/-- What a frame is the evaluation of. Frames that a caller holds on its own account may name
another kind. -/
inductive FrameKind where
  | rule
  | tag
  | other (name : Text)
deriving DecidableEq, Repr

/-- One evaluation in progress. -/
structure Frame where
  kind : FrameKind
  name : Text
deriving DecidableEq, Repr

/-- The refusal of a frame beyond the maximal depth. -/
structure Overflow where
  depth : Nat
  frame : Option Frame
deriving DecidableEq, Repr

/-- Frames that are no more than a maximal depth. -/
class Fits (frames : List Frame) (maxDepth : Nat) : Prop where
  length_le : frames.length ≤ maxDepth

instance (maxDepth : Nat) : Fits [] maxDepth := ⟨Nat.zero_le maxDepth⟩

instance (frames : List Frame) (maxDepth : Nat) [h : Fits frames maxDepth] :
    Fits frames.tail maxDepth where
  length_le := by
    rw [List.length_tail]
    exact Nat.le_trans (Nat.sub_le _ 1) h.length_le

/-- The evaluations in progress, the innermost first, never more than the maximal depth. -/
@[ext]
structure Context where
  maxDepth : Nat
  frames : List Frame
  [fits : Fits frames maxDepth]
deriving DecidableEq, Repr

attribute [instance] Context.fits

namespace Context

def defaultMaxDepth : Nat := 256

/-- The empty context of a maximal depth, which has to be positive. -/
def create? (maxDepth : Int) : Option Context :=
  if maxDepth ≤ 0 then none else some ⟨maxDepth.toNat, []⟩

def depth (c : Context) : Nat := c.frames.length

def enter (c : Context) (f : Frame) : Except Overflow Context :=
  if h : c.depth + 1 > c.maxDepth then .error ⟨c.depth + 1, some f⟩
  else
    have : Fits (f :: c.frames) c.maxDepth := ⟨Nat.le_of_not_gt h⟩
    .ok ⟨c.maxDepth, f :: c.frames⟩

def leave (c : Context) : Context := ⟨c.maxDepth, c.frames.tail⟩

def clear (c : Context) : Context := ⟨c.maxDepth, []⟩

/-- At no time are more frames open than the maximal depth. -/
theorem depth_le (c : Context) : c.depth ≤ c.maxDepth := c.fits.length_le

@[simp] theorem depth_clear (c : Context) : c.clear.depth = 0 := rfl

@[simp] theorem maxDepth_clear (c : Context) : c.clear.maxDepth = c.maxDepth := rfl

@[simp] theorem maxDepth_leave (c : Context) : c.leave.maxDepth = c.maxDepth := rfl

@[simp] theorem frames_leave (c : Context) : c.leave.frames = c.frames.tail := rfl

@[simp] theorem depth_leave (c : Context) : c.leave.depth = c.depth - 1 := by
  simp [leave, depth]

/-- A context with one frame more within the same maximal depth is what entering the frame
gives; so it fails only where there is no such context. -/
theorem enter_eq_ok_iff {c d : Context} {f : Frame} :
    c.enter f = .ok d ↔ d.maxDepth = c.maxDepth ∧ d.frames = f :: c.frames := by
  unfold enter
  split
  · next h =>
      constructor
      · intro heq
        cases heq
      · rintro ⟨hmax, hframes⟩
        have hd := d.fits.length_le
        rw [hmax, hframes] at hd
        exact absurd hd (Nat.not_le_of_gt h)
  · next h =>
      constructor
      · intro heq
        cases heq
        exact ⟨rfl, rfl⟩
      · rintro ⟨hmax, hframes⟩
        exact congrArg Except.ok (Context.ext hmax.symm hframes.symm)

theorem enter_eq_error_iff {c : Context} {f : Frame} {o : Overflow} :
    c.enter f = .error o ↔ c.depth = c.maxDepth ∧ o = ⟨c.depth + 1, some f⟩ := by
  have hle := c.depth_le
  unfold enter
  split
  · next h => simp [eq_comm]; omega
  · next h => simp; omega

theorem exists_enter {c : Context} (h : c.depth < c.maxDepth) (f : Frame) :
    ∃ d, c.enter f = .ok d := by
  cases henter : c.enter f with
  | ok d => exact ⟨d, rfl⟩
  | error o => exact absurd (enter_eq_error_iff.1 henter).1 (Nat.ne_of_lt h)

theorem depth_of_enter {c d : Context} {f : Frame} (h : c.enter f = .ok d) :
    d.depth = c.depth + 1 := by
  rw [depth, (enter_eq_ok_iff.1 h).2, List.length_cons, depth]

/-- Leaving undoes entering. -/
theorem leave_of_enter {c d : Context} {f : Frame} (h : c.enter f = .ok d) : d.leave = c := by
  obtain ⟨hmax, hframes⟩ := enter_eq_ok_iff.1 h
  refine Context.ext hmax ?_
  rw [frames_leave, hframes, List.tail_cons]

end Context

/-- The nesting that a maximal depth asks of the evaluator: four for each level, and some
room above them. -/
def neededNesting (maxDepth : Int) : Int := maxDepth * 4 + 200

/-- The limit on nesting while an expansion runs. It is only ever raised; a limit that does not
fit a signed 32-bit word cannot be set. -/
def raisedNesting? (limit maxDepth : Int) : Option Int :=
  let needed := neededNesting maxDepth
  if needed ≤ limit then some limit
  else if needed < 2147483648 then some needed
  else none

/-- The limit on nesting outside of expansions. -/
def standingNesting : Nat := 1000

end TextGrammar
