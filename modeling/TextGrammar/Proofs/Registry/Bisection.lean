import Mathlib.Algebra.GroupWithZero.Nat
import Mathlib.Algebra.Order.BigOperators.Group.List
import Mathlib.Algebra.Order.Group.Nat
import TextGrammar.Selector.Weighted

/-!
# Running sums and shares

Looking a number up among ascending ones parts them into those that are at most the number and
those that are greater (`lt_bisectRight_iff`). Among the running sums of weights this finds the
index whose share of the numbers holds it (`bisectRight_accumulate`): the first `w₀` numbers are
the share of index 0, the next `w₁` that of index 1, and so on (`shareOf`).
-/

namespace TextGrammar

/-! ## Looking up among ascending numbers -/

def Ascending (sums : Array Nat) : Prop :=
  ∀ (i j : Nat) (_ : i ≤ j) (hj : j < sums.size), sums[i] ≤ sums[j]

/-- The places before `lo` are known to hold numbers that are at most `point`, and those from `hi`
on to hold greater ones. -/
structure Parted (sums : Array Nat) (point lo hi : Nat) : Prop where
  ordered : lo ≤ hi
  before : ∀ (j : Nat) (hj : j < sums.size), j < lo → sums[j] ≤ point
  after : ∀ (j : Nat) (hj : j < sums.size), hi ≤ j → point < sums[j]

variable {sums : Array Nat} {point lo hi : Nat}

theorem Parted.start (point : Nat) (sums : Array Nat) : Parted sums point 0 sums.size :=
  ⟨Nat.zero_le _, fun j _ hneg => absurd hneg (Nat.not_lt_zero j),
    fun _ hj hge => absurd hj (Nat.not_lt.2 hge)⟩

theorem bisectBetween_le (hhi : hi ≤ sums.size) (h : lo ≤ hi) :
    bisectBetween sums point lo hi hhi ≤ hi := by
  fun_induction bisectBetween sums point lo hi hhi with
  | case1 lo hi hhi hlt hmid hless ih =>
      have := ih (by omega)
      omega
  | case2 lo hi hhi hlt hmid hnot ih => exact ih (by omega)
  | case3 => exact h

theorem Parted.between (hsums : Ascending sums) (hhi : hi ≤ sums.size)
    (h : Parted sums point lo hi) :
    Parted sums point (bisectBetween sums point lo hi hhi)
      (bisectBetween sums point lo hi hhi) := by
  fun_induction bisectBetween sums point lo hi hhi with
  | case1 lo hi hhi hlt hmid hless ih =>
      exact ih ⟨by omega, h.before, fun j hj hmidj =>
        Nat.lt_of_lt_of_le hless (hsums _ _ hmidj hj)⟩
  | case2 lo hi hhi hlt hmid hnot ih =>
      exact ih ⟨by omega, fun j hj hjmid =>
        Nat.le_trans (hsums _ _ (Nat.le_of_lt_succ hjmid) hmid) (Nat.le_of_not_lt hnot), h.after⟩
  | case3 lo hi hhi hge =>
      have heq : lo = hi := Nat.le_antisymm h.ordered (Nat.le_of_not_lt hge)
      exact ⟨Nat.le_refl _, h.before, heq ▸ h.after⟩

/-- The places before the answer are those of the numbers that are at most `point`. -/
theorem lt_bisectRight_iff (hsums : Ascending sums) {j : Nat} (hj : j < sums.size) :
    j < bisectRight sums point ↔ sums[j] ≤ point := by
  have hparted := (Parted.start point sums).between hsums (Nat.le_refl _)
  refine ⟨hparted.before j hj, fun hle => Nat.lt_of_not_le fun hge => ?_⟩
  exact absurd (hparted.after j hj hge) (Nat.not_lt.2 hle)

/-! ## Running sums -/

theorem length_accumulate (sum : Nat) (ns : List Nat) :
    (accumulate sum ns).length = ns.length := by
  induction ns generalizing sum with
  | nil => rfl
  | cons n rest ih => rw [accumulate, List.length_cons, ih, List.length_cons]

theorem getElem_accumulate {ns : List Nat} {i : Nat} (sum : Nat)
    (hi : i < (accumulate sum ns).length) :
    (accumulate sum ns)[i] = sum + (ns.take (i + 1)).sum := by
  induction ns generalizing sum i with
  | nil => exact absurd hi (Nat.not_lt_zero i)
  | cons n rest ih =>
      rw [List.take_succ_cons, List.sum_cons, ← Nat.add_assoc]
      cases i with
      | zero => rw [List.take_zero, List.sum_nil]; rfl
      | succ i => exact ih (sum + n) (Nat.lt_of_succ_lt_succ hi)

theorem getD_getLast?_accumulate (sum : Nat) (ns : List Nat) :
    (accumulate sum ns).getLast?.getD sum = sum + ns.sum := by
  induction ns generalizing sum with
  | nil => rfl
  | cons n rest ih =>
      rw [accumulate, List.getLast?_cons, Option.getD_some, ih, List.sum_cons, Nat.add_assoc]

theorem ascending_accumulate (ns : List Nat) : Ascending (accumulate 0 ns).toArray := by
  intro i j hij hj
  rw [List.size_toArray] at hj
  rw [List.getElem_toArray, List.getElem_toArray, getElem_accumulate, getElem_accumulate]
  exact Nat.add_le_add_left (List.monotone_sum_take ns (Nat.succ_le_succ hij)) 0

/-! ## Shares -/

/-- The index whose share holds a number. -/
def shareOf : List Nat → Nat → Nat
  | [], _ => 0
  | w :: rest, point => if point < w then 0 else shareOf rest (point - w) + 1

theorem shareOf_cons (w : Nat) (rest : List Nat) (point : Nat) :
    shareOf (w :: rest) point = if point < w then 0 else shareOf rest (point - w) + 1 := rfl

theorem shareOf_le_length (ws : List Nat) (point : Nat) : shareOf ws point ≤ ws.length := by
  induction ws generalizing point with
  | nil => exact Nat.le_refl 0
  | cons w rest ih =>
      rw [shareOf_cons, List.length_cons]
      split
      · exact Nat.zero_le _
      · exact Nat.succ_le_succ (ih _)

/-- The share of a number comes after those that end before it. -/
theorem lt_shareOf_iff {ws : List Nat} {j : Nat} (hj : j < ws.length) (point : Nat) :
    j < shareOf ws point ↔ (ws.take (j + 1)).sum ≤ point := by
  induction ws generalizing j point with
  | nil => exact absurd hj (Nat.not_lt_zero j)
  | cons w rest ih =>
      rw [shareOf_cons, List.take_succ_cons, List.sum_cons]
      cases j with
      | zero =>
          rw [List.take_zero, List.sum_nil]
          split <;> omega
      | succ j =>
          have hrest := ih (Nat.lt_of_succ_lt_succ hj) (point - w)
          split
          · omega
          · rw [Nat.succ_lt_succ_iff, hrest]
            omega

theorem shareOf_lt_length {ws : List Nat} {point : Nat} (h : point < ws.sum) :
    shareOf ws point < ws.length := by
  induction ws generalizing point with
  | nil => exact absurd h (Nat.not_lt_zero point)
  | cons w rest ih =>
      rw [List.sum_cons] at h
      rw [shareOf_cons, List.length_cons]
      split
      · exact Nat.succ_pos _
      · exact Nat.succ_lt_succ (ih (by omega))

/-- Looking a number up among the running sums finds its share. -/
theorem bisectRight_accumulate (ws : List Nat) (point : Nat) :
    bisectRight (accumulate 0 ws).toArray point = shareOf ws point := by
  have hsize : (accumulate 0 ws).toArray.size = ws.length := length_accumulate 0 ws
  have hle : bisectRight (accumulate 0 ws).toArray point ≤ ws.length :=
    hsize ▸ bisectBetween_le (Nat.le_refl _) (Nat.zero_le _)
  -- Both answers say which of the running sums are at most the number.
  have hsame : ∀ j < ws.length,
      j < bisectRight (accumulate 0 ws).toArray point ↔ j < shareOf ws point := by
    intro j hj
    rw [lt_bisectRight_iff (ascending_accumulate ws) (hsize.symm ▸ hj), lt_shareOf_iff hj,
      List.getElem_toArray, getElem_accumulate, Nat.zero_add]
  refine Nat.le_antisymm (Nat.le_of_not_lt fun hlt => ?_) (Nat.le_of_not_lt fun hlt => ?_)
  · exact Nat.lt_irrefl _ ((hsame _ (Nat.lt_of_lt_of_le hlt hle)).1 hlt)
  · exact Nat.lt_irrefl _ ((hsame _ (Nat.lt_of_lt_of_le hlt (shareOf_le_length ws point))).2 hlt)

/-! ## What a weighted selector answers -/

namespace Weighted

variable {γ : Type}

theorem total_eq_sum (w : Weighted γ) : w.total = w.weights.sum := by
  rw [total, cumulative, List.back?_toArray, getD_getLast?_accumulate, Nat.zero_add]

/-- The index of a drawn number is the one whose share holds it. -/
theorem pick_of_length [RandomSource γ] {w : Weighted γ} (hne : w.weights ≠ []) (shared : γ) :
    w.pick w.weights.length shared =
      .ok (shareOf w.weights (drawFrom (RandomSource.below w.weights.sum) w.own shared).1,
        { w with own := (drawFrom (RandomSource.below w.weights.sum) w.own shared).2.1 },
        (drawFrom (RandomSource.below w.weights.sum) w.own shared).2.2) := by
  have hpositive : ¬((w.weights.length : Int) ≤ 0) := by
    have := List.length_pos_iff.2 hne
    omega
  rw [pick, if_neg hpositive, if_neg (by simp), total_eq_sum]
  simp only [cumulative, bisectRight_accumulate]

end Weighted

end TextGrammar
