import Mathlib.Data.List.Chain
import TextGrammar.Text.Pairs

/-!
# Joining surrogate pairs

A text comes back from its units as it was if and only if no high surrogate stands directly before
a low one in it (`Text.Joined`): joining changes no other text (`Text.joinPairs_eq_self_iff`), and
leaves no such pair (`Text.joined_joinPairs`). Splitting code points into their units first makes no
difference (`CodePoint.joinPairs_flatMap_split`).
-/

namespace TextGrammar

namespace CodePoint

theorem lt_of_mem_units {c : CodePoint} {unit : Nat} (h : unit ∈ c.units) : unit < 0x10000 := by
  have hlt := c.toNat_lt
  unfold units at h
  split at h
  · next hbasic => exact List.mem_singleton.1 h ▸ hbasic
  · simp only [List.mem_cons, List.not_mem_nil, or_false] at h
    omega

/-- No high surrogate stands directly before a low one. -/
def Joined (cs : List CodePoint) : Prop := cs.IsChain fun c d => (c.isHigh && d.isLow) = false

instance (cs : List CodePoint) : Decidable (Joined cs) :=
  inferInstanceAs (Decidable (cs.IsChain _))

theorem joinPairs_cons {c : CodePoint} {rest : List CodePoint}
    (h : ∀ d ∈ rest.head?, (c.isHigh && d.isLow) = false) :
    joinPairs (c :: rest) = c :: joinPairs rest := by
  cases rest with
  | nil => rfl
  | cons d rest => simp [joinPairs, h d rfl]

theorem joinPairs_pair {c d : CodePoint} (h : (c.isHigh && d.isLow) = true)
    (rest : List CodePoint) : joinPairs (c :: d :: rest) = ofPair c d :: joinPairs rest := by
  rw [joinPairs, if_pos h]

theorem joinPairs_of_joined {cs : List CodePoint} (h : Joined cs) : joinPairs cs = cs := by
  induction cs with
  | nil => rfl
  | cons c rest ih =>
      obtain ⟨hhead, hrest⟩ := List.isChain_cons.1 h
      rw [joinPairs_cons hhead, ih hrest]

theorem le_toNat_ofPair {c d : CodePoint} (h : (c.isHigh && d.isLow) = true) :
    0x10000 ≤ (ofPair c d).toNat := by
  simp only [isHigh, isLow, Bool.and_eq_true, decide_eq_true_eq] at h
  rw [ofPair, toNat_ofNat (by omega)]
  omega

theorem isHigh_eq_false {c : CodePoint} (h : 0x10000 ≤ c.toNat) : c.isHigh = false := by
  simp only [isHigh, Bool.and_eq_false_iff, decide_eq_false_iff_not]
  omega

theorem isLow_eq_false {c : CodePoint} (h : 0x10000 ≤ c.toNat) : c.isLow = false := by
  simp only [isLow, Bool.and_eq_false_iff, decide_eq_false_iff_not]
  omega

/-- Joining makes no low surrogate the first code point. -/
theorem isLow_head?_joinPairs {cs : List CodePoint} {d : CodePoint} (h : d ∈ (joinPairs cs).head?)
    (hlow : d.isLow = true) : d ∈ cs.head? := by
  unfold joinPairs at h
  split at h
  · next c e rest =>
      split at h
      · next hpair =>
          obtain rfl : ofPair c e = d := Option.some.inj h
          rw [isLow_eq_false (le_toNat_ofPair hpair)] at hlow
          cases hlow
      · exact h
  · exact h

theorem joined_joinPairs (cs : List CodePoint) : Joined (joinPairs cs) := by
  fun_induction joinPairs cs with
  | case1 c d rest hpair ih =>
      refine List.isChain_cons.2 ⟨fun e _ => ?_, ih⟩
      rw [isHigh_eq_false (le_toNat_ofPair hpair), Bool.false_and]
  | case2 c d rest hpair ih =>
      refine List.isChain_cons.2 ⟨fun e he => ?_, ih⟩
      cases hlow : e.isLow with
      | false => exact Bool.and_false _
      | true =>
          obtain rfl : d = e := Option.some.inj (isLow_head?_joinPairs he hlow)
          rw [hlow] at hpair
          exact Bool.eq_false_iff.2 hpair
  | case3 cs hcs =>
      match cs with
      | [] => exact List.isChain_nil
      | [c] => exact List.isChain_singleton c
      | c :: d :: rest => exact absurd rfl (hcs c d rest)

theorem joinPairs_eq_self_iff {cs : List CodePoint} : joinPairs cs = cs ↔ Joined cs :=
  ⟨fun h => h ▸ joined_joinPairs cs, joinPairs_of_joined⟩

/-! ## Units read as code points -/

/-- The units of a code point, each as a code point of its own. -/
def split (c : CodePoint) : List CodePoint := c.units.map ofNat

theorem split_of_lt {c : CodePoint} (h : c.toNat < 0x10000) : c.split = [c] := by
  simp [split, units, h]

/-- A code point beyond U+FFFF falls into a pair, which is joined to it again. -/
theorem exists_split {c : CodePoint} (h : 0x10000 ≤ c.toNat) :
    ∃ high low, c.split = [high, low] ∧ (high.isHigh && low.isLow) = true ∧
      ofPair high low = c := by
  have hlt := c.toNat_lt
  have hhigh := toNat_ofNat (n := 0xd800 + (c.toNat - 0x10000) / 0x400) (by omega)
  have hlow := toNat_ofNat (n := 0xdc00 + (c.toNat - 0x10000) % 0x400) (by omega)
  refine ⟨_, _, by rw [split, units, if_neg (Nat.not_lt.2 h)]; rfl, ?_, ?_⟩
  · simp only [isHigh, isLow, hhigh, hlow, Bool.and_eq_true, decide_eq_true_eq]
    omega
  · have hcode : 0x10000 + (0xd800 + (c.toNat - 0x10000) / 0x400 - 0xd800) * 0x400 +
        (0xdc00 + (c.toNat - 0x10000) % 0x400 - 0xdc00) = c.toNat := by
      omega
    rw [ofPair, hhigh, hlow, hcode, ofNat_toNat]

/-- Units begin with a low surrogate only where the code points do. -/
theorem isLow_head?_flatMap_split {cs : List CodePoint} {d : CodePoint}
    (h : d ∈ (cs.flatMap split).head?) (hlow : d.isLow = true) : d ∈ cs.head? := by
  cases cs with
  | nil => exact h
  | cons c rest =>
      rw [List.flatMap_cons] at h
      by_cases hbasic : c.toNat < 0x10000
      · rw [split_of_lt hbasic] at h
        exact h
      · obtain ⟨high, low, hsplit, hpair, -⟩ := exists_split (Nat.le_of_not_lt hbasic)
        rw [hsplit] at h
        obtain rfl : high = d := Option.some.inj h
        simp only [isHigh, isLow, Bool.and_eq_true, decide_eq_true_eq] at hpair hlow
        omega

/-- Joining the units of code points joins the pairs that the code points hold, and nothing
else. -/
theorem joinPairs_flatMap_split (cs : List CodePoint) :
    joinPairs (cs.flatMap split) = joinPairs cs := by
  fun_induction joinPairs cs with
  | case1 c d rest hpair ih =>
      have hbasic : c.toNat < 0x10000 ∧ d.toNat < 0x10000 := by
        simp only [isHigh, isLow, Bool.and_eq_true, decide_eq_true_eq] at hpair
        omega
      rw [List.flatMap_cons, List.flatMap_cons, split_of_lt hbasic.1, split_of_lt hbasic.2,
        List.singleton_append, List.singleton_append, joinPairs_pair hpair, ih]
  | case2 c d rest hpair ih =>
      rw [List.flatMap_cons]
      by_cases hbasic : c.toNat < 0x10000
      · rw [split_of_lt hbasic, List.singleton_append, joinPairs_cons, ih]
        intro e he
        cases hlow : e.isLow with
        | false => exact Bool.and_false _
        | true =>
            obtain rfl : d = e := Option.some.inj (isLow_head?_flatMap_split he hlow)
            rw [hlow] at hpair
            exact Bool.eq_false_iff.2 hpair
      · obtain ⟨high, low, hsplit, hjoin, hc⟩ := exists_split (Nat.le_of_not_lt hbasic)
        rw [hsplit, List.cons_append, List.singleton_append, joinPairs_pair hjoin, hc, ih]
  | case3 cs hcs =>
      match cs with
      | [] => rfl
      | [c] =>
          rw [List.flatMap_singleton]
          by_cases hbasic : c.toNat < 0x10000
          · rw [split_of_lt hbasic]
            rfl
          · obtain ⟨high, low, hsplit, hjoin, hc⟩ := exists_split (Nat.le_of_not_lt hbasic)
            rw [hsplit, joinPairs_pair hjoin, hc]
            rfl
      | c :: d :: rest => exact absurd rfl (hcs c d rest)

end CodePoint

namespace Text

def Joined (t : Text) : Prop := CodePoint.Joined t.toList

instance (t : Text) : Decidable t.Joined := inferInstanceAs (Decidable (CodePoint.Joined t.toList))

theorem joinPairs_eq_self_iff {t : Text} : t.joinPairs = t ↔ t.Joined := by
  rw [Text.ext_iff]
  exact CodePoint.joinPairs_eq_self_iff

theorem joined_joinPairs (t : Text) : t.joinPairs.Joined := CodePoint.joined_joinPairs t.toList

end Text

end TextGrammar
