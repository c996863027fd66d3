import TextGrammar.Proofs.Registry.Bisection
import TextGrammar.Proofs.Registry.Candidates

/-!
# Selectors that serve their candidates

The selectors that the engine infers keep what they were made with: a shuffled one goes through
an order of all indices, of which a part is past and the rest to come, and a weighted one has a
positive weight for each candidate (`Selector.Serves`). A selector in such a state answers every
request with an index in range, and is in such a state again (`Selector.Serves.pick`).

So a rule whose selector was inferred, and has since done nothing but choose, always has a candidate
to offer (`Rule.Inferred.select`).
-/

namespace TextGrammar

variable {γ α : Type}

theorem drawFrom_fst {draw : γ → α × γ} (P : α → Prop) (h : ∀ g, P (draw g).1) (own : Option γ)
    (shared : γ) : P (drawFrom draw own shared).1 := by
  cases own with
  | none => exact h shared
  | some g => exact h g

variable [RandomSource γ]

namespace Shuffled

/-- The pass, past and to come, is an order of the indices below a number. -/
def Covers (s : Shuffled γ) (n : Nat) : Prop := (s.past ++ s.upcoming).Perm (List.range n)

variable {s : Shuffled γ} {n : Nat}

omit [RandomSource γ] in
theorem Covers.count (h : s.Covers n) : s.count = n := by
  have hlength := h.length_eq
  rwa [List.length_append, List.length_range] at hlength

theorem covers_start (n : Nat) (own : Option γ) (shared : γ) : (start n own shared).1.Covers n := by
  unfold Covers start
  exact drawFrom_fst (List.Perm · (List.range n)) (RandomSource.shuffle_perm (List.range n)) own
    shared

theorem Covers.refill (h : s.Covers n) (hn : 0 < n) (shared : γ) :
    (s.refill shared).1.Covers n ∧ (s.refill shared).1.upcoming ≠ [] := by
  unfold Shuffled.refill
  cases hupcoming : s.upcoming with
  | cons i rest => exact ⟨h, by simp [hupcoming]⟩
  | nil =>
      -- With nothing to come, all indices are past, and are shuffled in the order they came.
      have hpast : s.past.Perm (List.range n) := by
        rwa [Covers, hupcoming, List.append_nil] at h
      have horder := drawFrom_fst (List.Perm · (List.range n))
        (fun g => (RandomSource.shuffle_perm s.past g).trans hpast) s.own shared
      refine ⟨horder, fun hnil => ?_⟩
      have hlength := horder.length_eq
      rw [List.length_range] at hlength
      exact absurd (hlength.symm.trans (congrArg List.length hnil)) (Nat.ne_of_gt hn)

theorem Covers.pick (h : s.Covers n) (hn : 0 < n) (shared : γ) :
    ∃ i t shared', s.pick n shared = .ok (i, t, shared') ∧ i < n ∧ t.Covers n := by
  obtain ⟨hcovers, hne⟩ := h.refill hn shared
  obtain ⟨i, rest, hupcoming⟩ := List.exists_cons_of_ne_nil hne
  refine ⟨i, { (s.refill shared).1 with
    past := (s.refill shared).1.past ++ [i], upcoming := rest }, (s.refill shared).2, ?_, ?_, ?_⟩
  · unfold Shuffled.pick
    rw [if_neg (by rw [h.count]; exact fun hne => hne rfl)]
    simp only [hupcoming]
  · have hmem : i ∈ (s.refill shared).1.past ++ (s.refill shared).1.upcoming := by
      simp [hupcoming]
    exact List.mem_range.1 (hcovers.mem_iff.1 hmem)
  · rw [Covers, hupcoming] at hcovers
    rwa [Covers, List.append_assoc]

end Shuffled

namespace Weighted

/-- There is a positive weight for each index below a number. -/
structure Covers (w : Weighted γ) (n : Nat) : Prop where
  length : w.weights.length = n
  positive : ∀ weight ∈ w.weights, 0 < weight

theorem Covers.pick {w : Weighted γ} {n : Nat} (h : w.Covers n) (hn : 0 < n) (shared : γ) :
    ∃ (i : Nat) (t : Weighted γ) (shared' : γ),
      w.pick n shared = .ok (i, t, shared') ∧ i < n ∧ t.Covers n := by
  have hne : w.weights ≠ [] := List.ne_nil_of_length_pos (h.length ▸ hn)
  have hsum : 0 < w.weights.sum := List.sum_pos w.weights h.positive hne
  have hpoint : (drawFrom (RandomSource.below w.weights.sum) w.own shared).1 < w.weights.sum :=
    drawFrom_fst (· < w.weights.sum) (fun g => RandomSource.below_lt g hsum) w.own shared
  have hpick := Weighted.pick_of_length hne shared
  rw [h.length] at hpick
  exact ⟨_, _, _, hpick, h.length ▸ shareOf_lt_length hpoint, ⟨h.length, h.positive⟩⟩

end Weighted

namespace Selector

/-- The selector is one that the engine makes, in a state for so many candidates. -/
def Serves (n : Nat) : Selector γ → Prop
  | .first => 0 < n
  | .shuffled state => 0 < n ∧ state.Covers n
  | .weighted state => 0 < n ∧ state.Covers n
  | .custom _ => False

/-- Whether a selector was made by a user. -/
def isGiven : Selector γ → Bool
  | .first => false
  | .shuffled _ => false
  | .weighted _ => false
  | .custom _ => true

theorem Serves.pick {σ : Selector γ} {n : Nat} (h : σ.Serves n) (shared : γ) :
    ∃ (i : Nat) (τ : Selector γ) (shared' : γ),
      σ.pick n shared = .ok (.number i, τ, shared') ∧ i < n ∧ τ.Serves n := by
  cases σ with
  | first =>
      have hpick : pickFirst (n : Int) = 0 := if_neg (by exact Int.not_le.2 (Int.natCast_pos.2 h))
      exact ⟨0, .first, shared, by rw [Selector.pick, hpick]; rfl, h, h⟩
  | shuffled state =>
      obtain ⟨i, t, shared', hpick, hi, ht⟩ := h.2.pick h.1 shared
      exact ⟨i, .shuffled t, shared', by rw [Selector.pick, hpick]; rfl, hi, h.1, ht⟩
  | weighted state =>
      obtain ⟨i, t, shared', hpick, hi, ht⟩ := h.2.pick h.1 shared
      exact ⟨i, .weighted t, shared', by rw [Selector.pick, hpick]; rfl, hi, h.1, ht⟩
  | custom state => exact h.elim

theorem isGiven_of_pick {σ τ : Selector γ} {count : Int} {shared shared' : γ} {pick : Pick}
    (h : σ.pick count shared = .ok (pick, τ, shared')) : τ.isGiven = σ.isGiven := by
  cases σ with
  | first =>
      cases h
      rfl
  | shuffled _ | weighted _ | custom _ =>
      obtain ⟨answer, -, hanswer⟩ := exists_of_map_eq_ok h
      cases hanswer
      rfl

end Selector

theorem serves_inferSelector {candidates : List Candidate} (hne : candidates ≠ [])
    (hpos : ∀ c ∈ candidates, ∀ n ∈ c.weight?, 0 < n) (shared : γ) :
    (inferSelector candidates shared).1.Serves candidates.length := by
  have hlength : 0 < candidates.length := List.length_pos_iff.2 hne
  unfold inferSelector
  split
  · exact hlength
  · split
    · refine ⟨hlength, ⟨List.length_map _, fun weight hweight => ?_⟩⟩
      obtain ⟨c, hc, rfl⟩ := List.mem_map.1 hweight
      cases hn : c.weight? with
      | none => exact Nat.one_pos
      | some n => exact hpos c hc n hn
    · exact ⟨hlength, Shuffled.covers_start candidates.length none shared⟩

namespace Rule

/-- The selector of a rule was inferred, and has since done nothing but choose. -/
inductive Inferred : Rule γ → Prop
  | built {name : Text} {d : Definition} {shared shared' : γ} {notices : List Notice}
      {rule : Rule γ} : d.selector = none →
      Rule.build name d shared = (notices, .ok (some (rule, shared'))) → Inferred rule
  | selected {rule rule' : Rule γ} {shared shared' : γ} {picked : Option (Index × Candidate)} :
      Inferred rule → rule.select shared = .ok (picked, rule', shared') → Inferred rule'

/-- The selector of a rule came with its definition, or is one of those given later, and has since
done nothing but choose. -/
inductive Directed (given : Selector γ → Prop) : Rule γ → Prop
  | built {name : Text} {d : Definition} {shared shared' : γ} {notices : List Notice}
      {rule : Rule γ} {custom : CustomSelector} : d.selector = some custom →
      Rule.build name d shared = (notices, .ok (some (rule, shared'))) → Directed given rule
  | given (rule : Rule γ) {σ : Selector γ} : given σ →
      Directed given { rule with selector := σ }
  | selected {rule rule' : Rule γ} {shared shared' : γ} {picked : Option (Index × Candidate)} :
      Directed given rule → rule.select shared = .ok (picked, rule', shared') →
        Directed given rule'

theorem select_of_serves {r : Rule γ} (h : r.selector.Serves r.candidates.length) (shared : γ) :
    ∃ (i : Nat) (c : Candidate) (r' : Rule γ) (shared' : γ),
      r.select shared = .ok (some (.number i, c), r', shared') ∧ r.candidates[i]? = some c ∧
        r'.selector.Serves r'.candidates.length := by
  obtain ⟨i, σ, shared', hpick, hi, hσ⟩ := h.pick shared
  refine ⟨i, r.candidates[i], { r with selector := σ }, shared', ?_,
    List.getElem?_eq_getElem hi, hσ⟩
  have hcandidate : candidateAt? r.candidates (.number i) =
      some (.number i, r.candidates[i]) := by
    simp [candidateAt?, List.getElem?_eq_getElem hi]
  rw [select, hpick]
  simp only [Except.map, hcandidate]

theorem isGiven_of_select {r r' : Rule γ} {shared shared' : γ}
    {picked : Option (Index × Candidate)} (h : r.select shared = .ok (picked, r', shared')) :
    r'.selector.isGiven = r.selector.isGiven := by
  obtain ⟨answer, hpick, hanswer⟩ := exists_of_map_eq_ok h
  cases hanswer
  exact Selector.isGiven_of_pick hpick

theorem Inferred.serves {r : Rule γ} (h : r.Inferred) :
    r.selector.Serves r.candidates.length := by
  induction h with
  | built hselector hbuild =>
      obtain ⟨texts, read, -, hread, hne, hcandidates, hinferred, -⟩ :=
        Rule.build_eq_ok_some hbuild
      rw [hinferred hselector, hcandidates, List.length_map]
      refine serves_inferSelector hne (fun c hc => ?_) _
      subst hread
      obtain ⟨text, -, htext⟩ := List.mem_filterMap.1 hc
      exact (Candidate.isRead_of_candidateOfText? htext).split.2.2
  | selected _ hselect ih =>
      obtain ⟨i, c, r', shared', hselect', -, hserves⟩ := select_of_serves ih _
      rw [hselect'] at hselect
      cases hselect
      exact hserves

/-- A selector that was not given to its rule later came with the definition, from a user. -/
theorem Directed.isGiven {given : Selector γ → Prop} (hgiven : ∀ σ, ¬given σ) {r : Rule γ}
    (h : r.Directed given) : r.selector.isGiven = true := by
  induction h with
  | built hselector hbuild =>
      obtain ⟨texts, read, -, -, -, -, -, hcustom⟩ := Rule.build_eq_ok_some hbuild
      rw [hcustom _ hselector]
      rfl
  | given rule hσ => exact absurd hσ (hgiven _)
  | selected _ hselect ih => rw [isGiven_of_select hselect, ih]

/-- Whatever it has chosen before, an inferred selector chooses a candidate of its rule. -/
theorem Inferred.select {r : Rule γ} (h : r.Inferred) (shared : γ) :
    ∃ (i : Nat) (c : Candidate) (r' : Rule γ) (shared' : γ),
      r.select shared = .ok (some (.number i, c), r', shared') ∧ r.candidates[i]? = some c := by
  obtain ⟨i, c, r', shared', hselect, hc, -⟩ := select_of_serves h.serves shared
  exact ⟨i, c, r', shared', hselect, hc⟩

end Rule

end TextGrammar
