import Mathlib.Algebra.BigOperators.Group.List.Basic
import Mathlib.Algebra.GroupWithZero.Nat
import Mathlib.Order.Interval.Finset.Nat
import TextGrammar.Proofs.Registry.Selection
import TextGrammar.Random.Twister

/-!
# Written weights as shares

The weight of a candidate is written at the end of its text (`markerOf`). Of a definition without a
selector those texts are kept that are read, in order, and each candidate holds what its text says
before the weight (`Candidate.Holds`). The weights go with the kept texts, place by place, so that a
dropped text between two others shifts neither of them.

Among several candidates a weight anywhere makes a weighted selector. Of the numbers that it can
draw, the index `i` owns those from the sum of the weights before it up to that sum with its own
(`shareOf_eq_iff`), which is as many as its weight says (`card_shareOf_eq`).
-/

namespace TextGrammar

/-! ## The numbers of a share -/

/-- The share of an index begins where the weights before it end, and ends where its own does. -/
theorem shareOf_eq_iff {ws : List Nat} {i : Nat} (hi : i < ws.length) (point : Nat) :
    shareOf ws point = i ↔ (ws.take i).sum ≤ point ∧ point < (ws.take (i + 1)).sum := by
  have hupper := lt_shareOf_iff hi point
  have hlower : i ≤ shareOf ws point ↔ (ws.take i).sum ≤ point := by
    cases i with
    | zero => simp
    | succ i => exact lt_shareOf_iff (Nat.lt_of_succ_lt hi) point
  omega

/-- An index owns as many numbers as its weight says. -/
theorem card_shareOf_eq {ws : List Nat} {i : Nat} (hi : i < ws.length) :
    ((Finset.range ws.sum).filter fun point => shareOf ws point = i).card = ws[i] := by
  have hend : (ws.take (i + 1)).sum = (ws.take i).sum + ws[i] := List.sum_take_succ ws i hi
  have htotal : (ws.take (i + 1)).sum ≤ ws.sum :=
    (List.take_sublist (i + 1) ws).sum_le_sum fun a _ => Nat.zero_le a
  have hshare : ((Finset.range ws.sum).filter fun point => shareOf ws point = i) =
      Finset.Ico (ws.take i).sum (ws.take (i + 1)).sum := by
    ext point
    rw [Finset.mem_filter, Finset.mem_range, Finset.mem_Ico, shareOf_eq_iff hi]
    omega
  rw [hshare, Nat.card_Ico, hend, Nat.add_sub_cancel_left]

/-! ## The weights of texts -/

/-- The weight written at the end of a text. -/
def markerOf (text : Text) : Option Nat :=
  match splitWeight (tokenize text) with
  | .ok (_, marker) => marker
  | .error _ => none

def isReadable (text : Text) : Bool :=
  match parseText text true with
  | .ok _ => true
  | .error _ => false

/-- The weight that a candidate counts with: the one that is written, or one. -/
def shareWeight (text : Text) : Nat := (markerOf text).getD 1

/-- The candidate holds what a text says before the weight at its end. -/
structure Candidate.Holds (c : Candidate) (text : Text) : Prop where
  text_eq : c.text = text
  nodes_read : ∃ body, splitWeight (tokenize text) = .ok (body, markerOf text) ∧
    readNodes body = .ok c.nodes
  /-- The weight comes last in what is read of the text, and there is no other. -/
  weight_last : parseText text true = .ok (c.nodes ++ ((markerOf text).map Node.weight).toList)
  weightless : ∀ n ∈ Node.walkAll c.nodes, n.weight? = none

theorem shareWeight_pos (text : Text) : 0 < shareWeight text := by
  unfold shareWeight markerOf
  split
  · next body marker hsplit =>
      cases marker with
      | none => exact Nat.one_pos
      | some n => exact splitWeight_pos hsplit
  · exact Nat.one_pos

/-- A text that is read has been split into what it says and its weight. -/
theorem candidateOfText?_eq_some {text : Text} {c : Candidate}
    (h : candidateOfText? text = some c) :
    c.weight? = markerOf text ∧ c.withoutWeight.Holds text := by
  have hread := Candidate.isRead_of_candidateOfText? h
  obtain ⟨other, nodes⟩ := c
  have htext : other = text := by
    unfold candidateOfText? at h
    split at h
    · cases h
      rfl
    · cases h
  subst htext
  have hwhole : parseText other true = .ok nodes := hread
  unfold Candidate.IsRead parseText parse at hread
  rw [if_pos rfl] at hread
  cases hsplit : splitWeight (tokenize other) with
  | error fault =>
      rw [hsplit] at hread
      cases hread
  | ok answer =>
      obtain ⟨body, marker⟩ := answer
      cases hbody : readNodes body with
      | error fault => simp [hsplit, hbody] at hread
      | ok read =>
          simp only [hsplit, hbody, Except.ok.injEq] at hread
          subst hread
          have hwritten := readNodes_written hbody
          have hmarker : markerOf other = marker := by rw [markerOf, hsplit]
          rw [Candidate.weight?_of_written hwritten, Candidate.withoutWeight_of_written hwritten,
            hmarker]
          exact ⟨rfl, rfl, ⟨body, by rw [hmarker, hsplit], hbody⟩, by rw [hmarker, hwhole],
            fun n hn => (hwritten n hn).weight?_eq_none⟩

theorem isReadable_eq_isSome (text : Text) :
    isReadable text = (candidateOfText? text).isSome := by
  unfold isReadable candidateOfText?
  cases parseText text true <;> rfl

theorem filterMap_candidateOfText? (texts : List Text) :
    List.Forall₂ (fun c text => c.weight? = markerOf text ∧ c.withoutWeight.Holds text)
      (texts.filterMap candidateOfText?) (texts.filter isReadable) := by
  induction texts with
  | nil => exact .nil
  | cons text rest ih =>
      rw [List.filterMap_cons, List.filter_cons, isReadable_eq_isSome]
      cases hread : candidateOfText? text with
      | none => exact ih
      | some c => exact .cons (candidateOfText?_eq_some hread) ih

/-! ## The selector of the kept texts -/

variable {γ : Type}

theorem Weighted.create_of_pos {ws : List Nat} (hne : ws ≠ []) (hpos : ∀ w ∈ ws, 0 < w)
    (own : Option γ) : create (.list (ws.map fun n : Nat => .int n)) own = .ok ⟨ws, own⟩ := by
  have hvacant : (Value.list (ws.map fun n : Nat => .int n)).isVacant = false := by
    simpa [Value.isVacant] using hne
  have hweights : weightsOfValue (.list (ws.map fun n : Nat => .int n)) = .ok ws := by
    change (ws.map fun n : Nat => Value.int n).mapM weightOfValue = .ok ws
    clear hne hvacant
    induction ws with
    | nil => rfl
    | cons w rest ih =>
        rw [List.forall_mem_cons] at hpos
        have hw : weightOfValue (.int w) = .ok w := by
          simp [weightOfValue, hpos.1]
        rw [List.map_cons, List.mapM_cons, hw, ih hpos.2]
        rfl
  rw [create, hvacant, hweights]
  rfl

variable [RandomSource γ]

theorem inferSelector_of_one {candidates : List Candidate} (h : candidates.length = 1)
    (shared : γ) : inferSelector candidates shared = (.first, shared) := if_pos h

theorem inferSelector_of_marker {candidates : List Candidate} {markers : List (Option Nat)}
    (hmarkers : candidates.map Candidate.weight? = markers) (hlength : 2 ≤ markers.length)
    (h : ∃ marker ∈ markers, marker.isSome) (shared : γ) :
    inferSelector candidates shared =
      (.weighted ⟨markers.map fun marker => marker.getD 1, none⟩, shared) := by
  subst hmarkers
  rw [List.length_map] at hlength
  have hany : (candidates.any fun c => c.weight?.isSome) = true := by
    obtain ⟨marker, hmem, hsome⟩ := h
    obtain ⟨c, hc, rfl⟩ := List.mem_map.1 hmem
    exact List.any_eq_true.2 ⟨c, hc, hsome⟩
  rw [inferSelector, if_neg (by omega), if_pos hany, List.map_map]
  rfl

theorem inferSelector_of_no_marker {candidates : List Candidate} {markers : List (Option Nat)}
    (hmarkers : candidates.map Candidate.weight? = markers) (hlength : 2 ≤ markers.length)
    (h : ∀ marker ∈ markers, marker = none) (shared : γ) :
    inferSelector candidates shared =
      (.shuffled (Shuffled.start markers.length none shared).1,
        (Shuffled.start markers.length none shared).2) := by
  subst hmarkers
  rw [List.length_map] at hlength ⊢
  have hany : ¬(candidates.any fun c => c.weight?.isSome) = true := by
    rw [List.any_eq_true]
    rintro ⟨c, hc, hweight⟩
    rw [h _ (List.mem_map_of_mem hc)] at hweight
    cases hweight
  rw [inferSelector, if_neg (by omega), if_neg hany]

/-- A rule with weights draws a number below their sum, and chooses the candidate whose share holds
it. The rule stays as it is. -/
theorem Rule.select_of_weights {rule : Rule γ} {ws : List Nat}
    (hselector : rule.selector = .weighted ⟨ws, none⟩)
    (hlength : rule.candidates.length = ws.length) (hne : ws ≠ []) (hpos : ∀ w ∈ ws, 0 < w)
    (shared : γ) :
    ∃ c, rule.candidates[shareOf ws (RandomSource.below ws.sum shared).1]? = some c ∧
      rule.select shared =
        .ok (some (.number (shareOf ws (RandomSource.below ws.sum shared).1), c), rule,
          (RandomSource.below ws.sum shared).2) := by
  have htotal : 0 < ws.sum := List.sum_pos ws hpos hne
  have hindex : shareOf ws (RandomSource.below ws.sum shared).1 < rule.candidates.length := by
    rw [hlength]
    exact shareOf_lt_length (RandomSource.below_lt shared htotal)
  refine ⟨_, List.getElem?_eq_getElem hindex, ?_⟩
  obtain ⟨candidates, selector⟩ := rule
  subst hselector
  have hpick := Weighted.pick_of_length (w := ⟨ws, none⟩) hne shared
  rw [select, Selector.pick, hlength, hpick]
  simp [Except.map, candidateAt?, drawFrom, List.getElem?_eq_getElem hindex]

theorem Rule.build_of_readable (name : Text) {d : Definition} {texts : List Text}
    (hd : d.texts = .ok texts) (hselector : d.selector = none)
    (hreadable : texts.findSome? weightFault? = none)
    (hne : texts.filterMap candidateOfText? ≠ []) (shared : γ) :
    ∃ notices, Rule.build name d shared = (notices, .ok (some
      (⟨(texts.filterMap candidateOfText?).map Candidate.withoutWeight,
          (inferSelector (texts.filterMap candidateOfText?) shared).1⟩,
        (inferSelector (texts.filterMap candidateOfText?) shared).2))) := by
  have hsnd := Rule.build_snd hd name shared
  rw [hreadable, hselector] at hsnd
  refine ⟨(Rule.build name d shared).1, Prod.ext rfl (hsnd.trans ?_)⟩
  simp [ofCandidates?, hne]

/-- A definition without a selector, of texts that are read or malformed and at least one of them
read, makes a rule of those that are read, in order and without their weights. One of them is
always chosen; of several without weights a shuffled selector for just so many chooses; and if one
of several has a weight, the numbers below the sum of all weights are shared out among them, each
with as many as its weight says, or one where it has none. -/
theorem written_weights_are_shares (name : Text) {d : Definition} {texts : List Text}
    (hd : d.texts = .ok texts) (hselector : d.selector = none)
    (hweights : ∀ text ∈ texts, ∀ fault, parseText text true ≠ .error (.weight fault))
    (hread : ∃ text ∈ texts, ∃ nodes, parseText text true = .ok nodes) (shared : γ) :
    ∃ notices rule shared', Rule.build name d shared = (notices, .ok (some (rule, shared'))) ∧
      List.Forall₂ Candidate.Holds rule.candidates (texts.filter isReadable) ∧
      ((texts.filter isReadable).length = 1 → rule.selector = .first ∧ shared' = shared) ∧
      (2 ≤ (texts.filter isReadable).length →
        (∀ text ∈ texts.filter isReadable, markerOf text = none) →
          ∃ state, rule.selector = .shuffled state ∧
            (state, shared') = Shuffled.start (texts.filter isReadable).length none shared ∧
              state.count = (texts.filter isReadable).length) ∧
      (2 ≤ (texts.filter isReadable).length →
        (∃ text ∈ texts.filter isReadable, (markerOf text).isSome) →
          ∃ state, rule.selector = .weighted state ∧ shared' = shared ∧
            state.weights = (texts.filter isReadable).map shareWeight ∧
            Weighted.create (.list (state.weights.map fun n : Nat => .int n)) none = .ok state ∧
            (∀ source : γ, ∃ c,
              rule.candidates[shareOf state.weights
                (RandomSource.below state.weights.sum source).1]? = some c ∧
              rule.select source =
                .ok (some (.number (shareOf state.weights
                  (RandomSource.below state.weights.sum source).1), c), rule,
                  (RandomSource.below state.weights.sum source).2)) ∧
            ∀ i, (hi : i < state.weights.length) →
              (∀ point, shareOf state.weights point = i ↔
                (state.weights.take i).sum ≤ point ∧ point < (state.weights.take (i + 1)).sum) ∧
              ((Finset.range state.weights.sum).filter fun point =>
                shareOf state.weights point = i).card = state.weights[i]) := by
  have hreadable : texts.findSome? weightFault? = none := by
    refine List.findSome?_eq_none_iff.2 fun text htext => ?_
    cases hfault : weightFault? text with
    | none => rfl
    | some fault => exact absurd (weightFault?_eq_some_iff.1 hfault) (hweights text htext fault)
  have hplaces := filterMap_candidateOfText? texts
  have hne : texts.filterMap candidateOfText? ≠ [] := by
    obtain ⟨text, htext, nodes, hnodes⟩ := hread
    refine List.ne_nil_of_mem (a := ⟨text, nodes⟩) (List.mem_filterMap.2 ⟨text, htext, ?_⟩)
    rw [candidateOfText?, hnodes]
  obtain ⟨notices, hbuild⟩ := Rule.build_of_readable name hd hselector hreadable hne shared
  generalize texts.filterMap candidateOfText? = read at *
  generalize texts.filter isReadable = kept at *
  have hmarkers : read.map Candidate.weight? = kept.map markerOf := by
    rw [← List.forall₂_eq_eq_eq, List.forall₂_map_left_iff, List.forall₂_map_right_iff]
    exact hplaces.imp fun _ _ => And.left
  have hlength : (kept.map markerOf).length = kept.length := List.length_map _
  refine ⟨notices, _, _, hbuild, ?_, fun hone => ?_, fun htwo hnone => ?_, fun htwo hsome => ?_⟩
  · rw [List.forall₂_map_left_iff]
    exact hplaces.imp fun _ _ => And.right
  · rw [inferSelector_of_one (hplaces.length_eq.trans hone)]
    exact ⟨rfl, rfl⟩
  · rw [inferSelector_of_no_marker hmarkers (hlength.symm ▸ htwo) (List.forall_mem_map.2 hnone),
      hlength]
    exact ⟨_, rfl, rfl, (Shuffled.covers_start kept.length none shared).count⟩
  · have hmarked : ∃ marker ∈ kept.map markerOf, marker.isSome := by
      obtain ⟨text, htext, hmarker⟩ := hsome
      exact ⟨_, List.mem_map_of_mem htext, hmarker⟩
    have hweights : (kept.map markerOf).map (fun marker => marker.getD 1) =
        kept.map shareWeight := by
      rw [List.map_map]
      rfl
    have hne : kept.map shareWeight ≠ [] := by
      rw [← List.length_pos_iff, List.length_map]
      exact Nat.zero_lt_of_lt htwo
    have hpos : ∀ w ∈ kept.map shareWeight, 0 < w :=
      List.forall_mem_map.2 fun text _ => shareWeight_pos text
    rw [inferSelector_of_marker hmarkers (hlength.symm ▸ htwo) hmarked, hweights]
    refine ⟨_, rfl, rfl, rfl, Weighted.create_of_pos hne hpos none,
      Rule.select_of_weights rfl ?_ hne hpos, fun i hi => ⟨shareOf_eq_iff hi, card_shareOf_eq hi⟩⟩
    rw [List.length_map, List.length_map]
    exact hplaces.length_eq

/-- A malformed text stands between the weighted ones, and the last has no weight: of the six
numbers two belong to the candidate in the middle. -/
theorem written_weights_are_shares_dropped : ∃ (rule : Rule Twister) (state : Weighted Twister),
    (∃ notices, Rule.build "r" (.ofTexts ["a,3", "#", "b,2", "c"]) (⟨#[], 0⟩ : Twister) =
      (notices, .ok (some (rule, ⟨#[], 0⟩)))) ∧
      rule.candidates.map Candidate.text = (["a,3", "b,2", "c"] : List Text) ∧
      rule.selector = .weighted state ∧ state.weights = [3, 2, 1] ∧
      (∀ point, shareOf state.weights point = 1 ↔ 3 ≤ point ∧ point < 5) ∧
      ((Finset.range 6).filter fun point => shareOf state.weights point = 1).card = 2 := by
  let texts : List Text := ["a,3", "#", "b,2", "c"]
  have hkept : texts.filter isReadable = ["a,3", "b,2", "c"] := by
    decide +kernel
  have hweights : ∀ text ∈ texts, ∀ fault,
      parseText text true ≠ .error (.weight fault) := by
    have hnone : texts.findSome? weightFault? = none := by decide +kernel
    intro text htext fault hfault
    have hreadable := List.findSome?_eq_none_iff.1 hnone text htext
    rw [weightFault?_eq_some_iff.2 hfault] at hreadable
    cases hreadable
  have hread : ∃ text ∈ texts, ∃ nodes, parseText text true = .ok nodes :=
    ⟨"c", by simp [texts], _, rfl⟩
  obtain ⟨notices, rule, shared', hbuild, hholds, -, -, hshares⟩ :=
    written_weights_are_shares "r" (Definition.texts_ofTexts _) rfl hweights hread
      (⟨#[], 0⟩ : Twister)
  rw [hkept] at hholds hshares
  obtain ⟨state, hselector, rfl, hstate, -, -, hshare⟩ :=
    hshares (by decide) ⟨"a,3", by decide, by decide +kernel⟩
  have hws : state.weights = [3, 2, 1] := hstate.trans (by decide +kernel)
  rw [hws] at hshare
  refine ⟨rule, state, ⟨notices, hbuild⟩, ?_, hselector, hws, ?_⟩
  · have htexts := hholds.imp fun _ _ h => h.text_eq
    rw [← List.forall₂_map_left_iff, List.forall₂_eq_eq_eq] at htexts
    exact htexts
  · rw [hws]
    exact hshare 1 (by decide)

end TextGrammar
