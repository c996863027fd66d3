import TextGrammar.Proofs.Markup.Weights
import TextGrammar.Rule

/-!
# From texts to candidates

What becomes of the texts of a definition. A text is read as a candidate, or it is malformed and
dropped, or the digits of its weight are no number, and this alone ends the reading of all texts
(`readCandidates_snd`). The last is so of exactly the texts that end with a comma and a run of
digits that is no number, with something before them (`parseText_eq_weight_iff`).

A candidate keeps what was read of its text but for the weight at the end, which is positive
(`Candidate.IsRead.split`).
-/

namespace TextGrammar

def candidateOfText? (text : Text) : Option Candidate :=
  match parseText text true with
  | .ok nodes => some ⟨text, nodes⟩
  | .error _ => none

/-- Why the weight of a text is no number, if it is none. -/
def weightFault? (text : Text) : Option NumeralFault :=
  match parseText text true with
  | .error (.weight fault) => some fault
  | _ => none

/-- A text ends with a comma and digits, behind something else, and the digits are no number. -/
def WeightUnreadable (text : Text) : Prop :=
  ∃ (body : List Token) (comma digits : Token) (fault : NumeralFault),
    tokenize text = body ++ [comma, digits] ∧ body ≠ [] ∧ comma.kind = .mark .comma ∧
      digits.kind = .text ∧ isDigitText digits.text = true ∧ readInt digits.text = .error fault

/-- Splitting a weight off fails for tokens of which the last two look like one. -/
theorem splitWeight_eq_error_iff {ts : List Token} {fault : NumeralFault} :
    splitWeight ts = .error fault ↔
      ∃ (body : List Token) (comma digits : Token), ts = body ++ [comma, digits] ∧ body ≠ [] ∧
        comma.kind = .mark .comma ∧ digits.kind = .text ∧ isDigitText digits.text = true ∧
          readInt digits.text = .error fault := by
  unfold splitWeight
  constructor
  · intro h
    split at h
    · next digits comma last before hreverse =>
        have hts : ts = (last :: before).reverse ++ [comma, digits] := by
          rw [← List.reverse_reverse ts, hreverse]
          simp
        split at h
        · next hweight =>
            split at h
            · next fault' hread =>
                cases h
                exact ⟨_, comma, digits, hts, by simp, hweight.1, hweight.2.1, hweight.2.2, hread⟩
            · split at h
              all_goals cases h
        · cases h
    · cases h
  · rintro ⟨body, comma, digits, rfl, hbody, hcomma, hdigits, hall, hread⟩
    obtain ⟨last, before, hreverse⟩ :=
      List.exists_cons_of_ne_nil (mt List.reverse_eq_nil_iff.1 hbody)
    simp [hreverse, hcomma, hdigits, hall, hread]

theorem parseText_eq_weight_iff_splitWeight {text : Text} {fault : NumeralFault} :
    parseText text true = .error (.weight fault) ↔
      splitWeight (tokenize text) = .error fault := by
  unfold parseText parse
  rw [if_pos rfl]
  cases splitWeight (tokenize text) with
  | error fault' => simp
  | ok rest =>
      obtain ⟨body, weight⟩ := rest
      simp only
      cases readNodes body with
      | error fault' => simp
      | ok nodes => simp

/-- The texts whose weight is no number. -/
theorem parseText_eq_weight_iff {text : Text} :
    (∃ fault, parseText text true = .error (.weight fault)) ↔ WeightUnreadable text := by
  simp only [parseText_eq_weight_iff_splitWeight]
  constructor
  · rintro ⟨fault, h⟩
    obtain ⟨body, comma, digits, hsplit⟩ := splitWeight_eq_error_iff.1 h
    exact ⟨body, comma, digits, fault, hsplit⟩
  · rintro ⟨body, comma, digits, fault, hsplit⟩
    exact ⟨fault, splitWeight_eq_error_iff.2 ⟨body, comma, digits, hsplit⟩⟩

theorem weightFault?_eq_some_iff {text : Text} {fault : NumeralFault} :
    weightFault? text = some fault ↔ parseText text true = .error (.weight fault) := by
  unfold weightFault?
  split
  · next h => simp [h]
  · next hnot =>
      constructor
      · intro h
        cases h
      · exact fun h => absurd h (hnot fault)

theorem weightFault?_eq_none_iff {text : Text} :
    weightFault? text = none ↔ ¬WeightUnreadable text := by
  rw [← parseText_eq_weight_iff, ← Option.not_isSome_iff_eq_none, Option.isSome_iff_exists]
  simp only [weightFault?_eq_some_iff]

/-- Reading the texts of a definition: the first weight that is no number stops it, and else each
text that is read gives its candidate, in order. -/
theorem readCandidates_snd (rule : Text) (texts : List Text) :
    (readCandidates rule texts).2 =
      match texts.findSome? weightFault? with
      | some fault => .error (.numeral fault)
      | none => .ok (texts.filterMap candidateOfText?) := by
  induction texts with
  | nil => rfl
  | cons text rest ih =>
      unfold readCandidates
      cases hread : parseText text true with
      | ok nodes =>
          have hfault : weightFault? text = none := by simp [weightFault?, hread]
          have hcandidate : candidateOfText? text = some ⟨text, nodes⟩ := by
            simp [candidateOfText?, hread]
          simp only [ih, List.findSome?_cons, hfault, List.filterMap_cons, hcandidate]
          cases rest.findSome? weightFault? <;> rfl
      | error fault =>
          have hcandidate : candidateOfText? text = none := by simp [candidateOfText?, hread]
          cases fault with
          | malformed fault =>
              have hfault : weightFault? text = none := by simp [weightFault?, hread]
              simp only [ih, List.findSome?_cons, hfault, List.filterMap_cons, hcandidate]
          | weight fault =>
              have hfault : weightFault? text = some fault := by simp [weightFault?, hread]
              simp only [List.findSome?_cons, hfault]

namespace Candidate

@[simp] theorem text_withoutWeight (c : Candidate) : c.withoutWeight.text = c.text := by
  unfold withoutWeight
  split <;> rfl

def IsRead (c : Candidate) : Prop := parseText c.text true = .ok c.nodes

theorem isRead_of_candidateOfText? {text : Text} {c : Candidate}
    (h : candidateOfText? text = some c) : c.IsRead := by
  unfold candidateOfText? at h
  split at h
  · next nodes hread =>
      cases h
      exact hread
  · cases h

/-- Behind nodes that stand for something written, the weight at the end is the one that is put
there. -/
theorem weight?_of_written {text : Text} {body : List Node} (h : Node.AllWritten body)
    (weight : Option Nat) :
    weight? ⟨text, body ++ (weight.map Node.weight).toList⟩ = weight := by
  cases weight with
  | some n => simp [weight?, Node.weight?]
  | none =>
      rw [Option.map_none, Option.toList_none, List.append_nil, weight?]
      cases hlast : body.getLast? with
      | none => rfl
      | some n =>
          have hn := Node.mem_walkAll_iff.2 ⟨n, List.mem_of_getLast? hlast, n.mem_walk_self⟩
          exact (h n hn).weight?_eq_none

theorem withoutWeight_of_written {text : Text} {body : List Node} (h : Node.AllWritten body)
    (weight : Option Nat) :
    withoutWeight ⟨text, body ++ (weight.map Node.weight).toList⟩ = ⟨text, body⟩ := by
  unfold withoutWeight
  rw [weight?_of_written h weight]
  cases weight with
  | some n => simp
  | none => simp

/-- A candidate that was read is the one without its weight, and behind it perhaps a positive
weight. -/
theorem IsRead.split {c : Candidate} (h : c.IsRead) :
    c.nodes = c.withoutWeight.nodes ++ (c.weight?.map Node.weight).toList ∧
      Node.AllWritten c.withoutWeight.nodes ∧ ∀ n ∈ c.weight?, 0 < n := by
  obtain ⟨text, nodes⟩ := c
  obtain ⟨body, weight, rfl, hwritten, hpos⟩ := parse_weighted h
  rw [weight?_of_written hwritten, withoutWeight_of_written hwritten]
  exact ⟨rfl, hwritten, hpos⟩

end Candidate

namespace Rule

variable {γ : Type} [RandomSource γ]

theorem ofCandidates?_eq_none_iff {selector : Option CustomSelector} {candidates : List Candidate}
    {shared : γ} : ofCandidates? selector candidates shared = none ↔ candidates = [] := by
  unfold ofCandidates?
  split
  · next hempty => simpa using hempty
  · next hempty => simpa using hempty

theorem ofCandidates?_eq_some {selector : Option CustomSelector} {candidates : List Candidate}
    {shared shared' : γ} {rule : Rule γ}
    (h : ofCandidates? selector candidates shared = some (rule, shared')) :
    candidates ≠ [] ∧ rule.candidates = candidates.map Candidate.withoutWeight ∧
      (selector = none → rule.selector = (inferSelector candidates shared).1) ∧
        ∀ custom, selector = some custom → rule.selector = .custom custom := by
  have hne : candidates ≠ [] := by
    intro hnil
    rw [ofCandidates?_eq_none_iff.2 hnil] at h
    cases h
  unfold ofCandidates? at h
  rw [if_neg (by simpa using hne)] at h
  cases selector with
  | none =>
      cases h
      exact ⟨hne, rfl, fun _ => rfl, nofun⟩
  | some custom =>
      cases h
      exact ⟨hne, rfl, nofun, fun other hother => Option.some.inj hother ▸ rfl⟩

/-- Building fails by a weight that is no number, and else makes what the texts that are read
make. -/
theorem build_snd {d : Definition} {texts : List Text} (hd : d.texts = .ok texts)
    (name : Text) (shared : γ) :
    (build name d shared).2 =
      match texts.findSome? weightFault? with
      | some fault => .error (.numeral fault)
      | none => .ok (ofCandidates? d.selector (texts.filterMap candidateOfText?) shared) := by
  have hread := readCandidates_snd name texts
  rcases hresult : readCandidates name texts with ⟨notices, result⟩
  rw [hresult] at hread
  unfold build
  simp only [hd, hresult]
  subst hread
  cases texts.findSome? weightFault? with
  | some fault => rfl
  | none =>
      simp only
      cases ofCandidates? d.selector (texts.filterMap candidateOfText?) shared <;> rfl

/-- What a rule that was built is made of. -/
theorem build_eq_ok_some {name : Text} {d : Definition} {shared shared' : γ}
    {notices : List Notice} {rule : Rule γ}
    (h : build name d shared = (notices, .ok (some (rule, shared')))) :
    ∃ (texts : List Text) (read : List Candidate), d.texts = .ok texts ∧
      read = texts.filterMap candidateOfText? ∧ read ≠ [] ∧
        rule.candidates = read.map Candidate.withoutWeight ∧
          (d.selector = none → rule.selector = (inferSelector read shared).1) ∧
            ∀ custom, d.selector = some custom → rule.selector = .custom custom := by
  cases htexts : d.texts with
  | error fault =>
      unfold build at h
      rw [htexts] at h
      cases h
  | ok texts =>
      have hsnd := build_snd htexts name shared
      rw [h] at hsnd
      cases hfault : texts.findSome? weightFault? with
      | some fault =>
          rw [hfault] at hsnd
          cases hsnd
      | none =>
          rw [hfault] at hsnd
          exact ⟨texts, _, rfl, rfl, ofCandidates?_eq_some (Except.ok.inj hsnd).symm⟩

end Rule

end TextGrammar
