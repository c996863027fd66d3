import TextGrammar.Proofs.Analysis.Findings
import TextGrammar.Proofs.Evaluation.Contract

/-!
# What an evaluation is confined to

Where modifiers and hooks ask nothing of the engine, an evaluation stays within what is written. The
candidates of the rules remain those of the rule book it began with (`SameCandidates`), so a node it
comes to is one of its own nodes or one of a candidate of that book. And it binds no tags but those
that the nodes it comes to assign (`TagsWithin`); so a tag that neither its nodes nor the book
assign stays unbound (`Untagged`).
-/

namespace TextGrammar

variable {γ : Type}

/-- The rules of a session are those of a book, but for the state of their selectors. -/
def SameCandidates (book : RuleBook γ) (s : Session γ) : Prop :=
  ∀ name, (s.rules.get? name).map Rule.candidates = (book.get? name).map Rule.candidates

namespace SameCandidates

variable {book : RuleBook γ} {s : Session γ} {name : Text} {rule : Rule γ}

theorem refl (s : Session γ) : SameCandidates s.rules s := fun _ => rfl

theorem get?_eq_none_iff (h : SameCandidates book s) :
    s.rules.get? name = none ↔ book.get? name = none := by
  have hname := h name
  cases hs : s.rules.get? name <;> cases hbook : book.get? name <;> simp [hs, hbook] at hname ⊢

theorem exists_rule (h : SameCandidates book s) (hrule : s.rules.get? name = some rule) :
    ∃ rule', book.get? name = some rule' ∧ rule'.candidates = rule.candidates := by
  have hname := h name
  rw [hrule] at hname
  exact Option.map_eq_some_iff.1 hname.symm

theorem hasCandidate (h : SameCandidates book s) (hrule : s.rules.get? name = some rule)
    {c : Candidate} (hc : c ∈ rule.candidates) : book.HasCandidate c := by
  obtain ⟨rule', hrule', hcandidates⟩ := h.exists_rule hrule
  exact ⟨name, rule', hrule', hcandidates ▸ hc⟩

end SameCandidates

def TagsWithin (allowed : Text → Prop) (s : Session γ) : Prop :=
  ∀ table ∈ s.tags.tables, ∀ name, (table.get? name).isSome → allowed name

namespace TagsWithin

variable {allowed : Text → Prop} {s : Session γ}

theorem of_lookup (h : TagsWithin allowed s) {name value : Text}
    (hlookup : s.tags.lookup name = some value) : allowed name := by
  obtain ⟨table, htable, hbound⟩ := TagStore.exists_table_of_lookup hlookup
  exact h table htable name hbound

theorem bind (h : TagsWithin allowed s) {name : Text} (hname : allowed name)
    (value : Option Text) : TagsWithin allowed (s.bind name value) := by
  intro table htable other hother
  rcases TagStore.mem_tables_of_bind htable with hkept | ⟨old, hold, rfl⟩
  · exact h table hkept other hother
  · rw [Lexicon.get?_put] at hother
    split at hother
    · next heq => exact heq ▸ hname
    · exact h old hold other hother

theorem enterScope (h : TagsWithin allowed s) :
    TagsWithin allowed { s with tags := s.tags.enterScope } := by
  intro table htable
  rcases TagStore.mem_tables_of_enterScope htable with rfl | hkept
  · simp
  · exact h table hkept

theorem exitScope (h : TagsWithin allowed s) :
    TagsWithin allowed { s with tags := s.tags.exitScope } :=
  fun table htable => h table (TagStore.mem_tables_of_exitScope htable)

end TagsWithin

def LeavesFree (tag : Text) (n : Node) : Prop := n.assignedName? ≠ some tag

def Untagged (book : RuleBook γ) (tag : Text) (s : Session γ) : Prop :=
  SameCandidates book s ∧ TagsWithin (· ≠ tag) s

variable {book : RuleBook γ} {tag : Text}

theorem leavesFree_of_not_mem {nodes : List Node} (h : tag ∉ Node.assignedTags nodes) :
    ∀ n ∈ Node.walkAll nodes, LeavesFree tag n :=
  fun n hn hassigned => h (List.mem_filterMap.2 ⟨n, hn, hassigned⟩)

theorem leavesFree_of_hasCandidate (h : tag ∉ book.assignedTags) {c : Candidate}
    (hc : book.HasCandidate c) : ∀ n ∈ Node.walkAll c.nodes, LeavesFree tag n :=
  leavesFree_of_not_mem fun hassigned =>
    h (RuleBook.mem_assignedTags_iff.2 ⟨c, hc, hassigned⟩)

theorem untagged_of_tables {s : Session γ}
    (h : ∀ table ∈ s.tags.tables, table.get? tag = none) : Untagged s.rules tag s := by
  refine ⟨.refl s, fun table htable name hbound heq => ?_⟩
  rw [heq, h table htable] at hbound
  cases hbound

variable [RandomSource γ]

theorem lasting_sameCandidates (fits : Node → Prop) (book : RuleBook γ) :
    Lasting fits (SameCandidates book) := by
  refine lasting_of_rules (fun rules => ∀ name, (rules.get? name).map Rule.candidates =
    (book.get? name).map Rule.candidates) fun hrule hselect h other => ?_
  rw [Lexicon.get?_put]
  split
  · next heq =>
      subst heq
      rw [← h, hrule, Option.map_some, Option.map_some, (Rule.select_eq_ok hselect).1]
  · exact h other

/-- Nodes that assign only certain tags bind no others. -/
theorem lasting_tagsWithin {fits : Node → Prop} {allowed : Text → Prop}
    (hfits : ∀ a : Assignment, fits (.assign a) → allowed a.name) :
    Lasting fits (TagsWithin (γ := γ) allowed) where
  context _ _ := id
  enterScope _ := TagsWithin.enterScope
  exitScope _ := TagsWithin.exitScope
  bind {a} _ text ha h := h.bind (hfits a ha) (some text)
  record _ _ := id
  trace _ _ _ := id
  journal _ _ := id
  unresolved _ _ _ _ := id
  select _ _ := id

theorem lasting_untagged {fits : Node → Prop} (hfits : ∀ n, fits n → LeavesFree tag n) :
    Lasting fits (Untagged book tag) :=
  (lasting_sameCandidates fits book).and <| lasting_tagsWithin fun _ ha heq =>
    hfits _ ha (congrArg some heq)

end TextGrammar
