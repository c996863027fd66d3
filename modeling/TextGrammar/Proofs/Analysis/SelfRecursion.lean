import TextGrammar.Proofs.Evaluation.Confined
import TextGrammar.Proofs.Registry.Invariant

/-!
# Rules that only recurse

A rule is reported as self-recursive if each of its candidates refers to it and the book assigns no
tag of its name. Then no reference to the rule can be resolved: no tag ever stands in for it, and
whichever candidate is chosen refers to the rule again. So an evaluation that comes to such a
reference gives no text (`never_returns_of_selfRecursive`). If there is nothing else that could go
wrong, it is the context that overflows.
-/

namespace TextGrammar

variable {γ : Type}

/-- A node that cannot fail by itself: a reference without modifiers, and no stray. -/
def Node.IsBare : Node → Prop
  | .text _ => True
  | .reference _ modifiers _ => modifiers = []
  | .assign _ => True
  | .weight _ => True
  | .stray _ => False

instance : DecidablePred Node.IsBare
  | .text _ => isTrue trivial
  | .reference _ modifiers _ => inferInstanceAs (Decidable (modifiers = []))
  | .assign _ => isTrue trivial
  | .weight _ => isTrue trivial
  | .stray _ => isFalse id

namespace SelfRecursion

variable {book : RuleBook γ} {r : Text}

theorem not_mem_assignedTags (hfinding : ⟨r, .selfRecursive⟩ ∈ book.analyze) :
    r ∉ book.assignedTags := by
  obtain ⟨rule, -, -, huntagged⟩ := RuleBook.selfRecursive_mem_analyze_iff.1 hfinding
  exact huntagged

theorem ne_of_lookup {s : Session γ} (hs : Untagged book r s) {name value : Text}
    (h : s.tags.lookup name = some value) : name ≠ r :=
  hs.2.of_lookup h

theorem ne_of_missing (hfinding : ⟨r, .selfRecursive⟩ ∈ book.analyze) {s : Session γ}
    (hs : Untagged book r s) {name : Text} (h : s.rules.get? name = none) : name ≠ r := by
  obtain ⟨rule, hrule, -⟩ := RuleBook.selfRecursive_mem_analyze_iff.1 hfinding
  rintro rfl
  rw [hs.1.get?_eq_none_iff.1 h] at hrule
  cases hrule

/-- A candidate that refers to other rules only is none of the rule's. -/
theorem ne_of_candidate (hfinding : ⟨r, .selfRecursive⟩ ∈ book.analyze) {s : Session γ}
    (hs : Untagged book r s) {name : Text} {rule : Rule γ} {c : Candidate}
    (hrule : s.rules.get? name = some rule) (hc : c ∈ rule.candidates)
    (hothers : ∀ other ∈ Node.references c.nodes, other ≠ r) : name ≠ r := by
  obtain ⟨reported, hreported, hrefers, -⟩ := RuleBook.selfRecursive_mem_analyze_iff.1 hfinding
  obtain ⟨rule', hrule', hcandidates⟩ := hs.1.exists_rule hrule
  rintro rfl
  rw [hreported] at hrule'
  cases hrule'
  exact hothers name (hrefers c (hcandidates ▸ hc)) rfl

variable [RandomSource γ]

/-- With a rule that only recurses every name but its own may be resolved, in whatever way. -/
theorem contract {x : Extensions} (hx : x.Detached)
    (hfinding : ⟨r, .selfRecursive⟩ ∈ book.analyze) :
    Contract x (LeavesFree r) (Untagged book r) (· ≠ r) (fun _ => True) where
  toLasting := lasting_untagged fun _ => id
  candidate hs hrule hc :=
    leavesFree_of_hasCandidate (not_mem_assignedTags hfinding) (hs.1.hasCandidate hrule hc)
  tag hs h := ne_of_lookup hs h
  missing hs h := ne_of_missing hfinding hs h
  rule hs hrule hc hothers := ne_of_candidate hfinding hs hrule hc hothers
  overflow _ := trivial
  stray _ := trivial
  refused _ _ _ := trivial
  noCandidate _ _ _ := trivial
  modifiers _ _ _ text :=
    (lasting_untagged fun _ => id).ensures_applyModifiers hx (fun _ => trivial) (some text) _
  hooks _ _ e := (lasting_untagged fun _ => id).ensures_callHooks hx.hooks (.inl fun _ => trivial) e

def AllInferred (s : Session γ) : Prop :=
  ∀ name rule, s.rules.get? name = some rule → rule.Inferred

theorem lasting_allInferred (fits : Node → Prop) : Lasting fits (AllInferred (γ := γ)) :=
  lasting_of_each_rule .selected

theorem lasting_inferred : Lasting (fun n => LeavesFree r n ∧ n.IsBare)
    fun s : Session γ => Untagged book r s ∧ AllInferred s :=
  (lasting_untagged fun _ h => h.1).and (lasting_allInferred _)

/-- Bare nodes, hooks that never fail and inferred selectors leave the overflow of the context as
the only fault. -/
theorem contract_overflow {x : Extensions} (hx : x.Detached)
    (hhooks : ∀ f, Hook.call f ∈ x.hooks → ∀ e, (f e).Faultless)
    (hfinding : ⟨r, .selfRecursive⟩ ∈ book.analyze)
    (hbook : ∀ c, book.HasCandidate c → ∀ n ∈ Node.walkAll c.nodes, n.IsBare) :
    Contract x (fun n => LeavesFree r n ∧ n.IsBare)
      (fun s => Untagged book r s ∧ AllInferred s) (· ≠ r) (fun fault => ∃ o, fault = .overflow o)
    where
  toLasting := lasting_inferred
  candidate hs hrule hc n hn :=
    have hcandidate := hs.1.1.hasCandidate hrule hc
    ⟨leavesFree_of_hasCandidate (not_mem_assignedTags hfinding) hcandidate n hn,
      hbook _ hcandidate n hn⟩
  tag hs h := ne_of_lookup hs.1 h
  missing hs h := ne_of_missing hfinding hs.1 h
  rule hs hrule hc hothers := ne_of_candidate hfinding hs.1 hrule hc hothers
  overflow o := ⟨o, rfl⟩
  stray h := h.2.elim
  refused hs hrule hselect := by
    obtain ⟨i, c, rule', random, hchoice, -⟩ := (hs.2 _ _ hrule).select _
    rw [hchoice] at hselect
    cases hselect
  noCandidate hs hrule hselect := by
    obtain ⟨i, c, rule', random, hchoice, -⟩ := (hs.2 _ _ hrule).select _
    rw [hchoice] at hselect
    cases hselect
  modifiers {name modifiers actions} hfits inner levels text := by
    have hnone : modifiers = [] := hfits.2
    subst hnone
    exact Work.ensures_pure (partAllowed_some _ text)
  hooks _ _ e := lasting_inferred.ensures_callHooks hx.hooks (.inr hhooks) e

end SelfRecursion

open SelfRecursion

/-- The finding of a self-recursive rule is sound. While no tag of the rule's name is bound, an
evaluation that comes to a reference to the rule stops with a fault, whatever the tagging policy,
the maximal depth, the selectors, and the modifiers and hooks that ask nothing of the engine. Where
neither modifiers, hooks nor selectors can fail, the fault is an overflow of the context. -/
theorem never_returns_of_selfRecursive [RandomSource γ] {x : Extensions} (hx : x.Detached)
    {s : Session γ} {r : Text} (hfinding : ⟨r, .selfRecursive⟩ ∈ s.rules.analyze)
    (htags : ∀ table ∈ s.tags.tables, table.get? r = none) (nodes : List Node)
    (hassigned : r ∉ Node.assignedTags nodes) (hrefers : r ∈ Node.references nodes) :
    ∃ fault t, evaluate x nodes s = .error fault t ∧
      ((∀ n ∈ Node.walkAll nodes, n.IsBare) →
        (∀ name rule, s.rules.get? name = some rule → rule.Inferred ∧
          ∀ c ∈ rule.candidates, ∀ n ∈ Node.walkAll c.nodes, n.IsBare) →
        (∀ f, Hook.call f ∈ x.hooks → ∀ e, (f e).Faultless) → ∃ o, fault = .overflow o) := by
  have hfree := leavesFree_of_not_mem hassigned
  have huntagged : Untagged s.rules r s := untagged_of_tables htags
  have hends := (contract hx hfinding).lands_evaluate hfree huntagged
  cases hend : evaluate x nodes s with
  | ok text t =>
      -- An answer would mean that the name was resolved, and only other names can be.
      rw [hend] at hends
      exact absurd rfl (hends.2.2 r hrefers)
  | error fault t =>
      refine ⟨fault, t, rfl, fun hbare hrules hhooks => ?_⟩
      have hbook : ∀ c, s.rules.HasCandidate c → ∀ n ∈ Node.walkAll c.nodes, n.IsBare :=
        fun c ⟨name, rule, hrule, hc⟩ => (hrules name rule hrule).2 c hc
      have hfits : ∀ n ∈ Node.walkAll nodes, LeavesFree r n ∧ n.IsBare :=
        fun n hn => ⟨hfree n hn, hbare n hn⟩
      have hinferred : AllInferred s := fun name rule hrule => (hrules name rule hrule).1
      have hfaults :=
        (contract_overflow hx hhooks hfinding hbook).lands_evaluate hfits ⟨huntagged, hinferred⟩
      rw [hend] at hfaults
      exact hfaults.2.2

/-- The reference stands in the value of a tag, and the context has room for three frames. -/
theorem never_returns_of_selfRecursive_value : ∃ e : Engine Twister,
    Engine.create [(.text "loop", .ofTexts ["a[t:#loop#]"])] ⟨.nested, false, some 3⟩ ⟨#[], 0⟩ =
        .ok e ∧
      ⟨"loop", .selfRecursive⟩ ∈ e.session.rules.analyze ∧
      ∃ o t, evaluate e.extensions [.reference "loop" [] []] e.session =
        .error (.overflow o) t := by
  have hcheck : (match Engine.create [(.text "loop", .ofTexts ["a[t:#loop#]"])]
      ⟨.nested, false, some 3⟩ (⟨#[], 0⟩ : Twister) with
    | .error _ => false
    | .ok e =>
        decide (⟨"loop", .selfRecursive⟩ ∈ e.session.rules.analyze) &&
          decide (∀ table ∈ e.session.tags.tables, table.get? "loop" = none) &&
          e.session.rules.entries.all fun entry =>
            decide (∀ c ∈ entry.2.candidates, ∀ n ∈ Node.walkAll c.nodes, n.IsBare) &&
              !entry.2.selector.isGiven) = true := by
    decide +kernel
  cases hcreate : Engine.create [(.text "loop", .ofTexts ["a[t:#loop#]"])]
      ⟨.nested, false, some 3⟩ (⟨#[], 0⟩ : Twister) with
  | error fault =>
      rw [hcreate] at hcheck
      cases hcheck
  | ok e =>
      simp only [hcreate, Bool.and_eq_true, decide_eq_true_eq, List.all_eq_true,
        Bool.not_eq_true'] at hcheck
      obtain ⟨⟨hfinding, htags⟩, hentries⟩ := hcheck
      have hx : e.extensions = .none := Engine.extensions_of_create hcreate
      have hdetached : e.extensions.Detached := hx ▸ Extensions.obey_none
      obtain ⟨fault, t, hend, hoverflow⟩ := never_returns_of_selfRecursive hdetached hfinding htags
        [.reference "loop" [] []] (by decide +kernel) (by decide +kernel)
      have hrules : ∀ name rule, e.session.rules.get? name = some rule → rule.Inferred ∧
          ∀ c ∈ rule.candidates, ∀ n ∈ Node.walkAll c.nodes, n.IsBare := by
        intro name rule hrule
        have hentry := hentries _ ((Lexicon.get?_eq_some_iff _).1 hrule)
        have hselector := (lawful_selector fun _ _ => False).made hcreate name rule hrule
        refine ⟨hselector.resolve_right fun hdirected => ?_, hentry.1⟩
        have hgiven := hdirected.isGiven fun _ => id
        rw [hentry.2] at hgiven
        cases hgiven
      obtain ⟨o, rfl⟩ := hoverflow (by decide +kernel) hrules (by simp [hx, Extensions.none])
      exact ⟨e, rfl, hfinding, o, t, hend⟩

end TextGrammar
