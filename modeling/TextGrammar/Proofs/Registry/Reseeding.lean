import Mathlib.Data.List.Forall2
import TextGrammar.Proofs.Evaluation.Lockstep
import TextGrammar.Proofs.Registry.LastDefinition

/-!
# Another source of randomness

Registration draws from the source of randomness where it makes a selector, and nowhere else. So a
book is read alike from two sources: with the same end, the same notices, and in each step with
rules by the same definitions (`follows_addRules_reseeded`). Such rules differ in what their
selectors have drawn, and not at all where there is one candidate and the selector was inferred
(`Rule.eq_of_madeBy`). Where this is so of all rules in the end, the two engines differ in their
sources only (`exists_create_reseeded`), though definitions that were replaced may have drawn.
-/

namespace TextGrammar

open Work

variable {γ : Type} [RandomSource γ]

/-! ## One rule -/

/-- Whether a definition makes a rule does not depend on the source, and neither do the notices. -/
theorem Rule.build_cases (name : Text) (d : Definition) (shared shared' : γ) :
    (∃ notices fault, Rule.build name d shared = (notices, .error fault) ∧
        Rule.build name d shared' = (notices, .error fault)) ∨
      (∃ notices, Rule.build name d shared = (notices, .ok none) ∧
        Rule.build name d shared' = (notices, .ok none)) ∨
      ∃ notices made made', Rule.build name d shared = (notices, .ok (some made)) ∧
        Rule.build name d shared' = (notices, .ok (some made')) := by
  unfold Rule.build
  cases htexts : d.texts with
  | error fault => exact .inl ⟨[], fault, rfl, rfl⟩
  | ok texts =>
      rcases hread : readCandidates name texts with ⟨notices, fault | candidates⟩
      · exact .inl ⟨notices, fault, by simp only [hread], by simp only [hread]⟩
      · right
        simp only [hread]
        have hnone : Rule.ofCandidates? d.selector candidates shared = none ↔
            Rule.ofCandidates? d.selector candidates shared' = none := by
          rw [Rule.ofCandidates?_eq_none_iff, Rule.ofCandidates?_eq_none_iff]
        cases hmade : Rule.ofCandidates? d.selector candidates shared with
        | none => exact .inl ⟨_, rfl, by rw [hnone.1 hmade]⟩
        | some made =>
            cases hmade' : Rule.ofCandidates? d.selector candidates shared' with
            | none => cases hmade.symm.trans (hnone.2 hmade')
            | some made' => exact .inr ⟨_, made, made', rfl, rfl⟩

/-- The selector that is inferred for a single candidate always takes the first. -/
theorem Rule.Inferred.selector_eq_first {rule : Rule γ} (h : rule.Inferred)
    (hone : rule.candidates.length = 1) : rule.selector = .first := by
  induction h with
  | built hselector hbuild =>
      obtain ⟨texts, read, -, -, -, hcandidates, hinferred, -⟩ := Rule.build_eq_ok_some hbuild
      rw [hcandidates, List.length_map] at hone
      rw [hinferred hselector, inferSelector_of_one hone]
  | @selected rule rule' shared shared' picked _ hselect ih =>
      have hfirst := ih ((Rule.select_eq_ok hselect).1 ▸ hone)
      rw [Rule.select, hfirst] at hselect
      cases hselect
      rfl

/-- A rule of one candidate whose selector was inferred is the only one by its definition. -/
theorem Rule.eq_of_madeBy {name : Text} {d : Definition} {rule rule' : Rule γ}
    (h : rule.MadeBy name d) (h' : rule'.MadeBy name d) (hone : rule.candidates.length = 1)
    (hinferred : rule.Inferred) : rule' = rule := by
  obtain ⟨shared, notices, random, hbuild⟩ := h
  obtain ⟨shared', notices', random', hbuild'⟩ := h'
  have hfirst := hinferred.selector_eq_first hone
  have hcandidates : rule'.candidates = rule.candidates := by
    rw [(Rule.candidates_of_build hbuild).1, (Rule.candidates_of_build hbuild').1]
  have hselector : d.selector = none := by
    cases hcustom : d.selector with
    | none => rfl
    | some custom =>
        obtain ⟨-, -, -, -, -, -, -, hgiven⟩ := Rule.build_eq_ok_some hbuild
        rw [hgiven custom hcustom] at hfirst
        cases hfirst
  have hfirst' := (Rule.Inferred.built hselector hbuild').selector_eq_first
    (hcandidates.symm ▸ hone)
  obtain ⟨candidates, selector⟩ := rule
  obtain ⟨candidates', selector'⟩ := rule'
  simp only at hcandidates hfirst hfirst'
  rw [hcandidates, hfirst, hfirst']

/-! ## A book -/

/-- Two books have the same names in the same order, and rules of one name are by one definition. -/
def RuleBook.Reseeded (book book' : RuleBook γ) : Prop :=
  List.Forall₂ (fun e e' => e'.1 = e.1 ∧ ∃ d, e.2.MadeBy e.1 d ∧ e'.2.MadeBy e.1 d)
    book.entries book'.entries

/-- Each rule has one candidate, and a selector that was inferred. -/
def RuleBook.Certain (book : RuleBook γ) : Prop :=
  ∀ name rule, book.get? name = some rule → rule.candidates.length = 1 ∧ rule.Inferred

omit [RandomSource γ] in
theorem Lexicon.map_fst_of_forall₂ {α β : Type} {es : List (Text × α)}
    {es' : List (Text × β)} (h : List.Forall₂ (fun e e' => e'.1 = e.1) es es') :
    es'.map Prod.fst = es.map Prod.fst := by
  induction h with
  | nil => rfl
  | cons hfirst _ ih => rw [List.map_cons, List.map_cons, hfirst, ih]

omit [RandomSource γ] in
theorem Lexicon.forall₂_putEntry {α β : Type} {S : Text → α → β → Prop}
    {es : List (Text × α)} {es' : List (Text × β)} {name : Text} {entry : α} {entry' : β}
    (h : List.Forall₂ (fun e e' => e'.1 = e.1 ∧ S e.1 e.2 e'.2) es es')
    (hentry : S name entry entry') :
    List.Forall₂ (fun e e' => e'.1 = e.1 ∧ S e.1 e.2 e'.2) (putEntry name entry es)
      (putEntry name entry' es') := by
  induction h with
  | nil => exact .cons ⟨rfl, hentry⟩ .nil
  | @cons e e' rest rest' hfirst hrest ih =>
      by_cases hname : e.1 = name
      · simp only [putEntry, hfirst.1, hname, if_true]
        exact .cons ⟨rfl, hentry⟩ hrest
      · simp only [putEntry, hfirst.1, hname, if_false]
        exact .cons hfirst ih

namespace RuleBook.Reseeded

variable {book book' : RuleBook γ}

theorem put (h : book.Reseeded book') {name : Text} {d : Definition} {rule rule' : Rule γ}
    (hrule : rule.MadeBy name d) (hrule' : rule'.MadeBy name d) :
    RuleBook.Reseeded (book.put name rule) (book'.put name rule') :=
  Lexicon.forall₂_putEntry (S := fun name rule rule' =>
    ∃ d, Rule.MadeBy name d rule ∧ Rule.MadeBy name d rule') h ⟨d, hrule, hrule'⟩

theorem contains_eq (h : book.Reseeded book') (name : Text) :
    book'.contains name = book.contains name := by
  have hnames : book'.names = book.names := Lexicon.map_fst_of_forall₂ (h.imp fun _ _ => And.left)
  rw [Bool.eq_iff_iff, Lexicon.contains_iff, Lexicon.contains_iff, hnames]

theorem eq_of_certain (h : book.Reseeded book') (hbook : book.Certain) : book' = book := by
  have hcertain : ∀ e ∈ book.entries, e.2.candidates.length = 1 ∧ e.2.Inferred :=
    fun e he => hbook e.1 e.2 (book.get?_eq_some_iff.2 he)
  refine Lexicon.ext ?_
  unfold RuleBook.Reseeded at h
  generalize book.entries = es at h hcertain
  generalize book'.entries = es' at h
  induction h with
  | nil => rfl
  | cons hfirst _ ih =>
      rw [List.forall_mem_cons] at hcertain
      obtain ⟨hname, d, hrule, hrule'⟩ := hfirst
      rw [ih hcertain.2]
      exact congrArg (· :: _)
        (Prod.ext hname (Rule.eq_of_madeBy hrule hrule' hcertain.1.1 hcertain.1.2))

end RuleBook.Reseeded

/-! ## Reading a book -/

/-- Two sessions differ in their sources, and in what selectors have drawn from them. -/
def Session.Reseeded (s t : Session γ) : Prop :=
  ∃ rules random, t = { s with rules := rules, random := random } ∧ s.rules.Reseeded rules

abbrev ReseedsAlike {α : Type} (m m' : Work γ α) : Prop :=
  Follows Session.Reseeded (fun _ => False) m m'

theorem follows_defineRule_reseeded (name : Text) (d : Definition) :
    ReseedsAlike (γ := γ) (defineRule name d) (defineRule name d) := by
  rintro s _ ⟨rules, random, rfl, hrules⟩
  unfold defineRule
  rcases Rule.build_cases name d s.random random with ⟨notices, fault, h, h'⟩ |
    ⟨notices, h, h'⟩ | ⟨notices, ⟨rule, left⟩, ⟨rule', left'⟩, h, h'⟩
  · simp only [h, h']
    exact .error fault ⟨rules, random, rfl, hrules⟩
  · simp only [h, h']
    exact .ok false ⟨rules, random, rfl, hrules⟩
  · simp only [h, h']
    exact .ok true ⟨_, left', rfl, hrules.put ⟨_, _, _, h⟩ ⟨_, _, _, h'⟩⟩

theorem follows_addRule_reseeded (name : Value) (d : Definition) :
    ReseedsAlike (γ := γ) (addRule name d) (addRule name d) := by
  rintro s _ ⟨rules, random, rfl, hrules⟩
  unfold addRule
  cases ruleName name with
  | error fault => exact .ok false ⟨rules, random, rfl, hrules⟩
  | ok n =>
      apply follows_defineRule_reseeded n d
      simp only [hrules.contains_eq]
      split
      · exact ⟨rules, random, rfl, hrules⟩
      · exact ⟨rules, random, rfl, hrules⟩

theorem follows_addRules_reseeded (book : List (Value × Definition)) :
    ReseedsAlike (γ := γ) (addRules book) (addRules book) := by
  induction book with
  | nil => exact follows_pure ()
  | cons entry rest ih => exact (follows_addRule_reseeded entry.1 entry.2).bind fun _ => ih

/-- Looking a book over draws nothing. -/
theorem readBook_of_addRules {book : List (Value × Definition)} {options : Options}
    {s s' t u : Session γ} {findings : List Finding} (h : readBook book options s = .ok findings t)
    (hadd : addRules book s = .ok () u) {random : γ}
    (hadd' : addRules book s' = .ok () { u with random := random }) :
    readBook book options s' = .ok findings { t with random := random } := by
  unfold readBook at h ⊢
  rw [bind_of_ok hadd] at h
  rw [bind_of_ok hadd']
  cases hanalysis : options.analysis with
  | true =>
      simp only [hanalysis] at h
      cases h
      rfl
  | false =>
      simp only [hanalysis] at h
      cases h
      rfl

/-- If each rule of an engine has one candidate and an inferred selector, then any other source
makes the same engine, but for the source. -/
theorem Engine.exists_create_reseeded {book : List (Value × Definition)} {options : Options}
    {random : γ} {e : Engine γ} (h : create book options random = .ok e)
    (hcertain : e.session.rules.Certain) (random' : γ) :
    ∃ left, create book options random' =
      .ok { e with session := { e.session with random := left } } := by
  unfold create at h ⊢
  cases hcontext : contextOfDepth (options.maxDepth.getD Context.defaultMaxDepth) with
  | error fault =>
      rw [hcontext] at h
      cases h
  | ok context =>
      simp only [hcontext] at h ⊢
      cases hread : readBook book options (Session.start options.policy context random) with
      | error fault t =>
          rw [hread] at h
          cases h
      | ok findings t =>
          rw [hread] at h
          cases h
          obtain ⟨u, hadd, hrules⟩ := exists_addRules_of_readBook hread
          have hstart : Session.Reseeded (Session.start options.policy context random)
              (Session.start options.policy context random') := ⟨.empty, random', rfl, .nil⟩
          rcases (follows_addRules_reseeded book _ _ hstart).inv with
            ⟨_, u', _, hu, hadd', rules, left, rfl, hreseeded⟩ | ⟨fault, _, _, hu, -⟩ |
              ⟨_, _, _, hcut⟩
          · rw [hadd] at hu
            cases hu
            have hsame := hreseeded.eq_of_certain (hrules ▸ hcertain)
            subst hsame
            exact ⟨left, by rw [readBook_of_addRules hread hadd hadd']⟩
          · rw [hadd] at hu
            cases hu
          · exact hcut.elim

end TextGrammar
