import TextGrammar.Proofs.Engine.Service
import TextGrammar.Proofs.Evaluation.Contract
import TextGrammar.Proofs.Markup.Literal
import TextGrammar.Proofs.Registry.Registration
import TextGrammar.Proofs.Registry.Shares

/-!
# Text that comes through unchanged

An escaped text is read as the text itself, and what it then says is never read again: neither where
it is expanded, nor where it is the value of a tag or the only candidate of a rule. So whatever the
text looks like, a reference, a weight or the answer to a failed expansion, it comes out as it is.

One frame is all that this needs. But an expansion first asks for the nesting that the maximal depth
may need, and there is no more nesting than a limit can say: beyond `greatestDepth` nothing is
evaluated at all.
-/

namespace TextGrammar

open Work

variable {γ : Type} [RandomSource γ]

/-! ## The nesting that can be provided for -/

/-- The greatest maximal depth whose nesting can be provided for. -/
def greatestDepth : Nat := 536870861

theorem raisedNesting?_eq_none_iff (maxDepth : Nat) :
    raisedNesting? standingNesting maxDepth = none ↔ greatestDepth < maxDepth := by
  unfold raisedNesting? neededNesting standingNesting greatestDepth
  simp only
  split
  · simp
    omega
  · split
    · simp
      omega
    · simp
      omega

omit [RandomSource γ] in
theorem checkNesting_of_le {s : Session γ} (h : s.context.maxDepth ≤ greatestDepth) :
    checkNesting s = .ok () s := by
  cases hlimit : raisedNesting? standingNesting s.context.maxDepth with
  | some limit => exact checkNesting_eq_ok hlimit
  | none => exact absurd ((raisedNesting?_eq_none_iff _).1 hlimit) (Nat.not_lt.2 h)

/-! ## Evaluating it -/

section Level

variable {x : Extensions} {inner : List Node → Work γ Text}

theorem join_singleton (text : Text) : join [some text] = .ok text := by
  simp [join, joinFrom]

theorem evaluateWith_literal (text : Text) :
    evaluateWith x inner (literal text) = pure text := by
  by_cases h : text = ""
  · rw [h]
    rfl
  · rw [literal_of_ne h]
    change Work.ofExcept (join [some text]) = pure text
    rw [join_singleton, Work.ofExcept_ok]

theorem assign_literal {s : Session γ} (hroom : s.context.depth < s.context.maxDepth)
    (name text : Text) :
    assign x inner ⟨name, literal text⟩ s = .ok () (s.bind name (some text)) := by
  obtain ⟨c, hc⟩ := Context.exists_enter hroom ⟨.tag, name⟩
  have hbody : evaluateWith x inner (literal text) { s with context := c } =
      .ok text { s with context := c } := by
    rw [evaluateWith_literal]
    rfl
  have hvalue : inFrame ⟨.tag, name⟩ (evaluateWith x inner (literal text)) s = .ok text s := by
    rw [inFrame_of_ok hc hbody, Context.leave_of_enter hc]
  change (inFrame ⟨.tag, name⟩ (evaluateWith x inner (literal text)) >>= fun text =>
    change (·.bind name (some text))) s = _
  rw [bind_of_ok hvalue]
  rfl

theorem evaluateWith_reference (name : Text) : evaluateWith x inner [.reference name [] []] =
    inFrame ⟨.rule, name⟩ (inScope (resolve x inner name)) := by
  funext s
  simp only [evaluateWith, sequenceParts, nodeParts, assignAll, applyModifiers, pure_bind,
    bind_assoc, List.append_nil]
  cases hframe : inFrame ⟨.rule, name⟩ (inScope (resolve x inner name)) s with
  | ok text t =>
      rw [bind_of_ok hframe, join_singleton]
      rfl
  | error fault t => rw [bind_of_error hframe]

/-- It gives a text if its name stands for one wherever the same rules and tags can be seen. -/
theorem exists_evaluateWith_reference {s : Session γ}
    (hroom : s.context.depth < s.context.maxDepth) {name text : Text}
    (h : ∀ t : Session γ, t.rules = s.rules → t.tags.lookup name = s.tags.lookup name →
      ∃ u, resolve x inner name t = .ok text u) :
    ∃ t, evaluateWith x inner [.reference name [] []] s = .ok text t := by
  obtain ⟨c, hc⟩ := Context.exists_enter hroom ⟨.rule, name⟩
  obtain ⟨t, ht⟩ := h { s with context := c, tags := s.tags.enterScope } rfl
    (TagStore.lookup_enterScope s.tags name)
  rw [evaluateWith_reference]
  exact ⟨_, inFrame_of_ok hc (inScope_of_ok ht)⟩

/-- A tag that has been bound just before is what its name stands for. -/
theorem exists_evaluateWith_bound {s : Session γ} (hroom : s.context.depth < s.context.maxDepth)
    {name : Text} (hname : name ≠ "") (text : Text) :
    ∃ t, evaluateWith x inner [.assign ⟨name, literal text⟩, .reference name [] []] s =
      .ok text t := by
  have hresolve (t : Session γ) (_ : t.rules = (s.bind name (some text)).rules)
      (htags : t.tags.lookup name = (s.bind name (some text)).tags.lookup name) :
      ∃ u, resolve x inner name t = .ok text u :=
    ⟨t, resolve_of_tag hname (htags.trans (TagStore.lookup_bind_self s.tags name (some text)))⟩
  obtain ⟨t, ht⟩ := exists_evaluateWith_reference (s := s.bind name (some text)) hroom hresolve
  refine ⟨t, ?_⟩
  rw [← ht]
  simp only [evaluateWith, sequenceParts, nodeParts, bind_assoc, pure_bind, List.nil_append]
  rw [bind_of_ok (assign_literal hroom name text)]

end Level

/-! ## A rule of one literal text -/

def Rule.verbatim (text : Text) : Rule γ := ⟨[⟨escape text, literal text⟩], .first⟩

theorem select_verbatim (text : Text) (shared : γ) :
    (Rule.verbatim text).select shared =
      .ok (some (.number 0, ⟨escape text, literal text⟩), .verbatim text, shared) := rfl

/-- Choosing leaves such a rule as it is. -/
theorem lasting_verbatim (name text : Text) : Lasting (γ := γ) (fun _ => True)
    fun s => s.rules.get? name = some (.verbatim text) := by
  refine lasting_of_rules (fun book => book.get? name = some (.verbatim text))
    fun hrule hselect hbook => ?_
  rw [Lexicon.get?_put]
  split
  · next hsame =>
      rw [← hsame, hbook] at hrule
      cases hrule
      rw [select_verbatim] at hselect
      cases hselect
      rfl
  · exact hbook

/-- Whether a definition is given by the one text or by a list of it: no weight is taken off. -/
theorem Rule.build_escape {d : Definition} {text : Text} (hd : d.texts = .ok [escape text])
    (hselector : d.selector = none) (name : Text) (shared : γ) :
    ∃ notices, Rule.build name d shared = (notices, .ok (some (.verbatim text, shared))) := by
  have hread := parseText_escape text true
  have hcandidate : candidateOfText? (escape text) = some ⟨escape text, literal text⟩ := by
    simp [candidateOfText?, hread]
  have hkept : [escape text].filterMap candidateOfText? = [⟨escape text, literal text⟩] := by
    simp [hcandidate]
  have hreadable : [escape text].findSome? weightFault? = none := by
    simp [weightFault?, hread]
  have hweight : Candidate.withoutWeight ⟨escape text, literal text⟩ =
      ⟨escape text, literal text⟩ := by
    by_cases h : text = ""
    · rw [h]
      rfl
    · rw [literal_of_ne h]
      rfl
  obtain ⟨notices, hbuild⟩ := Rule.build_of_readable name hd hselector hreadable
    (by rw [hkept]; exact List.cons_ne_nil _ _) shared
  refine ⟨notices, hbuild.trans ?_⟩
  rw [hkept, inferSelector_of_one rfl, List.map_singleton, hweight]
  rfl

/-- Hooks ask nothing of the engine and do not fail. -/
def Extensions.QuietHooks (x : Extensions) : Prop :=
  ∀ f, Hook.call f ∈ x.hooks → ∀ e, (f e).Detached ∧ (f e).Faultless

section Level

variable {x : Extensions} {inner : List Node → Work γ Text}

theorem exists_callHooks (hhooks : x.QuietHooks) (e : Event) (s : Session γ) :
    ∃ t, callHooks inner e x.hooks s = .ok () t := by
  have hlasting : Lasting (γ := γ) (fun _ => True) fun _ => True :=
    lasting_of_rules (fun _ => True) fun _ _ _ => trivial
  have hlands : Lands (fun _ => True) s.context (fun _ => True) (fun _ => False)
      (callHooks inner e x.hooks s) :=
    hlasting.lands_callHooks (fun f hf e => (hhooks f hf e).1)
      (fun f hf e => (hhooks f hf e).2) e trivial
  cases hend : callHooks inner e x.hooks s with
  | ok _ t => exact ⟨t, rfl⟩
  | error fault t =>
      rw [hend] at hlands
      exact hlands.2.2.elim

theorem exists_resolve_verbatim (hhooks : x.QuietHooks) {name text : Text} (hname : name ≠ "")
    (hinner : inner (literal text) = pure text) {s : Session γ}
    (htag : s.tags.lookup name = none) (hrule : s.rules.get? name = some (.verbatim text)) :
    ∃ t, resolve x inner name s = .ok text t := by
  have hselect : selectCandidate name (.verbatim text) s =
      .ok (.number 0, ⟨escape text, literal text⟩)
        { s with rules := s.rules.put name (.verbatim text) } := by
    unfold selectCandidate
    rw [select_verbatim]
  have hcomplete : ∃ t, complete x inner name (.number 0) text
      { s with rules := s.rules.put name (.verbatim text) } = .ok () t :=
    exists_callHooks hhooks _ _
  obtain ⟨t, ht⟩ := hcomplete
  refine ⟨t, ?_⟩
  rw [resolve_of_rule hname htag hrule, expandRule, bind_of_ok hselect]
  simp only [hinner, pure_bind]
  rw [bind_of_ok ht]
  rfl

end Level

/-! ## Expanding it -/

omit [RandomSource γ] in
theorem Engine.maxDepth_startOf (e : Engine γ) (reset : Bool) :
    (e.startOf reset).context.maxDepth = e.session.context.maxDepth := by
  cases reset <;> rfl

theorem exists_nestingLevels (maxDepth : Nat) : ∃ levels, nestingLevels maxDepth = levels + 2 := by
  refine ⟨nestingLevels maxDepth - 2, ?_⟩
  have hstanding : standingNesting ≤ nestingLevels maxDepth := Nat.le_max_left ..
  unfold standingNesting at hstanding
  omega

/-- What nodes are evaluated to with two levels or more is the answer to the text they are read
of. -/
theorem Engine.expand_eq_of_evaluateAt {e : Engine γ}
    (hdeep : e.session.context.maxDepth ≤ greatestDepth) {source answer : Text}
    {nodes : List Node} (hread : parseText source false = .ok nodes) {reset : Bool}
    (h : ∀ levels, ∃ t,
      evaluateAt e.extensions (levels + 2) nodes (e.startOf reset) = .ok answer t) :
    (e.expand source reset).1 = answer := by
  obtain ⟨levels, hlevels⟩ := exists_nestingLevels e.session.context.maxDepth
  obtain ⟨t, ht⟩ := h levels
  have hcheck : checkNesting (e.startOf reset) = .ok () (e.startOf reset) :=
    checkNesting_of_le (by rwa [maxDepth_startOf])
  have houtcome : e.outcome (.text source) reset = .ok answer t := by
    change readAndEvaluate (evaluate e.extensions) (.text source) (e.startOf reset) = _
    rw [readAndEvaluate_text _ hread, bind_of_ok hcheck, evaluate, maxDepth_startOf, hlevels, ht]
  rw [expand, expandFrom_of_ok houtcome]

/-! ## Registering it -/

/-- The rule of a name is one that a definition makes. -/
def Engine.Registered (e : Engine γ) (name : Text) (d : Definition) : Prop :=
  ∃ shared notices rule shared', Rule.build name d shared = (notices, .ok (some (rule, shared'))) ∧
    e.session.rules.get? name = some rule

section Registered

variable {name text : Text} {d : Definition} (hd : d.texts = .ok [escape text])
  (hselector : d.selector = none)

include hd hselector

theorem Engine.registered_iff {e : Engine γ} :
    e.Registered name d ↔ e.session.rules.get? name = some (.verbatim text) := by
  constructor
  · rintro ⟨shared, notices, rule, shared', hbuild, hrule⟩
    obtain ⟨notices', hverbatim⟩ := Rule.build_escape hd hselector name shared
    rw [hbuild] at hverbatim
    cases hverbatim
    exact hrule
  · intro h
    obtain ⟨notices, hbuild⟩ := Rule.build_escape hd hselector name e.session.random
    exact ⟨_, notices, _, _, hbuild, h⟩

theorem exists_addRule_escape (hname : isRuleName name = true) (s : Session γ) :
    ∃ t, addRule (.text name) d s = .ok true t ∧ t.rules.get? name = some (.verbatim text) := by
  obtain ⟨before, hadd⟩ := exists_addRule_eq (ruleName_text_eq_ok_iff.2 ⟨hname, rfl⟩) d s
  obtain ⟨notices, hbuild⟩ := Rule.build_escape hd hselector name s.random
  rw [hadd, defineRule, hbuild]
  exact ⟨_, rfl, Lexicon.get?_put_self ..⟩

theorem Engine.registered_addRule (hname : isRuleName name = true) (e : Engine γ) :
    (e.addRule (.text name) d).1 = .ok true ∧ (e.addRule (.text name) d).2.Registered name d := by
  obtain ⟨t, ht, hrule⟩ := exists_addRule_escape hd hselector hname e.session
  have hadd : e.addRule (.text name) d = (.ok true, { e with session := t }) := by
    unfold addRule perform
    rw [ht]
  rw [hadd]
  exact ⟨rfl, (registered_iff hd hselector).2 hrule⟩

/-- Expansions leave the rule registered, whatever they expand. -/
theorem Engine.Registered.expandFrom {e : Engine γ} (h : e.Registered name d)
    (hx : e.extensions.Detached) (origin : Origin) (reset : Bool) :
    (e.expandFrom origin reset).2.Registered name d := by
  rw [registered_iff hd hselector] at h ⊢
  rw [← e.rules_startOf reset] at h
  have hcontract := (lasting_verbatim (γ := γ) name text).contract hx fun _ _ _ _ _ => trivial
  rcases readAndEvaluate_cases (γ := γ) origin (e.startOf reset).context.maxDepth with
    ⟨fault, hfault⟩ | ⟨source, nodes, -, -, hnodes⟩
  · rw [expandFrom_of_error (hfault (evaluate e.extensions) (e.startOf reset) rfl)]
    exact h
  · have houtcome := (hnodes (evaluate e.extensions) (e.startOf reset) rfl).2
    have hlands := hcontract.lands_evaluate (fun n (_ : n ∈ Node.walkAll nodes) => trivial) h
    cases hend : evaluate e.extensions nodes (e.startOf reset) with
    | ok answer t =>
        rw [hend] at houtcome hlands
        rw [expandFrom_of_ok houtcome]
        exact hlands.1
    | error fault t =>
        rw [hend] at houtcome hlands
        rw [expandFrom_of_error houtcome]
        exact hlands.1

end Registered

theorem get?_after_addRule {v : Value} {name : Text} (h : v.text? ≠ some name) (d : Definition)
    (s : Session γ) : ((addRule v d).after s).rules.get? name = s.rules.get? name := by
  cases hname : ruleName v with
  | error fault =>
      rw [after, addRule, hname]
      rfl
  | ok n =>
      have hne : name ≠ n := by
        rintro rfl
        exact h (text?_of_ruleName hname)
      obtain ⟨before, hadd⟩ := exists_addRule_eq hname d s
      rw [after, hadd]
      unfold defineRule
      rcases Rule.build n d s.random with ⟨notices, fault | _ | ⟨rule, random⟩⟩
      · rfl
      · rfl
      · exact Lexicon.get?_put_of_ne _ _ hne

theorem get?_of_addRules {book : List (Value × Definition)} {name : Text}
    (h : ∀ entry ∈ book, entry.1.text? ≠ some name) {s t : Session γ}
    (hadd : addRules book s = .ok () t) : t.rules.get? name = s.rules.get? name := by
  induction book generalizing s with
  | nil =>
      cases hadd
      rfl
  | cons entry rest ih =>
      rw [List.forall_mem_cons] at h
      obtain ⟨taken, u, hfirst, hrest⟩ := exists_of_bind_eq_ok hadd
      rw [ih h.2 hrest, ← get?_after_addRule h.1 entry.2 s, after_of_ok hfirst]

theorem addRules_append (before rest : List (Value × Definition)) :
    (addRules (before ++ rest) : Work γ Unit) =
      addRules before >>= fun _ => addRules rest := by
  induction before with
  | nil => rfl
  | cons entry before ih => simp only [List.cons_append, addRules, ih, bind_assoc]

theorem exists_addRules_of_readBook {book : List (Value × Definition)} {options : Options}
    {findings : List Finding} {s t : Session γ} (h : readBook book options s = .ok findings t) :
    ∃ u, addRules book s = .ok () u ∧ t.rules = u.rules := by
  obtain ⟨_, u, hadd, hrest⟩ := exists_of_bind_eq_ok h
  refine ⟨u, hadd, ?_⟩
  cases hanalysis : options.analysis with
  | true =>
      simp only [hanalysis] at hrest
      cases hrest
      rfl
  | false =>
      simp only [hanalysis] at hrest
      cases hrest
      rfl

/-- The rules of a new engine are those of its book. -/
theorem Engine.exists_addRules_of_create {book : List (Value × Definition)} {options : Options}
    {random : γ} {e : Engine γ} (h : create book options random = .ok e) :
    ∃ context t, contextOfDepth (options.maxDepth.getD Context.defaultMaxDepth) = .ok context ∧
      addRules book (Session.start options.policy context random) = .ok () t ∧
        e.session.rules = t.rules := by
  unfold create at h
  split at h
  · cases h
  · next context hcontext =>
      split at h
      · cases h
      · next hread =>
          cases h
          obtain ⟨t, hadd, hrules⟩ := exists_addRules_of_readBook hread
          exact ⟨context, t, hcontext, hadd, hrules⟩

/-- An entry of a book registers its definition, unless a later one of the same name comes. -/
theorem Engine.registered_of_create {name text : Text} {d : Definition}
    (hd : d.texts = .ok [escape text]) (hselector : d.selector = none)
    (hname : isRuleName name = true) (before : List (Value × Definition))
    {later : List (Value × Definition)} (hlater : ∀ entry ∈ later, entry.1.text? ≠ some name)
    {options : Options} {random : γ} {e : Engine γ}
    (h : create (before ++ (.text name, d) :: later) options random = .ok e) :
    e.Registered name d := by
  obtain ⟨_, t, -, hadd, hrules⟩ := exists_addRules_of_create h
  rw [addRules_append] at hadd
  obtain ⟨_, u, -, hrest⟩ := exists_of_bind_eq_ok hadd
  obtain ⟨v, hfirst, hrule⟩ := exists_addRule_escape hd hselector hname u
  rw [addRules, bind_of_ok hfirst] at hrest
  rw [registered_iff hd hselector, hrules, get?_of_addRules hlater hrest, hrule]

/-- Text that stands for itself comes through unchanged, whatever it looks like: expanded by itself,
as the value of a tag, and as the only candidate of a rule, which can always be registered and is
left as it is by expansions. Without hashes, brackets and backslashes it need not be escaped where
it is expanded by itself. All that is asked of the engine is that its maximal depth allows for one
frame, and is not beyond what can be provided for, and that its hooks ask for nothing and do not
fail. -/
theorem literal_survives {e : Engine γ} (hdepth : 1 ≤ e.session.context.maxDepth)
    (hdeep : e.session.context.maxDepth ≤ greatestDepth) (hhooks : e.extensions.QuietHooks)
    (text : Text) :
    (∀ reset, (e.expand (escape text) reset).1 = text) ∧
      (∀ tag, IsWord tag →
        (e.expand ("[" ++ tag ++ ":" ++ escape text ++ "]#" ++ tag ++ "#") true).1 = text) ∧
      (∀ name d, IsWord name → d.texts = .ok [escape text] → d.selector = none →
        (e.addRule (.text name) d).1 = .ok true ∧ (e.addRule (.text name) d).2.Registered name d ∧
          (e.Registered name d → (e.expand ("#" ++ name ++ "#") true).1 = text ∧
            (e.extensions.Detached → ∀ origin reset,
              (e.expandFrom origin reset).2.Registered name d))) ∧
      ((∀ c ∈ text.toList, IsInert c) → ∀ reset, (e.expand text reset).1 = text) := by
  have hliteral {levels : Nat} :
      evaluateAt e.extensions (levels + 1) (literal text) = (pure text : Work γ Text) :=
    evaluateWith_literal text
  have halone {source : Text} (hread : parseText source false = .ok (literal text))
      (reset : Bool) : (e.expand source reset).1 = text :=
    Engine.expand_eq_of_evaluateAt hdeep hread fun levels => ⟨_, by rw [hliteral]; rfl⟩
  have hroom : (e.startOf true).context.depth < (e.startOf true).context.maxDepth := hdepth
  refine ⟨halone (parseText_escape text false), fun tag htag => ?_,
    fun name d hname hd hselector => ?_, fun hinert => halone (parseText_inert hinert)⟩
  · exact Engine.expand_eq_of_evaluateAt hdeep (htag.parseText_bound text) fun levels =>
      exists_evaluateWith_bound hroom htag.1 text
  · obtain ⟨htaken, hregistered⟩ := Engine.registered_addRule hd hselector hname.isRuleName e
    refine ⟨htaken, hregistered, fun h => ⟨?_, fun hx => h.expandFrom hd hselector hx⟩⟩
    refine Engine.expand_eq_of_evaluateAt hdeep hname.parseText_reference fun levels => ?_
    refine exists_evaluateWith_reference hroom fun t hrules htags => ?_
    have hrule : t.rules.get? name = some (.verbatim text) := by
      rw [hrules, Engine.rules_startOf, (Engine.registered_iff hd hselector).1 h]
    have htag : t.tags.lookup name = none := htags.trans (TagStore.lookup_removeAll _ name)
    exact exists_resolve_verbatim hhooks hname.1 hliteral htag hrule

/-- A text that looks like a failed expansion, a reference and a weight at once, in an engine that
has room for one frame and a hook that keeps a journal. -/
theorem literal_survives_disguised :
    let text : Text := "error: #r#,3"
    let plain : Text := "(a, b.c: d),3"
    let name : Text := "r"
    let d := Definition.ofTexts [escape text]
    let hook : Hook := .call fun _ => .ask (.note "seen") fun _ => .done ()
    ∃ e : Engine Twister,
      Engine.create [(.text name, d)] ⟨.nested, true, some 1⟩ ⟨#[], 0⟩ = .ok e ∧
        ((e.addHook hook).expand (escape text) false).1 = text ∧
        ((e.addHook hook).expand
          ("[" ++ name ++ ":" ++ escape text ++ "]#" ++ name ++ "#") true).1 = text ∧
        ((e.addHook hook).expand ("#" ++ name ++ "#") true).1 = text ∧
        ((e.addHook hook).expand plain true).1 = plain := by
  intro text plain name d hook
  obtain ⟨e, he, hdepth⟩ : ∃ e : Engine Twister,
      Engine.create [(.text name, d)] ⟨.nested, true, some 1⟩ ⟨#[], 0⟩ = .ok e ∧
        decide (e.session.context.maxDepth = 1) = true :=
    Engine.exists_of_create (by decide +kernel)
  rw [decide_eq_true_eq] at hdepth
  have hquiet : (e.addHook hook).extensions.QuietHooks := by
    intro f hf event
    rw [Engine.addHook, Engine.extensions_of_create he] at hf
    obtain rfl : f = fun _ => .ask (.note "seen") fun _ => .done () :=
      Hook.call.inj (List.mem_singleton.1 hf)
    exact ⟨.ask rfl fun _ => .done trivial, .ask trivial fun _ => .done trivial⟩
  have hword : IsWord name := isWord_of_isAlphanum (by decide) (List.all_eq_true.1 (by decide))
  have hregistered : e.Registered name d :=
    Engine.registered_of_create (Definition.texts_ofTexts _) rfl hword.isRuleName []
      (List.forall_mem_nil _) he
  have hone : 1 ≤ (e.addHook hook).session.context.maxDepth := hdepth.ge
  have hdeep : (e.addHook hook).session.context.maxDepth ≤ greatestDepth :=
    hdepth.trans_le (by decide)
  have hsurvives := literal_survives hone hdeep hquiet text
  have hinert : ∀ c ∈ plain.toList, IsInert c := by decide
  refine ⟨e, he, hsurvives.1 false, hsurvives.2.1 name hword, ?_, ?_⟩
  · exact ((hsurvives.2.2.1 name d hword (Definition.texts_ofTexts _) rfl).2.2 hregistered).1
  · exact (literal_survives hone hdeep hquiet plain).2.2.2 hinert true

/-- Where the nesting of the maximal depth cannot be provided for, the fault of this is answered
instead, though nothing would have been nested. -/
theorem literal_lost_beyond_greatestDepth : ∃ e : Engine Twister,
    Engine.create [] ⟨.flat, true, some 536870862⟩ ⟨#[], 0⟩ = .ok e ∧
      1 ≤ e.session.context.maxDepth ∧ e.extensions.QuietHooks ∧
        (e.expand (escape "x") true).1 = faultText .nestingUnavailable ∧
          (e.expand (escape "x") true).1 ≠ "x" := by
  obtain ⟨e, he, hanswer⟩ : ∃ e : Engine Twister,
      Engine.create [] ⟨.flat, true, some 536870862⟩ ⟨#[], 0⟩ = .ok e ∧
        (decide (e.session.context.maxDepth = 536870862) &&
          decide ((e.expand (escape "x") true).1 = faultText .nestingUnavailable)) = true :=
    Engine.exists_of_create (by decide +kernel)
  rw [Bool.and_eq_true, decide_eq_true_eq, decide_eq_true_eq] at hanswer
  have hquiet : e.extensions.QuietHooks := by
    rw [Engine.extensions_of_create he]
    exact nofun
  refine ⟨e, he, ?_, hquiet, hanswer.2, ?_⟩
  · rw [hanswer.1]
    decide
  · rw [hanswer.2]
    decide

end TextGrammar
