import TextGrammar.Engine
import TextGrammar.Proofs.Registry.Candidates
import TextGrammar.Random.Twister

/-!
# Registering texts

Registering a definition by texts has three ends (`addRule_cases`). The name is refused; or there is
a text with a weight that is no number, which stops the registration with a fault; or each text that
is malformed is dropped, and the others make the rule, if there are any. The rules of a session
change in the last case only.

So it is not so that registration always answers, and neither is an engine made from every book of
texts: both stop at exactly those texts whose weight is no number (`registration_answers_iff`).
-/

namespace TextGrammar

/-- A definition that registration does not stop at, under a name that may be refused. -/
def Registrable (name : Value) (d : Definition) : Prop :=
  ∀ n texts, ruleName name = .ok n → d.texts = .ok texts → ∀ text ∈ texts, ¬WeightUnreadable text

theorem findSome?_weightFault?_eq_none_iff {texts : List Text} :
    texts.findSome? weightFault? = none ↔ ∀ text ∈ texts, ¬WeightUnreadable text := by
  simp only [List.findSome?_eq_none_iff, weightFault?_eq_none_iff]

variable {γ : Type} [RandomSource γ] {name : Value} {d : Definition} {texts : List Text}

theorem defineRule_of_unreadable (hd : d.texts = .ok texts) {fault : NumeralFault}
    (hfault : texts.findSome? weightFault? = some fault) (n : Text) (s : Session γ) :
    ∃ t, defineRule n d s = .error (.numeral fault) t ∧ t.rules = s.rules := by
  have hsnd := Rule.build_snd hd n s.random
  rcases hbuild : Rule.build n d s.random with ⟨notices, result⟩
  rw [hbuild, hfault] at hsnd
  cases hsnd
  exact ⟨s.reportAll notices, by rw [defineRule, hbuild], rfl⟩

theorem defineRule_of_nil (hd : d.texts = .ok texts)
    (hreadable : texts.findSome? weightFault? = none)
    (hnil : texts.filterMap candidateOfText? = []) (n : Text) (s : Session γ) :
    ∃ t, defineRule n d s = .ok false t ∧ t.rules = s.rules := by
  have hsnd := Rule.build_snd hd n s.random
  rcases hbuild : Rule.build n d s.random with ⟨notices, result⟩
  rw [hbuild, hreadable, hnil] at hsnd
  cases hsnd
  exact ⟨s.reportAll notices, by rw [defineRule, hbuild]; rfl, rfl⟩

theorem defineRule_of_ne_nil (hd : d.texts = .ok texts)
    (hreadable : texts.findSome? weightFault? = none)
    (hne : texts.filterMap candidateOfText? ≠ []) (n : Text) (s : Session γ) :
    ∃ rule t, defineRule n d s = .ok true t ∧ t.rules = s.rules.put n rule ∧
      rule.candidates = (texts.filterMap candidateOfText?).map Candidate.withoutWeight := by
  have hsnd := Rule.build_snd hd n s.random
  rcases hbuild : Rule.build n d s.random with ⟨notices, result⟩
  rw [hbuild, hreadable] at hsnd
  cases hmade : Rule.ofCandidates? d.selector (texts.filterMap candidateOfText?) s.random with
  | none => exact absurd (Rule.ofCandidates?_eq_none_iff.1 hmade) hne
  | some made =>
      obtain ⟨rule, random⟩ := made
      rw [hmade] at hsnd
      cases hsnd
      exact ⟨rule, _, by rw [defineRule, hbuild], rfl, (Rule.ofCandidates?_eq_some hmade).2.1⟩

/-- A name that is taken is only reported before the rule is built. -/
theorem exists_addRule_eq {n : Text} (hname : ruleName name = .ok n) (d : Definition)
    (s : Session γ) :
    ∃ notices, addRule name d s = defineRule n d { s with notices := notices } := by
  unfold addRule
  rw [hname]
  by_cases htaken : s.rules.contains n
  · exact ⟨s.notices.push (.duplicateRule n), by simp only [htaken, if_true]; rfl⟩
  · exact ⟨s.notices, by simp only [htaken]; rfl⟩

theorem exists_build_of_addRule {n : Text} (hname : ruleName name = .ok n) {s t : Session γ}
    (h : addRule name d s = .ok true t) :
    ∃ notices rule random, Rule.build n d s.random = (notices, .ok (some (rule, random))) ∧
      t.rules = s.rules.put n rule := by
  obtain ⟨before, hadd⟩ := exists_addRule_eq hname d s
  rw [hadd, defineRule] at h
  rcases hbuild : Rule.build n d s.random with ⟨notices, fault | _ | ⟨rule, random⟩⟩
  all_goals
    rw [hbuild] at h
    cases h
  exact ⟨notices, rule, random, rfl, rfl⟩

/-- All that registering texts can do. -/
theorem addRule_cases (hd : d.texts = .ok texts) (s : Session γ) :
    ((∃ fault, ruleName name = .error fault) ∧
        ∃ t, addRule name d s = .ok false t ∧ t.rules = s.rules) ∨
      ∃ n, ruleName name = .ok n ∧
        (((∃ text ∈ texts, WeightUnreadable text) ∧
            ∃ fault t, addRule name d s = .error (.numeral fault) t ∧ t.rules = s.rules) ∨
          ((∀ text ∈ texts, ¬WeightUnreadable text) ∧
            ((texts.filterMap candidateOfText? = [] ∧
                ∃ t, addRule name d s = .ok false t ∧ t.rules = s.rules) ∨
              (texts.filterMap candidateOfText? ≠ [] ∧
                ∃ rule t, addRule name d s = .ok true t ∧ t.rules = s.rules.put n rule ∧
                  rule.candidates =
                    (texts.filterMap candidateOfText?).map Candidate.withoutWeight)))) := by
  cases hname : ruleName name with
  | error fault =>
      exact .inl ⟨⟨fault, rfl⟩, s.report (.nameRefused fault), by rw [addRule, hname], rfl⟩
  | ok n =>
      obtain ⟨notices, hadd⟩ := exists_addRule_eq hname d s
      rw [hadd]
      refine .inr ⟨n, rfl, ?_⟩
      cases hfault : texts.findSome? weightFault? with
      | some fault =>
          left
          obtain ⟨t, ht⟩ := defineRule_of_unreadable hd hfault n { s with notices := notices }
          refine ⟨?_, fault, t, ht⟩
          obtain ⟨text, htext, hweight⟩ := List.exists_of_findSome?_eq_some hfault
          exact ⟨text, htext,
            parseText_eq_weight_iff.1 ⟨fault, weightFault?_eq_some_iff.1 hweight⟩⟩
      | none =>
          right
          refine ⟨findSome?_weightFault?_eq_none_iff.1 hfault, ?_⟩
          by_cases hnil : texts.filterMap candidateOfText? = []
          · exact .inl ⟨hnil, defineRule_of_nil hd hfault hnil n { s with notices := notices }⟩
          · exact .inr ⟨hnil, defineRule_of_ne_nil hd hfault hnil n { s with notices := notices }⟩

theorem addRule_answers_iff (hd : d.texts = .ok texts) (s : Session γ) :
    (∃ taken t, addRule name d s = .ok taken t) ↔ Registrable name d := by
  constructor
  · rintro ⟨taken, t, hanswer⟩ n texts' hname hd'
    rw [hd] at hd'
    cases hd'
    rcases addRule_cases hd s with ⟨⟨fault, hrefused⟩, -⟩ |
      ⟨_, -, ⟨-, fault, u, hfault, -⟩ | ⟨hreadable, -⟩⟩
    · rw [hname] at hrefused
      cases hrefused
    · rw [hanswer] at hfault
      cases hfault
    · exact hreadable
  · intro h
    rcases addRule_cases hd s with ⟨-, t, ht, -⟩ | ⟨n, hname, ⟨⟨text, htext, hweight⟩, -⟩ |
      ⟨-, ⟨-, t, ht, -⟩ | ⟨-, rule, t, ht, -⟩⟩⟩
    · exact ⟨false, t, ht⟩
    · exact absurd hweight (h n texts hname hd text htext)
    · exact ⟨false, t, ht⟩
    · exact ⟨true, t, ht⟩

theorem addRules_answers_iff {book : List (Value × Definition)}
    (hbook : ∀ entry ∈ book, ∃ texts, entry.2.texts = .ok texts) (s : Session γ) :
    (∃ t, addRules book s = .ok () t) ↔ ∀ entry ∈ book, Registrable entry.1 entry.2 := by
  induction book generalizing s with
  | nil => exact ⟨fun _ => nofun, fun _ => ⟨s, rfl⟩⟩
  | cons entry rest ih =>
      rw [List.forall_mem_cons] at hbook
      obtain ⟨⟨texts, hd⟩, hrest⟩ := hbook
      rw [List.forall_mem_cons, ← addRule_answers_iff hd s]
      constructor
      · rintro ⟨t, ht⟩
        obtain ⟨taken, u, hfirst, hlater⟩ := Work.exists_of_bind_eq_ok ht
        exact ⟨⟨taken, u, hfirst⟩, (ih hrest u).1 ⟨t, hlater⟩⟩
      · rintro ⟨⟨taken, u, hfirst⟩, hlater⟩
        obtain ⟨t, ht⟩ := (ih hrest u).2 hlater
        exact ⟨t, by rw [addRules, Work.bind_of_ok hfirst, ht]⟩

theorem readBook_of_ok {book : List (Value × Definition)} {s t : Session γ}
    (h : addRules book s = .ok () t) (options : Options) :
    ∃ findings u, readBook book options s = .ok findings u := by
  unfold readBook
  rw [Work.bind_of_ok h]
  cases options.analysis with
  | true => exact ⟨_, _, rfl⟩
  | false => exact ⟨_, _, rfl⟩

theorem create_answers_iff {book : List (Value × Definition)} {options : Options} {random : γ}
    {context : Context}
    (hcontext : contextOfDepth (options.maxDepth.getD Context.defaultMaxDepth) = .ok context)
    (hbook : ∀ entry ∈ book, ∃ texts, entry.2.texts = .ok texts) :
    (∃ e, Engine.create book options random = .ok e) ↔
      ∀ entry ∈ book, Registrable entry.1 entry.2 := by
  rw [← addRules_answers_iff hbook (Session.start options.policy context random)]
  unfold Engine.create
  rw [hcontext]
  constructor
  · rintro ⟨e, he⟩
    cases hread : readBook book options (Session.start options.policy context random) with
    | error fault t =>
        simp only [hread] at he
        cases he
    | ok findings t =>
        obtain ⟨answer, u, hrules, -⟩ := Work.exists_of_bind_eq_ok hread
        exact ⟨u, hrules⟩
  · rintro ⟨t, ht⟩
    obtain ⟨findings, u, hread⟩ := readBook_of_ok ht options
    simp only [hread]
    exact ⟨_, rfl⟩

/-- Registering a definition by texts answers unless the name may be a rule's and a text has a
weight that is no number; then it stops with a fault that says so. It answers no, with the rules as
they were, where the name is refused or no text is read, and else yes, with the texts that are read
as the candidates, in order. So an engine is made from a book of texts exactly if no entry stops
the registration. -/
theorem registration_answers_iff :
    (∀ (name : Value) (d : Definition) (texts : List Text) (s : Session γ),
      d.texts = .ok texts →
        ((∃ taken t, addRule name d s = .ok taken t) ↔ Registrable name d) ∧
        (∀ t, addRule name d s = .ok false t → t.rules = s.rules ∧
          ((∃ fault, ruleName name = .error fault) ∨ texts.filterMap candidateOfText? = [])) ∧
        (∀ t, addRule name d s = .ok true t → texts.filterMap candidateOfText? ≠ [] ∧
          ∃ n rule, ruleName name = .ok n ∧ t.rules = s.rules.put n rule ∧
            rule.candidates = (texts.filterMap candidateOfText?).map Candidate.withoutWeight) ∧
        (∀ fault t, addRule name d s = .error fault t →
          t.rules = s.rules ∧ ∃ numeral, fault = .numeral numeral)) ∧
      ∀ (book : List (Value × Definition)) (options : Options) (random : γ) (context : Context),
        contextOfDepth (options.maxDepth.getD Context.defaultMaxDepth) = .ok context →
          (∀ entry ∈ book, ∃ texts, entry.2.texts = .ok texts) →
            ((∃ e, Engine.create book options random = .ok e) ↔
              ∀ entry ∈ book, Registrable entry.1 entry.2) := by
  refine ⟨fun name d texts s hd => ⟨addRule_answers_iff hd s, ?_⟩,
    fun book options random context hcontext hbook => create_answers_iff hcontext hbook⟩
  rcases addRule_cases hd s with ⟨hrefused, u, hu, hrules⟩ |
    ⟨n, hname, ⟨-, fault, u, hu, hrules⟩ |
      ⟨-, ⟨hnil, u, hu, hrules⟩ | ⟨hne, rule, u, hu, hrules, hcandidates⟩⟩⟩
  all_goals
    rw [hu]
    refine ⟨fun t ht => ?_, fun t ht => ?_, fun fault t ht => ?_⟩ <;> cases ht
  · exact ⟨hrules, .inl hrefused⟩
  · exact ⟨hrules, fault, rfl⟩
  · exact ⟨hrules, .inr hnil⟩
  · exact ⟨hne, n, rule, hname, hrules, hcandidates⟩

/-- An unreadable weight under a refused name and a malformed text beside another stop nothing. -/
theorem registration_answers_iff_refused : ∃ e : Engine Twister,
    Engine.create [(.text "#", .ofTexts ["a,²"]), (.text "r", .ofTexts ["#", "b"])] .standard
      ⟨#[], 0⟩ = .ok e := by
  refine (registration_answers_iff.2 _ _ _ ⟨256, []⟩ rfl ?_).2 ?_
  · simp
  · have hreadable : (["#", "b"] : List Text).findSome? weightFault? = none := by decide +kernel
    rw [List.forall_mem_cons, List.forall_mem_singleton]
    refine ⟨fun n texts hname => ?_, fun n texts _ hd => ?_⟩
    · cases hname
    · rw [Definition.texts_ofTexts] at hd
      cases hd
      exact findSome?_weightFault?_eq_none_iff.1 hreadable

/-- A superscript two counts among the digits and is no number: the text is not dropped, and the
other text makes no rule. -/
theorem addRule_superscript_weight :
    (∃ t, addRule (.text "r") (.ofTexts ["a,²", "b"])
        (Session.start .flat ⟨256, []⟩ (⟨#[], 0⟩ : Twister)) =
      .error (.numeral (.notANumber "²")) t ∧ t.rules.names = []) ∧
      ¬∃ taken t, addRule (.text "r") (.ofTexts ["a,²", "b"])
        (Session.start .flat ⟨256, []⟩ (⟨#[], 0⟩ : Twister)) = .ok taken t := by
  have hstops : ∃ t, addRule (.text "r") (.ofTexts ["a,²", "b"])
      (Session.start .flat ⟨256, []⟩ (⟨#[], 0⟩ : Twister)) =
        .error (.numeral (.notANumber "²")) t ∧ t.rules.names = [] :=
    ⟨_, rfl, rfl⟩
  refine ⟨hstops, ?_⟩
  obtain ⟨t, ht, -⟩ := hstops
  rintro ⟨taken, u, hu⟩
  rw [ht] at hu
  cases hu

end TextGrammar
