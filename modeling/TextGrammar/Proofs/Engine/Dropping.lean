import TextGrammar.Proofs.Engine.Service
import TextGrammar.Proofs.Evaluation.Lockstep
import TextGrammar.Proofs.Registry.Registration
import TextGrammar.Proofs.Registry.SideBySide

/-!
# Dropped input

An entry of a rule book under a refused name, or one of which no text is read, leaves nothing behind
but notices, and so does a malformed text among others. Notices are written and never read. So two
sessions that differ in their notices only (`SameButNotices`) stay so along any work, whatever the
scripts of users ask for meanwhile, and an engine that is made with the dropped input is the one
that is made without it, but for what it has reported (`dropped_input_invisible`).

That a definition comes to nothing does not depend on the session that it is registered in
(`Rule.build_snd_of_none`), and what is drawn to make a selector is drawn for the texts that are
kept.
-/

namespace TextGrammar

open Work

variable {γ α : Type}

def SameButNotices (s t : Session γ) : Prop := ∃ notices, t = { s with notices := notices }

abbrev Agrees (m m' : Work γ α) : Prop := Follows SameButNotices (fun _ => False) m m'

theorem SameButNotices.trans {s t u : Session γ} (hst : SameButNotices s t)
    (htu : SameButNotices t u) : SameButNotices s u := by
  obtain ⟨_, rfl⟩ := hst
  obtain ⟨notices, rfl⟩ := htu
  exact ⟨notices, rfl⟩

/-- What both do alike keeps two sessions apart in their notices only. -/
theorem SameButNotices.map {s t : Session γ} (h : SameButNotices s t)
    (f : Session γ → Session γ)
    (hf : ∀ notices, SameButNotices (f s) (f { s with notices := notices })) :
    SameButNotices (f s) (f t) := by
  obtain ⟨notices, rfl⟩ := h
  exact hf notices

/-- Without a fault that cuts the first one off, two computations end alike in one of two ways. -/
theorem Agrees.cases {m m' : Work γ α} (h : Agrees m m') {s t : Session γ}
    (hst : SameButNotices s t) :
    (∃ a u v, m s = .ok a u ∧ m' t = .ok a v ∧ SameButNotices u v) ∨
      ∃ fault u v, m s = .error fault u ∧ m' t = .error fault v ∧ SameButNotices u v := by
  rcases (h s t hst).inv with hok | herror | ⟨_, _, _, hcut⟩
  · exact .inl hok
  · exact .inr herror
  · exact hcut.elim

variable [RandomSource γ]

/-! ## Registration -/

/-- A definition of which nothing is left for one source of randomness leaves nothing for any. -/
theorem Rule.build_snd_of_none {name : Text} {d : Definition} {shared : γ}
    (h : (Rule.build name d shared).2 = .ok none) (other : γ) :
    (Rule.build name d other).2 = .ok none := by
  cases htexts : d.texts with
  | error fault =>
      rw [Rule.build, htexts] at h
      cases h
  | ok texts =>
      rw [Rule.build_snd htexts] at h ⊢
      cases hfault : texts.findSome? weightFault? with
      | some fault =>
          rw [hfault] at h
          cases h
      | none =>
          rw [hfault] at h
          have hnil := Rule.ofCandidates?_eq_none_iff.1 (Except.ok.inj h)
          exact congrArg Except.ok (Rule.ofCandidates?_eq_none_iff.2 hnil)

/-- A malformed text among others changes nothing but the notices of a rule's making. -/
theorem Rule.build_snd_of_malformed {d d' : Definition} {texts more : List Text} {text : Text}
    {fault : MarkupFault} (hd : d.texts = .ok (texts ++ more))
    (hd' : d'.texts = .ok (texts ++ text :: more)) (hselector : d'.selector = d.selector)
    (hmalformed : parseText text true = .error (.malformed fault)) (name : Text) (shared : γ) :
    (Rule.build name d' shared).2 = (Rule.build name d shared).2 := by
  have hcandidate : candidateOfText? text = none := by rw [candidateOfText?, hmalformed]
  have hweight : weightFault? text = none := by rw [weightFault?, hmalformed]
  rw [Rule.build_snd hd, Rule.build_snd hd', hselector]
  simp only [List.filterMap_append, List.filterMap_cons, hcandidate, List.findSome?_append,
    List.findSome?_cons, hweight]

omit [RandomSource γ] in
theorem registersAlike_sameButNotices : RegistersAlike (SameButNotices (γ := γ)) where
  rules := by
    rintro s _ ⟨notices, rfl⟩
    rfl
  random := by
    rintro s _ ⟨notices, rfl⟩
    rfl
  notices := by
    rintro s _ here there ⟨notices, rfl⟩
    exact ⟨there, rfl⟩
  put := by
    rintro s _ rules random ⟨notices, rfl⟩
    exact ⟨notices, rfl⟩

theorem defineRule_eq_false_iff {name : Text} {d : Definition} {s : Session γ} :
    (∃ t, defineRule name d s = .ok false t) ↔ (Rule.build name d s.random).2 = .ok none := by
  unfold defineRule
  rcases Rule.build name d s.random with ⟨notices, fault | (_ | made)⟩
  · simp
  · simp
  · simp

/-- An entry that is dropped in one session is dropped in any, and leaves notices only. -/
theorem addRule_of_dropped {name : Value} {d : Definition} {s t : Session γ}
    (h : addRule name d s = .ok false t) (other : Session γ) :
    ∃ u, addRule name d other = .ok false u ∧ SameButNotices other u := by
  cases hname : ruleName name with
  | error fault =>
      rw [addRule, hname]
      exact ⟨_, rfl, _, rfl⟩
  | ok n =>
      obtain ⟨_, hhere⟩ := exists_addRule_eq hname d s
      obtain ⟨notices, hthere⟩ := exists_addRule_eq hname d other
      have hnone := defineRule_eq_false_iff.1 ⟨t, hhere ▸ h⟩
      have hdropped := Rule.build_snd_of_none hnone other.random
      rcases hbuild : Rule.build n d other.random with ⟨reported, result⟩
      rw [hbuild] at hdropped
      obtain rfl : result = .ok none := hdropped
      rw [hthere]
      unfold defineRule
      simp only [hbuild]
      exact ⟨_, rfl, _, rfl⟩

/-! ## Evaluation -/

theorem parallel_sameButNotices :
    Parallel (γ := γ) (fun _ => True) (fun _ => SameButNotices) (fun _ => False) where
  depth := by
    rintro k s _ ⟨notices, rfl⟩
    rfl
  enter := by
    rintro k frame s _ c ⟨notices, rfl⟩ henter
    exact ⟨c, henter, _, rfl⟩
  full := by
    rintro k frame s _ o ⟨notices, rfl⟩ hfull
    exact .inr hfull
  leave s t h := h.map (fun s => { s with context := s.context.leave }) fun _ => ⟨_, rfl⟩
  enterScope s t h := h.map (fun s => { s with tags := s.tags.enterScope }) fun _ => ⟨_, rfl⟩
  exitScope s t h := h.map (fun s => { s with tags := s.tags.exitScope }) fun _ => ⟨_, rfl⟩
  bind {k a s t} text _ h := h.map (·.bind a.name (some text)) fun _ => ⟨_, rfl⟩
  lookup := by
    rintro k s _ name ⟨notices, rfl⟩
    rfl
  missing := by
    rintro k s _ name ⟨notices, rfl⟩ hmissing
    exact ⟨hmissing, _, rfl⟩
  rule := by
    rintro k s _ name rule ⟨notices, rfl⟩ hrule
    refine ⟨rule, hrule, endAlike_selectCandidate ?_ ⟨notices, rfl⟩ ?_ _⟩
    · rfl
    · exact fun _ _ _ _ => ⟨_, rfl⟩
  candidate _ _ _ _ _ := trivial
  record e h := h.map (·.record e) fun _ => ⟨_, rfl⟩
  trace s t tracer e h := h.map (·.trace tracer e) fun _ => ⟨_, rfl⟩
  note s t entry h :=
    h.map (fun s => { s with journal := s.journal.push entry }) fun _ => ⟨_, rfl⟩

section Level

omit [RandomSource γ]

theorem agrees_setSelector (name : Text) (selector : Selector γ) :
    Agrees (setSelector name selector) (setSelector name selector) := by
  rintro s _ ⟨notices, rfl⟩
  unfold setSelector
  cases s.rules.get? name with
  | none => exact .ok () ⟨_, rfl⟩
  | some rule => exact .ok () ⟨_, rfl⟩

variable {inner inner' : List Node → Work γ Text}
  (hinner : ∀ nodes, Agrees (inner nodes) (inner' nodes))

include hinner

theorem agrees_expandWith (origin : Origin) (reset : Bool) :
    Agrees (expandWith inner origin reset) (expandWith inner' origin reset) := by
  have hread : Agrees (readAndEvaluate inner origin) (readAndEvaluate inner' origin) := by
    refine follows_readAndEvaluate ?_ fun _ nodes _ _ => hinner nodes
    rintro s _ ⟨notices, rfl⟩
    rfl
  refine follows_expandWith (fun _ => not_false) ?_ ?_ hread reset
  · exact fun s t hst => hst.map Session.reset fun _ => ⟨_, rfl⟩
  · exact fun s t notice hst => hst.map (·.report notice) fun _ => ⟨_, rfl⟩

theorem agrees_grant [RandomSource γ] (request : Script.Request) :
    Agrees (grant inner request) (grant inner' request) := by
  cases request with
  | expand origin reset => exact agrees_expandWith hinner origin reset
  | addRule name d =>
      exact (registersAlike_sameButNotices.follows_addRule (fun _ _ => rfl) name).attempt
        fun _ => not_false
  | setSelector rule selector => exact agrees_setSelector rule (.custom selector)
  | bind name value =>
      exact follows_change fun s t hst => hst.map (·.bind name value) fun _ => ⟨_, rfl⟩
  | note entry =>
      exact follows_change fun s t hst =>
        hst.map (fun s => { s with journal := s.journal.push entry }) fun _ => ⟨_, rfl⟩
  | lookBack =>
      rintro s _ ⟨notices, rfl⟩
      exact .ok s.journal.toList ⟨notices, rfl⟩

/-- A script never sees the notices, whatever it asks for. -/
theorem agrees_runScript [RandomSource γ] (script : Script α) :
    Agrees (runScript inner script) (runScript inner' script) := by
  induction script with
  | done a => exact follows_pure a
  | fail fault => exact follows_stop fault
  | ask request next ih => exact (agrees_grant hinner request).bind fun answer => ih answer

end Level

theorem lockstep_sameButNotices (x : Extensions) :
    Lockstep (γ := γ) x (fun _ => True) (fun _ => SameButNotices) (fun _ => False) where
  toParallel := parallel_sameButNotices
  modifier _ hinner _ _ :=
    agrees_runScript (fun nodes => hinner 0 (Nat.zero_le _) nodes fun _ _ => trivial) _
  hook _ hinner _ :=
    agrees_runScript (fun nodes => hinner 0 (Nat.zero_le _) nodes fun _ _ => trivial) _

theorem agrees_evaluate (x : Extensions) (nodes : List Node) :
    Agrees (γ := γ) (evaluate x nodes) (evaluate x nodes) := by
  rintro s _ ⟨notices, rfl⟩
  exact (lockstep_sameButNotices x).follows_evaluateAt (.inl rfl) _ 0 (Nat.zero_le _) nodes
    (fun _ _ => trivial) s _ ⟨notices, rfl⟩

/-! ## Engines -/

namespace Engine

def Indistinct (e e' : Engine γ) : Prop :=
  ∃ notices, e' = { e with session := { e.session with notices := notices } }

theorem Indistinct.expandFrom {e e' : Engine γ} (h : e.Indistinct e') (origin : Origin)
    (reset : Bool) :
    (e'.expandFrom origin reset).1 = (e.expandFrom origin reset).1 ∧
      (e.expandFrom origin reset).2.Indistinct (e'.expandFrom origin reset).2 := by
  obtain ⟨notices, rfl⟩ := h
  have hexpand := agrees_expandWith (agrees_evaluate (γ := γ) e.extensions) origin reset
  unfold Engine.expandFrom TextGrammar.expand
  rcases hexpand.cases (s := e.session) ⟨notices, rfl⟩ with
    ⟨answer, u, _, hs, ht, _, rfl⟩ | ⟨fault, u, _, hs, ht, _, rfl⟩
  · simp only [hs, ht]
    exact ⟨trivial, _, rfl⟩
  · simp only [hs, ht]
    exact ⟨trivial, _, rfl⟩

omit [RandomSource γ] in
theorem Indistinct.perform {e e' : Engine γ} (h : e.Indistinct e') {m m' : Work γ α}
    (hm : Agrees m m') : (e.perform m).2.Indistinct (e'.perform m').2 := by
  obtain ⟨notices, rfl⟩ := h
  unfold Engine.perform
  rcases hm.cases (s := e.session) ⟨notices, rfl⟩ with
    ⟨answer, u, _, hs, ht, _, rfl⟩ | ⟨fault, u, _, hs, ht, _, rfl⟩
  · simp only [hs, ht]
    exact ⟨_, rfl⟩
  · simp only [hs, ht]
    exact ⟨_, rfl⟩

theorem Indistinct.serve {e e' : Engine γ} (h : e.Indistinct e') (request : Request γ) :
    (e.serve request).Indistinct (e'.serve request) := by
  cases request with
  | expand origin reset => exact (h.expandFrom origin reset).2
  | addRule name d =>
      exact h.perform (registersAlike_sameButNotices.follows_addRule (fun _ _ => rfl) name)
  | setSelector name selector => exact h.perform (agrees_setSelector name selector)
  | install sort name m =>
      obtain ⟨notices, rfl⟩ := h
      unfold Engine.serve Engine.install
      by_cases hknown : e.extensions.modifiers.contains name
      · simp only [hknown, if_true]
        exact ⟨_, rfl⟩
      · simp only [hknown]
        exact ⟨_, rfl⟩
  | addHook hook =>
      obtain ⟨notices, rfl⟩ := h
      exact ⟨_, rfl⟩
  | addTracer rules =>
      obtain ⟨notices, rfl⟩ := h
      exact ⟨_, rfl⟩

theorem Indistinct.serveAll {e e' : Engine γ} (h : e.Indistinct e')
    (requests : List (Request γ)) : (e.serveAll requests).Indistinct (e'.serveAll requests) := by
  induction requests generalizing e e' with
  | nil => exact h
  | cons request rest ih => exact ih (h.serve request)

end Engine

/-! ## Books -/

/-- A book has one thing more than another which registration drops: an entry, or a text of a
definition. What session the entry is dropped in does not matter, for it is then dropped in any. -/
inductive Padded (γ : Type) [RandomSource γ] :
    List (Value × Definition) → List (Value × Definition) → Prop
  | entry (before after : List (Value × Definition)) {name : Value} {d : Definition}
      {s t : Session γ} : addRule name d s = .ok false t →
      Padded γ (before ++ after) (before ++ (name, d) :: after)
  | text (before after : List (Value × Definition)) (name : Value) {d d' : Definition}
      (texts more : List Text) {text : Text} {fault : MarkupFault} :
      d.texts = .ok (texts ++ more) → d'.texts = .ok (texts ++ text :: more) →
      d'.selector = d.selector → parseText text true = .error (.malformed fault) →
      Padded γ (before ++ (name, d) :: after) (before ++ (name, d') :: after)

theorem Agrees.addRules_append {book book' : List (Value × Definition)}
    (h : Agrees (γ := γ) (addRules book) (addRules book'))
    (before : List (Value × Definition)) :
    Agrees (γ := γ) (addRules (before ++ book)) (addRules (before ++ book')) := by
  induction before with
  | nil => exact h
  | cons entry rest ih =>
      exact (registersAlike_sameButNotices.follows_addRule (fun _ _ => rfl) entry.1).bind
        fun _ => ih

theorem Padded.agrees_addRules {plain padded : List (Value × Definition)}
    (h : Padded γ plain padded) : Agrees (γ := γ) (addRules plain) (addRules padded) := by
  cases h with
  | entry before after hdropped =>
      refine Agrees.addRules_append (fun s t hst => ?_) before
      obtain ⟨u, hu, htu⟩ := addRule_of_dropped hdropped t
      rw [addRules, bind_of_ok hu]
      exact registersAlike_sameButNotices.follows_addRules after s u (hst.trans htu)
  | text before after name texts more hd hd' hselector hmalformed =>
      refine Agrees.addRules_append ?_ before
      have hadd : Agrees (γ := γ) _ _ := registersAlike_sameButNotices.follows_addRule
        (Rule.build_snd_of_malformed hd hd' hselector hmalformed) name
      exact hadd.bind fun _ => registersAlike_sameButNotices.follows_addRules after

/-- What registration drops is invisible. With an entry more that registration answers no to, or
with a malformed text more in a definition, the engine that is made of a book has the same rules in
the same order, with the same candidates and the same selectors in the same state, the same source
of randomness and the same findings; and after whatever it is asked, every expansion gives the same
text. Where no engine is made, it is for the same fault. -/
theorem dropped_input_invisible {plain padded : List (Value × Definition)}
    (h : Padded γ plain padded) (options : Options) (random : γ) :
    (∀ e, Engine.create plain options random = .ok e →
      ∃ e', Engine.create padded options random = .ok e' ∧
        (∃ notices, e' = { e with session := { e.session with notices := notices } }) ∧
        ∀ (requests : List (Request γ)) (origin : Origin) (reset : Bool),
          ((e'.serveAll requests).expandFrom origin reset).1 =
            ((e.serveAll requests).expandFrom origin reset).1) ∧
      ∀ fault notices, Engine.create plain options random = .error (fault, notices) →
        ∃ notices', Engine.create padded options random = .error (fault, notices') := by
  unfold Engine.create
  cases contextOfDepth (options.maxDepth.getD Context.defaultMaxDepth) with
  | error fault =>
      refine ⟨nofun, fun other notices hfault => ?_⟩
      cases hfault
      exact ⟨[], rfl⟩
  | ok context =>
      have hstart : SameButNotices (Session.start options.policy context random)
          (Session.start options.policy context random) := ⟨#[], rfl⟩
      simp only
      have hread : Agrees (γ := γ) (readBook plain options) (readBook padded options) :=
        registersAlike_sameButNotices.follows_readBook h.agrees_addRules rfl
      rcases hread.cases hstart with
        ⟨findings, u, v, hplain, hpadded, notices, rfl⟩ | ⟨fault, u, v, hplain, hpadded, -⟩
      · rw [hplain, hpadded]
        refine ⟨fun e he => ?_, nofun⟩
        cases he
        refine ⟨_, rfl, ⟨notices, rfl⟩, fun requests origin reset => ?_⟩
        have hserved := Engine.Indistinct.serveAll
          (e := ⟨u, .none, options.policy, findings⟩) ⟨notices, rfl⟩ requests
        exact (hserved.expandFrom origin reset).1
      · rw [hplain, hpadded]
        refine ⟨nofun, fun _ _ hfault => ?_⟩
        cases hfault
        exact ⟨_, rfl⟩

/-- A malformed text stands between two that are shuffled. -/
theorem dropped_input_invisible_between : ∃ e e' : Engine Twister,
    Engine.create [(.text "r", .ofTexts ["a", "b"])] .standard ⟨#[], 0⟩ = .ok e ∧
      Engine.create [(.text "r", .ofTexts ["a", "#", "b"])] .standard ⟨#[], 0⟩ = .ok e' ∧
      e'.session.rules = e.session.rules ∧ e'.session.random = e.session.random ∧
      ∀ reset, (e'.expandFrom (.text "#r#") reset).1 = (e.expandFrom (.text "#r#") reset).1 := by
  have hpadded : Padded Twister [(.text "r", .ofTexts ["a", "b"])]
      [(.text "r", .ofTexts ["a", "#", "b"])] :=
    .text [] [] (.text "r") ["a"] ["b"] (Definition.texts_ofTexts _) (Definition.texts_ofTexts _)
      rfl rfl
  obtain ⟨e, hplain⟩ : ∃ e : Engine Twister,
      Engine.create [(.text "r", .ofTexts ["a", "b"])] .standard ⟨#[], 0⟩ = .ok e := ⟨_, rfl⟩
  obtain ⟨e', he', ⟨notices, rfl⟩, hanswers⟩ :=
    (dropped_input_invisible hpadded .standard ⟨#[], 0⟩).1 e hplain
  exact ⟨e, _, hplain, he', rfl, rfl, hanswers [] (.text "#r#")⟩

end TextGrammar
