import TextGrammar.Proofs.Engine.Abreast
import TextGrammar.Proofs.Registry.Invariant
import TextGrammar.Proofs.Registry.Reseeding

/-!
# Nothing left to chance

Where each rule has one candidate, and a selector that was inferred, choosing neither draws nor
changes the rule (`exists_select_of_certain`). So along any evaluation two sessions may differ in
their sources of randomness, and in what is written and never read, the tracers, the journal of
forgetful scripts and the notices (`SameButChance`); both keep their sources and rules
(`Session.StandsOn`). A reset drops all else that an expansion may have changed. So an expansion
with a reset is answered alike whatever was done before, and by engines with different sources.
-/

namespace TextGrammar

open Work

variable {γ : Type} [RandomSource γ]

/-! ## Sessions -/

/-- A session has what expansions leave as it is from another one: the rules, the source of
randomness, the maximal depth, the way to keep tags, and the number of tracers. -/
structure Session.StandsOn (s base : Session γ) : Prop where
  rules : s.rules = base.rules
  random : s.random = base.random
  maxDepth : s.context.maxDepth = base.context.maxDepth
  tags : s.tags.removeAll = base.tags.removeAll
  tracers : s.tracers.size = base.tracers.size

/-- Two sessions stand on the same, but the second has a source of its own, and they may differ in
what is written and not read. -/
def SameButChance (base : Session γ) (random : γ) (s t : Session γ) : Prop :=
  s.StandsOn base ∧ ∃ tracers journal notices, tracers.size = s.tracers.size ∧
    t = { s with random := random, tracers := tracers, journal := journal, notices := notices }

omit [RandomSource γ] in
@[refl] theorem Session.StandsOn.refl (s : Session γ) : s.StandsOn s := ⟨rfl, rfl, rfl, rfl, rfl⟩

omit [RandomSource γ] in
theorem Session.StandsOn.trans {s t u : Session γ} (hst : s.StandsOn t) (htu : t.StandsOn u) :
    s.StandsOn u :=
  ⟨hst.rules.trans htu.rules, hst.random.trans htu.random, hst.maxDepth.trans htu.maxDepth,
    hst.tags.trans htu.tags, hst.tracers.trans htu.tracers⟩

omit [RandomSource γ] in
theorem Session.standsOn_bind (s : Session γ) (name : Text) (value : Option Text) :
    (s.bind name value).StandsOn s := ⟨rfl, rfl, rfl, TagStore.removeAll_bind .., rfl⟩

namespace SameButChance

variable {base s t : Session γ} {random : γ}

omit [RandomSource γ] in
theorem rebase (h : SameButChance base random s t) : SameButChance s random s t := ⟨.refl s, h.2⟩

omit [RandomSource γ] in
theorem self (h : s.StandsOn base) : SameButChance base base.random s s := by
  refine ⟨h, s.tracers, s.journal, s.notices, rfl, ?_⟩
  rw [← h.random]

omit [RandomSource γ] in
theorem size_tracers (h : SameButChance base random s t) : t.tracers.size = s.tracers.size := by
  obtain ⟨-, _, _, _, hsize, rfl⟩ := h
  exact hsize

omit [RandomSource γ] in
theorem random_right (h : SameButChance base random s t) : t.random = random := by
  obtain ⟨-, _, _, _, -, rfl⟩ := h
  rfl

omit [RandomSource γ] in
/-- What both do alike does not part them, where it keeps what they stand on. -/
theorem map (h : SameButChance base random s t) (f : Session γ → Session γ)
    (hf : (f s).StandsOn s)
    (hsame : ∀ tracers journal notices, ∃ tracers' journal' notices',
      tracers'.size = tracers.size ∧
        f { s with random := random, tracers := tracers, journal := journal, notices := notices } =
          { f s with
            random := random, tracers := tracers', journal := journal', notices := notices' }) :
    SameButChance base random (f s) (f t) := by
  obtain ⟨hs, tracers, journal, notices, hsize, rfl⟩ := h
  obtain ⟨tracers', journal', notices', hsize', heq⟩ := hsame tracers journal notices
  exact ⟨hf.trans hs, tracers', journal', notices',
    (hsize'.trans hsize).trans hf.tracers.symm, heq⟩

end SameButChance

/-- The rule chooses its candidate without drawing, and stays as it is. -/
theorem exists_select_of_certain {rule : Rule γ} (hone : rule.candidates.length = 1)
    (hinferred : rule.Inferred) :
    ∃ choice, ∀ shared : γ, rule.select shared = .ok (some choice, rule, shared) := by
  have hfirst := hinferred.selector_eq_first hone
  obtain ⟨candidates, selector⟩ := rule
  obtain rfl : selector = .first := hfirst
  obtain ⟨c, rfl⟩ := List.length_eq_one_iff.1 hone
  exact ⟨(.number 0, c), fun _ => rfl⟩

theorem endAlike_selectCandidate_of_certain {base s t : Session γ} {random : γ}
    (hbase : base.rules.Certain) (h : SameButChance base random s t) {name : Text}
    {rule : Rule γ} (hrule : s.rules.get? name = some rule) (cut : Fault → Prop) :
    EndAlike (SameButChance base random) cut (selectCandidate name rule s)
      (selectCandidate name rule t) := by
  have hcertain := hbase name rule (h.1.rules ▸ hrule)
  obtain ⟨choice, hchoice⟩ := exists_select_of_certain hcertain.1 hcertain.2
  have hselect (u : Session γ) (hu : u.rules.get? name = some rule) :
      selectCandidate name rule u = .ok choice u := by
    unfold selectCandidate
    simp only [hchoice, Lexicon.put_of_get? hu]
  have hrule' : t.rules.get? name = some rule := by
    obtain ⟨-, _, _, _, -, rfl⟩ := h
    exact hrule
  rw [hselect s hrule, hselect t hrule']
  exact .ok choice h

theorem parallel_sameButChance {base : Session γ} (hbase : base.rules.Certain) (random : γ) :
    Parallel (fun _ => True) (fun _ => SameButChance base random) (fun _ => False) where
  depth := by
    rintro k s _ ⟨-, _, _, _, -, rfl⟩
    rfl
  enter := by
    rintro k frame s _ c ⟨hs, tracers, journal, notices, hsize, rfl⟩ henter
    exact ⟨c, henter, ⟨hs.rules, hs.random, (Context.enter_eq_ok_iff.1 henter).1.trans hs.maxDepth,
      hs.tags, hs.tracers⟩, tracers, journal, notices, hsize, rfl⟩
  full := by
    rintro k frame s _ o ⟨-, _, _, _, -, rfl⟩ hfull
    exact .inr hfull
  leave s t h := h.map (fun s => { s with context := s.context.leave }) ⟨rfl, rfl, rfl, rfl, rfl⟩
    fun _ _ _ => ⟨_, _, _, rfl, rfl⟩
  enterScope s t h := h.map (fun s => { s with tags := s.tags.enterScope })
    ⟨rfl, rfl, rfl, TagStore.removeAll_enterScope _, rfl⟩ fun _ _ _ => ⟨_, _, _, rfl, rfl⟩
  exitScope s t h := h.map (fun s => { s with tags := s.tags.exitScope })
    ⟨rfl, rfl, rfl, TagStore.removeAll_exitScope _, rfl⟩ fun _ _ _ => ⟨_, _, _, rfl, rfl⟩
  bind {k a s t} text _ h := h.map (·.bind a.name (some text)) (s.standsOn_bind _ _)
    fun _ _ _ => ⟨_, _, _, rfl, rfl⟩
  lookup := by
    rintro k s _ name ⟨-, _, _, _, -, rfl⟩
    rfl
  missing {k s t name} h hmissing := by
    refine ⟨?_, h.map (·.recordUnresolved name) ⟨rfl, rfl, rfl, rfl, rfl⟩
      fun _ _ _ => ⟨_, _, _, rfl, rfl⟩⟩
    obtain ⟨-, _, _, _, -, rfl⟩ := h
    exact hmissing
  rule {k s t name rule} h hrule := by
    refine ⟨rule, ?_, endAlike_selectCandidate_of_certain hbase h hrule _⟩
    obtain ⟨-, _, _, _, -, rfl⟩ := h
    exact hrule
  candidate _ _ _ _ _ := trivial
  record e h := h.map (·.record e) ⟨rfl, rfl, rfl, rfl, rfl⟩ fun _ _ _ => ⟨_, _, _, rfl, rfl⟩
  trace s t tracer e h := h.map (·.trace tracer e) ⟨rfl, rfl, rfl, rfl, Array.size_modify⟩
    fun _ _ _ => ⟨_, _, _, Array.size_modify, rfl⟩
  note s t entry h := h.map (fun s => { s with journal := s.journal.push entry })
    ⟨rfl, rfl, rfl, rfl, rfl⟩ fun _ _ _ => ⟨_, _, _, rfl, rfl⟩

/-- Modifiers and hooks that ask for nothing, and depend on nothing but what they are given. -/
structure Extensions.Innocent (x : Extensions) : Prop where
  detached : x.Detached
  forgetful : x.Forgetful

theorem follows_expand_sameButChance {x : Extensions} (hx : x.Innocent) {base : Session γ}
    (hbase : base.rules.Certain) (random : γ) (origin : Origin) (reset : Bool) :
    Follows (SameButChance base random) (fun _ => False) (expand x origin reset)
      (expand x origin reset) := by
  refine follows_expandWith (fun _ => not_false) (fun s t h => ?_) (fun s t notice h => ?_) ?_ reset
  · exact h.map Session.reset ⟨rfl, rfl, rfl, TagStore.removeAll_removeAll _, rfl⟩
      fun _ _ _ => ⟨_, _, _, rfl, rfl⟩
  · exact h.map (·.report notice) ⟨rfl, rfl, rfl, rfl, rfl⟩ fun _ _ _ => ⟨_, _, _, rfl, rfl⟩
  · refine follows_readAndEvaluate ?_ fun text nodes _ _ => ?_
    · rintro s _ ⟨-, _, _, _, -, rfl⟩
      rfl
    · intro s t hst
      have hmax : t.context.maxDepth = s.context.maxDepth := by
        obtain ⟨-, _, _, _, -, rfl⟩ := hst
        rfl
      unfold evaluate
      rw [hmax]
      exact ((parallel_sameButChance hbase random).lockstep_of_detached hx.detached
        (.inl hx.forgetful)).follows_evaluateAt (.inl rfl) _ 0 (Nat.zero_le _) nodes
          (fun _ _ => trivial) s t hst

/-! ## Engines with two sources -/

/-- A request that changes no rule, and brings no other extensions than such. -/
def Request.Innocent : Request γ → Prop
  | .expand .. => True
  | .addRule .. => False
  | .setSelector .. => False
  | .install _ _ m => ∀ text args, (m text args).Detached ∧ (m text args).Forgetful
  | .addHook hook => ∀ f, hook = .call f → ∀ e, (f e).Detached ∧ (f e).Forgetful
  | .addTracer _ => True

namespace Extensions

omit [RandomSource γ]

theorem innocent_none : none.Innocent := ⟨obey_none, obey_none⟩

theorem Innocent.put {x : Extensions} (h : x.Innocent) {m : Modifier}
    (hm : ∀ text args, (m text args).Detached ∧ (m text args).Forgetful) (name : Text) :
    Extensions.Innocent { x with modifiers := x.modifiers.put name m } :=
  ⟨h.detached.put (fun text args => (hm text args).1) name,
    h.forgetful.put (fun text args => (hm text args).2) name⟩

theorem Innocent.addHook {x : Extensions} (h : x.Innocent) {hook : Hook}
    (hhook : ∀ f, hook = .call f → ∀ e, (f e).Detached ∧ (f e).Forgetful) :
    Extensions.Innocent { x with hooks := x.hooks ++ [hook] } :=
  ⟨h.detached.addHook fun f hf e => (hhook f hf e).1,
    h.forgetful.addHook fun f hf e => (hhook f hf e).2⟩

end Extensions

/-- Two sessions in which nothing is left to chance, each with a source of its own. -/
structure SameButSource (here there : γ) (s t : Session γ) : Prop where
  certain : s.rules.Certain
  random : s.random = here
  same : SameButChance s there s t

theorem SameButSource.of_standsOn {here there : γ} {base s t : Session γ}
    (hcertain : base.rules.Certain) (hhere : base.random = here)
    (h : SameButChance base there s t) : SameButSource here there s t :=
  ⟨h.1.rules.symm ▸ hcertain, h.1.random.trans hhere, h.rebase⟩

/-- No innocent request draws from either source, and all of them are answered alike. -/
theorem servedAlike_sameButSource (here there : γ) :
    ServedAlike Request.Innocent Extensions.Innocent (SameButSource here there) where
  expand {x origin reset} hx _ s t hst :=
    (follows_expand_sameButChance hx hst.certain there origin reset s t hst.same).imp
      fun _ _ huv => .of_standsOn hst.certain hst.random huv
  addRule h := h.elim
  setSelector h := h.elim
  install hx hm := hx.put hm _
  addHook hx hhook := hx.addHook hhook
  traceHook _ hx := hx.addHook nofun
  report notice hst := .of_standsOn hst.certain hst.random <|
    hst.same.map (·.report notice) ⟨rfl, rfl, rfl, rfl, rfl⟩ fun _ _ _ => ⟨_, _, _, rfl, rfl⟩
  size_tracers hst := hst.same.size_tracers
  tracer {s t} tracer hst := by
    obtain ⟨hcertain, hrandom, -, tracers, journal, notices, hsize, rfl⟩ := hst
    refine ⟨hcertain, hrandom, .refl _, tracers.push tracer, journal, notices, ?_, rfl⟩
    rw [Array.size_push, Array.size_push, hsize]

namespace Engine

/-- A new engine leaves nothing to chance if each rule has one candidate, and none has a selector
that was given. -/
theorem certain_of_create {book : List (Value × Definition)} {options : Options} {random : γ}
    {e : Engine γ} (h : create book options random = .ok e)
    (hrules : ∀ entry ∈ e.session.rules.entries,
      entry.2.candidates.length = 1 ∧ entry.2.selector.isGiven = false) :
    e.session.rules.Certain := by
  intro name rule hrule
  obtain ⟨hone, hgiven⟩ := hrules _ ((Lexicon.get?_eq_some_iff _).1 hrule)
  refine ⟨hone, ?_⟩
  rcases (lawful_selector fun _ _ => False).made h name rule hrule with
    hinferred | hdirected
  · exact hinferred
  · cases hgiven.symm.trans (hdirected.isGiven fun _ => not_false)

/-- Two engines answer any expansion alike, and have recorded the same since the last reset. -/
structure ShowsAlike (e e' : Engine γ) : Prop where
  answer (origin : Origin) (reset : Bool) :
    (e'.expandFrom origin reset).1 = (e.expandFrom origin reset).1
  tags : e'.tags = e.tags
  events : e'.session.events = e.session.events
  counts : e'.session.counts = e.session.counts
  unresolved : e'.session.unresolved = e.session.unresolved

/-- The engine after expansions and after bindings of tags from outside, whatever has become of
them. -/
inductive Used (e : Engine γ) : Engine γ → Prop
  | refl : Used e e
  | expand {later : Engine γ} (origin : Origin) (reset : Bool) : Used e later →
      Used e (later.expandFrom origin reset).2
  | bind {later : Engine γ} (name : Text) (value : Option Text) : Used e later →
      Used e (later.update (·.bind name value))

variable {e e' later : Engine γ} {here there : γ}

theorem showsAlike_of_sameButSource
    (h : Abreast Extensions.Innocent (SameButSource here there) e e') : e.ShowsAlike e' := by
  have hanswer (origin : Origin) (reset : Bool) :
      (e'.expandFrom origin reset).1 = (e.expandFrom origin reset).1 :=
    (h.expandFrom ((servedAlike_sameButSource here there).expand h.kind trivial)).1
  obtain ⟨-, _, _, _, -, hsession⟩ := h.session.same
  refine ⟨hanswer, ?_, ?_, ?_, ?_⟩
  · rw [Engine.tags, hsession]
    rfl
  all_goals rw [hsession]

/-! ## One engine, used before -/

/-- What an engine stands on is not worn by use. -/
theorem standsOn_of_used (hinnocent : e.extensions.Innocent) (hcertain : e.session.rules.Certain)
    (h : e.Used later) :
    later.extensions = e.extensions ∧ later.session.StandsOn e.session := by
  induction h with
  | refl => exact ⟨rfl, .refl _⟩
  | @expand later origin reset _ ih =>
      have hlater : later.Abreast Extensions.Innocent
          (SameButChance e.session e.session.random) later :=
        ⟨rfl, ih.1 ▸ hinnocent, .self ih.2⟩
      have hexpand := hlater.expandFrom
        (follows_expand_sameButChance hlater.kind hcertain e.session.random origin reset)
      exact ⟨(later.extensions_expandFrom origin reset).trans ih.1, hexpand.2.session.1⟩
  | @bind later name value _ ih =>
      exact ⟨ih.1, (later.session.standsOn_bind name value).trans ih.2⟩

omit [RandomSource γ] in
/-- A reset leaves of a session what it stands on, and what is written and not read. -/
theorem sameButChance_reset {s base : Session γ} (h : s.StandsOn base) :
    SameButChance base base.random base.reset s.reset := by
  have hclear : s.context.clear = base.context.clear := Context.ext h.maxDepth rfl
  refine ⟨⟨rfl, rfl, rfl, TagStore.removeAll_removeAll _, rfl⟩, s.tracers, s.journal, s.notices,
    h.tracers, ?_⟩
  simp only [Session.reset, h.rules, h.random, h.tags, hclear]

/-- An expansion with a reset is one without it from the session that is reset. -/
theorem expandFrom_reset (e : Engine γ) (origin : Origin) :
    e.expandFrom origin true = (e.update Session.reset).expandFrom origin false := rfl

theorem answer_of_used (hinnocent : e.extensions.Innocent) (hcertain : e.session.rules.Certain)
    (h : e.Used later) (origin : Origin) :
    (later.expandFrom origin true).1 = (e.expandFrom origin true).1 := by
  obtain ⟨hextensions, hstands⟩ := standsOn_of_used hinnocent hcertain h
  have hreset : (e.update Session.reset).Abreast Extensions.Innocent
      (SameButChance e.session e.session.random) (later.update Session.reset) :=
    ⟨hextensions, hinnocent, sameButChance_reset hstands⟩
  rw [expandFrom_reset, expandFrom_reset]
  exact (hreset.expandFrom
    (follows_expand_sameButChance hinnocent hcertain e.session.random origin false)).1

end Engine

/-- If each rule of a new engine has one candidate and an inferred selector, then any other source
makes an engine that answers and records the same, whatever both are asked for; nothing is drawn by
that. And what one of them answers after a reset does not depend on what was done before. -/
theorem certain_rules_leave_nothing_to_chance {book : List (Value × Definition)}
    {options : Options} {random : γ} {e : Engine γ}
    (he : Engine.create book options random = .ok e) (hcertain : e.session.rules.Certain)
    (random' : γ) :
    ∃ e', Engine.create book options random' = .ok e' ∧
      ∀ requests : List (Request γ), (∀ request ∈ requests, request.Innocent) →
        (e.serveAll requests).ShowsAlike (e'.serveAll requests) ∧
        (e.serveAll requests).session.random = e.session.random ∧
        (e'.serveAll requests).session.random = e'.session.random ∧
        ∀ later, (e.serveAll requests).Used later → ∀ origin,
          (later.expandFrom origin true).1 = ((e.serveAll requests).expandFrom origin true).1 := by
  obtain ⟨left, he'⟩ := Engine.exists_create_reseeded he hcertain random'
  have hsame : Engine.Abreast Extensions.Innocent (SameButSource e.session.random left) e
      { e with session := { e.session with random := left } } :=
    ⟨rfl, (Engine.extensions_of_create he) ▸ Extensions.innocent_none, hcertain, rfl, .refl _,
      _, _, _, rfl, rfl⟩
  refine ⟨_, he', fun requests hrequests => ?_⟩
  have hserved := hsame.serveAll (servedAlike_sameButSource _ _) hrequests
  exact ⟨Engine.showsAlike_of_sameButSource hserved, hserved.session.random,
    hserved.session.same.random_right,
    fun later hlater => Engine.answer_of_used hserved.kind hserved.session.certain hlater⟩

/-- A rule of two candidates is replaced by one with a weight, and of two candidates of the other
rule one is malformed. An expansion fails and leaves its tag bound, and then a rule is hidden by a
tag. -/
theorem certain_rules_leave_nothing_to_chance_replaced :
    ∃ (book : List (Value × Definition)) (e e' : Engine Twister)
      (requests : List (Request Twister)),
      book = [(.text "r", .ofTexts ["a", "b"]), (.text "r", .ofTexts ["x,3"]),
        (.text "s", .ofTexts ["#", "y#r.twice#"])] ∧
      Engine.create book .standard (.ofSeed 1) = .ok e ∧
      Engine.create book .standard (.ofSeed 2) = .ok e' ∧
      e.session.rules.Certain ∧
      requests = [
        .install .modifier "twice" (.ofText fun text => .done (text.map fun t => t ++ t)),
        .expand (.text "[t:#s#]#t#-#s.absent#") false] ∧
      (∀ request ∈ requests, request.Innocent) ∧
      (e.serveAll requests).session.events.size = 4 ∧
      (e'.serveAll requests).session.events = (e.serveAll requests).session.events ∧
      ((e.serveAll requests).expandFrom (.text "#s##t#") true).1 = "yxx((t))" ∧
      (((e.serveAll requests).update (·.bind "s" (some "q"))).expandFrom
        (.text "#s##t#") true).1 = "yxx((t))" := by
  let book : List (Value × Definition) := [(.text "r", .ofTexts ["a", "b"]),
    (.text "r", .ofTexts ["x,3"]), (.text "s", .ofTexts ["#", "y#r.twice#"])]
  let requests : List (Request Twister) := [
    .install .modifier "twice" (.ofText fun text => .done (text.map fun t => t ++ t)),
    .expand (.text "[t:#s#]#t#-#s.absent#") false]
  obtain ⟨e, he, hcheck⟩ : ∃ e : Engine Twister,
      Engine.create book .standard (.ofSeed 1) = .ok e ∧
        ((e.session.rules.entries.all fun entry =>
            decide (entry.2.candidates.length = 1) && !entry.2.selector.isGiven) &&
          decide ((e.serveAll requests).session.events.size = 4) &&
          decide (((e.serveAll requests).expandFrom (.text "#s##t#") true).1 = "yxx((t))")) =
            true :=
    Engine.exists_of_create (by decide +kernel)
  simp only [Bool.and_eq_true, decide_eq_true_eq, List.all_eq_true, Bool.not_eq_true'] at hcheck
  obtain ⟨⟨hrules, hevents⟩, hanswer⟩ := hcheck
  have hcertain := Engine.certain_of_create he hrules
  have hrequests : ∀ request ∈ requests, request.Innocent := by
    simp only [requests, List.forall_mem_cons]
    exact ⟨fun _ _ => ⟨.done trivial, .done trivial⟩, trivial, nofun⟩
  obtain ⟨e', he', hsame⟩ := certain_rules_leave_nothing_to_chance he hcertain (.ofSeed 2)
  obtain ⟨halike, -, -, hused⟩ := hsame requests hrequests
  have hbound := hused _ (.bind "s" (some "q") .refl) (.text "#s##t#")
  exact ⟨book, e, e', requests, rfl, he, he', hcertain, rfl, hrequests, hevents, halike.events,
    hanswer, hbound.trans hanswer⟩

end TextGrammar
