import TextGrammar.Proofs.Engine.Abreast
import TextGrammar.Proofs.Evaluation.Scoping
import TextGrammar.Proofs.Registry.SideBySide

/-!
# The policies compared

Two engines are made of one rule book, one with each policy. Their candidates bind nothing, and what
they are asked to expand binds nothing inside of references. Then nobody can tell them apart by what
they answer, nor by what they have bound, recorded or drawn: the relation of their sessions
(`SameOuter`) is there from the start and kept by every request (`servedAlike_sameOuter`).
-/

namespace TextGrammar

open Work

variable {γ : Type} [RandomSource γ]

/-! ## What requests keep -/

/-- A request that binds nothing inside of references, and brings no extension that asks for
anything. -/
def Request.BindsOutside : Request γ → Prop
  | .expand origin _ => origin.Actionless
  | .addRule .. => False
  | .setSelector .. => True
  | .install _ _ m => ∀ text args, (m text args).Detached
  | .addHook hook => ∀ f, hook = .call f → ∀ e, (f e).Detached
  | .addTracer _ => True

omit [RandomSource γ] in
theorem follows_setSelector_sameOuter {book : RuleBook γ} (name : Text)
    (selector : Selector γ) :
    Follows (SameOuter book) (fun _ => False) (setSelector name selector)
      (setSelector name selector) := by
  rintro s _ ⟨⟨notices, hsame, hflat, hopened⟩, hone⟩
  unfold setSelector
  cases hrule : s.rules.get? name with
  | none => exact .ok () ⟨.intro _ (hsame.of_rules rfl) hflat hopened, hone⟩
  | some rule =>
      have hput : SameCandidates book { s with
          rules := s.rules.put name { rule with selector := selector }, random := s.random } := by
        apply hsame.put hrule
        rfl
      exact .ok () ⟨.intro _ hput hflat hopened, hone⟩

theorem servedAlike_sameOuter {book : RuleBook γ}
    (hbook : ∀ c, book.HasCandidate c → ∀ n ∈ Node.walkAll c.nodes, n.BindsNothing) :
    ServedAlike Request.BindsOutside Extensions.Detached (SameOuter book) where
  expand hx horigin := outer_expand hx hbook horigin _
  addRule h := h.elim
  setSelector _ := follows_setSelector_sameOuter _ _
  install hx hm := hx.put hm _
  addHook hx hhook := hx.addHook hhook
  traceHook _ hx := hx.addHook nofun
  report notice h := h.map (·.report notice) rfl (fun _ => rfl) fun _ _ => rfl
  size_tracers h := congrArg Array.size h.bindings.tracers_eq
  tracer tracer h := h.map (fun s => { s with tracers := s.tracers.push tracer }) rfl
    (fun _ => rfl) fun _ _ => rfl

namespace Engine

/-- Two engines with the same extensions, which ask for nothing, and with sessions that differ in
how they keep their tags. -/
structure SameButPolicy (book : RuleBook γ) (e e' : Engine γ) : Prop where
  extensions : e'.extensions = e.extensions
  detached : e.extensions.Detached
  session : SameOuter book e.session e'.session

namespace SameButPolicy

variable {book : RuleBook γ} {e e' : Engine γ}

omit [RandomSource γ] in
theorem iff_abreast :
    SameButPolicy book e e' ↔ Abreast Extensions.Detached (SameOuter book) e e' :=
  ⟨fun h => ⟨h.extensions, h.detached, h.session⟩, fun h => ⟨h.extensions, h.kind, h.session⟩⟩

theorem expandFrom
    (hbook : ∀ c, book.HasCandidate c → ∀ n ∈ Node.walkAll c.nodes, n.BindsNothing)
    (h : SameButPolicy book e e') {origin : Origin} (horigin : origin.Actionless) (reset : Bool) :
    (e'.expandFrom origin reset).1 = (e.expandFrom origin reset).1 :=
  ((iff_abreast.1 h).expandFrom (outer_expand h.detached hbook horigin reset)).1

theorem serveAll
    (hbook : ∀ c, book.HasCandidate c → ∀ n ∈ Node.walkAll c.nodes, n.BindsNothing)
    (h : SameButPolicy book e e') {requests : List (Request γ)}
    (hrequests : ∀ request ∈ requests, request.BindsOutside) :
    SameButPolicy book (e.serveAll requests) (e'.serveAll requests) :=
  iff_abreast.2 ((iff_abreast.1 h).serveAll (servedAlike_sameOuter hbook) hrequests)

end SameButPolicy

end Engine

/-! ## Making two engines -/

/-- Two sessions are alike but for notices, and without tags. -/
def StartsAlike (s t : Session γ) : Prop :=
  s.tags = .flat .empty ∧ ∃ notices, t = { s with tags := .nested .empty [], notices := notices }

omit [RandomSource γ] in
theorem registersAlike_startsAlike : RegistersAlike (StartsAlike (γ := γ)) where
  rules := by
    rintro s _ ⟨-, notices, rfl⟩
    rfl
  random := by
    rintro s _ ⟨-, notices, rfl⟩
    rfl
  notices := by
    rintro s _ here there ⟨htags, notices, rfl⟩
    exact ⟨htags, there, rfl⟩
  put := by
    rintro s _ rules random ⟨htags, notices, rfl⟩
    exact ⟨htags, notices, rfl⟩

theorem Engine.SameButPolicy.create {book : List (Value × Definition)} {options : Options}
    {random : γ} {e : Engine γ}
    (h : Engine.create book { options with policy := .flat } random = .ok e) :
    ∃ e', Engine.create book { options with policy := .nested } random = .ok e' ∧
      Engine.SameButPolicy e.session.rules e e' := by
  unfold Engine.create at h ⊢
  cases hcontext : contextOfDepth (options.maxDepth.getD Context.defaultMaxDepth) with
  | error fault =>
      simp only [hcontext] at h
      cases h
  | ok context =>
      simp only [hcontext] at h ⊢
      have hstart : StartsAlike (Session.start .flat context random)
          (Session.start .nested context random) := ⟨rfl, #[], rfl⟩
      have hread : Follows StartsAlike (fun _ => False)
          (readBook book { options with policy := .flat })
          (readBook (γ := γ) book { options with policy := .nested }) :=
        registersAlike_startsAlike.follows_readBook
          (registersAlike_startsAlike.follows_addRules book) rfl
      rcases (hread _ _ hstart).inv with ⟨findings, u, v, hu, hv, htags, notices, rfl⟩ |
        ⟨fault, u, v, hu, hv, -⟩ | ⟨_, _, _, hcut⟩
      · rw [hu] at h
        cases h
        rw [hv]
        refine ⟨_, rfl, rfl, Extensions.obey_none, ?_, rfl⟩
        exact .intro notices (.refl u) htags .root
      · rw [hu] at h
        cases h
      · exact hcut.elim

/-! ## What they have in common -/

/-- Two engines agree on the visible tags, in their order, on what they have recorded, on their
rules with the states of their selectors, and on the source of randomness. -/
structure Engine.Agree (e e' : Engine γ) : Prop where
  tags : e'.tags = e.tags
  events : e'.session.events = e.session.events
  counts : e'.session.counts = e.session.counts
  unresolved : e'.session.unresolved = e.session.unresolved
  rules : e'.session.rules = e.session.rules
  random : e'.session.random = e.session.random

omit [RandomSource γ] in
theorem Engine.SameButPolicy.agree {book : RuleBook γ} {e e' : Engine γ}
    (h : e.SameButPolicy book e') : e.Agree e' := by
  obtain ⟨-, -, hbindings, hone⟩ := h
  obtain ⟨session', extensions', policy', findings'⟩ := e'
  obtain ⟨notices, -, hflat, hopened⟩ := hbindings
  obtain rfl := hopened.eq_of_scopes hone
  refine ⟨?_, rfl, rfl, rfl, rfl, rfl⟩
  unfold Engine.tags
  rw [hflat]
  exact TagStore.snapshot_nested_nil _

/-- Flat and scoped tags agree where nothing is bound inside of references. Of a book whose
candidates assign no tags, neither among their nodes nor in actions, an engine is made with the one
policy and one with the other; and whatever both are asked to expand, with or without a reset, as
long as no reference in it has actions, and with modifiers and hooks that ask nothing of the engine,
they give the same answer and agree on all that they have bound, recorded and drawn. -/
theorem policies_agree {book : List (Value × Definition)} {options : Options} {random : γ}
    {flat : Engine γ}
    (hflat : Engine.create book { options with policy := .flat } random = .ok flat)
    (hbook : ∀ c, flat.session.rules.HasCandidate c → Node.assignedTags c.nodes = []) :
    ∃ nested, Engine.create book { options with policy := .nested } random = .ok nested ∧
      ∀ requests : List (Request γ), (∀ request ∈ requests, request.BindsOutside) →
        (flat.serveAll requests).Agree (nested.serveAll requests) ∧
          ∀ origin reset, origin.Actionless →
            ((nested.serveAll requests).expandFrom origin reset).1 =
              ((flat.serveAll requests).expandFrom origin reset).1 := by
  have hnothing : ∀ c, flat.session.rules.HasCandidate c →
      ∀ n ∈ Node.walkAll c.nodes, n.BindsNothing :=
    fun c hc => List.filterMap_eq_nil_iff.1 (hbook c hc)
  obtain ⟨nested, hnested, hsame⟩ := Engine.SameButPolicy.create hflat
  refine ⟨nested, hnested, fun requests hrequests => ?_⟩
  have hserved := hsame.serveAll hnothing hrequests
  exact ⟨hserved.agree, fun origin reset horigin => hserved.expandFrom hnothing horigin reset⟩

/-- Tags are bound and looked up before, inside and after references, and one text is malformed. -/
theorem policies_agree_shuffled :
    let book : List (Value × Definition) :=
      [(.text "r", .ofTexts ["#t#!", "y", "#s#"]), (.text "s", .ofTexts ["#t##u#"])]
    let requests : List (Request Twister) :=
      [.expand (.text "[t:#r#]#s##r#[u:[v:x]#t#]") true, .expand (.text "#r##v#") false,
        .expand (.text "#r") false]
    ∃ flat nested : Engine Twister,
      Engine.create book ⟨.flat, false, none⟩ ⟨#[], 0⟩ = .ok flat ∧
        Engine.create book ⟨.nested, false, none⟩ ⟨#[], 0⟩ = .ok nested ∧
          4 ≤ (flat.serveAll requests).session.events.size ∧
            (flat.serveAll requests).Agree (nested.serveAll requests) := by
  intro book requests
  obtain ⟨flat, hflat, hassigned⟩ : ∃ flat : Engine Twister,
      Engine.create book ⟨.flat, false, none⟩ ⟨#[], 0⟩ = .ok flat ∧
        (decide (flat.session.rules.assignedTags = []) &&
          decide (4 ≤ (flat.serveAll requests).session.events.size)) = true :=
    Engine.exists_of_create (by decide +kernel)
  rw [Bool.and_eq_true, decide_eq_true_eq, decide_eq_true_eq] at hassigned
  have hbook : ∀ c, flat.session.rules.HasCandidate c → Node.assignedTags c.nodes = [] := by
    intro c hc
    rw [List.eq_nil_iff_forall_not_mem]
    intro tag htag
    have hmem := RuleBook.mem_assignedTags_iff.2 ⟨c, hc, htag⟩
    rw [hassigned.1] at hmem
    cases hmem
  have hrequests : ∀ request ∈ requests, request.BindsOutside := by
    have hfirst : (Origin.text "[t:#r#]#s##r#[u:[v:x]#t#]").Actionless := by decide +kernel
    have hsecond : (Origin.text "#r##v#").Actionless := by decide +kernel
    have hthird : (Origin.text "#r").Actionless := by decide +kernel
    simp [requests, Request.BindsOutside, hfirst, hsecond, hthird]
  have hmade : Engine.create book { Options.mk .flat false none with policy := .flat } ⟨#[], 0⟩ =
      .ok flat := hflat
  obtain ⟨nested, hnested, hagree⟩ := policies_agree hmade hbook
  exact ⟨flat, nested, hflat, hnested, hassigned.2, (hagree requests hrequests).1⟩

end TextGrammar
