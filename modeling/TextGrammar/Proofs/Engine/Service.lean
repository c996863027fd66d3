import TextGrammar.Engine
import TextGrammar.Proofs.Evaluation.Steady

/-!
# Engines in use

What a program can ask of an engine is a request: an expansion, a rule, a selector, a modifier, a
hook or a tracer. An engine in use serves requests one after the other, and a steady relation
that bears what they do beside evaluating, a reset before all, is kept along any number of them
(`Enduring.serveAll`). Any steady relation holds between the session that an engine is made from and
the one it has at first (`Steady.create`). Where a relation bears only some selectors, it is kept by
requests that give no others.

How an expansion ends is an answer or a fault (`Engine.outcome`). What the caller is given is a
text in either case.
-/

namespace TextGrammar

variable {γ : Type}

/-- What a program asks of an engine. -/
inductive Request (γ : Type) where
  | expand (origin : Origin) (reset : Bool)
  | addRule (name : Value) (definition : Definition)
  | setSelector (name : Text) (selector : Selector γ)
  | install (sort : ModifierSort) (name : Text) (modifier : Modifier)
  | addHook (hook : Hook)
  | addTracer (rules : Option (List Text))

/-- The scripts that a request brings along ask for certain requests only. -/
def Request.Brings (asks : Script.Request → Prop) : Request γ → Prop
  | .install _ _ m => ∀ text args, (m text args).Asks asks
  | .addHook hook => ∀ f, hook = .call f → ∀ e, (f e).Asks asks
  | _ => True

theorem Request.brings_of_forall {asks : Script.Request → Prop} (hasks : ∀ request, asks request) :
    ∀ request : Request γ, request.Brings asks
  | .install .. => fun _ _ => Script.obeys_of_forall hasks (fun _ => trivial) (fun _ => trivial) _
  | .addHook _ => fun _ _ _ =>
      Script.obeys_of_forall hasks (fun _ => trivial) (fun _ => trivial) _
  | .expand .. | .addRule .. | .setSelector .. | .addTracer _ => trivial

theorem Request.Brings.mono {asks asks' : Script.Request → Prop} {request : Request γ}
    (h : request.Brings asks) (hasks : ∀ asked, asks asked → asks' asked) :
    request.Brings asks' := by
  cases request with
  | install sort name m => exact fun text args => (h text args).mono hasks fun _ => id
  | addHook hook => exact fun f hf e => (h f hf e).mono hasks fun _ => id
  | expand | addRule | setSelector | addTracer => trivial

variable [RandomSource γ]

namespace Engine

/-- The engine after a request. The answer is the caller's affair, and so is a fault. -/
def serve (e : Engine γ) : Request γ → Engine γ
  | .expand origin reset => (e.expandFrom origin reset).2
  | .addRule name d => (e.addRule name d).2
  | .setSelector name selector => e.setSelector name selector
  | .install sort name m => e.install sort name m
  | .addHook hook => e.addHook hook
  | .addTracer rules => e.addTracer rules

def serveAll (e : Engine γ) (requests : List (Request γ)) : Engine γ := requests.foldl serve e

/-- The engine was made and has served requests. -/
def Reached (book : List (Value × Definition)) (options : Options) (random : γ)
    (e : Engine γ) : Prop :=
  ∃ made requests, create book options random = .ok made ∧ e = made.serveAll requests

theorem exists_of_create {book : List (Value × Definition)} {options : Options} {random : γ}
    {check : Engine γ → Bool}
    (h : (match create book options random with
      | .ok e => check e
      | .error _ => false) = true) :
    ∃ e, create book options random = .ok e ∧ check e = true := by
  cases hcreate : create book options random with
  | ok e =>
      rw [hcreate] at h
      exact ⟨e, rfl, h⟩
  | error fault =>
      rw [hcreate] at h
      cases h

theorem extensions_of_create {book : List (Value × Definition)} {options : Options} {random : γ}
    {e : Engine γ} (h : create book options random = .ok e) : e.extensions = .none := by
  unfold create at h
  split at h
  · cases h
  · split at h
    · cases h
    · cases h
      rfl

/-- How an expansion ends, before a fault is told as a text. -/
def outcome (e : Engine γ) (origin : Origin) (reset : Bool) :
    EStateM.Result Fault (Session γ) Text :=
  readAndEvaluate (evaluate e.extensions) origin (if reset then e.session.reset else e.session)

theorem expandFrom_of_ok {e : Engine γ} {origin : Origin} {reset : Bool} {answer : Text}
    {s : Session γ} (h : e.outcome origin reset = .ok answer s) :
    e.expandFrom origin reset = (answer, { e with session := s }) := by
  unfold outcome at h
  rw [expandFrom, TextGrammar.expand, expandWith, h]

theorem expandFrom_of_error {e : Engine γ} {origin : Origin} {reset : Bool} {fault : Fault}
    {s : Session γ} (h : e.outcome origin reset = .error fault s) :
    e.expandFrom origin reset =
      (faultText fault, { e with session := s.report (faultNotice origin fault) }) := by
  unfold outcome at h
  rw [expandFrom, TextGrammar.expand, expandWith, h]

def startOf (e : Engine γ) (reset : Bool) : Session γ :=
  if reset then e.session.reset else e.session

omit [RandomSource γ] in
@[simp] theorem rules_startOf (e : Engine γ) (reset : Bool) :
    (e.startOf reset).rules = e.session.rules := by
  cases reset <;> rfl

theorem policy_expandFrom (e : Engine γ) (origin : Origin) (reset : Bool) :
    (e.expandFrom origin reset).2.policy = e.policy := by
  unfold expandFrom
  split <;> rfl

@[simp] theorem extensions_expandFrom (e : Engine γ) (origin : Origin) (reset : Bool) :
    (e.expandFrom origin reset).2.extensions = e.extensions := by
  unfold expandFrom
  cases TextGrammar.expand e.extensions origin reset e.session <;> rfl

/-- An expansion leaves what the evaluation has left, but for the notice of a fault. -/
theorem exists_session_expandFrom (e : Engine γ) (origin : Origin) (reset : Bool) :
    ∃ notices, (e.expandFrom origin reset).2.session =
      { (readAndEvaluate (evaluate e.extensions) origin).after (e.startOf reset) with
        notices := notices } := by
  cases h : e.outcome origin reset with
  | ok answer s =>
      have hafter : (readAndEvaluate (evaluate e.extensions) origin).after (e.startOf reset) = s :=
        Work.after_of_ok h
      rw [expandFrom_of_ok h, hafter]
      exact ⟨s.notices, rfl⟩
  | error fault s =>
      have hafter : (readAndEvaluate (evaluate e.extensions) origin).after (e.startOf reset) = s :=
        Work.after_of_error h
      rw [expandFrom_of_error h, hafter]
      exact ⟨s.notices.push (faultNotice origin fault), rfl⟩

omit [RandomSource γ] in
@[simp] theorem extensions_perform {α : Type} (e : Engine γ) (work : Work γ α) :
    (e.perform work).2.extensions = e.extensions := by
  unfold perform
  cases work e.session <;> rfl

omit [RandomSource γ] in
@[simp] theorem session_perform {α : Type} (e : Engine γ) (work : Work γ α) :
    (e.perform work).2.session = work.after e.session := by
  unfold perform Work.after
  cases work e.session <;> rfl

@[simp] theorem session_expandFrom (e : Engine γ) (origin : Origin) (reset : Bool) :
    (e.expandFrom origin reset).2.session =
      (TextGrammar.expand e.extensions origin reset).after e.session := by
  unfold expandFrom Work.after
  cases TextGrammar.expand e.extensions origin reset e.session <;> rfl

end Engine

theorem Extensions.Ask.serve {asks : Script.Request → Prop} {e : Engine γ}
    (h : e.extensions.Ask asks) {request : Request γ} (hbrings : request.Brings asks) :
    (e.serve request).extensions.Ask asks := by
  cases request with
  | expand origin reset => exact (e.extensions_expandFrom origin reset).symm ▸ h
  | addRule name d => exact (e.extensions_perform (addRule name d)).symm ▸ h
  | setSelector name selector => exact (e.extensions_perform (setSelector name selector)).symm ▸ h
  | install sort name m =>
      rw [Engine.serve, Engine.install]
      split <;> exact h.put hbrings name
  | addHook hook => exact h.addHook hbrings
  | addTracer rules => exact h.addHook fun f hf => nomatch hf

theorem Extensions.Ask.serveAll {asks : Script.Request → Prop} {e : Engine γ}
    (h : e.extensions.Ask asks) {requests : List (Request γ)}
    (hbrings : ∀ request ∈ requests, request.Brings asks) :
    (e.serveAll requests).extensions.Ask asks := by
  induction requests generalizing e with
  | nil => exact h
  | cons request rest ih =>
      rw [List.forall_mem_cons] at hbrings
      exact ih (h.serve hbrings.1) hbrings.2

namespace Steady

open Work

variable {resets : Prop} {given : Text → Selector γ → Prop} {R : Session γ → Session γ → Prop}

theorem keeps_addRules (hR : Steady resets given R) (book : List (Value × Definition)) :
    Keeps R (addRules book : Work γ Unit) := by
  induction book with
  | nil => exact hR.keeps_pure ()
  | cons entry rest ih => exact hR.keeps_bind (hR.keeps_addRule entry.1 entry.2) fun _ => ih

theorem keeps_readBook (hR : Steady resets given R) (book : List (Value × Definition))
    (options : Options) : Keeps R (readBook book options : Work γ (List Finding)) := by
  have hready (findings : List Finding) : Keeps R (do
      Work.change fun s => s.report (.ready s.rules.size options.policy)
      pure findings : Work γ (List Finding)) :=
    hR.keeps_bind (fun s => hR.notices s _) fun _ => hR.keeps_pure findings
  refine hR.keeps_bind (hR.keeps_addRules book) fun _ => ?_
  split
  · exact hR.keeps_bind (fun s => hR.notices s _) hready
  · exact hR.keeps_bind (hR.keeps_pure []) hready

/-- An engine is made by reading its book into a session at its start. -/
theorem create (hR : Steady resets given R) {book : List (Value × Definition)} {options : Options}
    {random : γ} {e : Engine γ} (h : Engine.create book options random = .ok e) :
    ∃ context, contextOfDepth (options.maxDepth.getD Context.defaultMaxDepth) = .ok context ∧
      R (Session.start options.policy context random) e.session := by
  unfold Engine.create at h
  cases hcontext : contextOfDepth (options.maxDepth.getD Context.defaultMaxDepth) with
  | error fault =>
      rw [hcontext] at h
      cases h
  | ok context =>
      have hread := hR.keeps_readBook book options
      rw [hcontext] at h
      refine ⟨context, rfl, ?_⟩
      cases hbook : readBook book options (Session.start options.policy context random) with
      | error fault s =>
          simp only [hbook] at h
          cases h
      | ok findings s =>
          simp only [hbook] at h
          cases h
          exact hread.of_ok hbook

end Steady

/-- A steady relation that also bears what is asked of an engine outside of evaluations, where
the selectors given to rules are among certain ones. -/
structure Enduring (given : Text → Selector γ → Prop) (R : Session γ → Session γ → Prop) :
    Prop extends Steady True given R where
  tracers (s : Session γ) (tracers : Array Tracer) : R s { s with tracers := tracers }

namespace Enduring

open Work

variable {given : Text → Selector γ → Prop} {R : Session γ → Session γ → Prop}

theorem serve (hR : Enduring given R) {e : Engine γ}
    (hx : e.extensions.Ask (Script.Allowed True given)) {request : Request γ}
    (hgiven : ∀ name selector, request = .setSelector name selector → given name selector) :
    R e.session (e.serve request).session := by
  cases request with
  | expand origin reset =>
      rw [Engine.serve, Engine.session_expandFrom]
      exact hR.keeps_expandWith (hR.keeps_evaluate hx) origin (fun _ => trivial) _
  | addRule name d =>
      rw [Engine.serve, Engine.addRule, Engine.session_perform]
      exact hR.keeps_addRule name d _
  | setSelector name selector =>
      rw [Engine.serve, Engine.setSelector, Engine.session_perform]
      exact hR.keeps_setSelector (hgiven name selector rfl) _
  | install sort name m =>
      rw [Engine.serve, Engine.install]
      split
      · exact hR.notices e.session _
      · exact hR.refl e.session
  | addHook hook => exact hR.refl e.session
  | addTracer rules => exact hR.tracers e.session _

theorem serveAll (hR : Enduring given R) {e : Engine γ}
    (hx : e.extensions.Ask (Script.Allowed True given)) {requests : List (Request γ)}
    (hbrings : ∀ request ∈ requests, request.Brings (Script.Allowed True given))
    (hgiven : ∀ name selector, .setSelector name selector ∈ requests → given name selector) :
    R e.session (e.serveAll requests).session := by
  induction requests generalizing e with
  | nil => exact hR.refl e.session
  | cons request rest ih =>
      rw [List.forall_mem_cons] at hbrings
      have hfirst := hR.serve hx fun name selector h =>
        hgiven name selector (h ▸ List.mem_cons_self ..)
      have hrest := ih (hx.serve hbrings.1) hbrings.2 fun name selector h =>
        hgiven name selector (List.mem_cons_of_mem _ h)
      exact hR.trans hfirst hrest

/-- A reached engine has a session that comes from one at its start. -/
theorem reached (hR : Enduring (fun _ _ => True) R) {book : List (Value × Definition)}
    {options : Options} {random : γ} {e : Engine γ} (h : e.Reached book options random) :
    ∃ context, contextOfDepth (options.maxDepth.getD Context.defaultMaxDepth) = .ok context ∧
      R (Session.start options.policy context random) e.session := by
  obtain ⟨made, requests, hmade, rfl⟩ := h
  obtain ⟨context, hcontext, hstart⟩ := hR.create hmade
  refine ⟨context, hcontext, hR.trans hstart (hR.serveAll made.extensions.ask_allowed_true ?_ ?_)⟩
  · exact fun request _ => request.brings_of_forall Script.allowed_true
  · exact fun _ _ _ => trivial

end Enduring

end TextGrammar
