import TextGrammar.Proofs.Engine.Service
import TextGrammar.Proofs.Evaluation.Lockstep

/-!
# Two engines abreast

Two engines have the same extensions and are asked for the same. What requests do beside evaluating
is little, so a relation of their sessions that expansions keep has not much more to bear
(`ServedAlike`). It is then kept along any number of requests (`Engine.Abreast.serveAll`), and the
engines answer alike.
-/

namespace TextGrammar

open Work

variable {γ α : Type}

/-- Two engines have the same extensions, which are of some kind, and related sessions. -/
structure Engine.Abreast (kind : Extensions → Prop) (R : Session γ → Session γ → Prop)
    (e e' : Engine γ) : Prop where
  extensions : e'.extensions = e.extensions
  kind : kind e.extensions
  session : R e.session e'.session

/-- What it takes that certain requests keep extensions of a kind, and a relation of sessions. -/
structure ServedAlike [RandomSource γ] (asked : Request γ → Prop) (kind : Extensions → Prop)
    (R : Session γ → Session γ → Prop) : Prop where
  expand {x : Extensions} {origin : Origin} {reset : Bool} : kind x →
    asked (.expand origin reset) →
      Follows R (fun _ => False) (expand x origin reset) (expand x origin reset)
  addRule {name : Value} {d : Definition} : asked (.addRule name d) →
    Follows R (fun _ => False) (addRule name d) (addRule name d)
  setSelector {name : Text} {selector : Selector γ} : asked (.setSelector name selector) →
    Follows R (fun _ => False) (setSelector name selector) (setSelector name selector)
  install {x : Extensions} {sort : ModifierSort} {name : Text} {m : Modifier} : kind x →
    asked (.install sort name m) → kind { x with modifiers := x.modifiers.put name m }
  addHook {x : Extensions} {hook : Hook} : kind x → asked (.addHook hook) →
    kind { x with hooks := x.hooks ++ [hook] }
  traceHook {x : Extensions} (tracer : Nat) : kind x →
    kind { x with hooks := x.hooks ++ [.trace tracer] }
  report {s t : Session γ} (notice : Notice) : R s t → R (s.report notice) (t.report notice)
  size_tracers {s t : Session γ} : R s t → t.tracers.size = s.tracers.size
  tracer {s t : Session γ} (tracer : Tracer) : R s t →
    R { s with tracers := s.tracers.push tracer } { t with tracers := t.tracers.push tracer }

namespace Engine.Abreast

variable {asked : Request γ → Prop} {kind : Extensions → Prop}
  {R : Session γ → Session γ → Prop} {e e' : Engine γ}

theorem perform (h : Abreast kind R e e') {m m' : Work γ α}
    (hm : Follows R (fun _ => False) m m') :
    (e'.perform m').1 = (e.perform m).1 ∧ Abreast kind R (e.perform m).2 (e'.perform m').2 := by
  unfold Engine.perform
  rcases (hm _ _ h.session).inv with ⟨answer, u, v, hu, hv, huv⟩ | ⟨fault, u, v, hu, hv, huv⟩ |
    ⟨_, _, _, hcut⟩
  · rw [hu, hv]
    exact ⟨rfl, h.extensions, h.kind, huv⟩
  · rw [hu, hv]
    exact ⟨rfl, h.extensions, h.kind, huv⟩
  · exact hcut.elim

variable [RandomSource γ]

theorem expandFrom (h : Abreast kind R e e') {origin : Origin} {reset : Bool}
    (hexpand : Follows R (fun _ => False) (TextGrammar.expand e.extensions origin reset)
      (TextGrammar.expand e.extensions origin reset)) :
    (e'.expandFrom origin reset).1 = (e.expandFrom origin reset).1 ∧
      Abreast kind R (e.expandFrom origin reset).2 (e'.expandFrom origin reset).2 := by
  unfold Engine.expandFrom
  rw [h.extensions]
  rcases (hexpand _ _ h.session).inv with ⟨answer, u, v, hu, hv, huv⟩ |
    ⟨fault, u, v, hu, hv, huv⟩ | ⟨_, _, _, hcut⟩
  · rw [hu, hv]
    exact ⟨rfl, rfl, h.kind, huv⟩
  · rw [hu, hv]
    exact ⟨rfl, rfl, h.kind, huv⟩
  · exact hcut.elim

theorem install (hserved : ServedAlike asked kind R) (h : Abreast kind R e e')
    {sort : ModifierSort} {name : Text} {m : Modifier} (hm : asked (.install sort name m)) :
    Abreast kind R (e.install sort name m) (e'.install sort name m) := by
  have hextensions := congrArg
    (fun x : Extensions => { x with modifiers := x.modifiers.put name m }) h.extensions
  have hkind := hserved.install h.kind hm
  unfold Engine.install
  rw [h.extensions]
  split
  · exact ⟨hextensions, hkind, hserved.report _ h.session⟩
  · exact ⟨hextensions, hkind, h.session⟩

omit [RandomSource γ] in
theorem addHook (h : Abreast kind R e e') {hook : Hook}
    (hkind : kind { e.extensions with hooks := e.extensions.hooks ++ [hook] }) :
    Abreast kind R (e.addHook hook) (e'.addHook hook) :=
  ⟨congrArg (fun x : Extensions => { x with hooks := x.hooks ++ [hook] }) h.extensions, hkind,
    h.session⟩

theorem addTracer (hserved : ServedAlike asked kind R) (h : Abreast kind R e e')
    (rules : Option (List Text)) :
    Abreast kind R (e.addTracer rules) (e'.addTracer rules) := by
  obtain ⟨hextensions, hkind, -⟩ := h.addHook (hserved.traceHook e.session.tracers.size h.kind)
  unfold Engine.addTracer
  rw [hserved.size_tracers h.session]
  exact ⟨hextensions, hkind, hserved.tracer _ h.session⟩

theorem serve (hserved : ServedAlike asked kind R) (h : Abreast kind R e e')
    {request : Request γ} (hrequest : asked request) :
    Abreast kind R (e.serve request) (e'.serve request) := by
  cases request with
  | expand origin reset => exact (h.expandFrom (hserved.expand h.kind hrequest)).2
  | addRule name d => exact (h.perform (hserved.addRule hrequest)).2
  | setSelector name selector => exact (h.perform (hserved.setSelector hrequest)).2
  | install sort name m => exact h.install hserved hrequest
  | addHook hook => exact h.addHook (hserved.addHook h.kind hrequest)
  | addTracer rules => exact h.addTracer hserved rules

theorem serveAll (hserved : ServedAlike asked kind R) (h : Abreast kind R e e')
    {requests : List (Request γ)} (hrequests : ∀ request ∈ requests, asked request) :
    Abreast kind R (e.serveAll requests) (e'.serveAll requests) := by
  induction requests generalizing e e' with
  | nil => exact h
  | cons request rest ih =>
      rw [List.forall_mem_cons] at hrequests
      exact ih (h.serve hserved hrequests.1) hrequests.2

end Engine.Abreast

end TextGrammar
