import TextGrammar.Modifier.English
import TextGrammar.Proofs.Engine.Batch
import TextGrammar.Proofs.Engine.Scope
import TextGrammar.Proofs.Event.Trace

/-!
# Tracing

An engine whose only hook is a tracer hands every event to it at the moment it is logged. So the
tracer takes what is added to the log, event by event, however an evaluation ends (`Traced`): that
an event is logged and that it is traced are two steps, but nothing comes between them. A reset
drops the log and leaves the tracer as it is, so that after a batch the tracer has taken the logs
of all its expansions (`Batch.tracer_run`), while the engine has only the last one of them.
-/

namespace TextGrammar

variable {γ : Type}

/-- Events have been added to the log, and the only tracer has taken just these. -/
def Traced (s t : Session γ) : Prop :=
  ∃ es, t.events.toList = s.events.toList ++ es ∧
    ∀ tracer, s.tracers = #[tracer] → t.tracers = #[tracer.recordAll es]

theorem traced_of_eq {s t : Session γ} (hevents : t.events = s.events)
    (htracers : t.tracers = s.tracers) : Traced s t := by
  refine ⟨[], ?_, fun tracer h => ?_⟩
  · rw [hevents, List.append_nil]
  · rw [htracers, h, Tracer.recordAll_nil]

theorem Traced.trans {s t u : Session γ} (hst : Traced s t) (htu : Traced t u) : Traced s u := by
  obtain ⟨es, hes, htracer⟩ := hst
  obtain ⟨more, hmore, htracer'⟩ := htu
  refine ⟨es ++ more, ?_, fun tracer h => ?_⟩
  · rw [hmore, hes, List.append_assoc]
  · rw [htracer' _ (htracer tracer h), Tracer.recordAll_append]

/-- An event that is logged and handed to the only tracer. -/
theorem traced_record (s : Session γ) (e : Event) : Traced s ((s.record e).trace 0 e) := by
  refine ⟨[e], Array.toList_push, fun tracer h => ?_⟩
  change s.tracers.modify 0 (·.record e) = _
  rw [h]
  rfl

variable [RandomSource γ]

theorem passing_traced : Passing (Traced (γ := γ)) where
  refl _ := traced_of_eq rfl rfl
  trans hst htu := hst.trans htu
  frame _ h := h
  scope h := h
  bind _ _ _ := traced_of_eq rfl rfl
  unresolved _ _ := traced_of_eq rfl rfl
  select _ _ := traced_of_eq rfl rfl

/-- Modifiers that ask nothing of the engine leave the log and the tracer alone, and the hooks are
called as soon as an event is logged. -/
theorem keptByExtensions_traced {x : Extensions} (hx : x.Detached) (hhooks : x.hooks = [.trace 0])
    (inner : List Node → Work γ Text) : KeptByExtensions x inner Traced where
  applyModifiers text calls := by
    intro s
    obtain ⟨journal, hafter⟩ := hx.after_applyModifiers inner text calls s
    rw [hafter]
    exact traced_of_eq rfl rfl
  complete {_ s _} _ _ _ _ := by
    unfold complete
    rw [hhooks]
    exact traced_record s _

theorem traced_evaluate {x : Extensions} (hx : x.Detached) (hhooks : x.hooks = [.trace 0])
    (nodes : List Node) : Work.Keeps Traced (evaluate x nodes : Work γ Text) :=
  fun s => passing_traced.keeps_evaluateAt (fun inner _ => keptByExtensions_traced hx hhooks inner)
    (nestingLevels s.context.maxDepth) nodes s

/-! ## Engines with a tracer -/

/-- The tracer is the only hook of the engine, and modifiers ask nothing of it. -/
structure Engine.TracedBy (e : Engine γ) (tracer : Tracer) : Prop where
  detached : e.extensions.Detached
  hooks : e.extensions.hooks = [.trace 0]
  tracers : e.session.tracers = #[tracer]

namespace Engine

/-- An expansion with a reset hands its log to the tracer. -/
theorem TracedBy.expandFrom {e : Engine γ} {tracer : Tracer} (h : e.TracedBy tracer)
    (origin : Origin) : (e.expandFrom origin true).2.TracedBy
      (tracer.recordAll (e.expandFrom origin true).2.session.events.toList) := by
  have hextensions := e.extensions_expandFrom origin true
  refine ⟨hextensions ▸ h.detached, hextensions ▸ h.hooks, ?_⟩
  have hread := passing_traced.keeps_readAndEvaluate
    (fun nodes => traced_evaluate h.detached h.hooks nodes) origin (e.startOf true)
  obtain ⟨notices, hsession⟩ := e.exists_session_expandFrom origin true
  obtain ⟨es, hes, htracer⟩ := hread
  have hlog : (e.expandFrom origin true).2.session.events.toList = es := by
    rw [hsession]
    exact hes
  rw [hlog, hsession]
  exact htracer tracer h.tracers

end Engine

/-- After a batch the tracer has taken the logs of all its expansions. -/
theorem Batch.tracer_run (origin : Origin) (n : Nat) {b : Batch γ} {tracer : Tracer}
    (h : b.engine.TracedBy tracer) :
    (run origin n b).engine.TracedBy (tracer.recordAll (b.engine.batchLog origin n)) := by
  induction n generalizing b tracer with
  | zero => exact h
  | succ n ih =>
      rw [run_succ, Engine.batchLog_succ, Tracer.recordAll_append]
      exact ih (h.expandFrom origin)

/-! ## English modifiers -/

namespace English

theorem detached_adapted {f : Text → List Text → Script (Option Text)}
    (hf : ∀ text args, (f text args).Detached) (text : Option Text) (args : List Text) :
    (adapted f text args).Detached := by
  cases text with
  | none => exact .done trivial
  | some t =>
      change (if t.isEmpty then Script.done (some t) else f t args).Detached
      split
      · exact .done trivial
      · exact hf t args

theorem detached_possessive (text : Option Text) (args : List Text) :
    (possessive text args).Detached := by
  cases text with
  | none => exact .fail trivial
  | some t => exact .done trivial

theorem detached_comma (text : Option Text) (args : List Text) :
    (comma text args).Detached := by
  unfold comma
  simp only [Modifier.ofText]
  split
  · split
    · exact .done trivial
    · exact .done trivial
  · exact .done trivial

theorem detached_repeatText (text : Option Text) (args : List Text) :
    (repeatText text args).Detached := by
  unfold repeatText
  split
  · split
    · split
      · exact .fail trivial
      · split
        · exact .fail trivial
        · exact Script.detached_ofExcept _
    · exact .fail trivial
  · exact .fail trivial

theorem detached_own : ∀ entry ∈ own, ∀ text args, (entry.2 text args).Detached := by
  simp only [own, List.forall_mem_cons]
  exact ⟨detached_possessive, fun _ _ => .done trivial, detached_comma, detached_repeatText,
    by simp⟩

/-- The English modifiers ask nothing of the engine if the library does not. -/
theorem detached_modifiers {base : Base} (h : base.Detached) :
    ∀ entry ∈ (modifiers base).entries, ∀ text args, (entry.2 text args).Detached := by
  intro entry hentry
  rcases List.mem_append.1 (Lexicon.mem_of_mem_entries_ofList hentry) with hmem | hmem
  · obtain ⟨e, he, rfl⟩ := List.mem_map.1 hmem
    exact detached_adapted (h e he)
  · exact detached_own entry hmem

end English

/-! ## Engines before they are traced -/

/-- The engine has neither hooks nor tracers, and modifiers ask nothing of it. -/
structure Engine.Untraced (e : Engine γ) : Prop where
  detached : e.extensions.Detached
  hooks : e.extensions.hooks = []
  tracers : e.session.tracers = #[]

theorem steady_tracers_empty :
    Steady True (fun _ _ => True) fun s t : Session γ => s.tracers = #[] → t.tracers = #[] where
  refl _ h := h
  trans hst htu h := htu (hst h)
  frame _ h := h
  scope h := h
  bind _ _ _ h := h
  unresolved _ _ h := h
  select _ _ h := h
  record _ _ h := h
  trace s tracer e h := by
    change s.tracers.modify tracer (·.record e) = #[]
    rw [h]
    rfl
  journal _ _ h := h
  notices _ _ h := h
  define _ _ h := h
  selector _ _ h := h
  reset _ _ h := h

namespace Engine

theorem untraced_of_create {book : List (Value × Definition)} {options : Options} {random : γ}
    {e : Engine γ} (h : create book options random = .ok e) : e.Untraced := by
  obtain ⟨context, -, htracers⟩ := steady_tracers_empty.create h
  have hextensions := extensions_of_create h
  exact ⟨hextensions ▸ Extensions.obey_none, by rw [hextensions]; rfl, htracers rfl⟩

omit [RandomSource γ] in
theorem Untraced.install {e : Engine γ} (h : e.Untraced) (sort : ModifierSort) (name : Text)
    {m : Modifier} (hm : ∀ text args, (m text args).Detached) :
    (e.install sort name m).Untraced := by
  have hsession : (e.install sort name m).session.tracers = e.session.tracers := by
    unfold Engine.install
    split <;> rfl
  have hextensions : (e.install sort name m).extensions =
      { e.extensions with modifiers := e.extensions.modifiers.put name m } := by
    unfold Engine.install
    split <;> rfl
  refine ⟨⟨fun other m' hm' => ?_, fun f hf => ?_⟩, ?_, ?_⟩
  · rw [hextensions] at hm'
    simp only [Lexicon.get?_put] at hm'
    split at hm'
    · cases hm'
      exact hm
    · exact h.detached.modifiers other m' hm'
  · rw [hextensions, h.hooks] at hf
    cases hf
  · rw [hextensions, h.hooks]
  · rw [hsession, h.tracers]

omit [RandomSource γ] in
theorem Untraced.installAll {e : Engine γ} (h : e.Untraced) {ms : List (Text × Modifier)}
    (hms : ∀ entry ∈ ms, ∀ text args, (entry.2 text args).Detached) :
    (e.installAll ms).Untraced := by
  induction ms generalizing e with
  | nil => exact h
  | cons entry ms ih =>
      rw [List.forall_mem_cons] at hms
      exact ih (h.install .modifier entry.1 hms.1) hms.2

omit [RandomSource γ] in
theorem Untraced.addTracer {e : Engine γ} (h : e.Untraced) (rules : Option (List Text)) :
    (e.addTracer rules).TracedBy (.start rules) := by
  have hhooks : (e.addTracer rules).extensions.hooks = [.trace 0] := by
    change e.extensions.hooks ++ [.trace e.session.tracers.size] = _
    rw [h.hooks, h.tracers]
    rfl
  refine ⟨⟨h.detached.modifiers, fun f hf => ?_⟩, hhooks, ?_⟩
  · rw [hhooks] at hf
    cases hf with
    | tail _ hf => cases hf
  · change e.session.tracers.push _ = _
    rw [h.tracers]
    rfl

end Engine

end TextGrammar
