import TextGrammar.Proofs.Evaluation.Steady

/-!
# Extensions that ask for nothing

Modifiers and hooks that ask nothing of the engine can do two things to a session: write to the
journal, and, as for hooks, hand an event to a tracer. So what a session holds after modifiers have
been applied, or after an expansion has been recorded and the hooks have been called, is known but
for these two (`Extensions.Detached.after_applyModifiers`, `Extensions.Detached.after_complete`). A
relation that does not look at journals and tracers is kept by modifiers, and by the hooks as soon
as it bears the record itself (`Extensions.Detached.keptByExtensions`). One such relation is that
the names of the rules stay as they are, and only rules that are known are logged (`LogsKnown`).
-/

namespace TextGrammar

open Work

variable {γ α : Type} [RandomSource γ]

theorem Script.Detached.after_runScript {script : Script α} (h : script.Detached)
    (inner : List Node → Work γ Text) (s : Session γ) :
    ∃ journal, (runScript inner script).after s = { s with journal := journal } := by
  induction h generalizing s with
  | done | fail => exact ⟨s.journal, rfl⟩
  | ask hprivate _ ih =>
      obtain ⟨answer, journal, hgrant⟩ := exists_grant_of_isPrivate inner hprivate s
      rw [runScript, after_bind_of_ok hgrant]
      exact ih answer { s with journal := journal }

namespace Extensions

variable {x : Extensions}

theorem Detached.after_applyModifiers (hx : x.Detached) (inner : List Node → Work γ Text)
    (text : Option Text) (calls : List ModifierCall) (s : Session γ) :
    ∃ journal, (applyModifiers x inner text calls).after s = { s with journal := journal } := by
  induction calls generalizing text s with
  | nil => exact ⟨s.journal, rfl⟩
  | cons call rest ih =>
      unfold applyModifiers
      split
      · exact ⟨s.journal, rfl⟩
      · next m hm =>
          have hscript : (m text call.args).Detached := hx.modifiers call.name m hm text call.args
          refine holds_after_bind (J := fun t => ∃ journal, t = { s with journal := journal })
            (hscript.after_runScript inner s) ?_
          rintro text' t - ⟨journal, rfl⟩
          exact ih text' { s with journal := journal }

theorem after_callHooks {hooks : List Hook}
    (hdetached : ∀ f, Hook.call f ∈ hooks → ∀ e, (f e).Detached)
    (inner : List Node → Work γ Text) (e : Event) (s : Session γ) :
    ∃ tracers journal, (callHooks inner e hooks).after s =
      { s with tracers := tracers, journal := journal } := by
  induction hooks generalizing s with
  | nil => exact ⟨s.tracers, s.journal, rfl⟩
  | cons hook rest ih =>
      have hrest : ∀ f, Hook.call f ∈ rest → ∀ e, (f e).Detached := fun f hf =>
        hdetached f (List.mem_cons_of_mem _ hf)
      cases hook with
      | trace tracer => exact ih hrest (s.trace tracer e)
      | call f =>
          obtain ⟨journal, hscript⟩ :=
            (hdetached f (List.mem_cons_self ..) e).after_runScript inner s
          refine holds_after_bind
            (J := fun t => ∃ tracers journal, t = { s with tracers := tracers, journal := journal })
            ⟨s.tracers, journal, hscript⟩ ?_
          rintro _ t - ⟨tracers, journal', rfl⟩
          exact ih hrest { s with tracers := tracers, journal := journal' }

/-- The expansion has been recorded, with the depth of the context, even where a hook fails. -/
theorem Detached.after_complete (hx : x.Detached) (inner : List Node → Work γ Text)
    (name : Text) (index : Index) (text : Text) (s : Session γ) :
    ∃ tracers journal, (complete x inner name index text).after s =
      { s.record ⟨name, index, s.context.depth, text⟩ with
        tracers := tracers, journal := journal } :=
  after_callHooks hx.hooks inner ⟨name, index, s.context.depth, text⟩ (s.record _)

theorem Detached.keptByExtensions {R : Session γ → Session γ → Prop} (hx : x.Detached)
    (happlied : ∀ s journal, R s { s with journal := journal })
    (hcompleted : ∀ r s name index text tracers journal, name ∈ r.rules.names → R r s →
      R s { s.record ⟨name, index, s.context.depth, text⟩ with
        tracers := tracers, journal := journal })
    (inner : List Node → Work γ Text) : KeptByExtensions x inner R where
  applyModifiers text calls := by
    intro s
    obtain ⟨journal, hafter⟩ := hx.after_applyModifiers inner text calls s
    rw [hafter]
    exact happlied s journal
  complete {r s name} index text hknown hrs := by
    obtain ⟨tracers, journal, hafter⟩ := hx.after_complete inner name index text s
    rw [hafter]
    exact hcompleted r s name index text tracers journal hknown hrs

end Extensions

/-! ## What is logged is known -/

/-- The names of the rules have stayed as they are, and all that has been logged is of one of
them. -/
def LogsKnown (s t : Session γ) : Prop :=
  t.rules.names = s.rules.names ∧ ∀ e ∈ t.events, e ∈ s.events ∨ e.rule ∈ s.rules.names

omit [RandomSource γ] in
theorem LogsKnown.of_eq {s t : Session γ} (hrules : t.rules = s.rules)
    (hevents : t.events = s.events) : LogsKnown s t :=
  ⟨by rw [hrules], fun _ he => .inl (hevents ▸ he)⟩

theorem passing_logsKnown : Passing (LogsKnown (γ := γ)) where
  refl _ := .of_eq rfl rfl
  trans {s t u} hst htu :=
    ⟨htu.1.trans hst.1, fun e he => (htu.2 e he).elim (hst.2 e) fun h => .inr (hst.1 ▸ h)⟩
  frame _ h := h
  scope h := h
  bind _ _ _ := .of_eq rfl rfl
  unresolved _ _ := .of_eq rfl rfl
  select hrule _ :=
    ⟨Lexicon.names_put_of_mem _ _ ((Lexicon.mem_names_iff ..).2 (by rw [hrule]; rfl)),
      fun _ he => .inl he⟩

theorem Extensions.Detached.keptByExtensions_logsKnown {x : Extensions} (hx : x.Detached)
    (inner : List Node → Work γ Text) : KeptByExtensions x inner LogsKnown := by
  refine hx.keptByExtensions (fun _ _ => .of_eq rfl rfl)
    (fun r s name index text _ _ hknown hrs => ⟨rfl, fun e he => ?_⟩) inner
  rcases Array.mem_push.1 he with he | rfl
  · exact .inl he
  · exact .inr (hrs.1 ▸ hknown)

end TextGrammar
