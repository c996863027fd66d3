import TextGrammar.Proofs.Engine.Service
import TextGrammar.Random.Twister

/-!
# Balanced stacks

An evaluation opens frames of the context and scopes of the tags, and leaves them however it
ends. A script that asks for an expansion with a reset takes all of them away from the
evaluations that are still in progress; these then leave frames and scopes they did not open, of
which there are at least none and one. So what is kept is an inequality, that an evaluation ends
no deeper than it began (`NoDeeper`), and equality only where no script resets (`SameDepth`).

Between the calls of a program an engine is at depth zero with one scope. In between no context
is deeper than its maximal depth, since none can be built that is.
-/

namespace TextGrammar

variable {γ : Type}

/-- A session has become one that is no deeper, in its context and in its scopes, and still has a
scope. -/
structure NoDeeper (s t : Session γ) : Prop where
  maxDepth : t.context.maxDepth = s.context.maxDepth
  depth : t.context.depth ≤ s.context.depth
  scopes : ∀ n, s.tags.scopes? = some n → ∃ m, t.tags.scopes? = some m ∧ 1 ≤ m ∧ m ≤ n

/-- A session has become one with the same frames and as many scopes. -/
structure SameDepth (s t : Session γ) : Prop where
  context : t.context = s.context
  scopes : t.tags.scopes? = s.tags.scopes?

theorem SameDepth.noDeeper {s t : Session γ} (h : SameDepth s t) : NoDeeper s t where
  maxDepth := by rw [h.context]
  depth := Nat.le_of_eq (by rw [h.context])
  scopes n hn := ⟨n, h.scopes.trans hn, TagStore.one_le_of_scopes? hn, Nat.le_refl n⟩

variable [RandomSource γ]

theorem steady_sameDepth : Steady False (fun _ _ => True) (SameDepth (γ := γ)) where
  refl _ := ⟨rfl, rfl⟩
  trans hst htu := ⟨htu.context.trans hst.context, htu.scopes.trans hst.scopes⟩
  frame henter h := ⟨by rw [h.context, Context.leave_of_enter henter], h.scopes⟩
  scope {s t} h := by
    refine ⟨h.context, ?_⟩
    have hscopes : t.tags.scopes? = s.tags.scopes?.map (· + 1) := by
      rw [h.scopes, TagStore.scopes?_enterScope]
    rw [TagStore.scopes?_exitScope, hscopes]
    cases hn : s.tags.scopes? with
    | none => rfl
    | some n =>
        have hpos := TagStore.one_le_of_scopes? hn
        simp only [Option.map_some, Option.some.injEq]
        omega
  bind s name value := ⟨rfl, TagStore.scopes?_bind s.tags name value⟩
  record _ _ := ⟨rfl, rfl⟩
  unresolved _ _ := ⟨rfl, rfl⟩
  trace _ _ _ := ⟨rfl, rfl⟩
  journal _ _ := ⟨rfl, rfl⟩
  notices _ _ := ⟨rfl, rfl⟩
  select _ _ := ⟨rfl, rfl⟩
  define _ _ := ⟨rfl, rfl⟩
  selector _ _ := ⟨rfl, rfl⟩
  reset _ := False.elim

theorem enduring_noDeeper : Enduring (fun _ _ => True) (NoDeeper (γ := γ)) where
  refl s := (steady_sameDepth.refl s).noDeeper
  trans {s t u} hst htu := by
    refine ⟨htu.maxDepth.trans hst.maxDepth, Nat.le_trans htu.depth hst.depth, fun n hn => ?_⟩
    obtain ⟨m, hm, _, hmn⟩ := hst.scopes n hn
    obtain ⟨l, hl, hpos, hlm⟩ := htu.scopes m hm
    exact ⟨l, hl, hpos, Nat.le_trans hlm hmn⟩
  frame {s t frame context} henter h := by
    have hentered := Context.enter_eq_ok_iff.1 henter
    have hdepth : t.context.depth ≤ s.context.depth + 1 := by
      rw [← Context.depth_of_enter henter]
      exact h.depth
    refine ⟨h.maxDepth.trans hentered.1, ?_, h.scopes⟩
    rw [Context.depth_leave]
    omega
  scope {s t} h := by
    refine ⟨h.maxDepth, h.depth, fun n hn => ?_⟩
    have hpos := TagStore.one_le_of_scopes? hn
    obtain ⟨m, hm, _, hmn⟩ := h.scopes (n + 1) (by
      rw [TagStore.scopes?_enterScope, hn]
      rfl)
    refine ⟨max 1 (m - 1), ?_, by omega, by omega⟩
    rw [TagStore.scopes?_exitScope, hm]
    rfl
  bind s name value := (steady_sameDepth.bind s name value).noDeeper
  record s e := (steady_sameDepth.record s e).noDeeper
  unresolved s name := (steady_sameDepth.unresolved s name).noDeeper
  trace s tracer e := (steady_sameDepth.trace s tracer e).noDeeper
  journal s entries := (steady_sameDepth.journal s entries).noDeeper
  notices s notices := (steady_sameDepth.notices s notices).noDeeper
  select hrule hselect := (steady_sameDepth.select hrule hselect).noDeeper
  define hname hbuild := (steady_sameDepth.define hname hbuild).noDeeper
  reset s _ := by
    refine ⟨rfl, Nat.zero_le _, fun n hn => ⟨1, ?_, Nat.le_refl 1, ?_⟩⟩
    · change s.tags.removeAll.scopes? = some 1
      rw [TagStore.scopes?_removeAll, hn]
      rfl
    · exact TagStore.one_le_of_scopes? hn
  selector _ _ := SameDepth.noDeeper ⟨rfl, rfl⟩
  tracers _ _ := SameDepth.noDeeper ⟨rfl, rfl⟩

/-- The stacks of an engine stay balanced, whatever its modifiers and hooks ask of it. Between
requests no frame is open and one scope is. At no time are more frames open than the maximal
depth allows, and every evaluation, however it ends, ends no deeper than it began; where no
modifier or hook asks for a reset it ends with the very frames and as many scopes. -/
theorem stacks_balanced {book : List (Value × Definition)} {options : Options} {random : γ}
    {e : Engine γ} (he : e.Reached book options random) :
    ((e.session.context.maxDepth : Int) = options.maxDepth.getD Context.defaultMaxDepth ∧
      e.session.context.depth = 0 ∧
        (options.policy = .nested → e.session.tags.scopes? = some 1)) ∧
      (∀ s : Session γ, s.context.depth ≤ s.context.maxDepth) ∧
        ∀ (levels : Nat) (nodes : List Node) (s : Session γ),
          NoDeeper s ((evaluateAt e.extensions levels nodes).after s) ∧
            (e.extensions.Resetless →
              SameDepth s ((evaluateAt e.extensions levels nodes).after s)) := by
  obtain ⟨context, hcontext, hstart⟩ := enduring_noDeeper.reached he
  obtain ⟨hmax, hframes⟩ := contextOfDepth_eq_ok hcontext
  have hdepth : (Session.start options.policy context random).context.depth = 0 := by
    change context.frames.length = 0
    rw [hframes, List.length_nil]
  refine ⟨⟨?_, ?_, fun hnested => ?_⟩, fun s => s.context.depth_le, fun levels nodes s => ⟨?_, ?_⟩⟩
  · rw [hstart.maxDepth]
    exact hmax
  · exact Nat.eq_zero_of_le_zero (hdepth ▸ hstart.depth)
  · have hone : (Session.start options.policy context random).tags.scopes? = some 1 := by
      rw [hnested]
      rfl
    obtain ⟨m, hm, hpos, hle⟩ := hstart.scopes 1 hone
    rw [hm, Nat.le_antisymm hle hpos]
  · exact enduring_noDeeper.keeps_evaluateAt e.extensions.ask_allowed_true levels nodes s
  · intro hresetless
    exact steady_sameDepth.keeps_evaluateAt hresetless.ask_allowed levels nodes s

/-- A modifier asks for a reset while an assignment is in progress. -/
theorem stacks_balanced_resetting : ∃ e : Engine Twister,
    Engine.create [(.text "r", .ofTexts ["x"])] ⟨.nested, false, none⟩ ⟨#[], 0⟩ = .ok e ∧
      (e.serveAll [
        .install .modifier "again" (.ofText fun _ =>
          .ask (.expand (.text "[t:y]#r#") true) fun answer => .done (some answer)),
        .expand (.text "[a:#r.again#]") true]).session.tags.scopes? = some 1 := by
  obtain ⟨e, he⟩ : ∃ e : Engine Twister,
      Engine.create [(.text "r", .ofTexts ["x"])] ⟨.nested, false, none⟩ ⟨#[], 0⟩ = .ok e :=
    ⟨_, rfl⟩
  exact ⟨e, he, (stacks_balanced ⟨e, _, he, rfl⟩).1.2.2 rfl⟩

end TextGrammar
