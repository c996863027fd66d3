import TextGrammar.Batch
import TextGrammar.Proofs.Engine.Tally
import TextGrammar.Proofs.Evaluation.Detached

/-!
# Batches, one expansion after the other

A batch goes through engines: each expansion begins with the engine that the one before has left
(`Engine.stages`). What the batch comes to is put together from what the expansions come to, one
by one: its answers are their answers, and its counts are the tally of all their logs
(`Batch.get?_counts_run`). The log of an expansion is its own, whatever engine it begins with,
because of the reset; so nothing is counted twice, even where an expansion fails before it has
evaluated anything.
-/

namespace TextGrammar

/-! ## Adding counts -/

theorem RuleCounts.get?_add (counts : RuleCounts) (rule other : Text) (n : Nat) :
    (counts.add rule n).get? other =
      if other = rule then some ((counts.get? rule).getD 0 + n) else counts.get? other :=
  Lexicon.get?_put counts rule other _

theorem RuleCounts.get?_foldl_add {es : List (Text × Nat)} (h : (es.map Prod.fst).Nodup)
    (counts : RuleCounts) (rule : Text) :
    (es.foldl (fun (counts : RuleCounts) e => counts.add e.1 e.2) counts).get? rule =
      (es.lookup rule).elim (counts.get? rule) fun n => some ((counts.get? rule).getD 0 + n) := by
  induction es generalizing counts with
  | nil => rfl
  | cons e es ih =>
      obtain ⟨name, n⟩ := e
      rw [List.map_cons, List.nodup_cons] at h
      rw [List.foldl_cons, ih h.2, get?_add]
      by_cases hrule : rule = name
      · subst hrule
        have hnone : es.lookup rule = none := by
          rw [List.lookup_eq_none_iff]
          intro e he
          rw [bne_iff_ne]
          rintro rfl
          exact h.1 (List.mem_map.2 ⟨e, he, rfl⟩)
        simp [hnone]
      · have hne : (rule == name) = false := beq_eq_false_iff_ne.2 hrule
        simp [List.lookup_cons, hne, hrule]

theorem RuleCounts.get?_addAll (counts more : RuleCounts) (rule : Text) :
    (counts.addAll more).get? rule =
      (more.get? rule).elim (counts.get? rule) fun n => some ((counts.get? rule).getD 0 + n) :=
  get?_foldl_add more.nodup_names counts rule

theorem RuleCounts.get?_addAll_tally {counts : RuleCounts} {rules : List Text}
    (h : ∀ rule, counts.get? rule = (tally rules).get? rule) (more : List Text) (rule : Text) :
    (counts.addAll (tally more)).get? rule = (tally (rules ++ more)).get? rule := by
  rw [get?_addAll, h, get?_tally, get?_tally, get?_tally, List.count_append]
  by_cases hmore : rule ∈ more
  · by_cases hrules : rule ∈ rules
    · simp [hmore, hrules]
    · simp [hmore, hrules, List.count_eq_zero_of_not_mem hrules]
  · by_cases hrules : rule ∈ rules
    · simp [hmore, hrules, List.count_eq_zero_of_not_mem hmore]
    · simp [hmore, hrules]

/-! ## Stages -/

variable {γ : Type} [RandomSource γ]

namespace Engine

/-- The engines that the expansions of a batch begin with. -/
def stages (e : Engine γ) (origin : Origin) : Nat → List (Engine γ)
  | 0 => []
  | n + 1 => e :: (e.expandFrom origin true).2.stages origin n

/-- After an expansion with a reset the counts are those of its log, whatever they were before. -/
theorem tallied_expandFrom (e : Engine γ) (origin : Origin) :
    (e.expandFrom origin true).2.session.Tallied := by
  have hR := enduring_tallied (γ := γ)
  have hread := hR.keeps_readAndEvaluate
    (fun nodes => hR.keeps_evaluate e.extensions.ask_allowed_true nodes) origin
  obtain ⟨notices, hsession⟩ := e.exists_session_expandFrom origin true
  rw [hsession]
  exact hread (e.startOf true) e.session.tallied_reset

/-- The events that the expansions of a batch log, one after the other. -/
def batchLog (e : Engine γ) (origin : Origin) (n : Nat) : List Event :=
  (e.stages origin n).flatMap fun e => (e.expandFrom origin true).2.session.events.toList

theorem batchLog_succ (e : Engine γ) (origin : Origin) (n : Nat) :
    e.batchLog origin (n + 1) = (e.expandFrom origin true).2.session.events.toList ++
      (e.expandFrom origin true).2.batchLog origin n := by
  rw [batchLog, stages, List.flatMap_cons, batchLog]

theorem logsKnown_expandFrom {e : Engine γ} (hx : e.extensions.Detached) (origin : Origin) :
    (e.expandFrom origin true).2.session.rules.names = e.session.rules.names ∧
      ∀ event ∈ (e.expandFrom origin true).2.session.events,
        event.rule ∈ e.session.rules.names := by
  have hread := passing_logsKnown.keeps_readAndEvaluate (fun nodes s =>
    passing_logsKnown.keeps_evaluateAt (fun inner _ => hx.keptByExtensions_logsKnown inner)
      (nestingLevels s.context.maxDepth) nodes s) origin (e.startOf true)
  obtain ⟨notices, hsession⟩ := e.exists_session_expandFrom origin true
  rw [hsession]
  exact ⟨hread.1, fun event hevent => (hread.2 event hevent).resolve_left (Array.not_mem_empty _)⟩

theorem rule_mem_names_of_mem_batchLog {e : Engine γ} (hx : e.extensions.Detached)
    (origin : Origin) (n : Nat) :
    ∀ event ∈ e.batchLog origin n, event.rule ∈ e.session.rules.names := by
  induction n generalizing e with
  | zero => exact nofun
  | succ n ih =>
      obtain ⟨hnames, hlog⟩ := logsKnown_expandFrom hx origin
      intro event hevent
      rw [batchLog_succ, List.mem_append, Array.mem_toList_iff] at hevent
      refine hevent.elim (hlog event) fun hlater => ?_
      exact hnames ▸ ih ((e.extensions_expandFrom origin true).symm ▸ hx) event hlater

end Engine

namespace Batch

theorem policy_run (origin : Origin) (n : Nat) (b : Batch γ) :
    (run origin n b).engine.policy = b.engine.policy := by
  induction n generalizing b with
  | zero => rfl
  | succ n ih =>
      rw [run_succ, ih]
      exact b.engine.policy_expandFrom origin true

/-- The answers of a batch are those of its expansions. -/
theorem answers_run (origin : Origin) (n : Nat) (b : Batch γ) :
    (run origin n b).answers.toList =
      b.answers.toList ++ (b.engine.stages origin n).map fun e => (e.expandFrom origin true).1 := by
  induction n generalizing b with
  | zero => rw [run_zero, Engine.stages, List.map_nil, List.append_nil]
  | succ n ih =>
      rw [run_succ, ih, Engine.stages, List.map_cons, step, Array.toList_push, List.append_assoc]
      rfl

theorem get?_counts_run (origin : Origin) (n : Nat) (b : Batch γ) {before : List Text}
    (h : ∀ rule, b.counts.get? rule = (tally before).get? rule) (rule : Text) :
    (run origin n b).counts.get? rule =
      (tally (before ++ (b.engine.batchLog origin n).map Event.rule)).get? rule := by
  induction n generalizing b before with
  | zero =>
      rw [run_zero, Engine.batchLog, Engine.stages, List.flatMap_nil, List.map_nil,
        List.append_nil]
      exact h rule
  | succ n ih =>
      have htallied := b.engine.tallied_expandFrom origin
      have hstep (rule : Text) : (b.step origin).counts.get? rule =
          (tally (before ++
            (b.engine.expandFrom origin true).2.session.loggedRules)).get? rule := by
        rw [step, ← RuleCounts.get?_addAll_tally h, ← htallied]
      rw [run_succ, ih (b.step origin) hstep, Engine.batchLog_succ, List.map_append,
        List.append_assoc]
      rfl

/-- A rule is counted in a batch exactly if one of its expansions has logged it, and as often as
they have. -/
theorem get?_counts_run_start (origin : Origin) (n : Nat) (e : Engine γ) (rule : Text) :
    (run origin n (start e)).counts.get? rule =
      if rule ∈ (e.batchLog origin n).map Event.rule then
        some (((e.batchLog origin n).map Event.rule).count rule) else none := by
  have hstart (rule : Text) : (start e).counts.get? rule = (tally []).get? rule := rfl
  rw [get?_counts_run origin n (start e) hstart, get?_tally]
  rfl

end Batch

end TextGrammar
