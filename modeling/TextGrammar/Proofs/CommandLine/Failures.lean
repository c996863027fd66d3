import TextGrammar.Proofs.CommandLine.Runs
import TextGrammar.Proofs.Engine.Batch

/-!
# Failures, told by texts

An expansion answers with a text whether it fails or not, and the answer to a failed one begins in
a certain way. Nothing keeps a grammar from producing such a text without a failure
(`Engine.Misleads`). So the beginning of an answer tells a failure exactly where no text of the
grammar begins alike, and the number of failures that a summary gives counts such texts along with
the failed expansions (`answers_tell_failures`).
-/

namespace TextGrammar

variable {γ : Type} [RandomSource γ]

namespace Engine

def Fails (e : Engine γ) (origin : Origin) (reset : Bool) : Prop :=
  ∃ fault s, e.outcome origin reset = .error fault s

/-- The expansion succeeds with a text that begins like the answer to a failed one. -/
def Misleads (e : Engine γ) (origin : Origin) (reset : Bool) : Prop :=
  ∃ answer s, e.outcome origin reset = .ok answer s ∧ ("error: " : Text).toList <+: answer.toList

instance (e : Engine γ) (origin : Origin) (reset : Bool) : Decidable (e.Fails origin reset) :=
  match h : e.outcome origin reset with
  | .ok _ _ => isFalse fun ⟨_, _, hfault⟩ => nomatch h.symm.trans hfault
  | .error fault s => isTrue ⟨fault, s, h⟩

instance (e : Engine γ) (origin : Origin) (reset : Bool) : Decidable (e.Misleads origin reset) :=
  match h : e.outcome origin reset with
  | .ok answer s =>
      decidable_of_iff (("error: " : Text).toList <+: answer.toList)
        ⟨fun hlead => ⟨answer, s, h, hlead⟩, fun ⟨_, _, hok, hlead⟩ => by
          cases h.symm.trans hok
          exact hlead⟩
  | .error _ _ => isFalse fun ⟨_, _, hok, _⟩ => nomatch h.symm.trans hok

theorem not_misleads_of_fails {e : Engine γ} {origin : Origin} {reset : Bool}
    (h : e.Fails origin reset) : ¬e.Misleads origin reset := by
  rintro ⟨answer, s, hok, -⟩
  obtain ⟨fault, t, herror⟩ := h
  rw [herror] at hok
  cases hok

/-- An answer begins like that to a failed expansion if the expansion fails, or misleads. -/
theorem lead_expandFrom_iff (e : Engine γ) (origin : Origin) (reset : Bool) :
    ("error: " : Text).toList <+: (e.expandFrom origin reset).1.toList ↔
      e.Fails origin reset ∨ e.Misleads origin reset := by
  cases h : e.outcome origin reset with
  | ok answer s =>
      rw [expandFrom_of_ok h]
      constructor
      · exact fun hlead => .inr ⟨answer, s, h, hlead⟩
      · rintro (⟨fault, t, herror⟩ | ⟨answer', t, hok, hlead⟩)
        · cases h.symm.trans herror
        · cases h.symm.trans hok
          exact hlead
  | error fault s =>
      rw [expandFrom_of_error h]
      refine ⟨fun _ => .inl ⟨fault, s, h⟩, fun _ => ?_⟩
      exact List.isPrefixOf_iff_prefix.1 (looksFailed_faultText fault)

theorem looksFailed_expandFrom (e : Engine γ) (origin : Origin) (reset : Bool) :
    looksFailed (e.expandFrom origin reset).1 =
      (decide (e.Fails origin reset) || decide (e.Misleads origin reset)) := by
  rw [Bool.eq_iff_iff, looksFailed, List.isPrefixOf_iff_prefix, faultLead, lead_expandFrom_iff]
  simp

end Engine

theorem Batch.failures_run_start (origin : Origin) (n : Nat) (e : Engine γ) :
    (run origin n (start e)).failures =
      (e.stages origin n).countP (fun e => e.Fails origin true) +
        (e.stages origin n).countP (fun e => e.Misleads origin true) := by
  have hanswers : (run origin n (start e)).answers.toList =
      (e.stages origin n).map fun e => (e.expandFrom origin true).1 :=
    answers_run origin n (start e)
  rw [failures, hanswers, ← List.countP_eq_length_filter, List.countP_map]
  induction e.stages origin n with
  | nil => rfl
  | cons first rest ih =>
      have hdisjoint : first.Fails origin true → ¬first.Misleads origin true :=
        Engine.not_misleads_of_fails
      rw [List.countP_cons, List.countP_cons, List.countP_cons, ih, Function.comp_apply,
        first.looksFailed_expandFrom]
      by_cases hfails : first.Fails origin true
      · simp only [hfails, hdisjoint hfails, decide_true, decide_false, Bool.true_or, if_true,
          Bool.false_eq_true, if_false]
        omega
      · simp only [hfails, decide_false, Bool.false_or, Bool.false_eq_true, if_false]
        omega

namespace CommandLine

/-- Where answers tell failures. A failed expansion is answered with a text that begins with the
lead of failures, and a successful one with the text it has come to; so an answer begins so if and
only if the expansion has failed or has come to such a text. The failures in the summary of a run
are the failed ones among its expansions, and those that have come to such a text. -/
theorem answers_tell_failures :
    (∀ (e : Engine γ) (origin : Origin) (reset : Bool),
      (∀ fault s, e.outcome origin reset = .error fault s →
        ("error: " : Text).toList <+: (e.expandFrom origin reset).1.toList) ∧
      (∀ answer s, e.outcome origin reset = .ok answer s →
        (e.expandFrom origin reset).1 = answer) ∧
      (("error: " : Text).toList <+: (e.expandFrom origin reset).1.toList ↔
        e.Fails origin reset ∨ e.Misleads origin reset)) ∧
      ∀ (base : English.Base) (args : List Text) (a : Arguments) (sur : Surroundings),
        readArguments args = .ok (some a) → a.settings.dryRun = false →
          ((program base args).runIn sur).ending.code = 0 →
            ∃ (count : Nat) (seed : Option Int) (counts : RuleCounts) (failures : Nat)
              (made e : Engine Twister), a.settings.count = .value count ∧
                sur.Makes base a seed made ∧
                e = (if (a.settings.trace.filter (· ≠ ("" : Text))).isSome then made.addTracer none
                  else made) ∧
                ((program base args).runIn sur).summary = some (.batch a.settings.origin
                  made.policy seed ((e.stages a.settings.origin count).map fun e =>
                    (e.expandFrom a.settings.origin true).1) counts failures) ∧
                failures =
                  (e.stages a.settings.origin count).countP
                    (fun e => e.Fails a.settings.origin true) +
                  (e.stages a.settings.origin count).countP
                    (fun e => e.Misleads a.settings.origin true) := by
  refine ⟨fun e origin reset => ⟨fun fault s h => ?_, fun answer s h => ?_, ?_⟩,
    fun base args a sur hargs hdry hcode => ?_⟩
  · exact (e.lead_expandFrom_iff origin reset).2 (.inl ⟨fault, s, h⟩)
  · rw [Engine.expandFrom_of_ok h]
  · exact e.lead_expandFrom_iff origin reset
  · obtain ⟨count, rank, seed, made, hcount, hpos, hmakes, hrun⟩ :=
      exists_batch_of_succeeds hargs hdry hcode
    obtain ⟨count, rfl⟩ := Int.eq_ofNat_of_zero_le (Int.le_of_lt hpos)
    let e :=
      if (a.settings.trace.filter (· ≠ ("" : Text))).isSome then made.addTracer none else made
    let b := (Batch.start e).run a.settings.origin count
    have hanswers : b.answers.toList = (e.stages a.settings.origin count).map fun e =>
        (e.expandFrom a.settings.origin true).1 :=
      Batch.answers_run a.settings.origin count (Batch.start e)
    have hpolicy : b.engine.policy = made.policy := by
      refine (Batch.policy_run a.settings.origin count (Batch.start e)).trans ?_
      change (if _ then made.addTracer none else made : Engine Twister).policy = _
      split <;> rfl
    refine ⟨count, seed, b.counts, b.failures, made, e, hcount, hmakes, rfl, ?_,
      Batch.failures_run_start a.settings.origin count e⟩
    rw [hrun, ← hanswers, ← hpolicy]
    rfl

/-- Two expansions of a text that is malformed, both of which are counted as failed. -/
theorem answers_tell_failures_malformed :
    let report := (program [] ["-", "--origin", "#oops", "--count", "2", "--seed", "1"]).runIn
      ⟨.ok "\x7b\x7d", fun _ => .error .missing, fun _ => .ok (), 0⟩
    report.ending.code = 0 ∧ ∃ policy seed answers counts failures, ∃ e : Engine Twister,
      report.summary = some (.batch (.text "#oops") policy seed answers counts failures) ∧
        failures = 2 ∧
          (e.stages (.text "#oops") 2).countP (fun e => e.Fails (.text "#oops") true) +
            (e.stages (.text "#oops") 2).countP (fun e => e.Misleads (.text "#oops") true) = 2 := by
  intro report
  obtain ⟨a, hargs, hcount, hdry, horigin⟩ :
      ∃ a, readArguments ["-", "--origin", "#oops", "--count", "2", "--seed", "1"] =
          .ok (some a) ∧ a.settings.count = .value 2 ∧ a.settings.dryRun = false ∧
            a.settings.origin = .text "#oops" :=
    ⟨_, rfl, rfl, rfl, rfl⟩
  have hcode : report.ending.code = 0 := by decide +kernel
  have hcounted : (report.summary.bind Summary.totals?).map (·.2.2) = some 2 := by
    decide +kernel
  obtain ⟨count, seed, counts, failures, made, e, hcount', -, -, hsummary, hfailures⟩ :=
    (answers_tell_failures (γ := Twister)).2 [] _ a _ hargs hdry hcode
  rw [hcount] at hcount'
  cases hcount'
  rw [horigin] at hsummary hfailures
  have hsummary' : report.summary = _ := hsummary
  rw [hsummary'] at hcounted
  have htwo : failures = 2 := Option.some.inj hcounted
  exact ⟨hcode, made.policy, seed, _, counts, failures, e, hsummary, htwo, hfailures ▸ htwo⟩

/-- A text that is given begins like a failure, and is counted as one. -/
theorem answers_tell_failures_of_text :
    (∃ (e : Engine Twister) (s : Session Twister),
      Engine.create [] .standard ⟨#[], 0⟩ = .ok e ∧
        e.outcome (.text "error: x") true = .ok "error: x" s ∧
          ("error: " : Text).toList <+: (e.expand "error: x" true).1.toList) ∧
      (((program [] ["-", "--origin", "error: x", "--seed", "1"]).runIn
          ⟨.ok "\x7b\x7d", fun _ => .error .missing, fun _ => .ok (), 0⟩).summary.bind
        Summary.totals?).map (fun t => (t.1, t.2.2)) = some ((["error: x"] : List Text), 1) := by
  refine ⟨?_, by decide +kernel⟩
  obtain ⟨e, he, hchecks⟩ : ∃ e : Engine Twister,
      Engine.create [] .standard ⟨#[], 0⟩ = .ok e ∧
        (match e.outcome (.text "error: x") true with
          | .ok answer _ => decide (answer = "error: x")
          | .error _ _ => false) = true :=
    Engine.exists_of_create (by decide +kernel)
  cases h : e.outcome (.text "error: x") true with
  | error fault s =>
      rw [h] at hchecks
      cases hchecks
  | ok answer s =>
      rw [h] at hchecks
      obtain rfl := of_decide_eq_true hchecks
      have hlead : ("error: " : Text).toList <+: ("error: x" : Text).toList := by decide
      refine ⟨e, s, he, h, ?_⟩
      rw [Engine.expand, Engine.expandFrom_of_ok h]
      exact hlead

end CommandLine

end TextGrammar
