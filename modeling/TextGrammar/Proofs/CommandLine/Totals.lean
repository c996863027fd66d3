import TextGrammar.Modifier.Base
import TextGrammar.Proofs.Engine.Tracing
import TextGrammar.Proofs.Json.Names
import TextGrammar.Proofs.Registry.LastDefinition

/-!
# Totals and traces

The summary of a run tells how often each rule has been expanded in all its expansions, and the file
of events has a line for every expansion of a rule. The first is added up from counts that every
expansion begins anew, the second is written event by event as the run goes. Both come from the logs
of the expansions, and so they agree (`totals_agree_with_trace`), whatever the expansions come to.
The names of the rules are told from each other in the file because they have been read from JSON
themselves.
-/

namespace TextGrammar

namespace CommandLine

variable {base : English.Base} {sur : Surroundings}

theorem untraced_of_makeEngine (hbase : base.Detached) {english : Bool} {options : Options}
    {book : List (Text × Definition)} {random : Twister} {e : Engine Twister}
    (h : makeEngine base english options book random = .ok e) : e.Untraced := by
  obtain ⟨made, hmade, rfl⟩ := exists_of_map_eq_ok h
  have huntraced := Engine.untraced_of_create hmade
  split
  · exact huntraced.installAll (English.detached_modifiers hbase)
  · exact huntraced

theorem events_expandBatch {e : Engine Twister} (h : e.Untraced) (o : BatchOrder) (rank : Nat)
    (path : Text) :
    (expandBatch o rank (some path) e).events =
      some (path, ((Tracer.start none).recordAll
        ((e.addTracer none).batchLog o.origin o.count)).sink) := by
  have htracer : ((Batch.start (e.addTracer none)).run o.origin o.count).engine.session.tracers =
      #[(Tracer.start none).recordAll ((e.addTracer none).batchLog o.origin o.count)] :=
    (Batch.tracer_run o.origin o.count (b := Batch.start (e.addTracer none))
      (h.addTracer none)).tracers
  change some (path, String.join
    (((Batch.start (e.addTracer none)).run o.origin o.count).engine.session.tracers.toList.map
      (·.sink))) = _
  rw [htracer]
  simp [String.join]

/-- A tracer of all rules keeps all events. -/
theorem kept_start_none (es : List Event) : (Tracer.start none).kept es = es :=
  List.filter_eq_self.2 fun _ _ => rfl

/-- What a tracer of all rules has written is read as all events, numbered without gap, with their
surrogate pairs joined. -/
theorem exists_records (es : List Event) :
    ∃ records, readTrace? ((Tracer.start none).recordAll es).sink = some records ∧
      records.map Prod.fst = List.range records.length ∧
        records.map Prod.snd = es.map Event.joinPairs := by
  refine ⟨(es.map Event.joinPairs).zipIdx.map Prod.swap, ?_, ?_, ?_⟩
  · rw [Tracer.readTrace?_sink, kept_start_none]
  · rw [List.map_map, List.length_map, List.length_zipIdx, List.range_eq_range',
      ← List.zipIdx_map_snd 0 (es.map Event.joinPairs)]
    rfl
  · rw [List.map_map]
    exact List.zipIdx_map_fst 0 _

/-- The names of the rules have been read from JSON, so that no surrogate pair is left in them. -/
theorem Surroundings.Makes.joined {a : Arguments} {seed : Option Int} {e : Engine Twister}
    (h : sur.Makes base a seed e) : ∀ name ∈ e.session.rules.names, name.Joined := by
  obtain ⟨book, options, hbook, -, hmade⟩ := h
  intro name hname
  rw [names_of_makeEngine hmade, mem_distinct_iff, mem_filterMap_registers?_iff] at hname
  obtain ⟨d, hentry, -⟩ := hname
  obtain ⟨text, hread⟩ := exists_readBook_of_book? hbook
  exact joined_of_readBook hread name (List.mem_map.2 ⟨_, hentry, rfl⟩)

/-- The rules of the events that a batch logs are read back as they are. -/
theorem map_rule_joinPairs_batchLog {e : Engine Twister} (huntraced : e.Untraced)
    (hjoined : ∀ name ∈ e.session.rules.names, name.Joined) (origin : Origin) (n : Nat) :
    (((e.addTracer none).batchLog origin n).map Event.joinPairs).map Event.rule =
      ((e.addTracer none).batchLog origin n).map Event.rule := by
  rw [List.map_map]
  refine List.map_congr_left fun event hevent => ?_
  have hknown := Engine.rule_mem_names_of_mem_batchLog (huntraced.addTracer none).detached origin n
    event hevent
  exact Text.joinPairs_eq_self_iff.2 (hjoined event.rule hknown)

/-- The totals of a run agree with its trace. A run that is asked for so many expansions, with a
file for the events, makes an engine of its book, its settings and its seed, and reports an answer
for each expansion; the lines of the file are numbered from zero without gap, over all expansions,
and hold what the expansions have logged, one after the other, with the surrogate pairs of texts
joined; and a rule is counted in the summary exactly if it has a line, and as often as it has lines.
It does not matter how many of the expansions fail, or where. -/
theorem totals_agree_with_trace (hbase : base.Detached) {args : List Text} {a : Arguments}
    {path : Text} (hargs : readArguments args = .ok (some a))
    (htrace : a.settings.trace = some path) (hpath : path ≠ "")
    (hdry : a.settings.dryRun = false)
    (hcode : ((program base args).runIn sur).ending.code = 0) :
    ∃ (count : Nat) (seed : Option Int) (e : Engine Twister) (answers : List Text)
      (counts : RuleCounts) (failures : Nat) (text : String) (records : List (Nat × Event)),
      a.settings.count = .value count ∧ 0 < count ∧ sur.Makes base a seed e ∧
        ((program base args).runIn sur).summary =
          some (.batch a.settings.origin e.policy seed answers counts failures) ∧
        answers.length = count ∧
        ((program base args).runIn sur).events = some (path, text) ∧
        readTrace? text = some records ∧
        records.map Prod.fst = List.range records.length ∧
        records.map Prod.snd =
          ((e.addTracer none).batchLog a.settings.origin count).map Event.joinPairs ∧
        (∀ rule, rule ∈ counts.names ↔ ∃ record ∈ records, record.2.rule = rule) ∧
        ∀ rule n, counts.get? rule = some n →
          n = records.countP fun record => record.2.rule = rule := by
  obtain ⟨count, rank, seed, e, hcount, hpos, hmakes, hrun⟩ :=
    exists_batch_of_succeeds hargs hdry hcode
  obtain ⟨count, rfl⟩ := Int.eq_ofNat_of_zero_le (Int.le_of_lt hpos)
  have hnamed : a.settings.trace.filter (· ≠ ("" : Text)) = some path := by
    rw [htrace, Option.filter_some_pos (by simpa using hpath)]
  have huntraced : e.Untraced := by
    obtain ⟨book, options, -, -, hmade⟩ := hmakes
    exact untraced_of_makeEngine hbase hmade
  rw [hnamed] at hrun
  have hevents := events_expandBatch huntraced ⟨a.settings.origin, count, seed⟩ rank path
  let b := (Batch.start (e.addTracer none)).run a.settings.origin count
  let log := (e.addTracer none).batchLog a.settings.origin count
  have hpolicy : b.engine.policy = e.policy :=
    Batch.policy_run a.settings.origin count (Batch.start (e.addTracer none))
  obtain ⟨records, hread, hnumbers, hlog⟩ := exists_records log
  have hrules : records.map (fun record => record.2.rule) = log.map Event.rule := by
    rw [← map_rule_joinPairs_batchLog huntraced hmakes.joined, ← hlog, List.map_map]
    rfl
  have hcounts (rule : Text) : b.counts.get? rule =
      if rule ∈ log.map Event.rule then some ((log.map Event.rule).count rule) else none :=
    Batch.get?_counts_run_start a.settings.origin count (e.addTracer none) rule
  refine ⟨count, seed, e, b.answers.toList, b.counts, b.failures,
    ((Tracer.start none).recordAll log).sink, records, hcount, by omega, hmakes, ?_, ?_, ?_, hread,
    hnumbers, hlog, ?_, ?_⟩
  · rw [hrun, ← hpolicy]
    rfl
  · rw [Array.length_toList, Batch.size_answers_run]
    exact Nat.zero_add count
  · rw [hrun]
    exact hevents
  · intro rule
    rw [Lexicon.mem_names_iff, hcounts, ← hrules]
    simp
  · intro rule n hn
    rw [hcounts] at hn
    split at hn
    · rw [← Option.some.inj hn, ← hrules, List.count_eq_countP, List.countP_map]
      rfl
    · cases hn

/-- Two expansions with the English modifiers, which fail at a modifier after they have expanded a
rule twice. -/
theorem totals_agree_with_trace_failing :
    let sur : Surroundings :=
      ⟨.ok "\x7b\"r\": \"x\"\x7d", fun _ => .error .missing, fun _ => .ok (), 0⟩
    let report := (program English.base ["-", "--origin", "#r.s##r.none#", "--count", "2", "--seed",
      "1", "--english", "--trace-jsonl", "t"]).runIn sur
    report.ending.code = 0 ∧ ∃ (policy : _) (seed : _) (answers : _) (counts : _) (failures : _)
      (text : String) (records : _),
      report.summary = some (.batch (.text "#r.s##r.none#") policy seed answers counts failures) ∧
        answers.length = 2 ∧ report.events = some (("t" : Text), text) ∧
        readTrace? text = some records ∧
          records.map Prod.fst = List.range records.length ∧
            records.countP (fun record => record.2.rule = ("r" : Text)) = 4 := by
  intro sur report
  obtain ⟨a, hargs, hcount, htrace, hdry, horigin⟩ :
      ∃ a, readArguments ["-", "--origin", "#r.s##r.none#", "--count", "2", "--seed", "1",
          "--english", "--trace-jsonl", "t"] = .ok (some a) ∧ a.settings.count = .value 2 ∧
        a.settings.trace = some "t" ∧ a.settings.dryRun = false ∧
          a.settings.origin = .text "#r.s##r.none#" :=
    ⟨_, rfl, rfl, rfl, rfl, rfl⟩
  have hcode : report.ending.code = 0 := by decide +kernel
  have hcounted : (report.summary.bind Summary.totals?).bind (·.2.1.get? "r") = some 4 := by
    decide +kernel
  obtain ⟨count, seed, e, answers, counts, failures, text, records, hcount', -, -, hsummary,
    hanswers, hevents, hread, hnumbers, -, -, hrules⟩ :=
    totals_agree_with_trace English.detached_base hargs htrace (by decide) hdry hcode
  rw [hcount] at hcount'
  cases hcount'
  rw [horigin] at hsummary
  refine ⟨hcode, e.policy, seed, answers, counts, failures, text, records, hsummary, hanswers,
    hevents, hread, hnumbers, ?_⟩
  have hsummary' : report.summary = _ := hsummary
  rw [hsummary'] at hcounted
  exact (hrules "r" 4 hcounted).symm

end CommandLine

end TextGrammar
