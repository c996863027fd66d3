import TextGrammar.Event.Reading
import TextGrammar.Proofs.Json.Record

/-!
# What a tracer writes

A tracer writes one line for each event of the rules it traces, numbered in their order
(`Tracer.toList_sink_recordAll`). A line is a record in JSON and has no line end inside it, so
that what is written falls into its lines again, and each line into the number and the event it
was written for (`readTrace?_sink`).

JSON knows no surrogates but as the halves of a character. Where the rule or the text of an event
holds a high one directly before a low one, the line shows the character of the two, and the event
is read back with that character in their place (`Event.joinPairs`).
-/

namespace TextGrammar

/-! ## Lines -/

theorem linesOf?_flatMap {lines : List (List Char)} (h : ∀ line ∈ lines, '\n' ∉ line) :
    linesOf? (lines.flatMap (· ++ ['\n'])) = some lines := by
  induction lines with
  | nil => rfl
  | cons line lines ih =>
      have hrest : linesFrom [] (lines.flatMap (· ++ ['\n'])) = some lines :=
        ih fun l hl => h l (List.mem_cons_of_mem _ hl)
      rw [linesOf?, List.flatMap_cons, List.append_assoc, List.singleton_append,
        linesFrom_append _ _ _ (h line (List.mem_cons_self ..)), hrest]
      rfl

namespace Event

def traceLine (number : Nat) (e : Event) : List Char :=
  jsonChars (.table (e.numberedFields number))

theorem isAtom_value (i : Index) : i.value.IsAtom := by
  cases i <;> trivial

theorem isAtom_of_mem_fields (number : Nat) (e : Event) :
    ∀ entry ∈ e.numberedFields number, entry.2.IsAtom := by
  intro entry hentry
  simp only [numberedFields, fields, List.mem_cons, List.not_mem_nil, or_false] at hentry
  rcases hentry with rfl | rfl | rfl | rfl | rfl
  · trivial
  · trivial
  · exact isAtom_value e.candidate
  · trivial
  · trivial

def joinPairs (e : Event) : Event := { e with rule := e.rule.joinPairs, text := e.text.joinPairs }

def Joined (e : Event) : Prop := e.rule.Joined ∧ e.text.Joined

instance (e : Event) : Decidable e.Joined := inferInstanceAs (Decidable (_ ∧ _))

theorem joinPairs_of_joined {e : Event} (h : e.Joined) : e.joinPairs = e := by
  rw [joinPairs, Text.joinPairs_eq_self_iff.2 h.1, Text.joinPairs_eq_self_iff.2 h.2]

theorem joinEntries_numberedFields (number : Nat) (e : Event) :
    joinEntries (e.numberedFields number) = e.joinPairs.numberedFields number := by
  have hcandidate : e.candidate.value.joinPairs = e.candidate.value := by
    cases e.candidate <;> rfl
  simp only [joinEntries, numberedFields, fields, List.map_cons, List.map_nil, hcandidate]
  rfl

theorem readJson_traceLine (number : Nat) (e : Event) :
    readJson none (String.ofList (e.traceLine number)) =
      .ok (.table (e.joinPairs.numberedFields number)) := by
  rw [← joinEntries_numberedFields]
  exact readJson_writeJson_record (isAtom_of_mem_fields number e)

/-- The line of an event does not tell a surrogate pair from its character. -/
theorem traceLine_joinPairs (number : Nat) (e : Event) :
    e.joinPairs.traceLine number = e.traceLine number := by
  rw [traceLine, ← joinEntries_numberedFields]
  exact jsonChars_joinEntries (isAtom_of_mem_fields number e)

theorem newline_notMem_traceLine (number : Nat) (e : Event) : '\n' ∉ e.traceLine number :=
  newline_notMem_jsonChars_record (isAtom_of_mem_fields number e)

theorem ofLine?_traceLine (number : Nat) (e : Event) :
    ofLine? (e.traceLine number) = some (number, e.joinPairs) := by
  rw [ofLine?, readJson_traceLine]
  exact ofValue?_table number e.joinPairs

end Event

namespace Tracer

/-! ## Events one after the other -/

def kept (t : Tracer) (es : List Event) : List Event := es.filter fun e => t.traces e.rule

/-- The lines of events, numbered from the next number on. -/
def lines (t : Tracer) (es : List Event) : List (List Char) :=
  ((t.kept es).zipIdx t.written).map fun p => p.1.traceLine p.2

theorem recordAll_append (t : Tracer) (es more : List Event) :
    t.recordAll (es ++ more) = (t.recordAll es).recordAll more :=
  List.foldl_append

@[simp] theorem rules_record (t : Tracer) (e : Event) : (t.record e).rules = t.rules := by
  unfold record
  split <;> rfl

@[simp] theorem kept_record (t : Tracer) (e : Event) (es : List Event) :
    (t.record e).kept es = t.kept es := by
  simp only [kept, traces, rules_record]

theorem record_of_traces {t : Tracer} {e : Event} (h : t.traces e.rule = true) :
    t.record e = { t with written := t.written + 1, sink := t.sink ++ line t.written e } :=
  if_pos h

theorem record_of_not_traces {t : Tracer} {e : Event} (h : t.traces e.rule = false) :
    t.record e = t :=
  if_neg (by simp [h])

theorem kept_cons (t : Tracer) (e : Event) (es : List Event) :
    t.kept (e :: es) = if t.traces e.rule then e :: t.kept es else t.kept es :=
  List.filter_cons

theorem toList_line (number : Nat) (e : Event) :
    (line number e).toList = e.traceLine number ++ ['\n'] := by
  rw [line, String.toList_append, writeJson, String.toList_ofList]
  rfl

theorem lines_cons (t : Tracer) (e : Event) (es : List Event) :
    t.lines (e :: es) =
      if t.traces e.rule then e.traceLine t.written :: (t.record e).lines es else t.lines es := by
  unfold lines
  rw [kept_cons, kept_record]
  split
  · next h => rw [List.zipIdx_cons, List.map_cons, record_of_traces h]
  · rfl

theorem written_recordAll (t : Tracer) (es : List Event) :
    (t.recordAll es).written = t.written + (t.kept es).length := by
  induction es generalizing t with
  | nil => rfl
  | cons e es ih =>
      rw [recordAll_cons, ih, kept_record, kept_cons]
      cases h : t.traces e.rule with
      | true =>
          rw [record_of_traces h, if_pos rfl, List.length_cons]
          simp only
          omega
      | false =>
          rw [record_of_not_traces h]
          rfl

theorem toList_sink_recordAll (t : Tracer) (es : List Event) :
    (t.recordAll es).sink.toList = t.sink.toList ++ (t.lines es).flatMap (· ++ ['\n']) := by
  induction es generalizing t with
  | nil => simp [lines, kept]
  | cons e es ih =>
      rw [recordAll_cons, ih, lines_cons]
      cases h : t.traces e.rule with
      | true =>
          rw [if_pos rfl, List.flatMap_cons, record_of_traces h, String.toList_append,
            toList_line, List.append_assoc]
      | false =>
          rw [record_of_not_traces h]
          rfl

/-! ## Reading back -/

theorem newline_notMem_of_mem_lines {t : Tracer} {es : List Event} {line : List Char}
    (h : line ∈ t.lines es) : '\n' ∉ line := by
  obtain ⟨p, -, rfl⟩ := List.mem_map.1 h
  exact p.1.newline_notMem_traceLine p.2

theorem mapM_ofLine?_lines (t : Tracer) (es : List Event) :
    (t.lines es).mapM Event.ofLine? =
      some ((((t.kept es).map Event.joinPairs).zipIdx t.written).map Prod.swap) := by
  have hline : (Event.ofLine? ∘ fun p : Event × Nat => p.1.traceLine p.2) =
      fun p => (pure (p.2, p.1.joinPairs) : Option (Nat × Event)) := by
    funext p
    rw [Function.comp_apply, Event.ofLine?_traceLine]
    rfl
  rw [lines, List.mapM_map, hline, List.mapM_pure, List.zipIdx_map, List.map_map]
  rfl

/-- What a new tracer has written for events is read back as those it keeps, with their numbers
and their surrogate pairs joined. -/
theorem readTrace?_sink (rules : Option (List Text)) (es : List Event) :
    readTrace? ((start rules).recordAll es).sink =
      some ((((start rules).kept es).map Event.joinPairs).zipIdx.map Prod.swap) := by
  have hsink : ((start rules).recordAll es).sink.toList =
      ((start rules).lines es).flatMap (· ++ ['\n']) :=
    toList_sink_recordAll (start rules) es
  rw [readTrace?, hsink, linesOf?_flatMap fun line h => newline_notMem_of_mem_lines h]
  exact mapM_ofLine?_lines (start rules) es

/-- The lines of events are those of the events with their surrogate pairs joined. -/
theorem lines_eq_map_joinPairs (t : Tracer) (es : List Event) :
    t.lines es =
      (((t.kept es).map Event.joinPairs).zipIdx t.written).map fun p => p.1.traceLine p.2 := by
  rw [lines, List.zipIdx_map, List.map_map]
  exact List.map_congr_left fun p _ => (p.1.traceLine_joinPairs p.2).symm

/-- What has been written tells the events that were kept, up to the joining of surrogate pairs,
and nothing beyond that. -/
theorem sink_eq_iff {rules rules' : Option (List Text)} {es es' : List Event} :
    ((start rules).recordAll es).sink = ((start rules').recordAll es').sink ↔
      ((start rules).kept es).map Event.joinPairs =
        ((start rules').kept es').map Event.joinPairs := by
  constructor
  · intro h
    have hread := (readTrace?_sink rules es).symm.trans (h ▸ readTrace?_sink rules' es')
    have hfirst := congrArg (List.map Prod.snd) (Option.some.inj hread)
    simpa [List.map_map, Function.comp_def] using hfirst
  · intro h
    have hlines : (start rules).lines es = (start rules').lines es' := by
      rw [lines_eq_map_joinPairs, lines_eq_map_joinPairs, h]
      rfl
    rw [← String.toList_inj, toList_sink_recordAll, toList_sink_recordAll, hlines]
    rfl

theorem map_joinPairs_of_joined {es : List Event} (h : ∀ e ∈ es, e.Joined) :
    es.map Event.joinPairs = es :=
  (List.map_congr_left fun e he => Event.joinPairs_of_joined (h e he)).trans es.map_id

/-- What a tracer writes tells every event it keeps, up to the joining of surrogate pairs. It is as
many lines as the tracer counts, each with its end and none inside it. Line `k` is a record in JSON:
the number `k` and the fields of event `k` among those kept, a character standing for every high
surrogate and low one directly behind it. So the whole is read back as the events, joined in this
way, with their numbers, and equal texts are written for just the events that are then equal, even
by tracers of different rules. Events without such a pair come back as they were. -/
theorem sink_lossless_up_to_pairs (rules : Option (List Text)) (es : List Event) :
    (∃ lines : List (List Char),
      ((start rules).recordAll es).sink.toList = lines.flatMap (· ++ ['\n']) ∧
        lines.length = ((start rules).recordAll es).written ∧
        lines.length = ((start rules).kept es).length ∧
        (∀ line ∈ lines, '\n' ∉ line) ∧
        ∀ (k : Nat) (line : List Char) (e : Event), lines[k]? = some line →
          ((start rules).kept es)[k]? = some e →
            readJson none (String.ofList line) =
              .ok (.table [("seq", .int k), ("rule", .text e.rule.joinPairs),
                ("candidate", e.candidate.value), ("depth", .int e.depth),
                ("text", .text e.text.joinPairs)])) ∧
      readTrace? ((start rules).recordAll es).sink =
        some ((((start rules).kept es).map Event.joinPairs).zipIdx.map Prod.swap) ∧
      (∀ (rules' : Option (List Text)) (es' : List Event),
        ((start rules).recordAll es).sink = ((start rules').recordAll es').sink ↔
          ((start rules).kept es).map Event.joinPairs =
            ((start rules').kept es').map Event.joinPairs) ∧
      ((∀ e ∈ (start rules).kept es, e.Joined) →
        readTrace? ((start rules).recordAll es).sink =
          some (((start rules).kept es).zipIdx.map Prod.swap) ∧
        ∀ (rules' : Option (List Text)) (es' : List Event),
          (∀ e ∈ (start rules').kept es', e.Joined) →
          ((start rules).recordAll es).sink = ((start rules').recordAll es').sink →
            (start rules).kept es = (start rules').kept es') := by
  have hlength : ((start rules).lines es).length = ((start rules).kept es).length := by
    rw [lines, List.length_map, List.length_zipIdx]
  refine ⟨⟨(start rules).lines es, ?_, ?_, hlength, ?_, ?_⟩, readTrace?_sink rules es,
    fun rules' es' => sink_eq_iff, fun hjoined => ⟨?_, ?_⟩⟩
  · exact toList_sink_recordAll (start rules) es
  · rw [written_recordAll, hlength]
    exact (Nat.zero_add _).symm
  · exact fun line h => newline_notMem_of_mem_lines h
  · intro k line e hline he
    have hwritten : ((start rules).lines es)[k]? = some (e.traceLine k) := by
      rw [lines, List.getElem?_map, List.getElem?_zipIdx, he]
      simp [start]
    rw [hwritten] at hline
    obtain rfl := Option.some.inj hline
    exact Event.readJson_traceLine k e
  · rw [readTrace?_sink, map_joinPairs_of_joined hjoined]
  · intro rules' es' hjoined' hsink
    rw [← map_joinPairs_of_joined hjoined, ← map_joinPairs_of_joined hjoined']
    exact sink_eq_iff.1 hsink

/-- Events of one rule, one of them with a line end, quotes and a character of two units, come back
with their numbers. -/
theorem sink_lossless_up_to_pairs_filtered :
    let quoted : Event := ⟨"r", .number 0, 2, "a\n\"b\" 😀"⟩
    let other : Event := ⟨"s", .number 1, 1, "c"⟩
    let empty : Event := ⟨"r", .number 1, 3, ""⟩
    (∀ e ∈ (start (some ["r"])).kept [quoted, other, empty], e.Joined) ∧
      readTrace? ((start (some ["r"])).recordAll [quoted, other, empty]).sink =
        some [(0, quoted), (1, empty)] := by
  intro quoted other empty
  have hjoined : ∀ e ∈ (start (some ["r"])).kept [quoted, other, empty], e.Joined := by decide
  obtain ⟨-, -, -, hread⟩ := sink_lossless_up_to_pairs (some ["r"]) [quoted, other, empty]
  exact ⟨hjoined, (hread hjoined).1⟩

/-- The two surrogates of a character, one behind the other, are written and read back like the
character. -/
theorem sink_same_for_pair_and_character :
    let pair : Event := ⟨"r", .number 0, 1, .ofList [.ofNat 0xd83d, .ofNat 0xde00]⟩
    let character : Event := ⟨"r", .number 0, 1, "😀"⟩
    ((start none).recordAll [pair]).sink = ((start none).recordAll [character]).sink ∧
      (start none).kept [pair] ≠ (start none).kept [character] ∧
      readTrace? ((start none).recordAll [pair]).sink = some [(0, character)] := by
  intro pair character
  have hjoin : ((start none).kept [pair]).map Event.joinPairs = [character] := by decide
  have hjoin' : ((start none).kept [character]).map Event.joinPairs = [character] := by decide
  refine ⟨sink_eq_iff.2 (hjoin.trans hjoin'.symm), by decide, ?_⟩
  rw [readTrace?_sink, hjoin]
  rfl

end Tracer

end TextGrammar
