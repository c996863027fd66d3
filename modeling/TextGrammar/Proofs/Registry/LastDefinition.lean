import TextGrammar.Proofs.CommandLine.Runs
import TextGrammar.Proofs.Engine.Tally
import TextGrammar.Proofs.Engine.Verbatim

/-!
# The last definition of a name

A rule book may define a name more than once. An entry counts if its name may name a rule and a
candidate of its definition survives, and then it is registered under that name (`registers?`); any
other entry leaves the rules as they are (`addRule_eq_ok`). So the order of the rules and what they
are come from different entries: a name stands where the first entry that counts put it, and its
rule is the one that the last entry that counts makes (`names_of_addRules`,
`get?_of_addRules_last`).
-/

namespace TextGrammar

/-- The candidates that are left of a definition: those of its texts that are read, without their
weights. -/
def Definition.survivors (d : Definition) : List Candidate :=
  match d.texts with
  | .ok texts => (texts.filterMap candidateOfText?).map Candidate.withoutWeight
  | .error _ => []

/-- The name that an entry of a book is registered under, if it counts. -/
def registers? (entry : Value × Definition) : Option Text :=
  match ruleName entry.1 with
  | .ok n => if entry.2.survivors.isEmpty then none else some n
  | .error _ => none

/-- The definition by the last entry that is registered under a name. -/
def lastDefinition? (name : Text) (book : List (Value × Definition)) : Option Definition :=
  (book.reverse.find? fun entry => registers? entry == some name).map Prod.snd

theorem registers?_of_ok {entry : Value × Definition} {n : Text}
    (hname : ruleName entry.1 = .ok n) :
    registers? entry = if entry.2.survivors = [] then none else some n := by
  simp only [registers?, hname, List.isEmpty_iff]

theorem text?_of_registers? {entry : Value × Definition} {n : Text}
    (h : registers? entry = some n) : entry.1.text? = some n := by
  cases hname : ruleName entry.1 with
  | error fault =>
      rw [registers?, hname] at h
      cases h
  | ok m =>
      rw [registers?_of_ok hname] at h
      split at h
      · cases h
      · cases h
        exact text?_of_ruleName hname

theorem lastDefinition?_concat (name : Text) (book : List (Value × Definition))
    (entry : Value × Definition) :
    lastDefinition? name (book ++ [entry]) =
      if registers? entry = some name then some entry.2 else lastDefinition? name book := by
  rw [lastDefinition?, List.reverse_append, List.reverse_singleton, List.singleton_append,
    List.find?_cons]
  by_cases h : registers? entry = some name
  · simp [h]
  · simp [h, beq_eq_false_iff_ne.2 h, lastDefinition?]

theorem distinct_of_nodup {names : List Text} (h : names.Nodup) : distinct names = names := by
  induction names using List.reverseRecOn with
  | nil => rfl
  | append_singleton names name ih =>
      obtain ⟨hnames, -, hnew⟩ := List.nodup_append.1 h
      have hname : name ∉ names :=
        fun hmem => hnew name hmem name (List.mem_singleton_self name) rfl
      rw [distinct_concat, if_neg hname, ih hnames]

variable {γ : Type} [RandomSource γ]

/-! ## Building -/

theorem Rule.candidates_of_build {name : Text} {d : Definition} {shared shared' : γ}
    {notices : List Notice} {rule : Rule γ}
    (h : Rule.build name d shared = (notices, .ok (some (rule, shared')))) :
    rule.candidates = d.survivors ∧ d.survivors ≠ [] := by
  obtain ⟨texts, read, htexts, hread, hne, hcandidates, -⟩ := Rule.build_eq_ok_some h
  have hsurvivors : d.survivors = read.map Candidate.withoutWeight := by
    simp only [Definition.survivors, htexts, hread]
  rw [hsurvivors]
  exact ⟨hcandidates, by simpa using hne⟩

theorem Rule.survivors_of_build_none {name : Text} {d : Definition} {shared : γ}
    {notices : List Notice} (h : Rule.build name d shared = (notices, .ok none)) :
    d.survivors = [] := by
  cases htexts : d.texts with
  | error fault => rw [Definition.survivors, htexts]
  | ok texts =>
      have hsnd := Rule.build_snd htexts name shared
      rw [h] at hsnd
      split at hsnd
      · cases hsnd
      · have hnil := Rule.ofCandidates?_eq_none_iff.1 (Except.ok.inj hsnd).symm
        simp only [Definition.survivors, htexts, hnil, List.map_nil]

/-- A rule is one that a definition makes under a name, from some source of randomness. -/
def Rule.MadeBy (name : Text) (d : Definition) (rule : Rule γ) : Prop :=
  ∃ shared notices shared', Rule.build name d shared = (notices, .ok (some (rule, shared')))

def RuleBook.Holds (book : RuleBook γ) (name : Text) (d : Definition) : Prop :=
  ∃ rule, rule.MadeBy name d ∧ book.get? name = some rule

theorem RuleBook.Holds.candidates {book : RuleBook γ} {name : Text} {d : Definition}
    (h : book.Holds name d) : (book.get? name).map Rule.candidates = some d.survivors := by
  obtain ⟨rule, ⟨shared, notices, shared', hbuild⟩, hrule⟩ := h
  rw [hrule, Option.map_some, (Rule.candidates_of_build hbuild).1]

/-! ## One entry -/

/-- What registering an entry without a fault does: one that counts makes the rule of its name, and
any other changes no rule. -/
theorem addRule_eq_ok {name : Value} {d : Definition} {s t : Session γ} {taken : Bool}
    (h : addRule name d s = .ok taken t) :
    (registers? (name, d) = none ∧ taken = false ∧ t.rules = s.rules) ∨
      ∃ n rule, registers? (name, d) = some n ∧ taken = true ∧ t.rules = s.rules.put n rule ∧
        t.rules.Holds n d := by
  cases hname : ruleName name with
  | error fault =>
      rw [addRule, hname] at h
      cases h
      exact .inl ⟨by rw [registers?, hname], rfl, rfl⟩
  | ok n =>
      have hregisters : registers? (name, d) = if d.survivors = [] then none else some n :=
        registers?_of_ok hname
      obtain ⟨before, hadd⟩ := exists_addRule_eq hname d s
      rw [hadd, defineRule] at h
      rcases hbuild : Rule.build n d s.random with ⟨notices, fault | _ | ⟨rule, random⟩⟩
      all_goals
        rw [hbuild] at h
        cases h
      · rw [if_pos (Rule.survivors_of_build_none hbuild)] at hregisters
        exact .inl ⟨hregisters, rfl, rfl⟩
      · rw [if_neg (Rule.candidates_of_build hbuild).2] at hregisters
        exact .inr ⟨n, rule, hregisters, rfl, rfl, rule, ⟨_, notices, random, hbuild⟩,
          Lexicon.get?_put_self ..⟩

theorem taken_iff_of_addRule {name : Value} {d : Definition} {s t : Session γ} {taken : Bool}
    (h : addRule name d s = .ok taken t) : taken = true ↔ (registers? (name, d)).isSome := by
  rcases addRule_eq_ok h with ⟨hnone, rfl, -⟩ | ⟨n, rule, hsome, rfl, -⟩
  · simp [hnone]
  · simp [hsome]

theorem get?_of_addRule {name : Value} {d : Definition} {s t : Session γ} {taken : Bool}
    (h : addRule name d s = .ok taken t) {other : Text}
    (hother : registers? (name, d) ≠ some other) :
    t.rules.get? other = s.rules.get? other := by
  rcases addRule_eq_ok h with ⟨-, -, hrules⟩ | ⟨n, rule, hsome, -, hrules, -⟩
  · rw [hrules]
  · rw [hrules, Lexicon.get?_put_of_ne]
    rintro rfl
    exact hother hsome

/-! ## A book -/

theorem exists_of_addRules_concat {book : List (Value × Definition)} {name : Value}
    {d : Definition} {s t : Session γ} (h : addRules (book ++ [(name, d)]) s = .ok () t) :
    ∃ u taken, addRules book s = .ok () u ∧ addRule name d u = .ok taken t := by
  rw [addRules_append] at h
  obtain ⟨_, u, hbook, hlast⟩ := Work.exists_of_bind_eq_ok h
  obtain ⟨taken, v, hentry, hend⟩ := Work.exists_of_bind_eq_ok hlast
  cases hend
  exact ⟨u, taken, hbook, hentry⟩

theorem names_of_addRules {book : List (Value × Definition)} {s t : Session γ}
    (h : addRules book s = .ok () t) :
    t.rules.names = distinct (s.rules.names ++ book.filterMap registers?) := by
  induction book using List.reverseRecOn generalizing t with
  | nil =>
      cases h
      rw [List.filterMap_nil, List.append_nil]
      exact (distinct_of_nodup s.rules.nodup_names).symm
  | append_singleton book entry ih =>
      obtain ⟨u, taken, hbook, hentry⟩ := exists_of_addRules_concat h
      have hnames := ih hbook
      rw [List.filterMap_append, ← List.append_assoc]
      rcases addRule_eq_ok hentry with ⟨hnone, -, hrules⟩ | ⟨n, rule, hsome, -, hrules, -⟩
      · have hlast : [entry].filterMap registers? = [] := by simp [hnone]
        rw [hlast, List.append_nil, hrules, hnames]
      · have hlast : [entry].filterMap registers? = [n] := by simp [hsome]
        rw [hlast, distinct_concat, hrules]
        by_cases hknown : n ∈ s.rules.names ++ book.filterMap registers?
        · rw [if_pos hknown, Lexicon.names_put_of_mem, hnames]
          rwa [hnames, mem_distinct_iff]
        · rw [if_neg hknown, Lexicon.names_put_of_not_mem, hnames]
          rwa [hnames, mem_distinct_iff]

/-- A name has the rule that its last definition makes, and what it had before if there is none. -/
theorem get?_of_addRules_last {book : List (Value × Definition)} {s t : Session γ}
    (h : addRules book s = .ok () t) (name : Text) :
    (lastDefinition? name book = none ∧ t.rules.get? name = s.rules.get? name) ∨
      ∃ d, lastDefinition? name book = some d ∧ t.rules.Holds name d := by
  induction book using List.reverseRecOn generalizing t with
  | nil =>
      cases h
      exact .inl ⟨rfl, rfl⟩
  | append_singleton book entry ih =>
      obtain ⟨u, taken, hbook, hentry⟩ := exists_of_addRules_concat h
      rw [lastDefinition?_concat]
      by_cases hname : registers? entry = some name
      · rw [if_pos hname]
        rcases addRule_eq_ok hentry with ⟨hnone, -⟩ | ⟨n, rule, hsome, -, -, hholds⟩
        · rw [hname] at hnone
          cases hnone
        · cases hname.symm.trans hsome
          exact .inr ⟨entry.2, rfl, hholds⟩
      · simp only [if_neg hname, RuleBook.Holds, get?_of_addRule hentry hname]
        exact ih hbook

theorem candidates_of_addRules {book : List (Value × Definition)} {s t : Session γ}
    (h : addRules book s = .ok () t) (name : Text) :
    (t.rules.get? name).map Rule.candidates =
      ((lastDefinition? name book).map Definition.survivors).or
        ((s.rules.get? name).map Rule.candidates) := by
  rcases get?_of_addRules_last h name with ⟨hnone, hrule⟩ | ⟨d, hsome, hholds⟩
  · rw [hnone, hrule, Option.map_none, Option.none_or]
  · rw [hsome, hholds.candidates, Option.map_some, Option.some_or]

theorem get?_of_addRules_of_not_registered {book : List (Value × Definition)} {s t : Session γ}
    (h : addRules book s = .ok () t) {name : Text}
    (hnone : ∀ entry ∈ book, registers? entry ≠ some name) :
    t.rules.get? name = s.rules.get? name := by
  induction book generalizing s with
  | nil =>
      cases h
      rfl
  | cons entry rest ih =>
      rw [List.forall_mem_cons] at hnone
      obtain ⟨taken, u, hentry, hrest⟩ := Work.exists_of_bind_eq_ok h
      rw [ih hrest hnone.2, get?_of_addRule hentry hnone.1]

theorem mem_filterMap_registers?_iff {book : List (Text × Definition)} {name : Text} :
    name ∈ (book.map fun e => (Value.text e.1, e.2)).filterMap registers? ↔
      ∃ d, (name, d) ∈ book ∧ registers? (.text name, d) = some name := by
  rw [List.filterMap_map, List.mem_filterMap]
  constructor
  · rintro ⟨⟨other, d⟩, hentry, hregisters⟩
    cases text?_of_registers? hregisters
    exact ⟨d, hentry, hregisters⟩
  · rintro ⟨d, hentry, hregisters⟩
    exact ⟨(name, d), hentry, hregisters⟩

/-! ## Names that are dropped -/

theorem nodup_distinct (names : List Text) : (distinct names).Nodup := by
  induction names using List.reverseRecOn with
  | nil => exact List.nodup_nil
  | append_singleton names name ih =>
      rw [distinct_concat]
      split
      · exact ih
      · next hnew =>
          refine List.nodup_append.2 ⟨ih, List.nodup_singleton name, fun a ha b hb hab => ?_⟩
          rw [hab, List.mem_singleton.1 hb, mem_distinct_iff] at ha
          exact hnew ha

theorem pairwise_lt_sortedTexts {texts : List Text} (h : texts.Nodup) :
    (sortedTexts texts).Pairwise (· < ·) := by
  have hsorted : (sortedTexts texts).Pairwise fun a b => decide (a ≤ b) = true := by
    refine List.pairwise_mergeSort (fun a b c hab hbc => ?_) (fun a b => ?_) texts
    · rw [decide_eq_true_eq] at hab hbc ⊢
      exact Text.le_trans hab hbc
    · simpa using Text.le_total a b
  have hnodup : (sortedTexts texts).Nodup := (List.mergeSort_perm texts _).nodup_iff.2 h
  exact (hsorted.and hnodup).imp fun hab =>
    Text.not_le.1 fun hba => hab.2 (Text.le_antisymm (of_decide_eq_true hab.1) hba)

theorem mem_droppedNames_iff {book rules : List Text} {name : Text} :
    name ∈ droppedNames book rules ↔ name ∈ book ∧ name ∉ rules := by
  simp [droppedNames, mem_sortedTexts_iff, mem_distinct_iff]

omit [RandomSource γ] in
theorem Engine.rules_installAll (e : Engine γ) (ms : List (Text × Modifier)) :
    (e.installAll ms).session.rules = e.session.rules := by
  induction ms generalizing e with
  | nil => rfl
  | cons m ms ih =>
      have hinstall : (e.install .modifier m.1 m.2).session.rules = e.session.rules := by
        unfold Engine.install
        split <;> rfl
      exact (ih _).trans hinstall

namespace CommandLine

/-- The English modifiers change no rule. -/
theorem names_of_makeEngine {base : English.Base} {english : Bool} {options : Options}
    {book : List (Text × Definition)} {random : Twister} {e : Engine Twister}
    (h : makeEngine base english options book random = .ok e) :
    e.session.rules.names =
      distinct ((book.map fun entry => (Value.text entry.1, entry.2)).filterMap registers?) := by
  obtain ⟨made, hmade, rfl⟩ := exists_of_map_eq_ok h
  obtain ⟨_, t, -, hadd, hrules⟩ := Engine.exists_addRules_of_create hmade
  have hnames := names_of_addRules hadd
  rw [← hrules] at hnames
  split
  · rw [Engine.rules_installAll, hnames]
    rfl
  · exact hnames

/-- A run that looks at its book only, and succeeds, tells as dropped the names of the book that no
entry has registered, each once and in order. -/
theorem exists_dropped_of_succeeds {base : English.Base} {sur : Surroundings} {args : List Text}
    {a : Arguments}
    (hargs : readArguments args = .ok (some a)) (hdry : a.settings.dryRun = true)
    (h : (program base args).Succeeds sur) :
    ∃ book rules dropped findings, sur.book? a.rules = some book ∧
      ((program base args).runIn sur).summary = some (.book rules dropped findings) ∧
        dropped.Pairwise (· < ·) ∧ ∀ name, name ∈ dropped ↔ name ∈ book.map Prod.fst ∧
          ∀ d, (name, d) ∈ book → registers? (.text name, d) = none := by
  obtain ⟨book, seed, e, hread, ⟨other, options, hother, -, hmade⟩, hsummary⟩ :=
    exists_summary_of_succeeds hargs hdry h
  obtain rfl : book = other := Option.some.inj (hread.symm.trans hother)
  refine ⟨book, _, _, _, hread, hsummary, pairwise_lt_sortedTexts (nodup_distinct _),
    fun name => ?_⟩
  rw [mem_droppedNames_iff, names_of_makeEngine hmade, mem_distinct_iff,
    mem_filterMap_registers?_iff]
  refine and_congr_right fun _ => ⟨fun hnone d hentry => ?_, ?_⟩
  · cases hregisters : registers? (.text name, d) with
    | none => rfl
    | some n =>
        cases text?_of_registers? hregisters
        exact absurd ⟨d, hentry, hregisters⟩ hnone
  · rintro hnone ⟨d, hentry, hregisters⟩
    rw [hnone d hentry] at hregisters
    cases hregisters

end CommandLine

/-- Where no entry of a book stops its registration, the names stand in the order of the first
entries that count, and each has the surviving candidates of the last one; the names and rules that
were there before keep their places, and stay unless such an entry comes. An entry is answered with
yes exactly if it counts. One that does not count changes no rule, and a rule is what its entry has
made of it, selector and all, unless a later entry counts for its name. So the names that the
command line tells as dropped are those of its book for which no entry counts. -/
theorem registration_keeps_last_definition :
    (∀ (book : List (Value × Definition)) (s t : Session γ), addRules book s = .ok () t →
      t.rules.names = distinct (s.rules.names ++ book.filterMap registers?) ∧
      (∀ name, (t.rules.get? name).map Rule.candidates =
        ((lastDefinition? name book).map Definition.survivors).or
          ((s.rules.get? name).map Rule.candidates)) ∧
      ∀ before name d later, book = before ++ (name, d) :: later →
        ∃ u v taken, addRules before s = .ok () u ∧ addRule name d u = .ok taken v ∧
          addRules later v = .ok () t ∧ (taken = true ↔ (registers? (name, d)).isSome) ∧
          (taken = false → v.rules = u.rules) ∧
          ∀ n, (∀ entry ∈ later, registers? entry ≠ some n) →
            t.rules.get? n = v.rules.get? n) ∧
      ∀ (base : English.Base) (args : List Text) (a : CommandLine.Arguments)
        (sur : CommandLine.Surroundings),
        CommandLine.readArguments args = .ok (some a) → a.settings.dryRun = true →
          (CommandLine.program base args).Succeeds sur →
            ∃ book rules dropped findings, sur.book? a.rules = some book ∧
              ((CommandLine.program base args).runIn sur).summary =
                some (.book rules dropped findings) ∧
              dropped.Pairwise (· < ·) ∧ ∀ name, name ∈ dropped ↔ name ∈ book.map Prod.fst ∧
                ∀ d, (name, d) ∈ book → registers? (.text name, d) = none := by
  refine ⟨fun book s t h => ⟨names_of_addRules h, candidates_of_addRules h, ?_⟩,
    fun _ args a sur hargs hdry hcode => CommandLine.exists_dropped_of_succeeds hargs hdry hcode⟩
  rintro before name d later rfl
  rw [addRules_append] at h
  obtain ⟨_, u, hbefore, hrest⟩ := Work.exists_of_bind_eq_ok h
  obtain ⟨taken, v, hentry, hlater⟩ := Work.exists_of_bind_eq_ok hrest
  refine ⟨u, v, taken, hbefore, hentry, hlater, taken_iff_of_addRule hentry, ?_,
    fun n hnone => get?_of_addRules_of_not_registered hlater hnone⟩
  rintro rfl
  rcases addRule_eq_ok hentry with ⟨-, -, hrules⟩ | ⟨_, _, -, htaken, -⟩
  · exact hrules
  · cases htaken

/-- The first entry of one name and the last of the other do not count, and neither does a name that
no rule may have. -/
theorem registration_keeps_last_definition_interleaved :
    let book : List (Value × Definition) := [(.text "b", .ofTexts ["#"]),
      (.text "a", .ofTexts ["x,3", "#"]), (.text "#", .ofTexts ["y"]), (.text "b", .ofTexts ["u"]),
      (.text "a", .ofTexts ["["])]
    let sur : CommandLine.Surroundings :=
      ⟨.ok "\x7b\"b\": \"#\", \"a\": \"x\", \"#\": \"y\", \"a\": \"[\"\x7d",
        fun _ => .error .missing, fun _ => .ok (), 0⟩
    (∃ e : Engine Twister, Engine.create book .standard ⟨#[], 0⟩ = .ok e ∧
      e.session.rules.names = (["a", "b"] : List Text) ∧
        (e.session.rules.get? "a").map (·.candidates.map Candidate.text) =
          some (["x,3"] : List Text)) ∧
      ∃ rules dropped findings,
        ((CommandLine.program [] ["-", "--dry-run"]).runIn sur).summary =
          some (.book rules dropped findings) ∧
          ("b" : Text) ∈ dropped ∧ ("a" : Text) ∉ dropped := by
  intro book sur
  obtain ⟨hadded, hrun⟩ := registration_keeps_last_definition (γ := Twister)
  constructor
  · obtain ⟨e, he, -⟩ : ∃ e : Engine Twister, Engine.create book .standard ⟨#[], 0⟩ = .ok e ∧
        decide (e.session.rules.size = 2) = true := Engine.exists_of_create (by decide +kernel)
    obtain ⟨context, t, -, hadd, hrules⟩ := Engine.exists_addRules_of_create he
    obtain ⟨hnames, hcandidates, -⟩ := hadded book _ t hadd
    refine ⟨e, he, ?_, ?_⟩
    · rw [hrules, hnames, Session.start, Lexicon.names_empty]
      decide +kernel
    · have hlast : (((lastDefinition? "a" book).map Definition.survivors).map
          (·.map Candidate.text)) = some (["x,3"] : List Text) := by decide +kernel
      have hkept := congrArg (Option.map (·.map Candidate.text)) (hcandidates "a")
      rw [← hrules, Option.map_map, Session.start, Lexicon.get?_empty, Option.map_none,
        Option.or_none, hlast] at hkept
      exact hkept
  · obtain ⟨a, hargs, hdry, hpath⟩ : ∃ a, CommandLine.readArguments ["-", "--dry-run"] =
        .ok (some a) ∧ a.settings.dryRun = true ∧ a.rules = "-" := ⟨_, rfl, rfl, rfl⟩
    obtain ⟨read, rules, dropped, findings, hread, hsummary, -, hdropped⟩ :=
      hrun [] _ a sur hargs hdry (by unfold CommandLine.Errand.Succeeds; decide +kernel)
    have hbook : (sur.book? "-").all (fun read => ("b" : Text) ∈ read.map Prod.fst ∧
        (read.all fun entry => entry.1 = "b" → registers? (.text entry.1, entry.2) = none) ∧
          ¬(read.all fun entry => entry.1 = "a" → registers? (.text entry.1, entry.2) = none)) =
        true := by decide +kernel
    rw [← hpath, hread, Option.all_some, decide_eq_true_eq] at hbook
    refine ⟨rules, dropped, findings, hsummary, ?_, fun ha => hbook.2.2 ?_⟩
    · refine (hdropped "b").2 ⟨hbook.1, fun d hentry => ?_⟩
      exact of_decide_eq_true (List.all_eq_true.1 hbook.2.1 ("b", d) hentry) rfl
    · rw [List.all_eq_true]
      rintro ⟨name, d⟩ hentry
      refine decide_eq_true ?_
      rintro rfl
      exact ((hdropped "a").1 ha).2 d hentry

end TextGrammar
