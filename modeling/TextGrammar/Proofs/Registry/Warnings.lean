import TextGrammar.Proofs.Registry.LastDefinition

/-!
# The warning of a duplicate

A call that adds a rule under a known name warns that the latest definition is used. The warning
comes before anything is made of the definition, so it tells that the name is known
(`warnsOfDuplicate_iff`) and not that the rule is replaced: where the definition makes no rule, or
its reading stops with a fault, the earlier one stays, warning or not (`addRule_after_cases`).
-/

namespace TextGrammar

/-- Nothing stops the reading of a definition, and a candidate survives. -/
def Definition.MakesRule (d : Definition) : Prop :=
  ∃ texts, d.texts = .ok texts ∧ (∀ text ∈ texts, ¬WeightUnreadable text) ∧ d.survivors ≠ []

variable {γ α : Type}

/-- The notices that a computation adds, however it ends. -/
def Work.reported (m : Work γ α) (s : Session γ) : List Notice :=
  (m.after s).notices.toList.drop s.notices.toList.length

variable [RandomSource γ]

/-- A call that adds a rule logs the warning of a duplicate. -/
def WarnsOfDuplicate (s : Session γ) (name : Value) (d : Definition) (n : Text) : Prop :=
  ∃ notice ∈ (addRule name d).reported s, notice.level = .warning ∧
    notice.message = "duplicate rule '" ++ n ++ "', using latest definition"

/-- A call that adds a rule replaces the rule of a name by one that the definition makes. -/
def Replaces (s : Session γ) (name : Value) (d : Definition) (n : Text) : Prop :=
  ruleName name = .ok n ∧ n ∈ s.rules.names ∧
    ∃ t, addRule name d s = .ok true t ∧ t.rules.Holds n d

/-- The session after calls that add rules. A fault ends its own call only. -/
def addAll (calls : List (Value × Definition)) (s : Session γ) : Session γ :=
  calls.foldl (fun s call => (addRule call.1 call.2).after s) s

@[simp] theorem addAll_nil (s : Session γ) : addAll [] s = s := rfl

@[simp] theorem addAll_cons (call : Value × Definition) (calls : List (Value × Definition))
    (s : Session γ) :
    addAll (call :: calls) s = addAll calls ((addRule call.1 call.2).after s) := rfl

/-! ## What a call reports -/

theorem level_ne_warning_of_readCandidates {rule : Text} {texts : List Text} {notice : Notice}
    (h : notice ∈ (readCandidates rule texts).1) : notice.level ≠ .warning := by
  induction texts with
  | nil => cases h
  | cons text rest ih =>
      unfold readCandidates at h
      split at h
      · rcases List.mem_cons.1 h with rfl | h
        · exact nofun
        · exact ih h
      · rcases List.mem_cons.1 h with rfl | h
        · exact nofun
        · rcases List.mem_cons.1 h with rfl | h
          · exact nofun
          · exact ih h
      · rw [List.mem_singleton] at h
        rw [h]
        exact nofun

/-- The only warning that building gives is that nothing was defined. -/
theorem Rule.eq_nothingDefined_of_build {n : Text} {d : Definition} {shared : γ}
    {notice : Notice} (h : notice ∈ (Rule.build n d shared).1) (hlevel : notice.level = .warning) :
    notice = .nothingDefined n := by
  have hread {texts : List Text} {result : List Notice × Except Fault (List Candidate)}
      (hresult : readCandidates n texts = result) (h : notice ∈ result.1) : False :=
    level_ne_warning_of_readCandidates (hresult ▸ h) hlevel
  unfold Rule.build at h
  split at h
  · cases h
  · split at h
    · next hresult => exact (hread hresult h).elim
    · next hresult =>
        split at h
        · exact (hread hresult h).elim
        · rcases List.mem_append.1 h with h | h
          · exact (hread hresult h).elim
          · exact List.mem_singleton.1 h

theorem notices_after_defineRule (n : Text) (d : Definition) (s : Session γ) :
    ((defineRule n d).after s).notices = s.notices ++ (Rule.build n d s.random).1.toArray := by
  unfold Work.after defineRule
  rcases Rule.build n d s.random with ⟨notices, fault | _ | ⟨rule, random⟩⟩ <;> rfl

/-- A call reports that it refuses the name, or that the name is known, and then what building
reports. -/
theorem reported_addRule (name : Value) (d : Definition) (s : Session γ) :
    (addRule name d).reported s =
      match ruleName name with
      | .error fault => [.nameRefused fault]
      | .ok n => (if s.rules.contains n then [.duplicateRule n] else []) ++
          (Rule.build n d s.random).1 := by
  cases hname : ruleName name with
  | error fault =>
      have hafter : (addRule name d).after s = s.report (.nameRefused fault) := by
        rw [Work.after, addRule, hname]
      simp [Work.reported, hafter, Session.report]
  | ok n =>
      have hafter : (addRule name d).after s =
          (defineRule n d).after
            (if s.rules.contains n then s.report (.duplicateRule n) else s) := by
        rw [Work.after, addRule, hname, Work.after]
      rw [Work.reported, hafter, notices_after_defineRule]
      by_cases hknown : s.rules.contains n = true
      · simp [hknown, Session.report]
      · simp [hknown]

theorem duplicateRule_message_inj {m n : Text}
    (h : (Notice.duplicateRule m).message =
      "duplicate rule '" ++ n ++ "', using latest definition") : m = n :=
  Text.append_right_inj.1 (Text.append_left_inj.1 h)

theorem nothingDefined_message_ne (m n : Text) : (Notice.nothingDefined m).message ≠
    "duplicate rule '" ++ n ++ "', using latest definition" := by
  intro h
  have hhead : ("rule '" ++ m ++ "' does not have any definitions, will be ignored").toList.head? =
      ("duplicate rule '" ++ n ++ "', using latest definition").toList.head? :=
    congrArg (fun text : Text => text.toList.head?) h
  have hrule : ("rule '" : Text).toList.head? = some (.char 'r') := rfl
  have hduplicate : ("duplicate rule '" : Text).toList.head? = some (.char 'd') := rfl
  simp only [Text.toList_append, List.head?_append, hrule, hduplicate, Option.some_or] at hhead
  cases hhead

/-- The warning tells that the name of the call is known. -/
theorem warnsOfDuplicate_iff {s : Session γ} {name : Value} {d : Definition} {n : Text} :
    WarnsOfDuplicate s name d n ↔ ruleName name = .ok n ∧ n ∈ s.rules.names := by
  rw [WarnsOfDuplicate, reported_addRule]
  cases hname : ruleName name with
  | error fault =>
      simp only [reduceCtorEq, false_and, iff_false]
      rintro ⟨notice, hnotice, hlevel, -⟩
      rw [List.mem_singleton.1 hnotice] at hlevel
      cases hlevel
  | ok m =>
      constructor
      · rintro ⟨notice, hnotice, hlevel, hmessage⟩
        rcases List.mem_append.1 hnotice with hnotice | hnotice
        · split at hnotice
          · next hknown =>
              rw [List.mem_singleton.1 hnotice] at hmessage
              cases duplicateRule_message_inj hmessage
              exact ⟨rfl, (s.rules.contains_iff n).1 hknown⟩
          · cases hnotice
        · rw [Rule.eq_nothingDefined_of_build hnotice hlevel] at hmessage
          exact absurd hmessage (nothingDefined_message_ne m n)
      · rintro ⟨hm, hknown⟩
        cases hm
        refine ⟨.duplicateRule n, List.mem_append_left _ ?_, rfl, rfl⟩
        rw [if_pos ((s.rules.contains_iff n).2 hknown)]
        exact List.mem_singleton_self _

/-! ## What a call does -/

theorem Rule.exists_build_iff {n : Text} {d : Definition} {shared : γ} :
    (∃ notices made, Rule.build n d shared = (notices, .ok (some made))) ↔ d.MakesRule := by
  constructor
  · rintro ⟨notices, ⟨rule, shared'⟩, hbuild⟩
    obtain ⟨texts, -, htexts, -⟩ := Rule.build_eq_ok_some hbuild
    refine ⟨texts, htexts, ?_, (Rule.candidates_of_build hbuild).2⟩
    have hsnd := Rule.build_snd htexts n shared
    rw [hbuild] at hsnd
    split at hsnd
    · cases hsnd
    · next hreadable => exact findSome?_weightFault?_eq_none_iff.1 hreadable
  · rintro ⟨texts, htexts, hreadable, hne⟩
    have hsnd := Rule.build_snd htexts n shared
    rw [findSome?_weightFault?_eq_none_iff.2 hreadable] at hsnd
    cases hmade : Rule.ofCandidates? d.selector (texts.filterMap candidateOfText?) shared with
    | none =>
        simp only [Definition.survivors, htexts, Rule.ofCandidates?_eq_none_iff.1 hmade] at hne
        exact absurd rfl hne
    | some made =>
        rw [hmade] at hsnd
        exact ⟨_, made, Prod.ext rfl hsnd⟩

/-- A call that is answered with yes makes the rule of its name. Any other leaves the rules as they
are, whether it is answered or not; then the name is refused, or the definition makes no rule. -/
theorem addRule_after_cases (name : Value) (d : Definition) (s : Session γ) :
    ((∀ n, ruleName name = .ok n → ¬d.MakesRule) ∧ (∀ t, addRule name d s ≠ .ok true t) ∧
        ((addRule name d).after s).rules = s.rules) ∨
      ∃ n rule t, ruleName name = .ok n ∧ d.MakesRule ∧ addRule name d s = .ok true t ∧
        t.rules = s.rules.put n rule ∧ t.rules.Holds n d := by
  cases hname : ruleName name with
  | error fault =>
      have hadd : addRule name d s = .ok false (s.report (.nameRefused fault)) := by
        rw [addRule, hname]
      refine .inl ⟨fun n hn => ?_, fun t ht => ?_, by rw [Work.after_of_ok hadd]; rfl⟩
      · cases hn
      · rw [hadd] at ht
        cases ht
  | ok n =>
      obtain ⟨before, hadd⟩ := exists_addRule_eq hname d s
      have hmakes : (∃ notices made, Rule.build n d s.random = (notices, .ok (some made))) ↔
          d.MakesRule := Rule.exists_build_iff
      rw [Work.after, hadd, defineRule]
      rcases hbuild : Rule.build n d s.random with ⟨notices, fault | _ | ⟨rule, random⟩⟩
      · refine .inl ⟨fun m _ h => ?_, fun t ht => ?_, rfl⟩
        · obtain ⟨_, _, h⟩ := hmakes.2 h
          cases hbuild.symm.trans h
        · cases ht
      · refine .inl ⟨fun m _ h => ?_, fun t ht => ?_, rfl⟩
        · obtain ⟨_, _, h⟩ := hmakes.2 h
          cases hbuild.symm.trans h
        · cases ht
      · exact .inr ⟨n, rule, _, rfl, hmakes.1 ⟨_, _, hbuild⟩, rfl, rfl, rule,
          ⟨_, notices, random, hbuild⟩, Lexicon.get?_put_self ..⟩

theorem replaces_iff {s : Session γ} {name : Value} {d : Definition} {n : Text} :
    Replaces s name d n ↔ WarnsOfDuplicate s name d n ∧ d.MakesRule := by
  rw [Replaces, warnsOfDuplicate_iff, and_assoc]
  refine and_congr_right fun hname => and_congr_right fun _ => ?_
  rcases addRule_after_cases name d s with ⟨hnone, hno, -⟩ |
    ⟨m, rule, t, hm, hmakes, ht, -, hholds⟩
  · simp [hnone n hname, hno]
  · cases hname.symm.trans hm
    exact ⟨fun _ => hmakes, fun _ => ⟨t, ht, hholds⟩⟩

theorem mem_names_after_addRule {name : Value} {d : Definition} {s : Session γ} {n : Text} :
    n ∈ ((addRule name d).after s).rules.names ↔
      n ∈ s.rules.names ∨ ruleName name = .ok n ∧ d.MakesRule := by
  rcases addRule_after_cases name d s with ⟨hnone, -, hrules⟩ |
    ⟨m, rule, t, hname, hmakes, ht, hrules, -⟩
  · rw [hrules, or_iff_left fun h => hnone n h.1 h.2]
  · rw [Work.after_of_ok ht, hrules, Lexicon.mem_names_put, hname, or_comm, Except.ok.injEq,
      and_iff_left hmakes, eq_comm]

theorem mem_names_addAll {calls : List (Value × Definition)} {s : Session γ} {n : Text} :
    n ∈ (addAll calls s).rules.names ↔
      n ∈ s.rules.names ∨ ∃ call ∈ calls, ruleName call.1 = .ok n ∧ call.2.MakesRule := by
  induction calls generalizing s with
  | nil => simp
  | cons call calls ih =>
      rw [addAll_cons, ih, mem_names_after_addRule, or_assoc, List.exists_mem_cons_iff]

/-- At any point of any calls, the warning of a duplicate is logged exactly if the name of the call
may name a rule and is known, from the start or by an earlier call. The rule is replaced exactly if
the warning is logged and the definition makes a rule. Where it makes none the call leaves the rules
as they are, and so the earlier definition stays after a warning that the latest is used. -/
theorem duplicate_warning_iff (calls : List (Value × Definition)) (s : Session γ) (name : Value)
    (d : Definition) (n : Text) :
    (WarnsOfDuplicate (addAll calls s) name d n ↔ ruleName name = .ok n ∧
      (n ∈ s.rules.names ∨ ∃ call ∈ calls, ruleName call.1 = .ok n ∧ call.2.MakesRule)) ∧
      (Replaces (addAll calls s) name d n ↔
        WarnsOfDuplicate (addAll calls s) name d n ∧ d.MakesRule) ∧
      (¬d.MakesRule →
        ((addRule name d).after (addAll calls s)).rules = (addAll calls s).rules) := by
  refine ⟨?_, replaces_iff, fun hnone => ?_⟩
  · rw [warnsOfDuplicate_iff, mem_names_addAll]
  · rcases addRule_after_cases name d (addAll calls s) with ⟨-, -, hrules⟩ |
      ⟨m, rule, t, -, hmakes, -⟩
    · exact hrules
    · exact absurd hmakes hnone

theorem not_makesRule_of_survivors {d : Definition} (h : d.survivors.isEmpty = true) :
    ¬d.MakesRule := by
  rintro ⟨texts, -, -, hne⟩
  exact hne (List.isEmpty_iff.1 h)

/-- A rule is defined, then by a malformed text, and then by a text again. -/
theorem duplicate_warning_iff_malformed :
    let known : List (Value × Definition) := [(.text "r", .ofTexts ["x"])]
    let s : Session Twister := addAll known (.start .flat ⟨256, []⟩ ⟨#[], 0⟩)
    WarnsOfDuplicate s (.text "r") (.ofTexts ["#"]) "r" ∧
      ((addRule (.text "r") (.ofTexts ["#"])).after s).rules = s.rules ∧
        Replaces s (.text "r") (.ofTexts ["y"]) "r" := by
  intro known s
  have hmakes (text : Text) (hread : (candidateOfText? text).isSome = true)
      (hreadable : weightFault? text = none) : (Definition.ofTexts [text]).MakesRule := by
    obtain ⟨c, hc⟩ := Option.isSome_iff_exists.1 hread
    refine ⟨[text], Definition.texts_ofTexts _, ?_, ?_⟩
    · rw [List.forall_mem_singleton]
      exact weightFault?_eq_none_iff.1 hreadable
    · simp [Definition.survivors, hc]
  have hx := hmakes "x" (by decide +kernel) (by decide +kernel)
  have hy := hmakes "y" (by decide +kernel) (by decide +kernel)
  have hwarns (d : Definition) : WarnsOfDuplicate s (.text "r") d "r" :=
    (duplicate_warning_iff known _ _ d "r").1.2
      ⟨rfl, .inr ⟨_, List.mem_singleton_self _, rfl, hx⟩⟩
  exact ⟨hwarns _, (duplicate_warning_iff known _ _ _ "r").2.2
    (not_makesRule_of_survivors (by decide +kernel)),
    (duplicate_warning_iff known _ _ _ "r").2.1.2 ⟨hwarns _, hy⟩⟩

/-- A malformed text defines a known rule again: the warning says that the latest definition is
used, and the earlier one stays. -/
theorem duplicate_warning_untrue :
    ∃ s : Session Twister,
      s = addAll [(.text "r", .ofTexts ["x"])] (.start .flat ⟨256, []⟩ ⟨#[], 0⟩) ∧
        WarnsOfDuplicate s (.text "r") (.ofTexts ["#"]) "r" ∧
          ¬Replaces s (.text "r") (.ofTexts ["#"]) "r" := by
  refine ⟨_, rfl, warnsOfDuplicate_iff.2 ⟨rfl, by decide +kernel⟩, fun h => ?_⟩
  exact not_makesRule_of_survivors (by decide +kernel) (replaces_iff.1 h).2

end TextGrammar
