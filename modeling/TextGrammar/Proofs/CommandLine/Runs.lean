import TextGrammar.CommandLine.Program

/-!
# Runs that succeed

A run of the command line goes through steps: its arguments, its rule book, its settings, its
seed, the engine, the file for the events. Each step fails, and then the run ends with a failure,
or goes on. So a run that succeeds has gone through all of them, unless only a word of help was
asked for; it reports what the book has come to (`exists_summary_of_succeeds`), or what a batch with
a newly made engine has come to (`exists_batch_of_succeeds`).
-/

namespace TextGrammar

def Summary.totals? : Summary → Option (List Text × RuleCounts × Nat)
  | batch _ _ _ answers counts failures => some (answers, counts, failures)
  | book .. => none

namespace CommandLine

variable {sur : Surroundings} {base : English.Base}

def Errand.Succeeds (errand : Errand) (sur : Surroundings) : Prop :=
  (errand.runIn sur).ending.code = 0

theorem not_succeeds_failure (rank : Nat) (ns : List Notice) (message : Text) :
    ¬(failure rank ns message).Succeeds sur :=
  Nat.one_ne_zero

/-! ## Steps -/

variable {rank : Nat}

def Surroundings.bookText? (sur : Surroundings) (path : Text) : Option String :=
  if path = "-" then sur.input.toOption
  else (sur.file (plainPath path)).toOption.bind fun bytes =>
    (Utf8.decode bytes).toOption.map fun cs => String.ofList (unifyLineEnds cs)

/-- The rule book of a name, if it can be read. -/
def Surroundings.book? (sur : Surroundings) (path : Text) :
    Option (List (Text × Definition)) :=
  (sur.bookText? path).bind fun text => (readBook text).toOption

theorem exists_readBook_of_book? {path : Text} {book : List (Text × Definition)}
    (h : sur.book? path = some book) : ∃ text, readBook text = .ok book := by
  obtain ⟨text, -, hread⟩ := Option.bind_eq_some_iff.1 h
  cases hbook : readBook text with
  | error fault =>
      rw [hbook] at hread
      cases hread
  | ok other =>
      rw [hbook] at hread
      cases hread
      exact ⟨text, hbook⟩

theorem exists_of_withBookText {text : String} {next : List (Text × Definition) → Errand}
    (h : (withBookText text rank next).Succeeds sur) :
    ∃ book, readBook text = .ok book ∧
      (withBookText text rank next).runIn sur = (next book).runIn sur := by
  unfold withBookText at h ⊢
  cases hbook : readBook text with
  | error fault =>
      rw [hbook] at h
      exact absurd h (not_succeeds_failure rank [] _)
  | ok book => exact ⟨book, rfl, rfl⟩

/-- Reading the book of a name fails or goes on with the book. -/
theorem exists_of_withBook {path : Text} {next : List (Text × Definition) → Errand}
    (h : (withBook path rank next).Succeeds sur) :
    ∃ book, sur.book? path = some book ∧
      (withBook path rank next).runIn sur = (next book).runIn sur := by
  have htext {text : String} (hread : sur.bookText? path = some text)
      (h : (withBookText text rank next).Succeeds sur) : ∃ book, sur.book? path = some book ∧
        (withBookText text rank next).runIn sur = (next book).runIn sur := by
    obtain ⟨book, hbook, hrun⟩ := exists_of_withBookText h
    exact ⟨book, by rw [Surroundings.book?, hread, Option.bind_some, hbook]; rfl, hrun⟩
  unfold withBook at h ⊢
  split at h
  · next hpath =>
      rw [if_pos hpath, Errand.runIn]
      rw [Errand.Succeeds, Errand.runIn] at h
      cases hinput : sur.input with
      | error fault =>
          rw [hinput] at h
          exact absurd h (not_succeeds_failure rank [] _)
      | ok text =>
          rw [hinput] at h
          exact htext (by rw [Surroundings.bookText?, if_pos hpath, hinput]; rfl) h
  · next hpath =>
      rw [if_neg hpath, Errand.runIn]
      rw [Errand.Succeeds, Errand.runIn] at h
      cases hfile : sur.file (plainPath path) with
      | error fault =>
          rw [hfile] at h
          cases fault <;> exact absurd h (not_succeeds_failure rank [] _)
      | ok bytes =>
          rw [hfile] at h
          cases hdecode : Utf8.decode bytes with
          | error fault =>
              simp only [hdecode] at h
              exact absurd h (not_succeeds_failure rank [] _)
          | ok cs =>
              simp only [hdecode] at h ⊢
              refine htext ?_ h
              rw [Surroundings.bookText?, if_neg hpath, hfile, Except.toOption, Option.bind_some,
                hdecode]
              rfl

theorem runIn_withRandom (seed : Option Int) (next : Twister → Errand) :
    (withRandom seed next).runIn sur = (next (.ofSeed (seed.getD sur.seed))).runIn sur := by
  cases seed <;> rfl

/-- Filling an order fails or reports the batch, with a file for the events if one is named. -/
theorem runIn_fillOrder {o : BatchOrder} {trace : Option Text} {e : Engine Twister}
    (h : (fillOrder o rank trace e).Succeeds sur) :
    (fillOrder o rank trace e).runIn sur =
      expandBatch o rank (trace.filter (· ≠ ("" : Text))) e := by
  unfold fillOrder at h ⊢
  cases htrace : trace.filter (· ≠ ("" : Text)) with
  | none => rfl
  | some path =>
      simp only [htrace, Errand.Succeeds, Errand.runIn] at h ⊢
      cases hopened : sur.opened path with
      | error fault =>
          rw [hopened] at h
          exact absurd h (not_succeeds_failure rank _ _)
      | ok _ => rfl

/-- The engine that a run makes: with the rule book that it reads, its settings, and the seed that
is asked for or else the one that is drawn. -/
def Surroundings.Makes (sur : Surroundings) (base : English.Base) (a : Arguments)
    (seed : Option Int) (e : Engine Twister) : Prop :=
  ∃ book options, sur.book? a.rules = some book ∧ engineSettings a.settings = .ok (options, seed) ∧
    makeEngine base a.settings.english options book (.ofSeed (seed.getD sur.seed)) = .ok e

/-- A run with a book fails, or makes an engine. -/
theorem exists_of_runBook {s : Settings} {count : Nat} {book : List (Text × Definition)}
    (h : (runBook base s count rank book).Succeeds sur) :
    ∃ options seed e, engineSettings s = .ok (options, seed) ∧
      makeEngine base s.english options book (.ofSeed (seed.getD sur.seed)) = .ok e ∧
        (runBook base s count rank book).runIn sur =
          (if s.dryRun then summarizeBook rank book e
            else fillOrder ⟨s.origin, count, seed⟩ rank s.trace e).runIn sur := by
  unfold runBook at h ⊢
  cases hsettings : engineSettings s with
  | error fault =>
      rw [hsettings] at h
      exact absurd h (not_succeeds_failure rank [] _)
  | ok settings =>
      obtain ⟨options, seed⟩ := settings
      simp only [hsettings, Errand.Succeeds, runIn_withRandom] at h ⊢
      cases hmade : makeEngine base s.english options book (.ofSeed (seed.getD sur.seed)) with
      | error refused =>
          obtain ⟨fault, ns⟩ := refused
          rw [hmade] at h
          exact absurd h (not_succeeds_failure rank ns _)
      | ok e => exact ⟨options, seed, e, rfl, hmade, rfl⟩

/-- A run that succeeds has read a positive count and its book, unless it only helps. -/
theorem exists_runBook_of_succeeds {args : List Text} {a : Arguments}
    (hargs : readArguments args = .ok (some a)) (h : (program base args).Succeeds sur) :
    ∃ (count : Int) (rank : Nat) (book : List (Text × Definition)),
      a.settings.count = .value count ∧ 0 < count ∧ sur.book? a.rules = some book ∧
        (program base args).runIn sur =
          (runBook base a.settings count.toNat rank book).runIn sur := by
  unfold program at h ⊢
  simp only [hargs] at h ⊢
  cases hlevel : a.settings.logLevel with
  | blank =>
      rw [hlevel] at h
      cases h
  | value name =>
      simp only [hlevel] at h ⊢
      cases hrank : levelRanks.lookup (upperCase name) with
      | none =>
          rw [hrank] at h
          cases h
      | some rank =>
          simp only [hrank] at h ⊢
          unfold runArguments at h ⊢
          cases hcount : a.settings.count with
          | blank =>
              rw [hcount] at h
              exact absurd h (not_succeeds_failure rank [] _)
          | value count =>
              simp only [hcount, Given.orFault_value] at h ⊢
              split at h
              · exact absurd h (not_succeeds_failure rank [] _)
              · next hpos =>
                  rw [if_neg hpos]
                  obtain ⟨book, hread, hrun⟩ := exists_of_withBook h
                  exact ⟨count, rank, book, rfl, by omega, hread, hrun⟩

/-- A run that succeeds and looks at its book only has made an engine of it and tells its rules, the
names that were dropped and the findings. -/
theorem exists_summary_of_succeeds {args : List Text} {a : Arguments}
    (hargs : readArguments args = .ok (some a)) (hdry : a.settings.dryRun = true)
    (h : (program base args).Succeeds sur) :
    ∃ book seed e, sur.book? a.rules = some book ∧ sur.Makes base a seed e ∧
        ((program base args).runIn sur).summary = some (.book (sortedTexts e.session.rules.names)
          (droppedNames (book.map Prod.fst) e.session.rules.names) e.findings) := by
  obtain ⟨count, rank, book, -, -, hread, hrun⟩ := exists_runBook_of_succeeds hargs h
  rw [Errand.Succeeds, hrun] at h
  obtain ⟨options, seed, e, hsettings, hmade, hbook⟩ := exists_of_runBook h
  refine ⟨book, seed, e, hread, ⟨book, options, hread, hsettings, hmade⟩, ?_⟩
  rw [hrun, hbook, if_pos hdry]
  rfl

/-- A run that succeeds has read a positive count, unless it only helps or looks at its book; it has
made an engine and reports what the batch has come to. -/
theorem exists_batch_of_succeeds {args : List Text} {a : Arguments}
    (hargs : readArguments args = .ok (some a)) (hdry : a.settings.dryRun = false)
    (h : (program base args).Succeeds sur) :
    ∃ (count : Int) (rank : Nat) (seed : Option Int) (e : Engine Twister),
      a.settings.count = .value count ∧ 0 < count ∧
        sur.Makes base a seed e ∧ (program base args).runIn sur =
          expandBatch ⟨a.settings.origin, count.toNat, seed⟩ rank
            (a.settings.trace.filter (· ≠ ("" : Text))) e := by
  obtain ⟨count, rank, book, hcount, hpos, hread, hrun⟩ := exists_runBook_of_succeeds hargs h
  rw [Errand.Succeeds, hrun] at h
  obtain ⟨options, seed, e, hsettings, hmade, hbook⟩ := exists_of_runBook h
  rw [hbook, if_neg (by rw [hdry]; exact Bool.false_ne_true)] at h
  refine ⟨count, rank, seed, e, hcount, hpos, ⟨book, options, hread, hsettings, hmade⟩, ?_⟩
  rw [hrun, hbook, if_neg (by rw [hdry]; exact Bool.false_ne_true), runIn_fillOrder h]

end CommandLine

end TextGrammar
