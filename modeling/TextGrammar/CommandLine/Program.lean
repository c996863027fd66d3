import TextGrammar.CommandLine.Arguments
import TextGrammar.CommandLine.Book
import TextGrammar.CommandLine.Errand
import TextGrammar.Modifier.English
import TextGrammar.Random.Twister
import TextGrammar.Text.Case

/-!
# The program

A run reads the command line and the rule book, makes an engine, and either summarizes the book
or expands an origin as often as asked. Notices at or above the level asked for are shown
in the order in which they arose; a failure ends the run with its message.
-/

namespace TextGrammar

namespace CommandLine

def levelRanks : List (Text × Nat) :=
  [("CRITICAL", 50), ("FATAL", 50), ("ERROR", 40), ("WARN", 30), ("WARNING", 30), ("INFO", 20),
    ("DEBUG", 10), ("NOTSET", 0)]

def shownNotices (rank : Nat) (ns : List Notice) : List Notice :=
  ns.filter fun n => rank ≤ n.level.rank

/-- The name of a file without what does not matter in it: empty steps, steps to the same place,
and a slash at the end. -/
def plainPath (path : Text) : Text :=
  let cs := path.toList
  let slashes := (cs.takeWhile (· = .char '/')).length
  let root : Text := if slashes = 0 then "" else if slashes = 2 then "//" else "/"
  let steps := ((cs.splitOn (.char '/')).map Text.ofList).filter fun step =>
    step ≠ ("" : Text) && step ≠ ("." : Text)
  if root = "" && steps.isEmpty then "." else root ++ .intercalate "/" steps

def failure (rank : Nat) (ns : List Notice) (message : Text) : Errand :=
  .finish ⟨.failed message, none, shownNotices rank ns, none⟩

def withBookText (text : String) (rank : Nat)
    (next : List (Text × Definition) → Errand) : Errand :=
  match readBook text with
  | .error fault => failure rank [] fault.message
  | .ok book => next book

/-- The rule book of a name; a dash names the standard input. -/
def withBook (path : Text) (rank : Nat) (next : List (Text × Definition) → Errand) :
    Errand :=
  if path = "-" then .readInput fun answer =>
    match answer with
    | .error fault => failure rank [] fault.message
    | .ok text => withBookText text rank next
  else .readFile (plainPath path) fun answer =>
    match answer with
    | .error .missing => failure rank [] path
    | .error fault => failure rank [] (fault.message (plainPath path))
    | .ok bytes =>
        match Utf8.decode bytes with
        | .error fault => failure rank [] fault.message
        | .ok cs => withBookText (String.ofList (unifyLineEnds cs)) rank next

/-- The source of randomness of a seed, which is drawn where none is given. -/
def withRandom (seed : Option Int) (next : Twister → Errand) : Errand :=
  match seed with
  | some n => next (.ofSeed n)
  | none => .drawSeed fun n => next (.ofSeed n)

def valueIfGiven {α : Type} (fault : Fault) : Option (Given α) → Except Fault (Option α)
  | none => .ok none
  | some g => (g.orFault fault).map some

/-- What settings make an engine with: its options and its seed. The first blank among them is
told. -/
def engineSettings (s : Settings) : Except Fault (Options × Option Int) := do
  let policy ← s.tagging.orFault (.unknownPolicy (Value.list []).shown)
  let seed ← valueIfGiven .badSeed s.seed
  let maxDepth ← valueIfGiven .blankNumber s.maxDepth
  pure (⟨policy, s.analysis, maxDepth⟩, seed)

/-- The engine of a rule book and options, with the English modifiers where they are asked for:
those of a library for English among them. -/
def makeEngine (base : English.Base) (english : Bool) (options : Options)
    (book : List (Text × Definition)) (random : Twister) :
    Except (Fault × List Notice) (Engine Twister) :=
  (Engine.create (book.map fun e => (.text e.1, e.2)) options random).map fun e =>
    if english then e.installAll (English.modifiers base).entries else e

def summarizeBook (rank : Nat) (book : List (Text × Definition)) (e : Engine Twister) :
    Errand :=
  let rules := e.session.rules.names
  .finish ⟨.succeeded,
    some (.book (sortedTexts rules) (droppedNames (book.map (·.1)) rules) e.findings),
    shownNotices rank e.session.notices.toList, none⟩

/-- What a batch is asked for: what to expand and how often, and the seed, which is told. -/
structure BatchOrder where
  origin : Origin
  count : Nat
  seed : Option Int

/-- Expands an origin as often as asked. Events are traced if there is a file for them. -/
def expandBatch (o : BatchOrder) (rank : Nat) (trace : Option Text) (e : Engine Twister) :
    Report :=
  let e := if trace.isSome then e.addTracer none else e
  let b := (Batch.start e).run o.origin o.count
  let session := b.engine.session
  ⟨.succeeded,
    some (.batch o.origin b.engine.policy o.seed b.answers.toList b.counts b.failures),
    shownNotices rank session.notices.toList,
    trace.map fun path => (path, String.join (session.tracers.toList.map (·.sink)))⟩

/-- Expands an origin as often as asked, with a file for the events if one is named. -/
def fillOrder (o : BatchOrder) (rank : Nat) (trace : Option Text) (e : Engine Twister) : Errand :=
  match trace.filter (· ≠ ("" : Text)) with
  | none => .finish (expandBatch o rank none e)
  | some path => .openFile path fun answer =>
      match answer with
      | .error fault => failure rank e.session.notices.toList (fault.message path)
      | .ok _ => .finish (expandBatch o rank (some path) e)

/-- A run with settings and a rule book that has been read: so many expansions, unless the book
alone is asked for. -/
def runBook (base : English.Base) (s : Settings) (count : Nat) (rank : Nat)
    (book : List (Text × Definition)) : Errand :=
  match engineSettings s with
  | .error fault => failure rank [] fault.message
  | .ok (options, seed) =>
      withRandom seed fun random =>
        match makeEngine base s.english options book random with
        | .error (fault, ns) => failure rank ns fault.message
        | .ok e =>
            if s.dryRun then summarizeBook rank book e
            else fillOrder ⟨s.origin, count, seed⟩ rank s.trace e

def runArguments (base : English.Base) (a : Arguments) (rank : Nat) : Errand :=
  match a.settings.count.orFault .blankNumber with
  | .error fault => failure rank [] fault.message
  | .ok count =>
      if count ≤ 0 then failure rank [] "--count must be positive"
      else withBook a.rules rank (runBook base a.settings count.toNat rank)

/-- A run of the program with a library for English and the words of its command line. -/
def program (base : English.Base) (args : List Text) : Errand :=
  match readArguments args with
  | .error fault => .finish (.ofEnding (.misused fault))
  | .ok none => .finish (.ofEnding .helped)
  | .ok (some a) =>
      match a.settings.logLevel with
      | .blank => .finish (.ofEnding .blankLevel)
      | .value name =>
          let level := upperCase name
          match levelRanks.lookup level with
          | none => .finish (.ofEnding (.unknownLevel level))
          | some rank => runArguments base a rank

end CommandLine

end TextGrammar
