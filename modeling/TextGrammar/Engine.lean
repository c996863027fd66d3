import TextGrammar.Evaluation

/-!
# Engines

An engine is a session together with what users have added to it. `Engine.create` makes one from
a rule book and options, `Engine.expand` is its purpose, and the other operations register
rules, selectors, modifiers and hooks or look at what has been recorded.
-/

namespace TextGrammar

/-- The settings of an engine. -/
structure Options where
  policy : TaggingPolicy
  analysis : Bool
  maxDepth : Option Int

namespace Options

def standard : Options := ⟨.flat, true, none⟩

end Options

def policyOf (v : Value) : Except Fault TaggingPolicy :=
  match v.text?.bind TaggingPolicy.ofName? with
  | some policy => .ok policy
  | none => .error (.unknownPolicy v.shown)

@[simp] theorem policyOf_name (p : TaggingPolicy) : policyOf (.text p.name) = .ok p := by
  simp [policyOf, Value.text?]

def contextOfDepth (maxDepth : Int) : Except Fault Context :=
  match Context.create? maxDepth with
  | some context => .ok context
  | none => .error .badMaxDepth

theorem contextOfDepth_eq_ok {maxDepth : Int} {context : Context}
    (h : contextOfDepth maxDepth = .ok context) :
    (context.maxDepth : Int) = maxDepth ∧ context.frames = [] := by
  unfold contextOfDepth Context.create? at h
  split at h
  · next made hmade =>
      split at hmade
      · cases hmade
      · next hpos =>
          cases hmade
          cases h
          exact ⟨Int.toNat_of_nonneg (by omega), rfl⟩
  · cases h

/-- Writes an entry of a table whose keys are arbitrary values: a key that comes again stays as it
first came and takes the new entry. -/
def putKey {α : Type} (key : Value) (entry : α) : List (Value × α) → List (Value × α)
  | [] => [(key, entry)]
  | e :: rest =>
      if e.1.sameKey key then (e.1, entry) :: rest else e :: putKey key entry rest

def tableEntries {α : Type} (entries : List (Value × α)) : Except Fault (List (Value × α)) :=
  match entries.findSome? fun e => e.1.changeable? with
  | some kindName => .error (.badKey kindName)
  | none => .ok (entries.foldl (fun table e => putKey e.1 e.2 table) [])

/-- An engine: a session, the extensions of users, the policy it was made with, and what
analysis found in the rule book. -/
structure Engine (γ : Type) where
  session : Session γ
  extensions : Extensions
  policy : TaggingPolicy
  findings : List Finding

variable {γ α : Type} [RandomSource γ]

/-- Adds the rules of a book in order. A fault ends the work. -/
def addRules : List (Value × Definition) → Work γ Unit
  | [] => pure ()
  | (name, d) :: rest => do
      let _ ← addRule name d
      addRules rest

def reportFindings : Work γ (List Finding) := fun s =>
  let findings := RuleBook.analyze s.rules
  .ok findings (s.reportAll (findings.map Finding.notice))

def readBook (book : List (Value × Definition)) (options : Options) :
    Work γ (List Finding) := do
  addRules book
  let findings ← if options.analysis then reportFindings else pure []
  Work.change fun s => s.report (.ready s.rules.size options.policy)
  pure findings

/-- What a finished engine reports about itself. -/
structure Stats where
  rules : Nat
  modifiers : List Text
  policy : TaggingPolicy
  maxDepth : Nat
  events : Nat
  counts : RuleCounts
  unresolved : List Text
  depth : Nat

namespace Engine

/-- Makes an engine. Where that fails, the answer has the notices until then beside the
fault. -/
def create (book : List (Value × Definition)) (options : Options) (random : γ) :
    Except (Fault × List Notice) (Engine γ) :=
  match contextOfDepth (options.maxDepth.getD Context.defaultMaxDepth) with
  | .error fault => .error (fault, [])
  | .ok context =>
      match readBook book options (Session.start options.policy context random) with
      | .error fault s => .error (fault, s.notices.toList)
      | .ok findings s => .ok ⟨s, .none, options.policy, findings⟩

/-- Does some work on the session of an engine. -/
def perform (e : Engine γ) (work : Work γ α) : Except Fault α × Engine γ :=
  match work e.session with
  | .ok a s => (.ok a, { e with session := s })
  | .error fault s => (.error fault, { e with session := s })

def update (e : Engine γ) (f : Session γ → Session γ) : Engine γ :=
  { e with session := f e.session }

def addRule (e : Engine γ) (name : Value) (d : Definition) : Except Fault Bool × Engine γ :=
  e.perform (TextGrammar.addRule name d)

def setSelector (e : Engine γ) (name : Text) (selector : Selector γ) : Engine γ :=
  (e.perform (TextGrammar.setSelector name selector)).2

/-- Expands an origin. An expansion always answers; a failed one tells its fault. -/
def expandFrom (e : Engine γ) (origin : Origin) (reset : Bool) : Text × Engine γ :=
  match TextGrammar.expand e.extensions origin reset e.session with
  | .ok answer s => (answer, { e with session := s })
  | .error fault s => (faultText fault, { e with session := s })

def expand (e : Engine γ) (text : Text) (reset : Bool) : Text × Engine γ :=
  e.expandFrom (.text text) reset

/-- Expands an origin so many times, with a reset each time. -/
def expandTimes (e : Engine γ) (origin : Origin) : Nat → List Text × Engine γ
  | 0 => ([], e)
  | n + 1 =>
      let (answer, e) := e.expandFrom origin true
      let (more, e) := e.expandTimes origin n
      (answer :: more, e)

/-- Installs a modifier, replacing the one of that name. -/
def install (e : Engine γ) (sort : ModifierSort) (name : Text) (m : Modifier) : Engine γ :=
  let e := if e.extensions.modifiers.contains name
    then e.update (·.report (.overwriting sort name)) else e
  { e with extensions :=
      { e.extensions with modifiers := e.extensions.modifiers.put name m } }

def installAll (e : Engine γ) (ms : List (Text × Modifier)) : Engine γ :=
  ms.foldl (fun e m => e.install .modifier m.1 m.2) e

def addHook (e : Engine γ) (hook : Hook) : Engine γ :=
  { e with extensions := { e.extensions with hooks := e.extensions.hooks ++ [hook] } }

/-- Adds a tracer of given rules, or of all. -/
def addTracer (e : Engine γ) (rules : Option (List Text)) : Engine γ :=
  let e := e.addHook (.trace e.session.tracers.size)
  e.update fun s => { s with tracers := s.tracers.push (.start rules) }

def analyze (e : Engine γ) : List Finding × Engine γ :=
  let findings := RuleBook.analyze e.session.rules
  (findings, e.update (·.reportAll (findings.map Finding.notice)))

def tags (e : Engine γ) : TagTable := e.session.tags.snapshot

def stats (e : Engine γ) : Stats where
  rules := e.session.rules.size
  modifiers := sortedTexts e.extensions.modifiers.names
  policy := e.policy
  maxDepth := e.session.context.maxDepth
  events := e.session.events.size
  counts := e.session.counts
  unresolved := sortedTexts (distinct e.session.unresolved.toList)
  depth := e.session.context.depth

end Engine

end TextGrammar
