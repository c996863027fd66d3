import TextGrammar.Analysis
import TextGrammar.Event

/-!
# Sessions

A session is all that an engine keeps while it works: its rules, the tags that are bound, the
context, what has been recorded since the last reset, the tracers, the journal and the notices,
and the source of randomness. `Work` is a computation on a session that may stop with a fault;
what it did to the session until then stays.
-/

namespace TextGrammar

/-- The state of an engine at work. -/
structure Session (γ : Type) where
  rules : RuleBook γ
  tags : TagStore
  context : Context
  events : Array Event
  counts : RuleCounts
  unresolved : Array Text
  tracers : Array Tracer
  journal : Array Text
  notices : Array Notice
  random : γ

/-- A computation on a session that may stop with a fault and leaves the session as it is
then. -/
abbrev Work (γ : Type) := EStateM Fault (Session γ)

variable {γ α β : Type}

namespace Session

def start (policy : TaggingPolicy) (context : Context) (random : γ) : Session γ where
  rules := .empty
  tags := .empty policy
  context := context
  events := #[]
  counts := .empty
  unresolved := #[]
  tracers := #[]
  journal := #[]
  notices := #[]
  random := random

def report (s : Session γ) (n : Notice) : Session γ := { s with notices := s.notices.push n }

def reportAll (s : Session γ) (ns : List Notice) : Session γ :=
  { s with notices := s.notices ++ ns.toArray }

/-- Drops what is bound, in progress and recorded. -/
def reset (s : Session γ) : Session γ :=
  { s with
    tags := s.tags.removeAll
    context := s.context.clear
    events := #[]
    counts := .empty
    unresolved := #[] }

def bind (s : Session γ) (name : Text) (value : Option Text) : Session γ :=
  { s with tags := s.tags.bind name value }

def record (s : Session γ) (e : Event) : Session γ :=
  { s with events := s.events.push e, counts := s.counts.add e.rule 1 }

def recordUnresolved (s : Session γ) (name : Text) : Session γ :=
  { s.report (.unresolved name) with unresolved := s.unresolved.push name }

def trace (s : Session γ) (tracer : Nat) (e : Event) : Session γ :=
  { s with tracers := s.tracers.modify tracer (·.record e) }

end Session

namespace Work

theorem bind_of_ok {m : Work γ α} {f : α → Work γ β} {s t : Session γ} {a : α}
    (h : m s = .ok a t) : (m >>= f) s = f a t := by
  simp [Bind.bind, EStateM.bind, h]

theorem bind_of_error {m : Work γ α} {f : α → Work γ β} {s t : Session γ} {fault : Fault}
    (h : m s = .error fault t) : (m >>= f) s = .error fault t := by
  simp [Bind.bind, EStateM.bind, h]

theorem exists_of_bind_eq_ok {m : Work γ α} {f : α → Work γ β} {s t : Session γ} {b : β}
    (h : (m >>= f) s = .ok b t) : ∃ a u, m s = .ok a u ∧ f a u = .ok b t := by
  cases hm : m s with
  | ok a u =>
      rw [bind_of_ok hm] at h
      exact ⟨a, u, rfl, h⟩
  | error fault u =>
      rw [bind_of_error hm] at h
      cases h

def change (f : Session γ → Session γ) : Work γ Unit := fun s => .ok () (f s)

def stop (fault : Fault) : Work γ α := fun s => .error fault s

/-- The outcome of a computation, be it an answer or a fault. -/
def attempt (m : Work γ α) : Work γ (Except Fault α) := fun s =>
  match m s with
  | .ok a s => .ok (.ok a) s
  | .error fault s => .ok (.error fault) s

def ofExcept : Except Fault α → Work γ α
  | .ok a => pure a
  | .error fault => stop fault

@[simp] theorem change_apply (f : Session γ → Session γ) (s : Session γ) :
    change f s = .ok () (f s) := rfl

@[simp] theorem stop_apply (fault : Fault) (s : Session γ) :
    (stop fault : Work γ α) s = .error fault s := rfl

@[simp] theorem ofExcept_ok (a : α) : (ofExcept (.ok a) : Work γ α) = pure a := rfl

@[simp] theorem ofExcept_error (fault : Fault) :
    (ofExcept (.error fault) : Work γ α) = stop fault := rfl

/-- Adds a frame to the context, to be left by the caller. -/
def enterFrame (frame : Frame) : Work γ Unit := fun s =>
  match s.context.enter frame with
  | .error o => .error (.overflow o) s
  | .ok context => .ok () { s with context := context }

/-- Works inside a frame of the context, which is left however the work ends. -/
def inFrame (frame : Frame) (body : Work γ α) : Work γ α := fun s =>
  match s.context.enter frame with
  | .error o => .error (.overflow o) s
  | .ok context =>
      match body { s with context := context } with
      | .ok a s => .ok a { s with context := s.context.leave }
      | .error fault s => .error fault { s with context := s.context.leave }

/-- Works inside a scope of the tags, which is left however the work ends. -/
def inScope (body : Work γ α) : Work γ α := fun s =>
  match body { s with tags := s.tags.enterScope } with
  | .ok a s => .ok a { s with tags := s.tags.exitScope }
  | .error fault s => .error fault { s with tags := s.tags.exitScope }

theorem inFrame_of_ok {frame : Frame} {body : Work γ α} {s t : Session γ} {context : Context}
    {a : α} (henter : s.context.enter frame = .ok context)
    (hbody : body { s with context := context } = .ok a t) :
    inFrame frame body s = .ok a { t with context := t.context.leave } := by
  simp only [inFrame, henter, hbody]

theorem inScope_of_ok {body : Work γ α} {s t : Session γ} {a : α}
    (hbody : body { s with tags := s.tags.enterScope } = .ok a t) :
    inScope body s = .ok a { t with tags := t.tags.exitScope } := by
  rw [inScope, hbody]

theorem exists_of_inFrame_eq_ok {frame : Frame} {body : Work γ α} {s t : Session γ} {a : α}
    (h : inFrame frame body s = .ok a t) : ∃ context u, s.context.enter frame = .ok context ∧
      body { s with context := context } = .ok a u ∧
        t = { u with context := u.context.leave } := by
  unfold inFrame at h
  cases henter : s.context.enter frame with
  | error o =>
      rw [henter] at h
      cases h
  | ok context =>
      simp only [henter] at h
      cases hbody : body { s with context := context } with
      | error fault u =>
          rw [hbody] at h
          cases h
      | ok b u =>
          rw [hbody] at h
          cases h
          exact ⟨context, u, rfl, hbody, rfl⟩

theorem exists_of_inScope_eq_ok {body : Work γ α} {s t : Session γ} {a : α}
    (h : inScope body s = .ok a t) : ∃ u, body { s with tags := s.tags.enterScope } = .ok a u ∧
      t = { u with tags := u.tags.exitScope } := by
  unfold inScope at h
  cases hbody : body { s with tags := s.tags.enterScope } with
  | error fault u =>
      rw [hbody] at h
      cases h
  | ok b u =>
      rw [hbody] at h
      cases h
      exact ⟨u, rfl, rfl⟩

theorem inFrame_congr {frame : Frame} {body other : Work γ α} {s : Session γ}
    (h : ∀ context, body { s with context := context } = other { s with context := context }) :
    inFrame frame body s = inFrame frame other s := by
  simp only [inFrame, h]

theorem inScope_congr {body other : Work γ α} {s : Session γ}
    (h : body { s with tags := s.tags.enterScope } = other { s with tags := s.tags.enterScope }) :
    inScope body s = inScope other s := by
  simp only [inScope, h]

end Work

/-- Defines a rule under a name that may be any text. The answer says whether the definition was
taken; one without candidates leaves the rules as they are. -/
def defineRule [RandomSource γ] (name : Text) (d : Definition) : Work γ Bool := fun s =>
  match Rule.build name d s.random with
  | (notices, .error fault) => .error fault (s.reportAll notices)
  | (notices, .ok none) => .ok false (s.reportAll notices)
  | (notices, .ok (some (rule, random))) =>
      .ok true { s.reportAll notices with rules := s.rules.put name rule, random := random }

/-- Adds a rule, or replaces the rule of that name. The answer says whether the definition was
taken; a refused name leaves the rules as they are. -/
def addRule [RandomSource γ] (name : Value) (d : Definition) : Work γ Bool := fun s =>
  match ruleName name with
  | .error fault => .ok false (s.report (.nameRefused fault))
  | .ok name =>
      defineRule name d (if s.rules.contains name then s.report (.duplicateRule name) else s)

def setSelector (name : Text) (selector : Selector γ) : Work γ Unit := fun s =>
  match s.rules.get? name with
  | none => .ok () (s.report (.noSuchRule name))
  | some rule =>
      .ok () { s with rules := s.rules.put name { rule with selector := selector } }

end TextGrammar
