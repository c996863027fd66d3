import TextGrammar.Event
import TextGrammar.Origin
import TextGrammar.Rule.Definition

/-!
# Extensions by users

Users extend the engine with modifiers, which change the text of a reference, and with event
hooks, which are called on every event. Such a function may ask the engine for something while
it runs: an expansion, a new rule, another selector of a rule, a tag binding. What it does is
therefore a `Script`: a tree of requests, each with what is done with the answer. A script that
asks for nothing is a plain function that answers or fails.

Beside the requests a script may write entries to a journal, and read all entries written so
far; so a function that remembers its calls is a script too. There is no request for a modifier or
a hook: the ones of an expansion are those that are there when it begins. One that is added
meanwhile can be given beforehand, as one that looks into the journal and, until an entry says that
it was added, fails as an unknown modifier does or, as a hook, does nothing.
-/

namespace TextGrammar

namespace Script

/-- What a function of a user asks of the engine. -/
inductive Request where
  /-- Expands an origin, with or without dropping what is bound and recorded so far. -/
  | expand (origin : Origin) (reset : Bool)
  | addRule (name : Value) (definition : Definition)
  /-- Gives a rule a selector of a user. -/
  | setSelector (rule : Text) (selector : CustomSelector)
  /-- Binds a tag, to a text or to a missing one. -/
  | bind (name : Text) (value : Option Text)
  /-- Writes an entry to the journal. -/
  | note (entry : Text)
  /-- Reads the journal, oldest entry first. -/
  | lookBack

namespace Request

/-- What a request is answered with. Adding a rule tells whether it was taken, or the fault. -/
def Answer : Request → Type
  | expand .. => Text
  | addRule .. => Except Fault Bool
  | setSelector .. | bind .. | note .. => Unit
  | lookBack => List Text

def isPrivate : Request → Bool
  | note _ | lookBack => true
  | _ => false

/-- Whether a request drops what is bound and recorded. -/
def resets : Request → Bool
  | expand _ reset => reset
  | _ => false

def looksBack : Request → Bool
  | lookBack => true
  | _ => false

end Request

end Script

/-- What a function of a user does: requests to the engine, one after the other, and at last an
answer or a fault. -/
inductive Script (α : Type) where
  | done (answer : α)
  | fail (fault : Fault)
  | ask (request : Script.Request) (next : request.Answer → Script α)

namespace Script

variable {α β : Type}

def ofExcept : Except Fault α → Script α
  | .ok a => done a
  | .error fault => fail fault

def result? : Script α → Option (Except Fault α)
  | done a => some (.ok a)
  | fail fault => some (.error fault)
  | ask .. => none

def map (f : α → β) : Script α → Script β
  | done a => done (f a)
  | fail fault => fail fault
  | ask request next => ask request fun answer => (next answer).map f

/-- Whatever it is answered, a script asks for certain requests, fails by itself with certain
faults and gives certain answers only. -/
inductive Obeys (asks : Request → Prop) (fails : Fault → Prop) (gives : α → Prop) :
    Script α → Prop
  | done {a : α} : gives a → Obeys asks fails gives (done a)
  | fail {fault : Fault} : fails fault → Obeys asks fails gives (fail fault)
  | ask {request : Request} {next : request.Answer → Script α} : asks request →
      (∀ answer, Obeys asks fails gives (next answer)) → Obeys asks fails gives (ask request next)

section Obeys

variable {asks asks' : Request → Prop} {fails fails' : Fault → Prop} {gives : α → Prop}

theorem Obeys.mono {script : Script α} (h : script.Obeys asks fails gives)
    (hasks : ∀ request, asks request → asks' request)
    (hfails : ∀ fault, fails fault → fails' fault) : script.Obeys asks' fails' gives := by
  induction h with
  | done ha => exact .done ha
  | fail hfault => exact .fail (hfails _ hfault)
  | ask hrequest _ ih => exact .ask (hasks _ hrequest) ih

theorem Obeys.of_ask {request : Request} {next : request.Answer → Script α}
    (h : (Script.ask request next).Obeys asks fails gives) :
    asks request ∧ ∀ answer, (next answer).Obeys asks fails gives := by
  cases h with
  | ask hrequest hnext => exact ⟨hrequest, hnext⟩

theorem obeys_of_forall (hasks : ∀ request, asks request) (hfails : ∀ fault, fails fault)
    (hgives : ∀ a, gives a) (script : Script α) : script.Obeys asks fails gives := by
  induction script with
  | done a => exact .done (hgives a)
  | fail fault => exact .fail (hfails fault)
  | ask request next ih => exact .ask (hasks request) ih

end Obeys

abbrev Asks (asks : Request → Prop) (script : Script α) : Prop :=
  script.Obeys asks (fun _ => True) fun _ => True

/-- Whether a script asks nothing of the engine that changes what it has bound, recorded or
registered. -/
abbrev Detached (script : Script α) : Prop := script.Asks (·.isPrivate = true)

/-- Whether a script never reads the journal, so that what it does depends on what it is given and
on what it is answered. -/
abbrev Forgetful (script : Script α) : Prop := script.Asks (·.looksBack = false)

abbrev FailsOnly (E : Fault → Prop) (script : Script α) : Prop :=
  script.Obeys (fun _ => True) E fun _ => True

abbrev Faultless (script : Script α) : Prop := script.FailsOnly fun _ => False

abbrev Answers (P : α → Prop) (script : Script α) : Prop :=
  script.Obeys (fun _ => True) (fun _ => True) P

theorem detached_ofExcept (r : Except Fault α) : Detached (ofExcept r) := by
  cases r with
  | ok a => exact .done trivial
  | error fault => exact .fail trivial

end Script

/-- A modifier: what becomes of a text, given the arguments. A text is missing where a modifier
before has given none. -/
abbrev Modifier := Option Text → List Text → Script (Option Text)

namespace Modifier

def ofText (f : Option Text → Script (Option Text)) : Modifier := fun text _ => f text

/-- The modifier of a side effect: the text passes through. -/
def ofCall (f : Script Unit) : Modifier := fun text _ => f.map fun _ => text

end Modifier

/-- A hook: a tracer, known by its number, or a function of a user. -/
inductive Hook where
  | trace (tracer : Nat)
  | call (f : Event → Script Unit)

theorem Hook.forall_call_mem_concat {P : (Event → Script Unit) → Prop} {hooks : List Hook}
    {hook : Hook} (h : ∀ f, Hook.call f ∈ hooks → P f) (hhook : ∀ f, hook = .call f → P f) :
    ∀ f, Hook.call f ∈ hooks ++ [hook] → P f := by
  intro f hf
  rcases List.mem_append.1 hf with hf | hf
  · exact h f hf
  · exact hhook f (List.mem_singleton.1 hf).symm

/-- What users have added to an engine. -/
structure Extensions where
  modifiers : Lexicon Modifier
  hooks : List Hook

namespace Extensions

def none : Extensions := ⟨.empty, []⟩

/-- Modifiers and hooks ask for certain requests and fail by themselves with certain faults only. -/
structure Obey (asks : Script.Request → Prop) (fails : Fault → Prop) (x : Extensions) : Prop where
  modifiers : ∀ name m, x.modifiers.get? name = some m →
    ∀ text args, (m text args).Obeys asks fails fun _ => True
  hooks : ∀ f, Hook.call f ∈ x.hooks → ∀ e, (f e).Obeys asks fails fun _ => True

section Obey

variable {asks asks' : Script.Request → Prop} {fails fails' : Fault → Prop} {x : Extensions}

theorem obey_none : none.Obey asks fails where
  modifiers _ _ h := nomatch h
  hooks _ h := nomatch h

theorem obey_of_forall (hasks : ∀ request, asks request) (hfails : ∀ fault, fails fault)
    (x : Extensions) : x.Obey asks fails where
  modifiers _ _ _ _ _ := Script.obeys_of_forall hasks hfails (fun _ => trivial) _
  hooks _ _ _ := Script.obeys_of_forall hasks hfails (fun _ => trivial) _

theorem Obey.mono (h : x.Obey asks fails) (hasks : ∀ request, asks request → asks' request)
    (hfails : ∀ fault, fails fault → fails' fault) : x.Obey asks' fails' where
  modifiers name m hm text args := (h.modifiers name m hm text args).mono hasks hfails
  hooks f hf e := (h.hooks f hf e).mono hasks hfails

theorem Obey.put (h : x.Obey asks fails) {m : Modifier}
    (hm : ∀ text args, (m text args).Obeys asks fails fun _ => True) (name : Text) :
    Obey asks fails { x with modifiers := x.modifiers.put name m } where
  modifiers := Lexicon.forall_get?_put h.modifiers hm name
  hooks := h.hooks

theorem Obey.addHook (h : x.Obey asks fails) {hook : Hook}
    (hhook : ∀ f, hook = .call f → ∀ e, (f e).Obeys asks fails fun _ => True) :
    Obey asks fails { x with hooks := x.hooks ++ [hook] } where
  modifiers := h.modifiers
  hooks := Hook.forall_call_mem_concat h.hooks hhook

end Obey

abbrev Ask (asks : Script.Request → Prop) (x : Extensions) : Prop := x.Obey asks fun _ => True

abbrev Detached (x : Extensions) : Prop := x.Ask (·.isPrivate = true)

/-- No modifier or hook asks for an expansion with a reset. -/
abbrev Resetless (x : Extensions) : Prop := x.Ask (·.resets = false)

abbrev Forgetful (x : Extensions) : Prop := x.Ask (·.looksBack = false)

theorem Detached.resetless {x : Extensions} (h : x.Detached) : x.Resetless := by
  refine h.mono (fun request hprivate => ?_) fun _ => id
  cases request with
  | note | lookBack => rfl
  | expand | addRule | setSelector | bind => cases hprivate

abbrev FailOnly (E : Fault → Prop) (x : Extensions) : Prop := x.Obey (fun _ => True) E

/-- Modifiers turn a text into a text, wherever they give an answer. -/
def Textual (x : Extensions) : Prop :=
  ∀ name m, x.modifiers.get? name = some m → ∀ text args,
    (m (some text) args).Answers (·.isSome = true)

end Extensions

end TextGrammar
