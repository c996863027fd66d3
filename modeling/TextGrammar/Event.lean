import TextGrammar.Json.Writing
import TextGrammar.Lexicon
import TextGrammar.Selector.Pick

/-!
# Events

Each time a rule has been expanded the engine records an event: the rule, the index of the
candidate, the depth of the context, and the text. Beside the events it counts how often each
rule has been expanded.

A tracer writes events as lines of JSON, numbered from zero, all of them or those of given
rules.
-/

namespace TextGrammar

/-- One completed expansion of a rule. -/
structure Event where
  rule : Text
  candidate : Index
  depth : Int
  text : Text
deriving DecidableEq, Repr

namespace Event

def fields (e : Event) : List (Text × Value) :=
  [("rule", .text e.rule), ("candidate", e.candidate.value), ("depth", .int e.depth),
    ("text", .text e.text)]

def numberedFields (number : Nat) (e : Event) : List (Text × Value) :=
  ("seq", .int number) :: e.fields

end Event

/-- How often each rule has been expanded, in the order of the first expansions. -/
abbrev RuleCounts := Lexicon Nat

def RuleCounts.add (counts : RuleCounts) (rule : Text) (n : Nat) : RuleCounts :=
  counts.put rule ((counts.get? rule).getD 0 + n)

/-- Writes events to a sink. -/
structure Tracer where
  rules : Option (List Text)
  written : Nat
  sink : String

namespace Tracer

/-- A tracer of given rules, or of all, that has not written anything. -/
def start (rules : Option (List Text)) : Tracer := ⟨rules, 0, ""⟩

def traces (t : Tracer) (rule : Text) : Bool :=
  match t.rules with
  | none => true
  | some rules => rules.contains rule

def line (number : Nat) (e : Event) : String :=
  writeJson (.table (e.numberedFields number)) ++ "\n"

def record (t : Tracer) (e : Event) : Tracer :=
  if t.traces e.rule then
    { t with written := t.written + 1, sink := t.sink ++ line t.written e }
  else t

def recordAll (t : Tracer) (es : List Event) : Tracer := es.foldl record t

@[simp] theorem recordAll_nil (t : Tracer) : t.recordAll [] = t := rfl

@[simp] theorem recordAll_cons (t : Tracer) (e : Event) (es : List Event) :
    t.recordAll (e :: es) = (t.record e).recordAll es := rfl

end Tracer

end TextGrammar
