import TextGrammar.Event
import TextGrammar.Json.Reading

/-!
# Reading events back

What a tracer has written is read back line by line, each line as JSON, into events with their
numbers. A text that does not end with a line end, or a line that is no event, makes the whole
text unreadable.
-/

namespace TextGrammar

/-- The lines of a text in which every line has its end; `held` is the line so far, newest
character first. -/
def linesFrom (held : List Char) : List Char → Option (List (List Char))
  | [] => if held.isEmpty then some [] else none
  | c :: rest =>
      if c = '\n' then (linesFrom [] rest).map (held.reverse :: ·) else linesFrom (c :: held) rest

/-- The lines of a text in which every line has its end. -/
def linesOf? (cs : List Char) : Option (List (List Char)) := linesFrom [] cs

theorem linesFrom_append (held line rest : List Char) (h : '\n' ∉ line) :
    linesFrom held (line ++ '\n' :: rest) =
      (linesFrom [] rest).map ((held.reverse ++ line) :: ·) := by
  induction line generalizing held with
  | nil => simp [linesFrom]
  | cons c line ih =>
      simp only [List.mem_cons, not_or] at h
      simp [linesFrom, Ne.symm h.1, ih _ h.2]

namespace Event

/-- The event and number that a value shows. -/
def ofValue? : Value → Option (Nat × Event)
  | .table [(a, .int number), (b, .text rule), (c, candidate), (d, .int depth),
      (e, .text text)] =>
      if [a, b, c, d, e] = (["seq", "rule", "candidate", "depth", "text"] : List Text) &&
          0 ≤ number then
        (Index.ofValue? candidate).map fun i => (number.toNat, ⟨rule, i, depth, text⟩)
      else none
  | _ => none

/-- The value of an event with its number shows just these. -/
theorem ofValue?_table (number : Nat) (e : Event) :
    ofValue? (.table (e.numberedFields number)) = some (number, e) := by
  simp [ofValue?, numberedFields, fields]

/-- The event and number on a line. -/
def ofLine? (line : List Char) : Option (Nat × Event) :=
  match readJson none (String.ofList line) with
  | .ok v => ofValue? v
  | .error _ => none

end Event

/-- The events and numbers that a tracer has written. -/
def readTrace? (text : String) : Option (List (Nat × Event)) :=
  match linesOf? text.toList with
  | some lines => lines.mapM Event.ofLine?
  | none => none

end TextGrammar
