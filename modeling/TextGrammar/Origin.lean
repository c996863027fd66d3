import TextGrammar.Fault
import TextGrammar.Value

/-!
# Origins

What an expansion starts from. Nearly always that is a text. A modifier may have given none, and
then there is nothing that could be read; or a blank was left in the place of the text, which is
read like the empty text and yet shown as the blank that it is.
-/

namespace TextGrammar

/-- What an expansion starts from. -/
inductive Origin where
  | text (text : Text)
  /-- A text that a modifier did not give. -/
  | missing
  /-- A blank in the place of a text. -/
  | blank
deriving DecidableEq, Repr

namespace Origin

def ofText? : Option Text → Origin
  | some t => text t
  | none => missing

def value : Origin → Value
  | text t => .text t
  | missing => .null
  | blank => .list []

def shown (o : Origin) : Text := o.value.shown

def read : Origin → Except Fault Text
  | text t => .ok t
  | missing => .error .nothingToRead
  | blank => .ok ""

@[simp] theorem read_text (t : Text) : (text t).read = .ok t := rfl

end Origin

end TextGrammar
