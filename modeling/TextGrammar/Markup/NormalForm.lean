import TextGrammar.Markup.Node
import TextGrammar.Number.Power
import TextGrammar.Text.Blank
import TextGrammar.Text.Numeral

/-!
# Normal form of nodes

In normal form no text is empty and no two texts touch, names of tags and modifiers are not
empty and have no blanks around them, a modifier has not just one empty argument, and a
reference has a name, a modifier or an action. A weight may stand at the end of a candidate, behind
another node, and nowhere else.

`Node.merge` puts two sequences in normal form together into one.
-/

namespace TextGrammar

/-- Whether a text is a name that reading can give: not empty, and without blanks around it. -/
def IsStripped (name : Text) : Prop := name ≠ "" ∧ strip name = name

namespace ModifierCall

def Normal (call : ModifierCall) : Prop := IsStripped call.name ∧ call.args ≠ [("" : Text)]

end ModifierCall

namespace Node

def isText : Node → Bool
  | .text _ => true
  | _ => false

def TextsApart : List Node → Prop
  | [] => True
  | [_] => True
  | n :: m :: rest => ¬(n.isText = true ∧ m.isText = true) ∧ TextsApart (m :: rest)

theorem textsApart_cons (n : Node) (rest : List Node) :
    TextsApart (n :: rest) ↔
      (n.isText = true → ∀ m ∈ rest.head?, m.isText = false) ∧ TextsApart rest := by
  cases rest with
  | nil => simp [TextsApart]
  | cons m rest => simp [TextsApart]

end Node

mutual

/-- A node in normal form. -/
def Node.Normal : Node → Prop
  | .text t => t ≠ ""
  | .reference name modifiers actions =>
      (name ≠ "" ∨ modifiers ≠ [] ∨ actions ≠ []) ∧
        (∀ call ∈ modifiers, call.Normal) ∧ Assignment.AllNormal actions
  | .assign a => a.Normal
  | .weight _ => False
  | .stray _ => False

def Assignment.Normal : Assignment → Prop
  | ⟨name, value⟩ => IsStripped name ∧ Node.TextsApart value ∧ Node.AllNormal value

def Assignment.AllNormal : List Assignment → Prop
  | [] => True
  | a :: rest => a.Normal ∧ Assignment.AllNormal rest

def Node.AllNormal : List Node → Prop
  | [] => True
  | n :: rest => n.Normal ∧ Node.AllNormal rest

end

namespace Node

theorem allNormal_iff {ns : List Node} : AllNormal ns ↔ ∀ n ∈ ns, n.Normal := by
  induction ns with
  | nil => simp [AllNormal]
  | cons n rest ih => simp [AllNormal, ih]

theorem TextsApart.of_append {ns ms : List Node} (h : TextsApart (ns ++ ms)) : TextsApart ms := by
  induction ns with
  | nil => exact h
  | cons n rest ih => exact ih ((textsApart_cons n (rest ++ ms)).1 h).2

/-- A sequence in normal form, without a weight. -/
def NormalSequence (ns : List Node) : Prop := TextsApart ns ∧ AllNormal ns

/-- The nodes of a candidate in normal form: a sequence, and behind it perhaps a positive weight
of at most so many digits as a number may have. -/
def NormalCandidate (ns : List Node) : Prop :=
  NormalSequence ns ∨
    ∃ body n, ns = body ++ [.weight n] ∧ body ≠ [] ∧ NormalSequence body ∧
      0 < n ∧ n < tenTo maxDigits

/-- Two sequences as one; texts that touch become one text. -/
def merge : List Node → List Node → List Node
  | [], ms => ms
  | [.text a], .text b :: ms => .text (a ++ b) :: ms
  | n :: ns, ms => n :: merge ns ms

@[simp] theorem merge_nil_left (ms : List Node) : merge [] ms = ms := by
  simp [merge]

@[simp] theorem merge_nil_right (ns : List Node) : merge ns [] = ns := by
  induction ns with
  | nil => simp [merge]
  | cons n rest ih => simp [merge, ih]

end Node

end TextGrammar
