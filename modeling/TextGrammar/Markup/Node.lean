import TextGrammar.Text.Basic

/-!
# Nodes

What rule text means: a sequence of nodes. A node is plain text, a reference to a rule or a
tag, an assignment that binds a tag to what a sequence expands to, or the weight of a
candidate. A reference may carry assignments of its own (its actions) and a chain of
modifiers for the text it yields.

`walk` lists every node in depth-first order, an assignment or reference before what is
inside it.
-/

namespace TextGrammar

/-- A modifier of a reference: its name and its arguments as written. -/
structure ModifierCall where
  name : Text
  args : List Text
deriving DecidableEq, Repr

mutual

/-- One node of a sequence. A `stray` node is no part of the language: it stands for a thing
that was put into a sequence by hand, known only by the text that shows it. -/
inductive Node where
  | text (text : Text)
  | reference (name : Text) (modifiers : List ModifierCall) (actions : List Assignment)
  | assign (assignment : Assignment)
  | weight (value : Nat)
  | stray (shown : Text)

/-- Binds the tag `name` to what `value` expands to. -/
structure Assignment where
  name : Text
  value : List Node

end

instance : Inhabited Node := ⟨.text ""⟩

mutual

def Node.walk : Node → List Node
  | .text t => [.text t]
  | .reference name modifiers actions =>
      .reference name modifiers actions :: Assignment.walkAll actions
  | .assign a => .assign a :: a.walkValue
  | .weight n => [.weight n]
  | .stray s => [.stray s]

def Assignment.walkValue : Assignment → List Node
  | ⟨_, value⟩ => Node.walkAll value

def Assignment.walkAll : List Assignment → List Node
  | [] => []
  | a :: rest => .assign a :: (a.walkValue ++ Assignment.walkAll rest)

/-- All nodes of a sequence in depth-first order. -/
def Node.walkAll : List Node → List Node
  | [] => []
  | n :: rest => n.walk ++ Node.walkAll rest

end

@[simp] theorem Node.walkAll_nil : Node.walkAll [] = [] := rfl

@[simp] theorem Node.walkAll_cons (n : Node) (rest : List Node) :
    Node.walkAll (n :: rest) = n.walk ++ Node.walkAll rest := rfl

@[simp] theorem Assignment.walkAll_nil : Assignment.walkAll [] = [] := rfl

@[simp] theorem Assignment.walkAll_cons (a : Assignment) (rest : List Assignment) :
    Assignment.walkAll (a :: rest) = .assign a :: (a.walkValue ++ Assignment.walkAll rest) :=
  rfl

theorem Node.walkAll_append (ns ms : List Node) :
    Node.walkAll (ns ++ ms) = Node.walkAll ns ++ Node.walkAll ms := by
  induction ns with
  | nil => rfl
  | cons n rest ih => simp [ih]

theorem Node.mem_walk_self (n : Node) : n ∈ n.walk := by
  cases n <;> simp [Node.walk]

theorem Node.mem_walkAll_iff {ns : List Node} {n : Node} :
    n ∈ Node.walkAll ns ↔ ∃ m ∈ ns, n ∈ m.walk := by
  induction ns with
  | nil => simp
  | cons m rest ih => simp [ih]

theorem Assignment.walkAll_append (as bs : List Assignment) :
    Assignment.walkAll (as ++ bs) = Assignment.walkAll as ++ Assignment.walkAll bs := by
  induction as with
  | nil => rfl
  | cons a rest ih => simp [ih]

namespace Node

def referenceName? : Node → Option Text
  | .reference name _ _ => if name = "" then none else some name
  | _ => none

def assignedName? : Node → Option Text
  | .assign a => some a.name
  | _ => none

def weight? : Node → Option Nat
  | .weight n => some n
  | _ => none

/-- The names referred to anywhere in a sequence, in order and with repeats. -/
def references (ns : List Node) : List Text := (walkAll ns).filterMap referenceName?

def assignedTags (ns : List Node) : List Text := (walkAll ns).filterMap assignedName?

end Node

end TextGrammar
