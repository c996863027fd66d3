import TextGrammar.Markup.Node

/-!
# Nesting of nodes

How many frames the evaluation of a sequence may hold at once, given how many each name needs:
an assignment needs one more than its value, a reference one more than its actions and than the
name it refers to. `Node.referenceCount` is the number of references in a sequence, wherever
they stand, and `Node.outerTags` are the tags that a sequence assigns outside of references.
-/

namespace TextGrammar

mutual

def Node.nesting (need : Text → Nat) : Node → Nat
  | .text _ => 0
  | .reference name _ actions => 1 + max (Assignment.nestingAll need actions) (need name)
  | .assign a => a.nesting need
  | .weight _ => 0
  | .stray _ => 0

def Assignment.nesting (need : Text → Nat) : Assignment → Nat
  | ⟨_, value⟩ => 1 + Node.nestingAll need value

def Assignment.nestingAll (need : Text → Nat) : List Assignment → Nat
  | [] => 0
  | a :: rest => max (a.nesting need) (Assignment.nestingAll need rest)

def Node.nestingAll (need : Text → Nat) : List Node → Nat
  | [] => 0
  | n :: rest => max (n.nesting need) (Node.nestingAll need rest)

end

mutual

/-- The tags that a node assigns outside of references. -/
def Node.outerTagsOf : Node → List Text
  | .assign a => a.outerTags
  | _ => []

/-- The tags that an assignment assigns outside of references: its own, and those in its value. -/
def Assignment.outerTags : Assignment → List Text
  | ⟨name, value⟩ => name :: Node.outerTags value

def Node.outerTags : List Node → List Text
  | [] => []
  | n :: rest => n.outerTagsOf ++ Node.outerTags rest

end

namespace Node

def isReference : Node → Bool
  | .reference .. => true
  | _ => false

/-- The number of references in a sequence, wherever they stand. -/
def referenceCount (ns : List Node) : Nat := ((walkAll ns).filter isReference).length

@[simp] theorem referenceCount_nil : referenceCount [] = 0 := rfl

end Node

end TextGrammar
