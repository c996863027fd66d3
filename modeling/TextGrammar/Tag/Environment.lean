import TextGrammar.Lexicon

/-!
# Environments that are copied on entry

The simplest reading of nested scopes: every scope has a complete table of what can be seen in
it. Opening a scope copies the table of the scope around it, binding changes the innermost
table alone, and leaving a scope returns to the table around it as it was. Scoped tag stores
keep only what each scope has bound itself; these environments say what they have to show.
-/

namespace TextGrammar

/-- A stack of complete tables, the innermost apart from those around it. -/
structure Environment where
  top : Lexicon (Option Text)
  below : List (Lexicon (Option Text))

namespace Environment

def empty : Environment := ⟨.empty, []⟩

/-- Opens a scope with a copy of the innermost table. -/
def enterScope (e : Environment) : Environment := ⟨e.top, e.top :: e.below⟩

/-- Leaves the innermost scope, unless it is the only one. -/
def exitScope (e : Environment) : Environment :=
  match e.below with
  | [] => e
  | top :: below => ⟨top, below⟩

def bind (name : Text) (value : Option Text) (e : Environment) : Environment :=
  { e with top := e.top.put name value }

def removeAll (_ : Environment) : Environment := empty

/-- The value of a name; a name that is bound to a missing text has none. -/
def lookup (name : Text) (e : Environment) : Option Text := (e.top.get? name).getD none

def size (e : Environment) : Nat := e.top.size

end Environment

end TextGrammar
