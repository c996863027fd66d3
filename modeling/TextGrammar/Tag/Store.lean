import TextGrammar.Lexicon

/-!
# Tag stores

Tags are bound to texts while a text is expanded. Under the flat policy there is one table for
all of them. Under the scoped policy the tables are nested: a binding goes into the innermost
one and hides the bindings of its name further out, and leaving a scope drops the innermost
table with all that was bound in it. The outermost table is never dropped, which the type of
nested stores says by holding the innermost table apart from the others.

A tag may be bound to a missing text. It then has no value, and still hides the bindings of its
name further out and counts among the visible bindings.
-/

namespace TextGrammar

/-- How far a tag binding reaches. -/
inductive TaggingPolicy where
  | flat
  | nested
deriving DecidableEq, Repr

namespace TaggingPolicy

def name : TaggingPolicy → Text
  | flat => "flat"
  | nested => "scoped"

def all : List TaggingPolicy := [flat, nested]

def ofName? (name : Text) : Option TaggingPolicy := all.find? (·.name = name)

@[simp] theorem ofName?_name (p : TaggingPolicy) : ofName? p.name = some p := by
  cases p <;> simp [ofName?, all, name]

end TaggingPolicy

/-- The bindings of one scope, in the order in which the names were first bound. -/
abbrev TagTable := Lexicon (Option Text)

/-- The tags that are bound: one table for all, or a stack of tables. -/
inductive TagStore where
  | flat (tags : TagTable)
  | nested (inner : TagTable) (outer : List TagTable)

namespace TagStore

def empty : TaggingPolicy → TagStore
  | .flat => .flat .empty
  | .nested => .nested .empty []

/-- Binds a tag, in the innermost scope where there are scopes. -/
def bind (name : Text) (value : Option Text) : TagStore → TagStore
  | .flat tags => .flat (tags.put name value)
  | .nested inner outer => .nested (inner.put name value) outer

/-- The value of a name in the first table, from the innermost outwards, that binds it. -/
def lookupIn (name : Text) : List TagTable → Option Text
  | [] => none
  | table :: outer => (table.get? name).getD (lookupIn name outer)

def lookup (name : Text) : TagStore → Option Text
  | .flat tags => lookupIn name [tags]
  | .nested inner outer => lookupIn name (inner :: outer)

def removeAll : TagStore → TagStore
  | .flat _ => .flat .empty
  | .nested .. => .nested .empty []

def enterScope : TagStore → TagStore
  | .flat tags => .flat tags
  | .nested inner outer => .nested .empty (inner :: outer)

/-- Leaves the innermost scope, unless it is the only one. -/
def exitScope : TagStore → TagStore
  | .flat tags => .flat tags
  | .nested inner [] => .nested inner []
  | .nested _ (inner :: outer) => .nested inner outer

/-- Merges tables, given innermost first: a binding further in wins, at the place of the
outermost binding of its name. -/
def merge : List TagTable → TagTable
  | [] => .empty
  | table :: outer => (merge outer).putAll table.entries

/-- The visible bindings. -/
def snapshot : TagStore → TagTable
  | .flat tags => tags
  | .nested inner outer => merge (inner :: outer)

def contains (name : Text) (s : TagStore) : Bool := (s.lookup name).isSome

def size (s : TagStore) : Nat := s.snapshot.size

/-- The number of scopes, where there are scopes. -/
def scopes? : TagStore → Option Nat
  | .flat _ => none
  | .nested _ outer => some (outer.length + 1)

/-- The tables, innermost first. -/
def tables : TagStore → List TagTable
  | .flat tags => [tags]
  | .nested inner outer => inner :: outer

@[simp] theorem snapshot_nested_nil (table : TagTable) : (nested table []).snapshot = table :=
  Lexicon.ofList_entries table

@[simp] theorem exitScope_enterScope (s : TagStore) : s.enterScope.exitScope = s := by
  cases s <;> rfl

theorem one_le_of_scopes? {s : TagStore} {n : Nat} (h : s.scopes? = some n) : 1 ≤ n := by
  cases s with
  | flat tags => cases h
  | nested inner outer =>
      cases h
      exact Nat.le_add_left 1 outer.length

@[simp] theorem scopes?_bind (s : TagStore) (name : Text) (value : Option Text) :
    (s.bind name value).scopes? = s.scopes? := by
  cases s <;> rfl

@[simp] theorem scopes?_enterScope (s : TagStore) :
    s.enterScope.scopes? = s.scopes?.map (· + 1) := by
  cases s <;> rfl

/-- Leaving a scope never goes below one. -/
@[simp] theorem scopes?_exitScope (s : TagStore) :
    s.exitScope.scopes? = s.scopes?.map fun n => max 1 (n - 1) := by
  cases s with
  | flat tags => rfl
  | nested inner outer =>
      cases outer with
      | nil => rfl
      | cons table rest => simp [exitScope, scopes?]

@[simp] theorem scopes?_removeAll (s : TagStore) :
    s.removeAll.scopes? = s.scopes?.map fun _ => 1 := by
  cases s <;> rfl

@[simp] theorem removeAll_bind (s : TagStore) (name : Text) (value : Option Text) :
    (s.bind name value).removeAll = s.removeAll := by
  cases s <;> rfl

@[simp] theorem removeAll_enterScope (s : TagStore) : s.enterScope.removeAll = s.removeAll := by
  cases s <;> rfl

@[simp] theorem removeAll_exitScope (s : TagStore) : s.exitScope.removeAll = s.removeAll := by
  cases s with
  | flat tags => rfl
  | nested inner outer => cases outer <;> rfl

@[simp] theorem removeAll_removeAll (s : TagStore) : s.removeAll.removeAll = s.removeAll := by
  cases s <;> rfl

theorem lookup_bind_self (s : TagStore) (name : Text) (value : Option Text) :
    (s.bind name value).lookup name = value := by
  cases s <;> simp [bind, lookup, lookupIn]

@[simp] theorem lookup_enterScope (s : TagStore) (name : Text) :
    s.enterScope.lookup name = s.lookup name := by
  cases s <;> simp [enterScope, lookup, lookupIn]

@[simp] theorem lookup_removeAll (s : TagStore) (name : Text) :
    s.removeAll.lookup name = none := by
  cases s <;> simp [removeAll, lookup, lookupIn]

theorem lookup_eq_lookupIn (s : TagStore) (name : Text) :
    s.lookup name = lookupIn name s.tables := by
  cases s <;> rfl

/-- A tag has a value only where a table binds it. -/
theorem exists_table_of_lookup {s : TagStore} {name value : Text}
    (h : s.lookup name = some value) : ∃ table ∈ s.tables, (table.get? name).isSome := by
  rw [lookup_eq_lookupIn] at h
  generalize s.tables = tables at h ⊢
  induction tables with
  | nil => cases h
  | cons table outer ih =>
      cases hhere : table.get? name with
      | some bound => exact ⟨table, List.mem_cons_self .., by rw [hhere]; rfl⟩
      | none =>
          rw [lookupIn, hhere, Option.getD_none] at h
          obtain ⟨found, hfound, hbound⟩ := ih h
          exact ⟨found, List.mem_cons_of_mem _ hfound, hbound⟩

theorem mem_tables_of_bind {s : TagStore} {name : Text} {value : Option Text}
    {table : TagTable} (h : table ∈ (s.bind name value).tables) :
    table ∈ s.tables ∨ ∃ old ∈ s.tables, table = old.put name value := by
  cases s with
  | flat tags => exact .inr ⟨tags, List.mem_cons_self .., List.mem_singleton.1 h⟩
  | nested inner outer =>
      rcases List.mem_cons.1 h with rfl | houter
      · exact .inr ⟨inner, List.mem_cons_self .., rfl⟩
      · exact .inl (List.mem_cons_of_mem _ houter)

theorem mem_tables_of_enterScope {s : TagStore} {table : TagTable}
    (h : table ∈ s.enterScope.tables) : table = .empty ∨ table ∈ s.tables := by
  cases s with
  | flat tags => exact .inr h
  | nested inner outer => exact List.mem_cons.1 h

theorem mem_tables_of_exitScope {s : TagStore} {table : TagTable}
    (h : table ∈ s.exitScope.tables) : table ∈ s.tables := by
  cases s with
  | flat tags => exact h
  | nested inner outer =>
      cases outer with
      | nil => exact h
      | cons next rest => exact List.mem_cons_of_mem _ h

end TagStore

end TextGrammar
