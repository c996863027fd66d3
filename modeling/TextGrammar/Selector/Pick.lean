import TextGrammar.Value

/-!
# Answers of selectors

A selector answers with the index of a candidate. A user's selector may answer with a truth value
instead, which counts as one or zero and is still shown as what it is, or with a value that is no
index at all.
-/

namespace TextGrammar

/-- An index as a selector answers it. -/
inductive Index where
  | number (n : Int)
  | truth (b : Bool)
deriving DecidableEq, Repr

namespace Index

def toInt : Index → Int
  | number n => n
  | truth b => if b then 1 else 0

def value : Index → Value
  | number n => .int n
  | truth b => .bool b

def ofValue? : Value → Option Index
  | .int n => some (number n)
  | .bool b => some (truth b)
  | _ => none

@[simp] theorem ofValue?_value (i : Index) : ofValue? i.value = some i := by
  cases i <;> rfl

@[simp] theorem toInt_number (n : Int) : (number n).toInt = n := rfl

end Index

/-- The answer of a selector. -/
inductive Pick where
  | index (i : Index)
  | other (value : Value)

namespace Pick

def number (n : Int) : Pick := .index (.number n)

def ofValue (v : Value) : Pick :=
  match Index.ofValue? v with
  | some i => .index i
  | none => .other v

def index? : Pick → Option Index
  | .index i => some i
  | .other _ => none

@[simp] theorem index?_number (n : Int) : (number n).index? = some (.number n) := rfl

end Pick

end TextGrammar
