import TextGrammar.Markup.Node
import TextGrammar.Number.Decimal
import TextGrammar.Text.Quoted

/-!
# Values

The data that a rule book holds before it is read as rules: texts, numbers, truth values, the
null value, lists, tuples, tables, ranges, and objects of which only the text that shows them is
known. Every value has a text (`Value.asText`), in which a text stands for itself; inside another
value it is quoted (`Value.shown`).
-/

namespace TextGrammar

/-- A value of a rule book. -/
inductive Value where
  | text (text : Text)
  | int (n : Int)
  | float (x : Binary64)
  | bool (b : Bool)
  | null
  | list (items : List Value)
  | tuple (items : List Value)
  | table (entries : List (Text × Value))
  | range (stop : Int)
  | object (shown : Text)
deriving Inhabited

namespace Value

mutual

/-- How a value is shown inside another one. -/
def shown : Value → Text
  | .text t => quoted t
  | .int n => toString n
  | .float x => x.text
  | .bool b => if b then "True" else "False"
  | .null => "None"
  | .list items => "[" ++ Text.intercalate ", " (shownItems items) ++ "]"
  | .tuple [item] => "(" ++ item.shown ++ ",)"
  | .tuple items => "(" ++ Text.intercalate ", " (shownItems items) ++ ")"
  | .table entries => "\x7b" ++ Text.intercalate ", " (shownEntries entries) ++ "\x7d"
  | .range stop => "range(0, " ++ toString stop ++ ")"
  | .object s => s

def shownItems : List Value → List Text
  | [] => []
  | item :: rest => item.shown :: shownItems rest

def shownEntries : List (Text × Value) → List Text
  | [] => []
  | (key, item) :: rest => (quoted key ++ ": " ++ item.shown) :: shownEntries rest

end

/-- The text of a value; a text stands for itself. -/
def asText : Value → Text
  | .text t => t
  | v => v.shown

@[simp] theorem asText_text (t : Text) : (Value.text t).asText = t := rfl

def text? : Value → Option Text
  | .text t => some t
  | _ => none

/-- The items that a value runs through, one after the other: the characters of a text, the keys
of a table, the numbers of a range. Other values than collections run through nothing. -/
def items? : Value → Option (List Value)
  | .text t => some (t.toList.map fun c => .text (Text.singleton c))
  | .list items => some items
  | .tuple items => some items
  | .table entries => some (entries.map fun e => .text e.1)
  | .range stop => some ((List.range stop.toNat).map fun (i : Nat) => .int (i : Int))
  | _ => none

def kindName : Value → Text
  | .text _ => "str"
  | .int _ => "int"
  | .float _ => "float"
  | .bool _ => "bool"
  | .null => "NoneType"
  | .list _ => "list"
  | .tuple _ => "tuple"
  | .table _ => "dict"
  | .range _ => "range"
  | .object _ => "object"

/-- Whether a value counts as nothing: zero, the null value, a collection without items. -/
def isVacant : Value → Bool
  | .text t => t.isEmpty
  | .int n => n = 0
  | .float x => match x with
    | .finite _ units => units = 0
    | _ => false
  | .bool b => !b
  | .null => true
  | .list items => items.isEmpty
  | .tuple items => items.isEmpty
  | .table entries => entries.isEmpty
  | .range stop => stop ≤ 0
  | .object _ => false

/-- The whole number that a value is; a truth value counts as one or zero. -/
def index? : Value → Option Int
  | .int n => some n
  | .bool b => some (if b then 1 else 0)
  | _ => none

/-- The number that a value equals, if it is a number: a whole one where there is one. -/
def numeral? : Value → Option (Int ⊕ Binary64)
  | .float x =>
      match x.whole? with
      | some n => some (.inl n)
      | none => some (.inr x)
  | v => v.index?.map .inl

mutual

/-- The kind of a value that cannot be a key, where it or something in it is one that can
change: a list or a table. -/
def changeable? : Value → Option Text
  | .list _ => some "list"
  | .table _ => some "dict"
  | .tuple items => changeableIn? items
  | _ => none

/-- The first kind among items that cannot be part of a key. -/
def changeableIn? : List Value → Option Text
  | [] => none
  | item :: rest => item.changeable?.or (changeableIn? rest)

end

mutual

/-- Whether two values are one key. Numbers that are equal make one key, whatever their kinds;
what is not a number equals nothing, and no two objects are equal. -/
def sameKey : Value → Value → Bool
  | .text a, .text b => a = b
  | .null, .null => true
  | .tuple a, .tuple b => sameKeys a b
  | .range a, .range b => a.toNat = b.toNat
  | a, b =>
      match a.numeral?, b.numeral? with
      | some (.inr .nan), _ => false
      | some m, some n => m = n
      | _, _ => false

/-- Whether the items of two tuples are the same keys, one by one. -/
def sameKeys : List Value → List Value → Bool
  | [], [] => true
  | a :: as, b :: bs => sameKey a b && sameKeys as bs
  | _, _ => false

end

end Value

/-- How a modifier call is shown where it stands in the place of a node. -/
def ModifierCall.shown (call : ModifierCall) : Text :=
  "ModifierCall(name=" ++ quoted call.name ++ ", args=" ++
    (Value.tuple (call.args.map .text)).shown ++ ")"

end TextGrammar
