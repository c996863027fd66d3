import TextGrammar.Text.Pairs
import TextGrammar.Value

/-!
# Writing JSON

Values are written as JSON in ASCII: a text is quoted, with a short escape for five controls,
the quote and the backslash, and every other code point outside of the printable ASCII set as
one or two UTF-16 units, a surrogate as the unit that it is. `writeJson` writes on one line, a
blank after every comma and colon; `writeJsonIndented` gives every item its own line, two blanks
further in than what holds it.
-/

namespace TextGrammar

def unitEscape (unit : Nat) : List Char := '\\' :: 'u' :: hexPadded 4 unit

/-- A code point inside a JSON text. -/
def jsonPoint (c : CodePoint) : List Char :=
  if c = '\"' then ['\\', '\"']
  else if c = '\\' then ['\\', '\\']
  else if c = '\n' then ['\\', 'n']
  else if c = '\r' then ['\\', 'r']
  else if c = '\t' then ['\\', 't']
  else if c = '\x08' then ['\\', 'b']
  else if c = '\x0c' then ['\\', 'f']
  else if 0x20 ≤ c.toNat && c.toNat < 0x7f then [Char.ofNat c.toNat]
  else c.units.flatMap unitEscape

def jsonText (text : Text) : List Char :=
  '\"' :: (text.toList.flatMap jsonPoint ++ ['\"'])

def jsonScalar : Value → List Char
  | .text t => jsonText t
  | .int n => (toString n).toList
  | .float .nan => "NaN".toList
  | .float (.infinity negative) => (if negative then "-Infinity" else "Infinity").toList
  | .float x => x.text.toList
  | .bool b => (if b then "true" else "false").toList
  | .null => "null".toList
  | v => jsonText v.shown

def separated (separator : List Char) : List (List Char) → List Char
  | [] => []
  | [item] => item
  | item :: rest => item ++ separator ++ separated separator rest

mutual

def jsonChars : Value → List Char
  | .list items => '[' :: (separated [',', ' '] (jsonItems items) ++ [']'])
  | .tuple items => '[' :: (separated [',', ' '] (jsonItems items) ++ [']'])
  | .table entries => '\x7b' :: (separated [',', ' '] (jsonEntries entries) ++ ['\x7d'])
  | v => jsonScalar v

def jsonItems : List Value → List (List Char)
  | [] => []
  | item :: rest => jsonChars item :: jsonItems rest

def jsonEntries : List (Text × Value) → List (List Char)
  | [] => []
  | (key, item) :: rest => (jsonText key ++ [':', ' '] ++ jsonChars item) :: jsonEntries rest

end

def writeJson (v : Value) : String := String.ofList (jsonChars v)

def newline (depth : Nat) : List Char := '\n' :: List.replicate (2 * depth) ' '

/-- Written items between brackets, each on its own line; nothing stands between the brackets
of no items. -/
def bracketed (left right : Char) (depth : Nat) : List (List Char) → List Char
  | [] => [left, right]
  | items => left :: (newline (depth + 1) ++
      separated (',' :: newline (depth + 1)) items ++ newline depth ++ [right])

mutual

def jsonIndented (depth : Nat) : Value → List Char
  | .list items => bracketed '[' ']' depth (jsonItemsIndented (depth + 1) items)
  | .tuple items => bracketed '[' ']' depth (jsonItemsIndented (depth + 1) items)
  | .table entries => bracketed '\x7b' '\x7d' depth (jsonEntriesIndented (depth + 1) entries)
  | v => jsonScalar v

def jsonItemsIndented (depth : Nat) : List Value → List (List Char)
  | [] => []
  | item :: rest => jsonIndented depth item :: jsonItemsIndented depth rest

def jsonEntriesIndented (depth : Nat) : List (Text × Value) → List (List Char)
  | [] => []
  | (key, item) :: rest =>
      (jsonText key ++ [':', ' '] ++ jsonIndented depth item) :: jsonEntriesIndented depth rest

end

def writeJsonIndented (v : Value) : String := String.ofList (jsonIndented 0 v)

end TextGrammar
