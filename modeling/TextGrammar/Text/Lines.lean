/-!
# Lines and places

A line of text ends with a line feed. Files may end their lines with a carriage return, alone or
before a line feed; `unifyLineEnds` turns every such end into a line feed.

A place in a text is known by how many characters stand before it, and shown by its line and
column, both counted from one.
-/

namespace TextGrammar

def unifyLineEnds : List Char → List Char
  | [] => []
  | '\r' :: '\n' :: rest => '\n' :: unifyLineEnds rest
  | '\r' :: rest => '\n' :: unifyLineEnds rest
  | c :: rest => c :: unifyLineEnds rest

/-- A place in a text. -/
structure Place where
  line : Nat
  column : Nat
  offset : Nat
deriving DecidableEq, Repr

namespace Place

def after (before : List Char) : Place where
  line := before.count '\n' + 1
  column := (before.reverse.takeWhile (· ≠ '\n')).length + 1
  offset := before.length

def shown (p : Place) : String :=
  "line " ++ toString p.line ++ " column " ++ toString p.column ++
    " (char " ++ toString p.offset ++ ")"

end Place

end TextGrammar
