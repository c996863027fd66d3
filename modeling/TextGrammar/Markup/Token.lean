import TextGrammar.Text.Basic

/-!
# Tokens of rule text

Rule text is cut into eight kinds of structural marks and the runs of plain text between
them. A backslash takes the character after it out of the structure: the character joins the
run of text whatever it is, and a backslash at the very end is text itself. A backslash never
ends a run, so two text tokens never stand side by side.

`tokenize` cuts and `Token.render` writes tokens back, with a backslash wherever a character
of a text would otherwise be taken for structure. `Token.Canonical` describes the lists that
cutting can give: marks, and texts that are not empty and do not touch.
-/

namespace TextGrammar

/-- The eight characters with a structural meaning. -/
inductive Mark where
  | hash
  | openBracket
  | closeBracket
  | colon
  | comma
  | dot
  | openParen
  | closeParen
deriving DecidableEq, Repr

namespace Mark

def char : Mark → CodePoint
  | hash => '#'
  | openBracket => '['
  | closeBracket => ']'
  | colon => ':'
  | comma => ','
  | dot => '.'
  | openParen => '('
  | closeParen => ')'

def all : List Mark :=
  [hash, openBracket, closeBracket, colon, comma, dot, openParen, closeParen]

def ofChar? (c : CodePoint) : Option Mark :=
  all.find? fun m => m.char = c

@[simp] theorem ofChar?_char (m : Mark) : ofChar? m.char = some m := by
  cases m <;> decide

theorem ofChar?_eq_some_iff {c : CodePoint} {m : Mark} : ofChar? c = some m ↔ m.char = c := by
  constructor
  · intro h
    simpa using List.find?_some h
  · rintro rfl
    exact ofChar?_char m

end Mark

/-- What a token is: a mark, a run of text, or a kind of its own that only tokens made by
hand have. -/
inductive TokenKind where
  | mark (mark : Mark)
  | text
  | other (name : Text)
deriving DecidableEq, Repr

/-- A kind together with the text it was read from. -/
structure Token where
  kind : TokenKind
  text : Text
deriving DecidableEq, Repr

namespace Token

def ofMark (m : Mark) : Token := ⟨.mark m, Text.singleton m.char⟩

def ofText (text : Text) : Token := ⟨.text, text⟩

/-- Puts the run of text held back, newest character first, in front of tokens; an empty
run leaves nothing. -/
def flush (held : List CodePoint) (rest : List Token) : List Token :=
  if held.isEmpty then rest else ofText (Text.ofList held.reverse) :: rest

/-- Cuts characters into tokens. `held` is the text read since the last mark, newest
character first. -/
def cut (held : List CodePoint) : List CodePoint → List Token
  | [] => flush held []
  | .char '\\' :: c :: rest => cut (c :: held) rest
  | c :: rest =>
      match Mark.ofChar? c with
      | some m => flush held (ofMark m :: cut [] rest)
      | none => cut (c :: held) rest

end Token

def tokenize (source : Text) : List Token := Token.cut [] source.toList

@[simp] theorem Token.cut_nil (held : List CodePoint) :
    Token.cut held [] = Token.flush held [] := by
  simp [Token.cut]

@[simp] theorem Token.cut_backslash (held rest : List CodePoint) (c : CodePoint) :
    Token.cut held ('\\' :: c :: rest) = Token.cut (c :: held) rest := by
  simp [Token.cut]

theorem Token.cut_mark (held rest : List CodePoint) (m : Mark) :
    Token.cut held (m.char :: rest) =
      Token.flush held (Token.ofMark m :: Token.cut [] rest) := by
  cases m <;> simp [Token.cut, Mark.char, Mark.ofChar?, Mark.all]

theorem Token.cut_plain (held rest : List CodePoint) {c : CodePoint} (h : Mark.ofChar? c = none)
    (hc : c ≠ '\\') : Token.cut held (c :: rest) = Token.cut (c :: held) rest := by
  rw [Token.cut]
  · simp [h]
  · rintro c' rest' rfl
    exact fun _ => hc rfl

/-- Whether a text is cut into exactly one token and that token is text. -/
def isPlainName (source : Text) : Bool :=
  match tokenize source with
  | [t] => t.kind = .text
  | _ => false

/-- The characters that need a backslash to stand for themselves. -/
def needsEscape (c : CodePoint) : Bool := c = '\\' || (Mark.ofChar? c).isSome

/-- Puts a backslash before every mark and every backslash. -/
def escapeChars : List CodePoint → List CodePoint
  | [] => []
  | c :: rest => if needsEscape c then '\\' :: c :: escapeChars rest else c :: escapeChars rest

/-- The spelling of a text in which no character has a structural meaning. -/
def escape (text : Text) : Text := Text.ofList (escapeChars text.toList)

namespace Token

/-- The characters of a token in rule text: text is escaped, all else stands as it is. -/
def renderChars (t : Token) : List CodePoint :=
  match t.kind with
  | .text => escapeChars t.text.toList
  | _ => t.text.toList

/-- Rule text that spells the tokens. -/
def render (ts : List Token) : Text := Text.ofList (ts.flatMap renderChars)

/-- A token that cutting can produce: a mark with its own character, or some text. -/
def IsCanonical (t : Token) : Prop :=
  match t.kind with
  | .mark m => t = ofMark m
  | .text => t.text ≠ ""
  | .other _ => False

/-- Canonical lists: canonical tokens of which no two texts touch. -/
def Canonical : List Token → Prop
  | [] => True
  | [t] => t.IsCanonical
  | t :: u :: rest =>
      t.IsCanonical ∧ ¬(t.kind = .text ∧ u.kind = .text) ∧ Canonical (u :: rest)

end Token

end TextGrammar
