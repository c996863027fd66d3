import TextGrammar.Markup.Token
import TextGrammar.Text.Blank

/-!
# The grammar of rule text

Which lists of tokens are sequences of nodes, said without reading them. A sequence is made of
plain tokens, references and assignments; an assignment has a name, a colon and a sequence
between brackets; a reference has actions, a name and a chain of modifiers behind a hash.

Without modifiers a reference ends with a hash. Which tokens may end one with modifiers is a
parameter, `closes`, of the grammar; a token that goes on with the chain never does.
-/

namespace TextGrammar

namespace Grammar

/-- A token that stands for itself in a sequence. -/
def IsPlain (t : Token) : Prop :=
  t.kind ≠ .mark .hash ∧ t.kind ≠ .mark .openBracket ∧ t.kind ≠ .mark .closeBracket

def AreTexts (ts : List Token) : Prop := ∀ t ∈ ts, t.kind = .text

def textOf (ts : List Token) : Text := Text.join (ts.map (·.text))

/-- A modifier behind its dot: a name that is not blank, and perhaps arguments, which the second
index tells. -/
inductive IsModifier : List Token → Bool → Prop where
  | bare {t : Token} : t.kind = .text → strip t.text ≠ "" → IsModifier [t] false
  | call {t opening closing : Token} {args : List Token} : t.kind = .text → strip t.text ≠ "" →
      opening.kind = .mark .openParen → (∀ a ∈ args, a.kind ≠ .mark .closeParen) →
      closing.kind = .mark .closeParen → IsModifier (t :: opening :: (args ++ [closing])) true

/-- A chain of modifiers together with the token that ends its reference. -/
inductive IsChain (closes : Token → Prop) : List Token → Prop where
  | last {dot last : Token} {m : List Token} {called : Bool} : dot.kind = .mark .dot →
      IsModifier m called → last.kind ≠ .mark .dot →
      (called = false → last.kind ≠ .mark .openParen) → closes last →
      IsChain closes (dot :: (m ++ [last]))
  | more {dot : Token} {m rest : List Token} {called : Bool} : dot.kind = .mark .dot →
      IsModifier m called → IsChain closes rest → IsChain closes (dot :: (m ++ rest))

mutual

/-- A sequence. -/
inductive IsSequence (closes : Token → Prop) : List Token → Prop where
  | nil : IsSequence closes []
  | plain {t : Token} {rest : List Token} : IsPlain t → IsSequence closes rest →
      IsSequence closes (t :: rest)
  | reference {hash : Token} {r rest : List Token} : hash.kind = .mark .hash →
      IsReference closes r → IsSequence closes rest → IsSequence closes (hash :: (r ++ rest))
  | assignment {opening closing : Token} {a rest : List Token} :
      opening.kind = .mark .openBracket → IsAssignment closes a →
      closing.kind = .mark .closeBracket → IsSequence closes rest →
      IsSequence closes (opening :: (a ++ closing :: rest))

/-- An assignment, without its brackets. -/
inductive IsAssignment (closes : Token → Prop) : List Token → Prop where
  | mk {names value : List Token} {colon : Token} : AreTexts names →
      strip (textOf names) ≠ "" → colon.kind = .mark .colon → IsSequence closes value →
      IsAssignment closes (names ++ colon :: value)

/-- The actions of a reference, with their brackets. -/
inductive AreActions (closes : Token → Prop) : List Token → Prop where
  | nil : AreActions closes []
  | cons {opening closing : Token} {a rest : List Token} :
      opening.kind = .mark .openBracket → IsAssignment closes a →
      closing.kind = .mark .closeBracket → AreActions closes rest →
      AreActions closes (opening :: (a ++ closing :: rest))

/-- A reference behind its hash, with the token that ends it. -/
inductive IsReference (closes : Token → Prop) : List Token → Prop where
  | bare {actions names : List Token} {last : Token} : AreActions closes actions →
      AreTexts names → (actions ≠ [] ∨ textOf names ≠ "") → last.kind = .mark .hash →
      IsReference closes (actions ++ (names ++ [last]))
  | chained {actions names chain : List Token} : AreActions closes actions → AreTexts names →
      IsChain closes chain → IsReference closes (actions ++ (names ++ chain))

end

end Grammar

end TextGrammar
