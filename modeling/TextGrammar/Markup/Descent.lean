import TextGrammar.Markup.Reading

/-!
# Reading by descent

The reading of `State.run` construct by construct. What is open is not kept in a state, it is in
the calls that have not returned: there is a function for each construct of the grammar, and one
for each run of things of a kind inside a construct. Tokens are taken by their place. `peek` and
`isAt` look at the next token, if there is one; `next` takes it, and goes wrong where there is none.

Reading may stop at a fault of the tokens or because it has asked for a place that has no token
(`Stop`). That it ends is not taken for granted either. A function that calls itself or what is
nested in its construct hands on one level less than it has been given, and without a level there
is no answer. The places that `next` is asked for are written down as it is asked, also where there
is no token.
-/

namespace TextGrammar

namespace Reading

/-- Why reading stops before its end: the tokens are malformed, or a token was asked for at a place
that has none. -/
inductive Stop where
  | malformed (fault : MarkupFault)
  | beyond (place : Nat)
deriving DecidableEq, Repr

/-- How far reading has come: the place of the next token, and the places that tokens have been
asked for at, in this order. -/
structure Cursor where
  place : Nat
  asked : List Nat
deriving DecidableEq, Repr

/-- What comes of a reading, if its levels last: what it returns or why it stops, and how far it
has come. -/
abbrev Outcome (α : Type) : Type := Option (Except Stop α × Cursor)

/-- A reading that goes on from a cursor. -/
abbrev Descent (α : Type) : Type := ExceptT Stop (StateT Cursor Option) α

namespace Descent

def refuse {α : Type} (fault : MarkupFault) : Descent α := throw (.malformed fault)

/-- Gives no answer, for want of a level. -/
def exhausted {α : Type} : Descent α := fun _ => none

section Tokens

variable (ts : List Token)

def peek : Descent (Option Token) := do return ts[(← get).place]?

def isAt (kind : TokenKind) : Descent Bool := do
  return (← peek ts).any fun t => t.kind = kind

def next : Descent Token := do
  let place := (← get).place
  modify fun cursor => { cursor with asked := cursor.asked ++ [place] }
  match ts[place]? with
  | none => throw (.beyond place)
  | some t =>
      modify fun cursor => { cursor with place := place + 1 }
      return t

/-! ## Inside a reference -/

/-- The arguments of a modifier, behind their opening parenthesis: those that are complete, the
texts of the one being read, and what follows. -/
def arguments (modifier : Text) : Nat → List Text → List Text → Descent ModifierCall
  | 0, _, _ => exhausted
  | levels + 1, done, current => do
      match ← peek ts with
      | none => refuse (.unterminatedArguments modifier)
      | some t =>
          let _ ← next ts
          match t.kind with
          | .mark .closeParen => return completeCall modifier done current
          | .mark .comma => arguments modifier levels (done ++ [Text.join current]) []
          | _ => arguments modifier levels done (current ++ [t.text])

def call (levels : Nat) (modifier : Text) : Descent ModifierCall := do
  if ← isAt ts (.mark .openParen) then
    let _ ← next ts
    arguments ts modifier levels [] []
  else
    return ⟨modifier, []⟩

def modifier (levels : Nat) : Descent ModifierCall := do
  match ← peek ts with
  | none => refuse .emptyModifierName
  | some t =>
      if t.kind = .text ∧ strip t.text ≠ "" then
        let name ← next ts
        call ts levels (strip name.text)
      else
        refuse .emptyModifierName

/-- A chain of modifiers: those that are complete, and what follows. -/
def chain : Nat → List ModifierCall → Descent (List ModifierCall)
  | 0, _ => exhausted
  | levels + 1, done => do
      if ← isAt ts (.mark .dot) then
        let _ ← next ts
        let call ← modifier ts levels
        chain levels (done ++ [call])
      else
        return done

/-- The name of a reference: the part of it that has been read, and what follows. -/
def referenceName : Nat → Text → Descent Text
  | 0, _ => exhausted
  | levels + 1, name => do
      match ← peek ts with
      | none => refuse .unterminatedReference
      | some t =>
          match t.kind with
          | .mark .hash | .mark .dot => return name
          | .text =>
              let part ← next ts
              referenceName levels (name ++ part.text)
          | _ => refuse (.unexpectedInReference t.text)

/-- The end of a reference. Whatever token stands there is taken for its closing hash. -/
def endReference (actions : List Assignment) (name : Text) (modifiers : List ModifierCall) :
    Descent Node := do
  if (← peek ts).isNone then
    refuse .unterminatedReference
  else
    let _ ← next ts
    if name = "" ∧ modifiers = [] ∧ actions = [] then
      refuse .emptyReference
    else
      return .reference name modifiers actions

def reference (levels : Nat) (actions : Descent (List Assignment)) : Descent Node := do
  let before ← actions
  let name ← referenceName ts levels ""
  let modifiers ← chain ts levels []
  endReference ts before name modifiers

/-! ## Inside an assignment -/

/-- The name of a tag, up to its colon: the part of it that has been read, and what follows. -/
def tagName : Nat → Text → Descent Text
  | 0, _ => exhausted
  | levels + 1, name => do
      if ← isAt ts (.mark .colon) then
        return name
      else
        match ← peek ts with
        | none => refuse .missingColon
        | some t =>
            match t.kind with
            | .mark .closeBracket => refuse .missingColon
            | .text =>
                let part ← next ts
                tagName levels (name ++ part.text)
            | _ => refuse (.unexpectedInTagName t.text)

def assignment (levels : Nat) (value : Descent (List Node)) : Descent Assignment := do
  let name ← tagName ts levels ""
  let _ ← next ts
  if strip name = "" then
    refuse .emptyTagName
  else
    let nodes ← value
    let _ ← next ts
    return ⟨strip name, nodes⟩

/-! ## Sequences -/

mutual

/-- A sequence: the nodes of it that have been read, newest first, and what follows. The closing
bracket of a nested one stays. -/
def sequence : Nat → Bool → List Node → Descent (List Node)
  | 0, _, _ => exhausted
  | levels + 1, nested, nodes => do
      match ← peek ts with
      | none => if nested then refuse .unterminatedAssignment else return nodes.reverse
      | some t =>
          match t.kind with
          | .mark .closeBracket =>
              if nested then return nodes.reverse else refuse .closeWithoutOpen
          | .mark .hash =>
              let _ ← next ts
              let n ← reference ts levels (actions levels [])
              sequence levels nested (n :: nodes)
          | .mark .openBracket =>
              let _ ← next ts
              let a ← assignment ts levels (sequence levels true [])
              sequence levels nested (.assign a :: nodes)
          | _ =>
              let _ ← next ts
              sequence levels nested (addText t.text nodes)

/-- The actions of a reference: those that are complete, and what follows. -/
def actions : Nat → List Assignment → Descent (List Assignment)
  | 0, _ => exhausted
  | levels + 1, done => do
      if ← isAt ts (.mark .openBracket) then
        let _ ← next ts
        let a ← assignment ts levels (sequence levels true [])
        actions levels (done ++ [a])
      else
        return done

end

end Tokens

end Descent

end Reading

/-- Reads tokens by descent, from the first one. -/
def descend (levels : Nat) (ts : List Token) : Reading.Outcome (List Node) :=
  (Reading.Descent.sequence ts levels false []).run.run ⟨0, []⟩

end TextGrammar
