import TextGrammar.Markup.Node
import TextGrammar.Markup.Token
import TextGrammar.Text.Numeral

/-!
# Reading tokens into nodes

Tokens are read one at a time, from left to right. What has been read of the constructs that
are still open is kept in a `State`: the sequence a node will join, and around it the
assignments and references whose end has not come. `State.step` takes one token, and
`State.finish` closes the reading where the tokens end, so that reading a list of tokens is a
fold over it and reading a list in two parts is reading it at once.

A reference is closed by a hash. After a modifier, however, the token that does not go on with
the chain closes the reference whatever it is, and is dropped: only before the first modifier
is another token than the hash refused.

The last two tokens of a candidate, a comma and a text of digits, give its weight where weights
are read (`splitWeight`). They are taken off before the rest is read.
-/

namespace TextGrammar

/-- Why tokens are not a sequence of nodes. -/
inductive MarkupFault where
  | closeWithoutOpen
  | unterminatedAssignment
  | missingColon
  | unexpectedInTagName (text : Text)
  | emptyTagName
  | unterminatedReference
  | unexpectedInReference (text : Text)
  | emptyReference
  | emptyModifierName
  | unterminatedArguments (modifier : Text)
deriving DecidableEq, Repr

namespace MarkupFault

def message : MarkupFault → Text
  | closeWithoutOpen => "unexpected ']' without matching '['"
  | unterminatedAssignment => "unterminated tag assignment, missing ']'"
  | missingColon => "tag assignment is missing ':'"
  | unexpectedInTagName text => "unexpected '" ++ text ++ "' in tag name"
  | emptyTagName => "tag assignment has an empty name"
  | unterminatedReference => "unterminated reference, missing closing '#'"
  | unexpectedInReference text => "unexpected '" ++ text ++ "' in reference"
  | emptyReference => "empty reference '##'"
  | emptyModifierName => "modifier name is empty"
  | unterminatedArguments modifier =>
      "unterminated argument list for modifier '" ++ modifier ++ "'"

end MarkupFault

namespace Reading

/-- Adds text behind nodes, which come newest first; text behind text becomes one node. -/
def addText (text : Text) : List Node → List Node
  | .text before :: rest => .text (before ++ text) :: rest
  | nodes => .text text :: nodes

mutual

/-- A sequence being read: its nodes so far, newest first, and what stands around it. -/
inductive OpenSequence where
  | top (nodes : List Node)
  | value (name : Text) (nodes : List Node) (home : Home)

/-- What an assignment being read belongs to: a sequence, or a reference as one of its
actions. -/
inductive Home where
  | node (sequence : OpenSequence)
  | action (actions : List Assignment) (sequence : OpenSequence)

end

/-- A reference whose name has begun: the parts that are complete, and the sequence that the
reference will join. -/
structure OpenReference where
  actions : List Assignment
  name : Text
  modifiers : List ModifierCall
  sequence : OpenSequence

/-- How far reading has come. -/
inductive State where
  /-- Between the nodes of a sequence. -/
  | inSequence (sequence : OpenSequence)
  /-- In the name of an assignment, before its colon. -/
  | inTagName (name : Text) (home : Home)
  /-- At the start of a reference, where actions may still come. -/
  | atReference (actions : List Assignment) (sequence : OpenSequence)
  /-- In the name of a reference. -/
  | inName (reference : OpenReference)
  /-- After a dot, where a modifier has to be named. -/
  | atModifier (reference : OpenReference)
  /-- After the name of a modifier, where its arguments may come. -/
  | afterModifierName (modifier : Text) (reference : OpenReference)
  /-- Inside the arguments of a modifier: those that are complete, and the texts of the
  tokens of the one being read. -/
  | inArguments (modifier : Text) (done current : List Text) (reference : OpenReference)
  /-- After the arguments of a modifier. -/
  | afterArguments (reference : OpenReference)

def OpenSequence.addNode (n : Node) : OpenSequence → OpenSequence
  | .top nodes => .top (n :: nodes)
  | .value name nodes home => .value name (n :: nodes) home

def OpenSequence.addText (text : Text) : OpenSequence → OpenSequence
  | .top nodes => .top (Reading.addText text nodes)
  | .value name nodes home => .value name (Reading.addText text nodes) home

/-- Hands a complete assignment to what it belongs to. -/
def Home.accept (a : Assignment) : Home → State
  | .node sequence => .inSequence (sequence.addNode (.assign a))
  | .action actions sequence => .atReference (actions ++ [a]) sequence

namespace OpenReference

def addModifier (r : OpenReference) (call : ModifierCall) : OpenReference :=
  { r with modifiers := r.modifiers ++ [call] }

@[simp] theorem sequence_addModifier (r : OpenReference) (call : ModifierCall) :
    (r.addModifier call).sequence = r.sequence := rfl

def close (r : OpenReference) : State :=
  .inSequence (r.sequence.addNode (.reference r.name r.modifiers r.actions))

/-- Takes a token in the name of a reference: a hash closes the reference, which must not be
empty, and a dot begins the modifiers. -/
def stepName (r : OpenReference) (t : Token) : Except MarkupFault State :=
  match t.kind with
  | .mark .hash =>
      if r.name = "" ∧ r.actions.isEmpty then .error .emptyReference else .ok r.close
  | .mark .dot => .ok (.atModifier r)
  | .text => .ok (.inName { r with name := r.name ++ t.text })
  | _ => .error (.unexpectedInReference t.text)

/-- Takes the token after a modifier: a dot goes on with the chain and any other token closes
the reference. -/
def stepChain (r : OpenReference) (t : Token) : State :=
  match t.kind with
  | .mark .dot => .atModifier r
  | _ => r.close

end OpenReference

/-- The modifier that a closing parenthesis completes. An argument list without any token is
no argument at all. -/
def completeCall (modifier : Text) (done current : List Text) : ModifierCall :=
  ⟨modifier,
    if current.isEmpty && done.isEmpty then [] else done ++ [Text.join current]⟩

namespace State

def step : State → Token → Except MarkupFault State
  | .inSequence sequence, t =>
      match t.kind with
      | .mark .closeBracket =>
          match sequence with
          | .top _ => .error .closeWithoutOpen
          | .value name nodes home => .ok (home.accept ⟨name, nodes.reverse⟩)
      | .mark .hash => .ok (.atReference [] sequence)
      | .mark .openBracket => .ok (.inTagName "" (.node sequence))
      | _ => .ok (.inSequence (sequence.addText t.text))
  | .inTagName name home, t =>
      match t.kind with
      | .mark .colon =>
          if strip name = "" then .error .emptyTagName
          else .ok (.inSequence (.value (strip name) [] home))
      | .mark .closeBracket => .error .missingColon
      | .text => .ok (.inTagName (name ++ t.text) home)
      | _ => .error (.unexpectedInTagName t.text)
  | .atReference actions sequence, t =>
      match t.kind with
      | .mark .openBracket => .ok (.inTagName "" (.action actions sequence))
      | _ => OpenReference.stepName ⟨actions, "", [], sequence⟩ t
  | .inName r, t => r.stepName t
  | .atModifier r, t =>
      match t.kind with
      | .text =>
          if strip t.text = "" then .error .emptyModifierName
          else .ok (.afterModifierName (strip t.text) r)
      | _ => .error .emptyModifierName
  | .afterModifierName modifier r, t =>
      match t.kind with
      | .mark .openParen => .ok (.inArguments modifier [] [] r)
      | _ => .ok ((r.addModifier ⟨modifier, []⟩).stepChain t)
  | .inArguments modifier done current r, t =>
      match t.kind with
      | .mark .closeParen =>
          .ok (.afterArguments (r.addModifier (completeCall modifier done current)))
      | .mark .comma => .ok (.inArguments modifier (done ++ [Text.join current]) [] r)
      | _ => .ok (.inArguments modifier done (current ++ [t.text]) r)
  | .afterArguments r, t => .ok (r.stepChain t)

/-- Closes reading where the tokens end. Only a sequence that nothing stands around is
complete. -/
def finish : State → Except MarkupFault (List Node)
  | .inSequence (.top nodes) => .ok nodes.reverse
  | .inSequence (.value ..) => .error .unterminatedAssignment
  | .inTagName .. => .error .missingColon
  | .atReference .. | .inName _ | .afterModifierName .. | .afterArguments _ =>
      .error .unterminatedReference
  | .atModifier _ => .error .emptyModifierName
  | .inArguments modifier .. => .error (.unterminatedArguments modifier)

/-- Reading ends well only between the nodes of a sequence that nothing stands around. -/
theorem eq_top_of_finish {st : State} {nodes : List Node} (h : st.finish = .ok nodes) :
    st = .inSequence (.top nodes.reverse) := by
  unfold finish at h
  split at h
  all_goals cases h
  rw [List.reverse_reverse]

def run : State → List Token → Except MarkupFault State
  | st, [] => .ok st
  | st, t :: rest =>
      match st.step t with
      | .ok next => next.run rest
      | .error fault => .error fault

@[simp] theorem run_nil (st : State) : st.run [] = .ok st := rfl

theorem run_cons (st : State) (t : Token) (rest : List Token) :
    st.run (t :: rest) = st.step t >>= fun next => next.run rest := by
  rw [run]
  cases st.step t <;> rfl

theorem run_append (st : State) (ts us : List Token) :
    st.run (ts ++ us) = st.run ts >>= fun next => next.run us := by
  induction ts generalizing st with
  | nil => rfl
  | cons t rest ih =>
      rw [List.cons_append, run_cons, run_cons]
      cases st.step t with
      | error fault => rfl
      | ok next => exact ih next

/-- Where reading begins: between the nodes of a sequence without any. -/
def initial : State := .inSequence (.top [])

end State

end Reading

/-- Why rule text is not read: it is malformed, or the digits of its weight are no number. -/
inductive ReadFault where
  | malformed (fault : MarkupFault)
  | weight (fault : NumeralFault)
deriving DecidableEq, Repr

namespace ReadFault

def message : ReadFault → Text
  | malformed fault => fault.message
  | weight fault => fault.message

end ReadFault

/-- Reads tokens as a sequence of nodes, without a weight. -/
def readNodes (ts : List Token) : Except MarkupFault (List Node) :=
  Reading.State.initial.run ts >>= Reading.State.finish

/-- Takes the weight off the end of tokens. A weight is a comma and a text of digits with a
positive value, and something has to stand before it. Digits that have no value make a
fault. -/
def splitWeight (ts : List Token) : Except NumeralFault (List Token × Option Nat) :=
  match ts.reverse with
  | value :: sep :: last :: before =>
      if sep.kind = .mark .comma ∧ value.kind = .text ∧ isDigitText value.text then
        match readInt value.text with
        | .error fault => .error fault
        | .ok n =>
            if n ≤ 0 then .ok (ts, none)
            else .ok ((last :: before).reverse, some n.toNat)
      else .ok (ts, none)
  | _ => .ok (ts, none)

/-- Reads the tokens of a candidate, or of a text to expand. With `allowWeight` a weight at the
end becomes the last node. -/
def parse (ts : List Token) (allowWeight : Bool) : Except ReadFault (List Node) :=
  if allowWeight then
    match splitWeight ts with
    | .error fault => .error (.weight fault)
    | .ok (body, weight) =>
        match readNodes body with
        | .error fault => .error (.malformed fault)
        | .ok nodes => .ok (nodes ++ (weight.map Node.weight).toList)
  else
    match readNodes ts with
    | .error fault => .error (.malformed fault)
    | .ok nodes => .ok nodes

def parseText (source : Text) (allowWeight : Bool) : Except ReadFault (List Node) :=
  parse (tokenize source) allowWeight

end TextGrammar
