import TextGrammar.Markup.Node
import TextGrammar.Markup.Token

/-!
# Writing nodes as rule text

The spelling of nodes: marks stand plainly, and every text, name and argument is escaped. A
modifier without arguments has no parentheses. A weight is written as a comma and digits, which
is its spelling only at the very end. What is no part of the language has no spelling.
-/

namespace TextGrammar

/-- The spelling of arguments, with commas between them. -/
def writeArguments : List Text → List CodePoint
  | [] => []
  | [arg] => escapeChars arg.toList
  | arg :: rest => escapeChars arg.toList ++ .char ',' :: writeArguments rest

namespace ModifierCall

def write (call : ModifierCall) : List CodePoint :=
  '.' :: (escapeChars call.name.toList ++
    if call.args.isEmpty then [] else .char '(' :: (writeArguments call.args ++ [.char ')']))

end ModifierCall

mutual

def Node.write : Node → List CodePoint
  | .text t => escapeChars t.toList
  | .reference name modifiers actions =>
      '#' :: (Assignment.writeAll actions ++ (escapeChars name.toList ++
        (modifiers.flatMap ModifierCall.write ++ [.char '#'])))
  | .assign a => a.write
  | .weight n => ',' :: (toString n : Text).toList
  | .stray _ => []

def Assignment.write : Assignment → List CodePoint
  | ⟨name, value⟩ =>
      '[' :: (escapeChars name.toList ++ .char ':' :: (Node.writeAll value ++ [.char ']']))

def Assignment.writeAll : List Assignment → List CodePoint
  | [] => []
  | a :: rest => a.write ++ Assignment.writeAll rest

def Node.writeAll : List Node → List CodePoint
  | [] => []
  | n :: rest => n.write ++ Node.writeAll rest

end

@[simp] theorem Node.writeAll_nil : Node.writeAll [] = [] := rfl

@[simp] theorem Node.writeAll_cons (n : Node) (rest : List Node) :
    Node.writeAll (n :: rest) = n.write ++ Node.writeAll rest := rfl

@[simp] theorem Assignment.writeAll_nil : Assignment.writeAll [] = [] := rfl

@[simp] theorem Assignment.writeAll_cons (a : Assignment) (rest : List Assignment) :
    Assignment.writeAll (a :: rest) = a.write ++ Assignment.writeAll rest := rfl

/-- The rule text of a sequence. -/
def ruleText (ns : List Node) : Text := Text.ofList (Node.writeAll ns)

end TextGrammar
