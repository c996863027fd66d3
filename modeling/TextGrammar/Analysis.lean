import TextGrammar.Lexicon
import TextGrammar.Rule

/-!
# Analysis of a rule book

Two faults of a rule book show without expanding anything: a reference that names neither a rule
nor a tag assigned anywhere in the book, and a rule of which every candidate refers to the rule
itself, so that its expansion cannot end. Findings are advice and change nothing.
-/

namespace TextGrammar

abbrev RuleBook (γ : Type) := Lexicon (Rule γ)

/-- What a finding is about. -/
inductive FindingKind where
  | unknownReference (name : Text)
  | selfRecursive
deriving DecidableEq, Repr

/-- Something that analysis found about a rule. -/
structure Finding where
  rule : Text
  kind : FindingKind
deriving DecidableEq, Repr

namespace Finding

def kindName (f : Finding) : Text :=
  match f.kind with
  | .unknownReference _ => "unknown-reference"
  | .selfRecursive => "self-recursive"

def detail (f : Finding) : Text :=
  match f.kind with
  | .unknownReference name =>
      "'" ++ name ++ "' is not a rule or a tag assigned in the rule book"
  | .selfRecursive => "every candidate references the rule itself"

end Finding

variable {γ : Type}

namespace Rule

def assignedTags (r : Rule γ) : List Text :=
  r.candidates.flatMap fun c => Node.assignedTags c.nodes

def references (r : Rule γ) : List Text :=
  r.candidates.flatMap fun c => Node.references c.nodes

def alwaysRefersTo (r : Rule γ) (name : Text) : Bool :=
  r.candidates.all fun c => (Node.references c.nodes).contains name

end Rule

/-- The names of a list without repeats, each at its first place. -/
def distinct (names : List Text) : List Text := go [] names
where
  /-- Keeps the names that have not been seen. -/
  go (seen : List Text) : List Text → List Text
    | [] => []
    | n :: rest => if seen.contains n then go seen rest else n :: go (n :: seen) rest

/-- Texts in the order of their code points. -/
def sortedTexts (texts : List Text) : List Text := texts.mergeSort fun a b => decide (a ≤ b)

namespace RuleBook

def assignedTags (book : RuleBook γ) : List Text :=
  distinct (book.entries.flatMap fun e => e.2.assignedTags)

/-- The names that a rule refers to without there being such a rule or tag, each once. -/
def unknownReferences (book : RuleBook γ) (tags : List Text) (r : Rule γ) : List Text :=
  distinct (r.references.filter fun name => !book.contains name && !tags.contains name)

/-- The findings about one rule: unknown references first, in the order of their places. -/
def findingsOf (book : RuleBook γ) (tags : List Text) (name : Text) (r : Rule γ) :
    List Finding :=
  (book.unknownReferences tags r).map (fun n => ⟨name, .unknownReference n⟩) ++
    (if r.alwaysRefersTo name && !tags.contains name then [⟨name, .selfRecursive⟩] else [])

/-- The findings about all rules, in the order of the rules' names. -/
def analyze (book : RuleBook γ) : List Finding :=
  let tags := book.assignedTags
  (sortedTexts book.names).flatMap fun name =>
    match book.get? name with
    | some r => book.findingsOf tags name r
    | none => []

end RuleBook

def Finding.notice (f : Finding) : Notice := .finding f.rule f.detail

end TextGrammar
