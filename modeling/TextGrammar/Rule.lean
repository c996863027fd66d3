import TextGrammar.Notice
import TextGrammar.Rule.Definition

/-!
# Rules

A rule is a list of candidates, each a text and the nodes it was read as, with a selector that
chooses among them. `Rule.build` makes a rule from a definition: it reads the candidate texts,
drops those that are malformed, and takes the weights off those that are left. Where the
definition brings no selector along, the weights decide which one is made (`inferSelector`).

Building reports what happens to every text, whether a rule comes of it or not. It draws from
the shared source only to make a selector, so a dropped text leaves no trace there.
-/

namespace TextGrammar

/-- A text from which a rule may be expanded, and the nodes it was read as. -/
structure Candidate where
  text : Text
  nodes : List Node

namespace Candidate

/-- The weight at the end of the nodes, if there is one. -/
def weight? (c : Candidate) : Option Nat := c.nodes.getLast?.bind Node.weight?

def withoutWeight (c : Candidate) : Candidate :=
  match c.weight? with
  | none => c
  | some _ => { c with nodes := c.nodes.dropLast }

end Candidate

/-- The candidates of a rule, and the selector that chooses among them. -/
structure Rule (γ : Type) where
  candidates : List Candidate
  selector : Selector γ

variable {γ : Type} [RandomSource γ]

namespace Rule

def candidateAt? (candidates : List Candidate) (pick : Pick) : Option (Index × Candidate) :=
  match pick.index? with
  | some i => if 0 ≤ i.toInt then (candidates[i.toInt.toNat]?).map fun c => (i, c) else none
  | none => none

/-- Lets the selector choose. The answer is the index and the candidate, or nothing where the
selector's answer is no index of a candidate. -/
def select (r : Rule γ) (shared : γ) :
    Except Fault (Option (Index × Candidate) × Rule γ × γ) :=
  (r.selector.pick r.candidates.length shared).map fun (pick, selector, shared) =>
    (candidateAt? r.candidates pick, { r with selector := selector }, shared)

theorem mem_of_candidateAt? {candidates : List Candidate} {pick : Pick} {i : Index}
    {c : Candidate} (h : candidateAt? candidates pick = some (i, c)) : c ∈ candidates := by
  unfold candidateAt? at h
  split at h
  · split at h
    · obtain ⟨d, hd, heq⟩ := Option.map_eq_some_iff.1 h
      cases heq
      exact List.mem_of_getElem? hd
    · cases h
  · cases h

/-- What a selection chooses is a candidate of the rule, which stays as it is but for its
selector. -/
theorem select_eq_ok {r r' : Rule γ} {shared shared' : γ}
    {picked : Option (Index × Candidate)} (h : r.select shared = .ok (picked, r', shared')) :
    r'.candidates = r.candidates ∧ ∀ choice, picked = some choice → choice.2 ∈ r.candidates := by
  obtain ⟨answer, -, hanswer⟩ := exists_of_map_eq_ok h
  cases hanswer
  exact ⟨rfl, fun choice hchoice => mem_of_candidateAt? hchoice⟩

end Rule

/-- Reads candidate texts in order. A malformed text is dropped; a weight whose digits are no
number stops the reading. The notices say what happened. -/
def readCandidates (rule : Text) : List Text → List Notice × Except Fault (List Candidate)
  | [] => ([], .ok [])
  | text :: rest =>
      match parseText text true with
      | .ok nodes =>
          let (notices, result) := readCandidates rule rest
          (.checking rule text :: notices, result.map fun cs => ⟨text, nodes⟩ :: cs)
      | .error (.malformed fault) =>
          let (notices, result) := readCandidates rule rest
          (.checking rule text :: .candidateDropped rule fault text :: notices, result)
      | .error (.weight fault) => ([.checking rule text], .error (.numeral fault))

/-- The selector for candidates that bring none along: the first of one, weighted shares where a
weight is given, where a candidate without a weight counts once, and else a shuffled pass. -/
def inferSelector (candidates : List Candidate) (shared : γ) : Selector γ × γ :=
  if candidates.length = 1 then (.first, shared)
  else if candidates.any fun c => c.weight?.isSome then
    (.weighted ⟨candidates.map fun c => c.weight?.getD 1, none⟩, shared)
  else
    let (state, shared) := Shuffled.start candidates.length none shared
    (.shuffled state, shared)

/-- The rule that candidates make, if there are any. -/
def Rule.ofCandidates? (selector : Option CustomSelector) (candidates : List Candidate)
    (shared : γ) : Option (Rule γ × γ) :=
  if candidates.isEmpty then none
  else
    let (selector, shared) := match selector with
      | some custom => (.custom custom, shared)
      | none => inferSelector candidates shared
    some (⟨candidates.map Candidate.withoutWeight, selector⟩, shared)

/-- Makes a rule from a definition, if a candidate is left, together with the notices of its
making. -/
def Rule.build (rule : Text) (d : Definition) (shared : γ) :
    List Notice × Except Fault (Option (Rule γ × γ)) :=
  match d.texts with
  | .error fault => ([], .error fault)
  | .ok texts =>
      match readCandidates rule texts with
      | (notices, .error fault) => (notices, .error fault)
      | (notices, .ok candidates) =>
          match Rule.ofCandidates? d.selector candidates shared with
          | some made => (notices, .ok (some made))
          | none => (notices ++ [.nothingDefined rule], .ok none)

end TextGrammar
