import TextGrammar.Extension
import TextGrammar.Session

/-!
# Evaluation

Evaluation walks a sequence of nodes and assembles the text it expands to. A reference opens a
frame of the context and a scope of the tags, carries out its actions, and takes the text of the
tag or else of the rule it names; its modifiers run after the frame and scope are left. A rule
gives the text that the nodes of the chosen candidate evaluate to.

Within a sequence evaluation recurses on the nodes. The two places where it starts over on other
nodes, the candidate of a rule and an expansion that a script asks for, go through `inner`, the
evaluation of the next level; `evaluateAt` stacks the levels. The context keeps evaluation from
using more levels than its maximal depth, as long as no script resets it, so that the levels
given by `nestingLevels` run out only where nothing else would stop an evaluation.
-/

namespace TextGrammar

variable {γ α : Type} [RandomSource γ]

def faultLead : Text := "error: "

def faultText (fault : Fault) : Text :=
  faultLead ++ (if fault.isOverflow then ("stack overflow" : Text) else fault.message)

def looksFailed (answer : Text) : Bool := faultLead.toList.isPrefixOf answer.toList

theorem looksFailed_faultText (fault : Fault) : looksFailed (faultText fault) = true := by
  simp [looksFailed, faultText, List.isPrefixOf_iff_prefix]

def faultNotice (origin : Origin) (fault : Fault) : Notice :=
  if fault.isOverflow then .overflowed origin else .failed origin fault

/-- What stands in for a name that is neither a tag nor a rule. -/
def placeholder (name : Text) : Text := "((" ++ name ++ "))"

/-- Joins the parts of a sequence; `place` is the number of parts before them. -/
def joinFrom (place : Nat) : List (Option Text) → Except Fault Text
  | [] => .ok ""
  | none :: _ => .error (.missingText place)
  | some part :: rest =>
      match joinFrom (place + 1) rest with
      | .ok text => .ok (part ++ text)
      | .error fault => .error fault

/-- Joins the parts of a sequence into its text. A missing part is a fault. -/
def join (parts : List (Option Text)) : Except Fault Text := joinFrom 0 parts

def checkNesting : Work γ Unit := fun s =>
  match raisedNesting? standingNesting s.context.maxDepth with
  | some _ => .ok () s
  | none => .error .nestingUnavailable s

omit [RandomSource γ] in
theorem checkNesting_eq_ok {s : Session γ} {limit : Int}
    (h : raisedNesting? standingNesting s.context.maxDepth = some limit) :
    checkNesting s = .ok () s := by
  unfold checkNesting
  rw [h]

section Level

variable (x : Extensions) (inner : List Node → Work γ Text)

def readAndEvaluate (origin : Origin) : Work γ Text := do
  let text ← Work.ofExcept origin.read
  let nodes ← Work.ofExcept ((parseText text false).mapError Fault.ofRead)
  checkNesting
  inner nodes

omit [RandomSource γ] in
theorem readAndEvaluate_text {text : Text} {nodes : List Node}
    (h : parseText text false = .ok nodes) :
    readAndEvaluate inner (.text text) = checkNesting >>= fun _ => inner nodes := by
  have hread : Work.ofExcept ((parseText text false).mapError Fault.ofRead) =
      (pure nodes : Work γ (List Node)) := by
    rw [h]
    rfl
  change (Work.ofExcept ((parseText text false).mapError Fault.ofRead) >>= fun nodes =>
    checkNesting >>= fun _ => inner nodes) = _
  rw [hread, pure_bind]

omit [RandomSource γ] in
theorem readAndEvaluate_of_malformed {text : Text} {fault : ReadFault}
    (h : parseText text false = .error fault) :
    readAndEvaluate inner (.text text) = Work.stop (.ofRead fault) := by
  change (Work.ofExcept ((parseText text false).mapError Fault.ofRead) >>= fun nodes =>
    checkNesting >>= fun _ => inner nodes) = _
  rw [h]
  rfl

omit [RandomSource γ] in
theorem readAndEvaluate_of_read {origin : Origin} {text : Text}
    (h : origin.read = .ok text) :
    readAndEvaluate inner origin = readAndEvaluate inner (.text text) := by
  unfold readAndEvaluate
  rw [h, Origin.read_text]

omit [RandomSource γ] in
/-- Either reading fails, in the same way in every session with the same maximal depth, or the
nodes that are read are evaluated in the session as it is. -/
theorem readAndEvaluate_cases (origin : Origin) (maxDepth : Nat) :
    (∃ fault, ∀ (inner : List Node → Work γ Text) (s : Session γ),
      s.context.maxDepth = maxDepth → readAndEvaluate inner origin s = .error fault s) ∨
      ∃ text nodes, origin.read = .ok text ∧ parseText text false = .ok nodes ∧
        ∀ (inner : List Node → Work γ Text) (s : Session γ), s.context.maxDepth = maxDepth →
          checkNesting s = .ok () s ∧ readAndEvaluate inner origin s = inner nodes s := by
  cases hread : origin.read with
  | error fault =>
      refine .inl ⟨fault, fun inner s _ => ?_⟩
      rw [readAndEvaluate, hread, Work.ofExcept_error, Work.bind_of_error (Work.stop_apply fault s)]
  | ok text =>
      cases hnodes : parseText text false with
      | error fault =>
          refine .inl ⟨.ofRead fault, fun inner s _ => ?_⟩
          rw [readAndEvaluate_of_read inner hread, readAndEvaluate_of_malformed inner hnodes,
            Work.stop_apply]
      | ok nodes =>
          have hsteps (inner : List Node → Work γ Text) :
              readAndEvaluate inner origin = checkNesting >>= fun _ => inner nodes := by
            rw [readAndEvaluate_of_read inner hread, readAndEvaluate_text inner hnodes]
          cases hlimit : raisedNesting? standingNesting maxDepth with
          | none =>
              refine .inl ⟨.nestingUnavailable, fun inner s hmax => ?_⟩
              have hcheck : checkNesting s = .error .nestingUnavailable s := by
                unfold checkNesting
                rw [hmax, hlimit]
              rw [hsteps, Work.bind_of_error hcheck]
          | some limit =>
              refine .inr ⟨text, nodes, rfl, hnodes, fun inner s hmax => ?_⟩
              have hcheck : checkNesting s = .ok () s := checkNesting_eq_ok (hmax ▸ hlimit)
              exact ⟨hcheck, by rw [hsteps, Work.bind_of_ok hcheck]⟩

/-- Expands an origin. A failed expansion is answered with a text that tells the fault. -/
def expandWith (origin : Origin) (reset : Bool) : Work γ Text := fun s =>
  match readAndEvaluate inner origin (if reset then s.reset else s) with
  | .ok answer s => .ok answer s
  | .error fault s => .ok (faultText fault) (s.report (faultNotice origin fault))

def grant : (request : Script.Request) → Work γ request.Answer
  | .expand origin reset => expandWith inner origin reset
  | .addRule name d => Work.attempt (addRule name d)
  | .setSelector rule selector => setSelector rule (.custom selector)
  | .bind name value => Work.change (·.bind name value)
  | .note entry => Work.change fun s => { s with journal := s.journal.push entry }
  | .lookBack => fun s => .ok s.journal.toList s

/-- A private request is granted, and the journal is all that it changes. -/
theorem exists_grant_of_isPrivate {request : Script.Request} (h : request.isPrivate = true)
    (s : Session γ) :
    ∃ answer journal, grant inner request s = .ok answer { s with journal := journal } := by
  cases request with
  | expand | addRule | setSelector | bind => cases h
  | note entry => exact ⟨(), s.journal.push entry, rfl⟩
  | lookBack => exact ⟨s.journal.toList, s.journal, rfl⟩

def runScript : Script α → Work γ α
  | .done a => pure a
  | .fail fault => Work.stop fault
  | .ask request next => do
      let answer ← grant inner request
      runScript (next answer)

def callHooks (e : Event) : List Hook → Work γ Unit
  | [] => pure ()
  | .trace tracer :: rest => do
      Work.change (·.trace tracer e)
      callHooks e rest
  | .call f :: rest => do
      runScript inner (f e)
      callHooks e rest

def applyModifiers (text : Option Text) : List ModifierCall → Work γ (Option Text)
  | [] => pure text
  | call :: rest =>
      match x.modifiers.get? call.name with
      | none => Work.stop (.unknownModifier call.name)
      | some m => do
          let text ← runScript inner (m text call.args)
          applyModifiers text rest

def selectCandidate (name : Text) (rule : Rule γ) : Work γ (Index × Candidate) := fun s =>
  match rule.select s.random with
  | .error fault => .error fault s
  | .ok (picked, rule, random) =>
      let s := { s with rules := s.rules.put name rule, random := random }
      match picked with
      | none => .error (.noCandidate name) s
      | some choice => .ok choice s

/-- A rule that has chosen is kept as its selector has become, and nothing else has changed. -/
theorem exists_of_selectCandidate_eq_ok {name : Text} {rule : Rule γ} {s t : Session γ}
    {choice : Index × Candidate} (h : selectCandidate name rule s = .ok choice t) :
    ∃ rule' random, rule.select s.random = .ok (some choice, rule', random) ∧
      t = { s with rules := s.rules.put name rule', random := random } := by
  unfold selectCandidate at h
  cases hselect : rule.select s.random with
  | error fault =>
      rw [hselect] at h
      cases h
  | ok answer =>
      obtain ⟨picked, rule', random⟩ := answer
      cases picked with
      | none =>
          simp only [hselect] at h
          cases h
      | some found =>
          simp only [hselect] at h
          cases h
          exact ⟨rule', random, rfl, rfl⟩

def complete (name : Text) (index : Index) (text : Text) : Work γ Unit := fun s =>
  let e : Event := ⟨name, index, s.context.depth, text⟩
  callHooks inner e x.hooks (s.record e)

def expandRule (name : Text) (rule : Rule γ) : Work γ Text := do
  let (index, candidate) ← selectCandidate name rule
  let text ← inner candidate.nodes
  complete x inner name index text
  pure text

/-- The text that a name stands for: nothing for the empty name, else the tag, else the rule,
else a placeholder. -/
def resolve (name : Text) : Work γ Text := fun s =>
  if name = "" then .ok "" s
  else
    match s.tags.lookup name with
    | some value => .ok value s
    | none =>
        match s.rules.get? name with
        | some rule => expandRule x inner name rule s
        | none => .ok (placeholder name) (s.recordUnresolved name)

variable {x inner} in
theorem resolve_of_tag {name value : Text} {s : Session γ} (hname : name ≠ "")
    (htag : s.tags.lookup name = some value) : resolve x inner name s = .ok value s := by
  rw [resolve, if_neg hname, htag]

variable {x inner} in
theorem resolve_of_rule {name : Text} {rule : Rule γ} {s : Session γ} (hname : name ≠ "")
    (htag : s.tags.lookup name = none) (hrule : s.rules.get? name = some rule) :
    resolve x inner name s = expandRule x inner name rule s := by
  rw [resolve, if_neg hname, htag, hrule]

variable {x inner} in
theorem resolve_of_missing {name : Text} {s : Session γ} (hname : name ≠ "")
    (htag : s.tags.lookup name = none) (hrule : s.rules.get? name = none) :
    resolve x inner name s = .ok (placeholder name) (s.recordUnresolved name) := by
  rw [resolve, if_neg hname, htag, hrule]

mutual

/-- The parts that a node adds to its sequence. -/
def nodeParts : Node → Work γ (List (Option Text))
  | .text t => pure [some t]
  | .reference name modifiers actions => do
      let text ← Work.inFrame ⟨.rule, name⟩ (Work.inScope do
        assignAll actions
        resolve x inner name)
      let text ← applyModifiers x inner (some text) modifiers
      pure [text]
  | .assign a => do
      assign a
      pure []
  | .weight _ => pure []
  | .stray shown => Work.stop (.strayNode shown)

/-- Carries out an assignment: its value is evaluated in a frame of its own, and bound after
that frame is left. -/
def assign : Assignment → Work γ Unit
  | ⟨name, value⟩ => do
      let text ← Work.inFrame ⟨.tag, name⟩ (do
        let parts ← sequenceParts value
        Work.ofExcept (join parts))
      Work.change (·.bind name (some text))

def assignAll : List Assignment → Work γ Unit
  | [] => pure ()
  | a :: rest => do
      assign a
      assignAll rest

def sequenceParts : List Node → Work γ (List (Option Text))
  | [] => pure []
  | n :: rest => do
      let parts ← nodeParts n
      let more ← sequenceParts rest
      pure (parts ++ more)

end

def evaluateWith (nodes : List Node) : Work γ Text := do
  let parts ← sequenceParts x inner nodes
  Work.ofExcept (join parts)

end Level

/-- The text of a sequence, with so many levels of evaluation inside it. -/
def evaluateAt (x : Extensions) : Nat → List Node → Work γ Text
  | 0, _ => Work.stop .tooNested
  | levels + 1, nodes => evaluateWith x (evaluateAt x levels) nodes

/-- The levels of evaluation that a maximal depth provides for: as many as the limit on nesting that
an expansion raises, or the one that stands. The limit counts the frames of an interpreter, and a
level takes several of these. Levels are therefore more room than the interpreter has, but never
less than the maximal depth asks for. -/
def nestingLevels (maxDepth : Nat) : Nat := max standingNesting (neededNesting maxDepth).toNat

/-- The text of a sequence. It is granted the levels of the limit that an expansion raises
(`checkNesting`) also where it is asked for alone, without an expansion that raises it. -/
def evaluate (x : Extensions) (nodes : List Node) : Work γ Text := fun s =>
  evaluateAt x (nestingLevels s.context.maxDepth) nodes s

/-- Expands an origin. A failed expansion is answered with a text that tells the fault. -/
def expand (x : Extensions) (origin : Origin) (reset : Bool) : Work γ Text :=
  expandWith (evaluate x) origin reset

/-- Every maximal depth is within the levels that it provides for. -/
theorem lt_nestingLevels (maxDepth : Nat) : maxDepth < nestingLevels maxDepth := by
  unfold nestingLevels neededNesting standingNesting
  omega

end TextGrammar
