import Mathlib.Logic.Relation
import TextGrammar.Proofs.Evaluation.Steady

/-!
# The moments of a run

A run is nested work: a sequence is evaluated node by node, a node opens the sequence of a tag or of
a candidate, a modifier or a hook may ask for another expansion. Whatever of this is in progress is
an `Activity`, and a `Moment` is an activity at the session that it begins in. One moment leads to
the next where the activity turns to a part of itself, or to what is left of it once that part has
succeeded. All moments of a run are reached so, however the run ends, and every session that a
user's function can come to work on is the session of one of them.

A steady relation that bears all requests and the opening of frames and scopes relates the session
of a moment to those of all that it leads to (`Moment.Reaches.keeps`), and to what the activity
leaves (`Moment.keeps_leaves`).
-/

namespace TextGrammar

/-- What is in progress. -/
inductive Activity (γ : Type) : Type 1 where
  | sequence (nodes : List Node)
  | node (n : Node)
  | assign (a : Assignment)
  | assignAll (actions : List Assignment)
  | resolve (name : Text)
  | applyModifiers (text : Option Text) (calls : List ModifierCall)
  | callHooks (e : Event) (hooks : List Hook)
  | runScript {α : Type} (script : Script α)
  | expand (origin : Origin) (reset : Bool)

/-- An activity at the session that it begins in, with so many levels of evaluation inside it. -/
structure Moment (γ : Type) where
  levels : Nat
  activity : Activity γ
  session : Session γ

variable {γ : Type} [RandomSource γ]

namespace Moment

open Work

/-- The session that the activity leaves, however it ends. -/
def leaves (x : Extensions) : Moment γ → Session γ
  | ⟨levels, .sequence nodes, s⟩ => (sequenceParts x (evaluateAt x levels) nodes).after s
  | ⟨levels, .node n, s⟩ => (nodeParts x (evaluateAt x levels) n).after s
  | ⟨levels, .assign a, s⟩ => (TextGrammar.assign x (evaluateAt x levels) a).after s
  | ⟨levels, .assignAll actions, s⟩ =>
      (TextGrammar.assignAll x (evaluateAt x levels) actions).after s
  | ⟨levels, .resolve name, s⟩ => (TextGrammar.resolve x (evaluateAt x levels) name).after s
  | ⟨levels, .applyModifiers text calls, s⟩ =>
      (TextGrammar.applyModifiers x (evaluateAt x levels) text calls).after s
  | ⟨levels, .callHooks e hooks, s⟩ =>
      (TextGrammar.callHooks (evaluateAt x levels) e hooks).after s
  | ⟨levels, .runScript script, s⟩ =>
      (TextGrammar.runScript (evaluateAt x levels) script).after s
  | ⟨levels, .expand origin reset, s⟩ => (expandWith (evaluateAt x levels) origin reset).after s

/-- The activity of a moment turns to a part of itself, or to what is left of it. -/
inductive Leads (x : Extensions) : Moment γ → Moment γ → Prop
  | first (levels : Nat) (n : Node) (rest : List Node) (s : Session γ) :
      Leads x ⟨levels, .sequence (n :: rest), s⟩ ⟨levels, .node n, s⟩
  | rest {levels : Nat} {n : Node} (rest : List Node) {parts : List (Option Text)}
      {s t : Session γ} : nodeParts x (evaluateAt x levels) n s = .ok parts t →
        Leads x ⟨levels, .sequence (n :: rest), s⟩ ⟨levels, .sequence rest, t⟩
  /-- The actions of a reference are carried out in its frame and its scope. -/
  | actions (levels : Nat) {name : Text} (modifiers : List ModifierCall)
      (actions : List Assignment) {s : Session γ} {context : Context} :
      s.context.enter ⟨.rule, name⟩ = .ok context →
        Leads x ⟨levels, .node (.reference name modifiers actions), s⟩ ⟨levels, .assignAll actions,
          { s with context := context, tags := s.tags.enterScope }⟩
  | resolve {levels : Nat} {name : Text} (modifiers : List ModifierCall)
      {actions : List Assignment} {s t : Session γ} {context : Context} :
      s.context.enter ⟨.rule, name⟩ = .ok context →
        TextGrammar.assignAll x (evaluateAt x levels) actions
          { s with context := context, tags := s.tags.enterScope } = .ok () t →
          Leads x ⟨levels, .node (.reference name modifiers actions), s⟩ ⟨levels, .resolve name, t⟩
  /-- The modifiers of a reference run after its frame and its scope are left. -/
  | modifiers {levels : Nat} {name text : Text} (modifiers : List ModifierCall)
      {actions : List Assignment} {s t : Session γ} :
      inFrame ⟨.rule, name⟩ (inScope do
        TextGrammar.assignAll x (evaluateAt x levels) actions
        TextGrammar.resolve x (evaluateAt x levels) name) s = .ok text t →
        Leads x ⟨levels, .node (.reference name modifiers actions), s⟩
          ⟨levels, .applyModifiers (some text) modifiers, t⟩
  | assignment (levels : Nat) (a : Assignment) (s : Session γ) :
      Leads x ⟨levels, .node (.assign a), s⟩ ⟨levels, .assign a, s⟩
  | value (levels : Nat) {a : Assignment} {s : Session γ} {context : Context} :
      s.context.enter ⟨.tag, a.name⟩ = .ok context →
        Leads x ⟨levels, .assign a, s⟩ ⟨levels, .sequence a.value, { s with context := context }⟩
  | firstAction (levels : Nat) (a : Assignment) (rest : List Assignment) (s : Session γ) :
      Leads x ⟨levels, .assignAll (a :: rest), s⟩ ⟨levels, .assign a, s⟩
  | restActions {levels : Nat} {a : Assignment} (rest : List Assignment) {s t : Session γ} :
      TextGrammar.assign x (evaluateAt x levels) a s = .ok () t →
        Leads x ⟨levels, .assignAll (a :: rest), s⟩ ⟨levels, .assignAll rest, t⟩
  /-- The candidate of a rule is evaluated with a level less. -/
  | candidate (levels : Nat) {name : Text} {rule : Rule γ} {index : Index} {c : Candidate}
      {s t : Session γ} : name ≠ "" → s.tags.lookup name = none →
        s.rules.get? name = some rule → selectCandidate name rule s = .ok (index, c) t →
          Leads x ⟨levels + 1, .resolve name, s⟩ ⟨levels, .sequence c.nodes, t⟩
  /-- The hooks are called once the event is recorded. -/
  | hooks {levels : Nat} {name text : Text} {rule : Rule γ} {index : Index} {c : Candidate}
      {s t u : Session γ} : name ≠ "" → s.tags.lookup name = none →
        s.rules.get? name = some rule → selectCandidate name rule s = .ok (index, c) t →
          evaluateAt x levels c.nodes t = .ok text u →
            Leads x ⟨levels, .resolve name, s⟩
              ⟨levels, .callHooks ⟨name, index, u.context.depth, text⟩ x.hooks,
                u.record ⟨name, index, u.context.depth, text⟩⟩
  | traced (levels : Nat) (e : Event) (tracer : Nat) (rest : List Hook) (s : Session γ) :
      Leads x ⟨levels, .callHooks e (.trace tracer :: rest), s⟩
        ⟨levels, .callHooks e rest, s.trace tracer e⟩
  | hook (levels : Nat) (e : Event) (f : Event → Script Unit) (rest : List Hook)
      (s : Session γ) : Leads x ⟨levels, .callHooks e (.call f :: rest), s⟩
        ⟨levels, .runScript (f e), s⟩
  | restHooks {levels : Nat} {e : Event} {f : Event → Script Unit} (rest : List Hook)
      {s t : Session γ} : TextGrammar.runScript (evaluateAt x levels) (f e) s = .ok () t →
        Leads x ⟨levels, .callHooks e (.call f :: rest), s⟩ ⟨levels, .callHooks e rest, t⟩
  | modifier (levels : Nat) (text : Option Text) {call : ModifierCall} {m : Modifier}
      (rest : List ModifierCall) (s : Session γ) : x.modifiers.get? call.name = some m →
        Leads x ⟨levels, .applyModifiers text (call :: rest), s⟩
          ⟨levels, .runScript (m text call.args), s⟩
  | restModifiers {levels : Nat} {text changed : Option Text} {call : ModifierCall}
      {m : Modifier} (rest : List ModifierCall) {s t : Session γ} :
      x.modifiers.get? call.name = some m →
        TextGrammar.runScript (evaluateAt x levels) (m text call.args) s = .ok changed t →
          Leads x ⟨levels, .applyModifiers text (call :: rest), s⟩
            ⟨levels, .applyModifiers changed rest, t⟩
  | expansion (levels : Nat) (origin : Origin) (reset : Bool) {α : Type}
      (next : Text → Script α) (s : Session γ) :
      Leads x ⟨levels, .runScript (.ask (.expand origin reset) next), s⟩
        ⟨levels, .expand origin reset, s⟩
  | granted {levels : Nat} {request : Script.Request} {α : Type}
      {next : request.Answer → Script α} {answer : request.Answer} {s t : Session γ} :
      grant (evaluateAt x levels) request s = .ok answer t →
        Leads x ⟨levels, .runScript (.ask request next), s⟩ ⟨levels, .runScript (next answer), t⟩
  /-- What an expansion evaluates is evaluated with a level less, after a reset if it asks for
  one. -/
  | evaluation (levels : Nat) {origin : Origin} {reset : Bool} {text : Text}
      {nodes : List Node} {s : Session γ} : origin.read = .ok text →
        parseText text false = .ok nodes → checkNesting s = .ok () s →
          Leads x ⟨levels + 1, .expand origin reset, s⟩
            ⟨levels, .sequence nodes, if reset then s.reset else s⟩

def Reaches (x : Extensions) : Moment γ → Moment γ → Prop := Relation.ReflTransGen (Leads x)

/-! ## What is kept from moment to moment -/

section Keeps

variable {R : Session γ → Session γ → Prop} {x : Extensions}
  (hR : Steady True (fun _ _ => True) R)

include hR

theorem keeps_evaluateAt (levels : Nat) (nodes : List Node) : Keeps R (evaluateAt x levels nodes) :=
  hR.keeps_evaluateAt x.ask_allowed_true levels nodes

theorem keeps_leaves (m : Moment γ) : R m.session (m.leaves x) := by
  obtain ⟨levels, activity, s⟩ := m
  have hinner (nodes : List Node) := keeps_evaluateAt (x := x) hR levels nodes
  have hx := x.ask_allowed_true (γ := γ)
  cases activity with
  | sequence nodes => exact hR.keeps_sequenceParts hinner hx nodes s
  | node n => exact hR.keeps_nodeParts hinner hx n s
  | assign a => exact hR.keeps_assign hinner hx a s
  | assignAll actions => exact hR.keeps_assignAll hinner hx actions s
  | resolve name => exact hR.keeps_resolve hinner hx name s
  | applyModifiers text calls => exact hR.keeps_applyModifiers hinner hx text calls s
  | callHooks e hooks => exact hR.keeps_callHooks hinner e (fun f _ e => (f e).asks_allowed_true) s
  | runScript script => exact hR.keeps_runScript hinner script.asks_allowed_true s
  | expand origin reset => exact hR.keeps_expandWith hinner origin (fun _ => trivial) s

variable (hcontext : ∀ (s : Session γ) (context : Context), R s { s with context := context })
  (hscope : ∀ s : Session γ, R s { s with tags := s.tags.enterScope })

include hcontext hscope

theorem Leads.keeps {m n : Moment γ} (h : Leads x m n) : R m.session n.session := by
  have hinner (levels : Nat) (nodes : List Node) := keeps_evaluateAt (x := x) hR levels nodes
  have hx := x.ask_allowed_true (γ := γ)
  have hopen (s : Session γ) (context : Context) :
      R s { s with context := context, tags := s.tags.enterScope } :=
    hR.trans (hcontext s context) (hscope _)
  cases h with
  | first | assignment | firstAction | hook | modifier | expansion => exact hR.refl _
  | rest _ hnode => exact (hR.keeps_nodeParts (hinner _) hx _).of_ok hnode
  | actions => exact hopen _ _
  | resolve _ _ hactions =>
      apply hR.trans (hopen _ _)
      exact (hR.keeps_assignAll (hinner _) hx _).of_ok hactions
  | modifiers _ hresolve =>
      apply Keeps.of_ok _ hresolve
      apply hR.keeps_inFrame
      apply hR.keeps_inScope
      exact hR.keeps_bind (hR.keeps_assignAll (hinner _) hx _) fun _ =>
        hR.keeps_resolve (hinner _) hx _
  | value => exact hcontext _ _
  | restActions _ hassign => exact (hR.keeps_assign (hinner _) hx _).of_ok hassign
  | candidate _ _ _ hrule hselect =>
      exact after_of_ok hselect ▸ hR.keeps_selectCandidate _ _ hrule
  | hooks _ _ hrule hselect heval =>
      have hselected := after_of_ok hselect ▸ hR.keeps_selectCandidate _ _ hrule
      exact hR.trans (hR.trans hselected ((hinner _ _).of_ok heval)) (hR.record _ _)
  | traced => exact hR.trace _ _ _
  | restHooks _ hrun | restModifiers _ _ hrun =>
      exact (hR.keeps_runScript (hinner _) (Script.asks_allowed_true _)).of_ok hrun
  | granted hgrant => exact (hR.keeps_grant (hinner _) (Script.allowed_true _)).of_ok hgrant
  | @evaluation levels origin reset text nodes s =>
      cases reset with
      | true => exact hR.reset s trivial
      | false => exact hR.refl s

theorem Reaches.keeps {m n : Moment γ} (h : Reaches x m n) : R m.session n.session := by
  induction h with
  | refl => exact hR.refl _
  | tail _ hlast ih => exact hR.trans ih (hlast.keeps hR hcontext hscope)

end Keeps

end Moment

/-! ## The first moment of an expansion -/

/-- An expansion begins with the levels that the maximal depth provides for. -/
theorem expand_eq_expandWith (x : Extensions) (origin : Origin) (reset : Bool) (s : Session γ) :
    expand x origin reset s =
      expandWith (evaluateAt x (nestingLevels s.context.maxDepth)) origin reset s := by
  have hmax : (if reset then s.reset else s).context.maxDepth = s.context.maxDepth := by
    cases reset <;> rfl
  rw [expand, expandWith, expandWith]
  rcases readAndEvaluate_cases (γ := γ) origin s.context.maxDepth with
    ⟨fault, hfault⟩ | ⟨text, nodes, -, -, heval⟩
  · rw [hfault _ _ hmax, hfault _ _ hmax]
  · rw [(heval _ _ hmax).2, (heval _ _ hmax).2, evaluate, hmax]

end TextGrammar
