import TextGrammar.Evaluation

/-!
# What evaluation keeps

A relation between sessions is steady if it can be followed along every step that evaluation
takes: it is reflexive and transitive, each single change of a session respects it, and so do a
frame and a scope around work that respects it. Evaluation then relates the session it begins in
to the one it leaves, however it ends (`keeps_evaluateAt`). Scripts may ask for an expansion that
drops everything, and give rules other selectors; a relation that does not bear this is kept by
scripts that never do so (`Script.Allowed`).

So what a single step can do is looked at once, for each relation, and never again along the
recursion.

The recursion itself asks for less. It takes a relation that bears the steps of the nodes and of
the choice of a candidate (`Passing`), and has to be told that the relation is kept where the
extensions come in: by modifiers, and where an expansion is recorded and the hooks are called
(`KeptByExtensions`). A steady relation is kept there since each step of a script keeps it. A
relation that holds only once an event has been recorded and all hooks have been called can be
followed along an evaluation too.
-/

namespace TextGrammar

variable {γ α β : Type}

namespace Work

/-- The session that a computation leaves, however it ends. -/
def after (m : Work γ α) (s : Session γ) : Session γ :=
  match m s with
  | .ok _ t => t
  | .error _ t => t

theorem after_of_ok {m : Work γ α} {s t : Session γ} {a : α} (h : m s = .ok a t) :
    m.after s = t := by
  rw [after, h]

theorem after_of_error {m : Work γ α} {s t : Session γ} {fault : Fault}
    (h : m s = .error fault t) : m.after s = t := by
  rw [after, h]

theorem after_bind_of_ok {m : Work γ α} {f : α → Work γ β} {s t : Session γ} {a : α}
    (h : m s = .ok a t) : (m >>= f).after s = (f a).after t := by
  rw [after, bind_of_ok h, after]

theorem after_bind_pure (m : Work γ α) (f : α → β) (s : Session γ) :
    (m >>= fun a => pure (f a)).after s = m.after s := by
  cases h : m s with
  | ok a t =>
      rw [after_bind_of_ok h, after_of_ok h]
      rfl
  | error fault t => rw [after_of_error (bind_of_error h), after_of_error h]

theorem holds_after_bind {J : Session γ → Prop} {m : Work γ α} {f : α → Work γ β} {s : Session γ}
    (hm : J (m.after s)) (hf : ∀ a t, m s = .ok a t → J t → J ((f a).after t)) :
    J ((m >>= f).after s) := by
  cases h : m s with
  | ok a t =>
      rw [after_of_ok h] at hm
      rw [after_bind_of_ok h]
      exact hf a t h hm
  | error fault t =>
      rw [after_of_error h] at hm
      rw [after_of_error (bind_of_error h)]
      exact hm

theorem after_inFrame {s : Session γ} {frame : Frame} {context : Context}
    (h : s.context.enter frame = .ok context) (body : Work γ α) :
    (inFrame frame body).after s =
      { body.after { s with context := context } with
        context := (body.after { s with context := context }).context.leave } := by
  unfold after inFrame
  rw [h]
  simp only
  cases body { s with context := context } <;> rfl

theorem after_inFrame_of_error {s : Session γ} {frame : Frame} {o : Overflow}
    (h : s.context.enter frame = .error o) (body : Work γ α) :
    (inFrame frame body).after s = s := by
  unfold after inFrame
  rw [h]

theorem after_inScope (body : Work γ α) (s : Session γ) :
    (inScope body).after s =
      { body.after { s with tags := s.tags.enterScope } with
        tags := (body.after { s with tags := s.tags.enterScope }).tags.exitScope } := by
  unfold after inScope
  cases body { s with tags := s.tags.enterScope } <;> rfl

/-- A relation between the session that a computation begins in and the one it leaves. -/
def Keeps (R : Session γ → Session γ → Prop) (m : Work γ α) : Prop := ∀ s, R s (m.after s)

section Keeps

variable {R : Session γ → Session γ → Prop} {m : Work γ α}

theorem Keeps.of_ok (h : Keeps R m) {s t : Session γ} {a : α} (hm : m s = .ok a t) : R s t :=
  after_of_ok hm ▸ h s

theorem Keeps.of_error (h : Keeps R m) {s t : Session γ} {fault : Fault}
    (hm : m s = .error fault t) : R s t :=
  after_of_error hm ▸ h s

theorem Keeps.attempt (h : Keeps R m) : Keeps R (attempt m) := by
  intro s
  have hs := h s
  unfold after at hs ⊢
  unfold Work.attempt
  cases hm : m s with
  | ok a t | error fault t =>
      rw [hm] at hs
      exact hs

end Keeps

end Work

/-- A relation between sessions that respects the steps of nodes and of the choice of a
candidate. -/
structure Passing [RandomSource γ] (R : Session γ → Session γ → Prop) : Prop where
  refl (s : Session γ) : R s s
  trans {s t u : Session γ} : R s t → R t u → R s u
  /-- Work inside a frame. -/
  frame {s t : Session γ} {frame : Frame} {context : Context} :
    s.context.enter frame = .ok context → R { s with context := context } t →
      R s { t with context := t.context.leave }
  /-- Work inside a scope. -/
  scope {s t : Session γ} : R { s with tags := s.tags.enterScope } t →
    R s { t with tags := t.tags.exitScope }
  bind (s : Session γ) (name : Text) (value : Option Text) : R s (s.bind name value)
  unresolved (s : Session γ) (name : Text) : R s (s.recordUnresolved name)
  /-- A rule chooses, and keeps what its selector has become. -/
  select {s : Session γ} {name : Text} {rule rule' : Rule γ} {random : γ}
    {picked : Option (Index × Candidate)} :
    s.rules.get? name = some rule → rule.select s.random = .ok (picked, rule', random) →
      R s { s with rules := s.rules.put name rule', random := random }

/-- The requests of scripts that a relation has to bear if it bears certain selectors that rules are
given, and perhaps a reset. -/
def Script.Allowed (resets : Prop) (given : Text → Selector γ → Prop) :
    Script.Request → Prop
  | .expand _ reset => reset = true → resets
  | .setSelector rule selector => given rule (.custom selector)
  | _ => True

theorem Script.allowed_of_selectors {asks : Script.Request → Prop}
    {given : Text → Selector γ → Prop}
    (h : ∀ rule selector, asks (.setSelector rule selector) → given rule (.custom selector)) :
    ∀ request, asks request → Allowed True given request
  | .expand .., _ => fun _ => trivial
  | .setSelector rule selector, hasks => h rule selector hasks
  | .addRule .., _ | .bind .., _ | .note _, _ | .lookBack, _ => trivial

/-- Nothing is forbidden where a reset is borne, and every selector. -/
theorem Script.allowed_true :
    ∀ request, Allowed (γ := γ) True (fun _ _ => True) request
  | .expand .. => fun _ => trivial
  | .addRule .. | .setSelector .. | .bind .. | .note _ | .lookBack => trivial

theorem Script.asks_allowed_true (script : Script α) :
    script.Asks (Allowed (γ := γ) True fun _ _ => True) :=
  obeys_of_forall allowed_true (fun _ => trivial) (fun _ => trivial) script

theorem Extensions.ask_allowed_true (x : Extensions) :
    x.Ask (Script.Allowed (γ := γ) True fun _ _ => True) :=
  obey_of_forall Script.allowed_true (fun _ => trivial) x

theorem Extensions.Resetless.ask_allowed {x : Extensions} (hx : x.Resetless) :
    x.Ask (Script.Allowed (γ := γ) False fun _ _ => True) := by
  refine hx.mono (fun request h => ?_) fun _ h => h
  cases request with
  | expand origin reset => exact fun htrue => Bool.false_ne_true (h.symm.trans htrue)
  | addRule | setSelector | bind | note | lookBack => trivial

/-- A relation between sessions that every step of an evaluation respects, where scripts give rules
certain selectors only, and perhaps ask for no reset. -/
structure Steady [RandomSource γ] (resets : Prop) (given : Text → Selector γ → Prop)
    (R : Session γ → Session γ → Prop) : Prop extends Passing R where
  record (s : Session γ) (e : Event) : R s (s.record e)
  trace (s : Session γ) (tracer : Nat) (e : Event) : R s (s.trace tracer e)
  journal (s : Session γ) (entries : Array Text) : R s { s with journal := entries }
  notices (s : Session γ) (notices : Array Notice) : R s { s with notices := notices }
  /-- A rule is defined, under a name that a rule may have. -/
  define {s : Session γ} {name : Text} {d : Definition} {rule : Rule γ} {random : γ}
    {notices : List Notice} :
    isRuleName name = true → Rule.build name d s.random = (notices, .ok (some (rule, random))) →
      R s { s with rules := s.rules.put name rule, random := random }
  /-- A rule of the session is given another selector. -/
  selector {s : Session γ} {name : Text} {rule : Rule γ} {selector : Selector γ} :
    s.rules.get? name = some rule → given name selector →
      R s { s with rules := s.rules.put name { rule with selector := selector } }
  reset (s : Session γ) : resets → R s s.reset

/-- On a level, a relation is kept where the extensions come in. A rule whose expansion is recorded
has been known before. -/
structure KeptByExtensions [RandomSource γ] (x : Extensions) (inner : List Node → Work γ Text)
    (R : Session γ → Session γ → Prop) : Prop where
  applyModifiers (text : Option Text) (calls : List ModifierCall) :
    Work.Keeps R (applyModifiers x inner text calls)
  complete {r s : Session γ} {name : Text} (index : Index) (text : Text) :
    name ∈ r.rules.names → R r s → R s ((complete x inner name index text).after s)

namespace Passing

open Work

variable [RandomSource γ] {R : Session γ → Session γ → Prop}

/-! ## Single steps -/

theorem keeps_pure (hR : Passing R) (a : α) : Keeps R (pure a : Work γ α) := hR.refl

theorem keeps_stop (hR : Passing R) (fault : Fault) : Keeps R (stop fault : Work γ α) := hR.refl

theorem keeps_ofExcept (hR : Passing R) (r : Except Fault α) :
    Keeps R (Work.ofExcept r : Work γ α) := by
  cases r with
  | ok a => exact hR.refl
  | error fault => exact hR.refl

theorem after_bind (hR : Passing R) {m : Work γ α} {f : α → Work γ β} {r s : Session γ}
    (hm : R r (m.after s)) (hf : ∀ a, Keeps R (f a)) : R r ((m >>= f).after s) :=
  holds_after_bind hm fun a t _ ht => hR.trans ht (hf a t)

theorem keeps_bind (hR : Passing R) {m : Work γ α} {f : α → Work γ β} (hm : Keeps R m)
    (hf : ∀ a, Keeps R (f a)) : Keeps R (m >>= f) :=
  fun s => hR.after_bind (hm s) hf

theorem keeps_inFrame (hR : Passing R) (frame : Frame) {body : Work γ α} (h : Keeps R body) :
    Keeps R (inFrame frame body) := by
  intro s
  cases henter : s.context.enter frame with
  | error o =>
      rw [after_inFrame_of_error henter]
      exact hR.refl s
  | ok context =>
      rw [after_inFrame henter]
      exact hR.frame henter (h _)

theorem keeps_inScope (hR : Passing R) {body : Work γ α} (h : Keeps R body) :
    Keeps R (inScope body) := by
  intro s
  rw [after_inScope]
  exact hR.scope (h _)

theorem keeps_checkNesting (hR : Passing R) : Keeps R (checkNesting : Work γ Unit) := by
  intro s
  unfold after checkNesting
  cases raisedNesting? standingNesting s.context.maxDepth with
  | none => exact hR.refl s
  | some limit => exact hR.refl s

theorem keeps_selectCandidate (hR : Passing R) (name : Text) (rule : Rule γ) {s : Session γ}
    (hrule : s.rules.get? name = some rule) : R s ((selectCandidate name rule).after s) := by
  unfold after selectCandidate
  cases hselect : rule.select s.random with
  | error fault => exact hR.refl s
  | ok answer =>
      obtain ⟨picked, rule', random⟩ := answer
      cases picked with
      | none => exact hR.select hrule hselect
      | some choice => exact hR.select hrule hselect

/-! ## Along an evaluation -/

section Level

variable {x : Extensions} {inner : List Node → Work γ Text}

theorem keeps_readAndEvaluate (hR : Passing R) (hinner : ∀ nodes, Keeps R (inner nodes))
    (origin : Origin) : Keeps R (readAndEvaluate inner origin) := by
  refine hR.keeps_bind (hR.keeps_ofExcept _) fun text => ?_
  refine hR.keeps_bind (hR.keeps_ofExcept _) fun nodes => ?_
  exact hR.keeps_bind hR.keeps_checkNesting fun _ => hinner nodes

variable (hR : Passing R) (hinner : ∀ nodes, Keeps R (inner nodes))
  (hx : KeptByExtensions x inner R)

include hR hinner hx

theorem keeps_expandRule (name : Text) {rule : Rule γ} {s : Session γ}
    (hrule : s.rules.get? name = some rule) :
    R s ((expandRule x inner name rule).after s) := by
  have hselect := hR.keeps_selectCandidate name rule hrule
  rw [after] at hselect
  unfold expandRule
  cases h : selectCandidate name rule s with
  | error fault t =>
      rw [h] at hselect
      rw [after_of_error (bind_of_error h)]
      exact hselect
  | ok choice t =>
      obtain ⟨index, candidate⟩ := choice
      rw [h] at hselect
      rw [after_bind_of_ok h]
      refine hR.trans hselect ?_
      refine holds_after_bind (hinner candidate.nodes t) fun text u _ hu => hR.trans hu ?_
      refine hR.after_bind (hx.complete index text ?_ (hR.trans hselect hu)) fun _ =>
        hR.keeps_pure text
      rw [Lexicon.mem_names_iff, hrule]
      rfl

theorem keeps_resolve (name : Text) : Keeps R (resolve x inner name) := by
  intro s
  unfold after resolve
  by_cases hname : name = ""
  · rw [if_pos hname]
    exact hR.refl s
  · rw [if_neg hname]
    cases s.tags.lookup name with
    | some value => exact hR.refl s
    | none =>
        cases hrule : s.rules.get? name with
        | none => exact hR.unresolved s name
        | some rule => exact keeps_expandRule hR hinner hx name hrule

omit hR hinner hx

mutual

theorem keeps_nodeParts (hR : Passing R) (hinner : ∀ nodes, Keeps R (inner nodes))
    (hx : KeptByExtensions x inner R) : (n : Node) → Keeps R (nodeParts x inner n)
  | .text t => hR.keeps_pure [some t]
  | .reference name modifiers actions => by
      have hresolve : Keeps R (Work.inFrame ⟨.rule, name⟩ (Work.inScope do
          assignAll x inner actions
          resolve x inner name)) :=
        hR.keeps_inFrame _ <| hR.keeps_inScope <|
          hR.keeps_bind (keeps_assignAll hR hinner hx actions)
            fun _ => keeps_resolve hR hinner hx name
      unfold nodeParts
      refine hR.keeps_bind hresolve fun text => ?_
      exact hR.keeps_bind (hx.applyModifiers (some text) modifiers)
        fun text => hR.keeps_pure [text]
  | .assign a => hR.keeps_bind (keeps_assign hR hinner hx a) fun _ => hR.keeps_pure []
  | .weight _ => hR.keeps_pure []
  | .stray shown => hR.keeps_stop (.strayNode shown)

theorem keeps_assign (hR : Passing R) (hinner : ∀ nodes, Keeps R (inner nodes))
    (hx : KeptByExtensions x inner R) : (a : Assignment) → Keeps R (assign x inner a)
  | ⟨name, value⟩ => by
      have hvalue : Keeps R (Work.inFrame ⟨.tag, name⟩ (do
          let parts ← sequenceParts x inner value
          Work.ofExcept (join parts))) :=
        hR.keeps_inFrame _ <| hR.keeps_bind (keeps_sequenceParts hR hinner hx value)
          fun parts => hR.keeps_ofExcept (join parts)
      unfold assign
      exact hR.keeps_bind hvalue fun text s => hR.bind s name (some text)

theorem keeps_assignAll (hR : Passing R) (hinner : ∀ nodes, Keeps R (inner nodes))
    (hx : KeptByExtensions x inner R) :
    (actions : List Assignment) → Keeps R (assignAll x inner actions)
  | [] => hR.keeps_pure ()
  | a :: rest =>
      hR.keeps_bind (keeps_assign hR hinner hx a) fun _ => keeps_assignAll hR hinner hx rest

theorem keeps_sequenceParts (hR : Passing R) (hinner : ∀ nodes, Keeps R (inner nodes))
    (hx : KeptByExtensions x inner R) : (nodes : List Node) → Keeps R (sequenceParts x inner nodes)
  | [] => hR.keeps_pure []
  | n :: rest =>
      hR.keeps_bind (keeps_nodeParts hR hinner hx n) fun parts =>
        hR.keeps_bind (keeps_sequenceParts hR hinner hx rest) fun more =>
          hR.keeps_pure (parts ++ more)

end

theorem keeps_evaluateWith (hR : Passing R) (hinner : ∀ nodes, Keeps R (inner nodes))
    (hx : KeptByExtensions x inner R) (nodes : List Node) :
    Keeps R (evaluateWith x inner nodes) :=
  hR.keeps_bind (keeps_sequenceParts hR hinner hx nodes) fun parts =>
    hR.keeps_ofExcept (join parts)

end Level

theorem keeps_evaluateAt (hR : Passing R) {x : Extensions}
    (hx : ∀ inner : List Node → Work γ Text, (∀ nodes, Keeps R (inner nodes)) →
      KeptByExtensions x inner R) (levels : Nat) (nodes : List Node) :
    Keeps R (evaluateAt x levels nodes) := by
  induction levels generalizing nodes with
  | zero => exact hR.keeps_stop .tooNested
  | succ levels ih => exact keeps_evaluateWith hR ih (hx _ ih) nodes

end Passing

namespace Steady

open Work

variable [RandomSource γ] {resets : Prop} {given : Text → Selector γ → Prop}
  {R : Session γ → Session γ → Prop}

/-! ## Scripts and hooks -/

theorem keeps_defineRule (hR : Steady resets given R) {name : Text}
    (hname : isRuleName name = true) (d : Definition) :
    Keeps R (defineRule name d : Work γ Bool) := by
  intro s
  unfold after defineRule
  rcases hbuild : Rule.build name d s.random with ⟨notices, fault | made⟩
  · exact hR.notices s _
  · rcases made with _ | ⟨rule, random⟩
    · exact hR.notices s _
    · exact hR.trans (hR.define hname hbuild) (hR.notices _ _)

theorem keeps_addRule (hR : Steady resets given R) (name : Value) (d : Definition) :
    Keeps R (addRule name d : Work γ Bool) := by
  intro s
  rcases hname : ruleName name with fault | name
  · rw [after, addRule, hname]
    exact hR.notices s _
  · have hdefine := hR.keeps_defineRule (isRuleName_of_ruleName hname) d
        (if s.rules.contains name then s.report (.duplicateRule name) else s)
    have hnotice : R s (if s.rules.contains name then s.report (.duplicateRule name) else s) := by
      split
      · exact hR.notices s _
      · exact hR.refl s
    rw [after, addRule, hname]
    exact hR.trans hnotice hdefine

theorem keeps_setSelector (hR : Steady resets given R) {name : Text} {selector : Selector γ}
    (hgiven : given name selector) : Keeps R (setSelector name selector : Work γ Unit) := by
  intro s
  unfold after setSelector
  cases hrule : s.rules.get? name with
  | none => exact hR.notices s _
  | some rule => exact hR.selector hrule hgiven

section Level

variable {x : Extensions} {inner : List Node → Work γ Text}

/-- An expansion is an evaluation, from the session as it is or from the one after a reset. -/
theorem keeps_expandWith (hR : Steady resets given R) (hinner : ∀ nodes, Keeps R (inner nodes))
    (origin : Origin) {reset : Bool} (hreset : reset = true → resets) :
    Keeps R (expandWith inner origin reset) := by
  intro s
  have hstart : R s (if reset then s.reset else s) := by
    split
    · next h => exact hR.reset s (hreset h)
    · exact hR.refl s
  have hread := hR.keeps_readAndEvaluate hinner origin
  unfold after expandWith
  cases h : readAndEvaluate inner origin (if reset then s.reset else s) with
  | ok answer t => exact hR.trans hstart (hread.of_ok h)
  | error fault t => exact hR.trans (hR.trans hstart (hread.of_error h)) (hR.notices t _)

variable (hR : Steady resets given R) (hinner : ∀ nodes, Keeps R (inner nodes))

include hR hinner

theorem keeps_grant {request : Script.Request} (h : Script.Allowed resets given request) :
    Keeps R (grant inner request) := by
  cases request with
  | expand origin reset => exact hR.keeps_expandWith hinner origin h
  | addRule name d => exact (hR.keeps_addRule name d).attempt
  | setSelector rule selector => exact hR.keeps_setSelector h
  | bind name value => exact fun s => hR.bind s name value
  | note entry => exact fun s => hR.journal s (s.journal.push entry)
  | lookBack => exact hR.refl

theorem keeps_runScript {script : Script α} (h : script.Asks (Script.Allowed resets given)) :
    Keeps R (runScript inner script) := by
  induction h with
  | @done a => exact hR.keeps_pure a
  | @fail fault => exact hR.keeps_stop fault
  | ask hrequest _ ih => exact hR.keeps_bind (keeps_grant hR hinner hrequest) ih

theorem keeps_callHooks (e : Event) {hooks : List Hook}
    (hhooks : ∀ f, Hook.call f ∈ hooks → ∀ e, (f e).Asks (Script.Allowed resets given)) :
    Keeps R (callHooks inner e hooks) := by
  induction hooks with
  | nil => exact hR.keeps_pure ()
  | cons hook rest ih =>
      have hrest : Keeps R (callHooks inner e rest) :=
        ih fun f hf => hhooks f (List.mem_cons_of_mem _ hf)
      cases hook with
      | trace tracer =>
          exact hR.keeps_bind (fun s => hR.trace s tracer e) fun _ => hrest
      | call f =>
          have hscript := hhooks f (List.mem_cons_self ..) e
          exact hR.keeps_bind (keeps_runScript hR hinner hscript) fun _ => hrest

variable (hx : x.Ask (Script.Allowed resets given))

include hx

theorem keeps_applyModifiers (text : Option Text) (calls : List ModifierCall) :
    Keeps R (applyModifiers x inner text calls) := by
  induction calls generalizing text with
  | nil => exact hR.keeps_pure text
  | cons call rest ih =>
      unfold applyModifiers
      split
      · exact hR.keeps_stop _
      · next m hm =>
          have hscript := hx.modifiers call.name m hm text call.args
          exact hR.keeps_bind (keeps_runScript hR hinner hscript) fun _ => ih _

theorem keeps_complete (name : Text) (index : Index) (text : Text) :
    Keeps R (complete x inner name index text) := fun s =>
  hR.trans (hR.record s _)
    (keeps_callHooks hR hinner ⟨name, index, s.context.depth, text⟩ hx.hooks (s.record _))

theorem keptByExtensions : KeptByExtensions x inner R where
  applyModifiers := keeps_applyModifiers hR hinner hx
  complete index text _ _ := keeps_complete hR hinner hx _ index text _

/-! ## Along an evaluation -/

theorem keeps_resolve (name : Text) : Keeps R (resolve x inner name) :=
  Passing.keeps_resolve hR.toPassing hinner (keptByExtensions hR hinner hx) name

theorem keeps_nodeParts (n : Node) : Keeps R (nodeParts x inner n) :=
  Passing.keeps_nodeParts hR.toPassing hinner (keptByExtensions hR hinner hx) n

theorem keeps_assign (a : Assignment) : Keeps R (assign x inner a) :=
  Passing.keeps_assign hR.toPassing hinner (keptByExtensions hR hinner hx) a

theorem keeps_assignAll (actions : List Assignment) : Keeps R (assignAll x inner actions) :=
  Passing.keeps_assignAll hR.toPassing hinner (keptByExtensions hR hinner hx) actions

theorem keeps_sequenceParts (nodes : List Node) : Keeps R (sequenceParts x inner nodes) :=
  Passing.keeps_sequenceParts hR.toPassing hinner (keptByExtensions hR hinner hx) nodes

end Level

variable {x : Extensions}

theorem keeps_evaluateAt (hR : Steady resets given R) (hx : x.Ask (Script.Allowed resets given))
    (levels : Nat) (nodes : List Node) : Keeps R (evaluateAt x levels nodes) :=
  hR.toPassing.keeps_evaluateAt (fun _ hinner => keptByExtensions hR hinner hx) levels nodes

theorem keeps_evaluate (hR : Steady resets given R) (hx : x.Ask (Script.Allowed resets given))
    (nodes : List Node) : Keeps R (evaluate x nodes) :=
  fun s => hR.keeps_evaluateAt hx (nestingLevels s.context.maxDepth) nodes s

end Steady

end TextGrammar
