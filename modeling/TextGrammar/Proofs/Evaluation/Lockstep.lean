import TextGrammar.Evaluation

/-!
# Two evaluations side by side

The same nodes are evaluated twice, from two sessions that are related in some way, and the two
evaluations take the same steps. They end alike (`Work.EndAlike`): with the same answer or the same
fault, and in sessions that are related again. Only where the first is cut off by a certain fault
may the second go its own way. What the relation has to bear of each single step is listed once
(`Parallel`, and `Lockstep` with the scripts of users), and any evaluation follows from it
(`Lockstep.follows_evaluateAt`).

A relation may count the levels that are left beneath, as a frame takes one of them. The first
evaluation may so have just the levels that it needs, while the second has more.
-/

namespace TextGrammar

variable {γ α β : Type}

namespace Work

/-- Two computations have ended alike, or a fault has cut off the first. -/
inductive EndAlike (R : Session γ → Session γ → Prop) (cut : Fault → Prop) :
    EStateM.Result Fault (Session γ) α → EStateM.Result Fault (Session γ) α → Prop
  | ok (a : α) {s t : Session γ} : R s t → EndAlike R cut (.ok a s) (.ok a t)
  | error (fault : Fault) {s t : Session γ} : R s t →
      EndAlike R cut (.error fault s) (.error fault t)
  | cut {fault : Fault} {s : Session γ} {r : EStateM.Result Fault (Session γ) α} : cut fault →
      EndAlike R cut (.error fault s) r

def Follows (R : Session γ → Session γ → Prop) (cut : Fault → Prop) (m m' : Work γ α) : Prop :=
  ∀ s t, R s t → EndAlike R cut (m s) (m' t)

variable {R S : Session γ → Session γ → Prop} {cut : Fault → Prop} {m m' : Work γ α}
  {f f' : α → Work γ β}

theorem EndAlike.inv {r r' : EStateM.Result Fault (Session γ) α} (h : EndAlike R cut r r') :
    (∃ a u v, r = .ok a u ∧ r' = .ok a v ∧ R u v) ∨
      (∃ fault u v, r = .error fault u ∧ r' = .error fault v ∧ R u v) ∨
        ∃ fault u, r = .error fault u ∧ cut fault := by
  cases h with
  | ok a huv => exact .inl ⟨a, _, _, rfl, rfl, huv⟩
  | error fault huv => exact .inr (.inl ⟨fault, _, _, rfl, rfl, huv⟩)
  | cut hcut => exact .inr (.inr ⟨_, _, rfl, hcut⟩)

theorem EndAlike.imp {r r' : EStateM.Result Fault (Session γ) α} (h : EndAlike R cut r r')
    (hRS : ∀ s t, R s t → S s t) : EndAlike S cut r r' := by
  cases h with
  | ok a huv => exact .ok a (hRS _ _ huv)
  | error fault huv => exact .error fault (hRS _ _ huv)
  | cut hcut => exact .cut hcut

theorem EndAlike.bind {s t : Session γ} (h : EndAlike R cut (m s) (m' t))
    (hf : ∀ a u v, m s = .ok a u → R u v → EndAlike R cut (f a u) (f' a v)) :
    EndAlike R cut ((m >>= f) s) ((m' >>= f') t) := by
  rcases h.inv with ⟨a, u, v, hm, hm', huv⟩ | ⟨fault, u, v, hm, hm', huv⟩ | ⟨fault, u, hm, hcut⟩
  · rw [bind_of_ok hm, bind_of_ok hm']
    exact hf a u v hm huv
  · rw [bind_of_error hm, bind_of_error hm']
    exact .error fault huv
  · rw [bind_of_error hm]
    exact .cut hcut

theorem Follows.bind (hm : Follows R cut m m') (hf : ∀ a, Follows R cut (f a) (f' a)) :
    Follows R cut (m >>= f) (m' >>= f') :=
  fun s t hst => (hm s t hst).bind fun a u v _ huv => hf a u v huv

theorem follows_pure (a : α) : Follows R cut (pure a) (pure a) := fun _ _ hst => .ok a hst

theorem follows_stop (fault : Fault) : Follows R cut (stop fault : Work γ α) (stop fault) :=
  fun _ _ hst => .error fault hst

theorem follows_ofExcept (r : Except Fault α) :
    Follows R cut (Work.ofExcept r) (Work.ofExcept r) := by
  cases r with
  | ok a => exact follows_pure a
  | error fault => exact follows_stop fault

theorem follows_change {g g' : Session γ → Session γ} (h : ∀ s t, R s t → R (g s) (g' t)) :
    Follows R cut (change g) (change g') :=
  fun s t hst => .ok () (h s t hst)

theorem Follows.attempt (h : Follows R cut m m') (hcut : ∀ fault, ¬cut fault) :
    Follows R cut (attempt m) (attempt m') := by
  intro s t hst
  unfold Work.attempt
  rcases (h s t hst).inv with ⟨a, u, v, hm, hm', huv⟩ | ⟨fault, u, v, hm, hm', huv⟩ |
    ⟨fault, u, -, hend⟩
  · rw [hm, hm']
    exact .ok _ huv
  · rw [hm, hm']
    exact .ok _ huv
  · exact absurd hend (hcut fault)

theorem Follows.inScope (h : Follows R cut m m')
    (henter : ∀ s t, R s t →
      R { s with tags := s.tags.enterScope } { t with tags := t.tags.enterScope })
    (hexit : ∀ s t, R s t →
      R { s with tags := s.tags.exitScope } { t with tags := t.tags.exitScope }) :
    Follows R cut (inScope m) (inScope m') := by
  intro s t hst
  unfold Work.inScope
  rcases (h _ _ (henter s t hst)).inv with ⟨a, u, v, hm, hm', huv⟩ |
    ⟨fault, u, v, hm, hm', huv⟩ | ⟨fault, u, hm, hcut⟩
  · rw [hm, hm']
    exact .ok a (hexit u v huv)
  · rw [hm, hm']
    exact .error fault (hexit u v huv)
  · rw [hm]
    exact .cut hcut

/-- Inside the frame the sessions may be related in another way than around it. -/
theorem Follows.inFrame (h : Follows S cut m m') {frame : Frame}
    (henter : ∀ s t c, R s t → s.context.enter frame = .ok c →
      ∃ d, t.context.enter frame = .ok d ∧ S { s with context := c } { t with context := d })
    (hfull : ∀ s t o, R s t → s.context.enter frame = .error o →
      cut (.overflow o) ∨ t.context.enter frame = .error o)
    (hleave : ∀ s t, S s t →
      R { s with context := s.context.leave } { t with context := t.context.leave }) :
    Follows R cut (inFrame frame m) (inFrame frame m') := by
  intro s t hst
  unfold Work.inFrame
  cases hs : s.context.enter frame with
  | error o =>
      rcases hfull s t o hst hs with hcut | ht
      · exact .cut hcut
      · rw [ht]
        exact .error _ hst
  | ok c =>
      obtain ⟨d, ht, hin⟩ := henter s t c hst hs
      simp only [ht]
      rcases (h _ _ hin).inv with ⟨a, u, v, hm, hm', huv⟩ |
        ⟨fault, u, v, hm, hm', huv⟩ | ⟨fault, u, hm, hcut⟩
      · rw [hm, hm']
        exact .ok a (hleave u v huv)
      · rw [hm, hm']
        exact .error fault (hleave u v huv)
      · rw [hm]
        exact .cut hcut

end Work

open Work

variable [RandomSource γ]

theorem mem_candidates_of_selectCandidate {name : Text} {rule : Rule γ} {s t : Session γ}
    {choice : Index × Candidate} (h : selectCandidate name rule s = .ok choice t) :
    choice.2 ∈ rule.candidates := by
  obtain ⟨rule', random, hselect, -⟩ := exists_of_selectCandidate_eq_ok h
  exact (Rule.select_eq_ok hselect).2 choice rfl

theorem endAlike_selectCandidate {R : Session γ → Session γ → Prop} {s t : Session γ}
    (hrandom : t.random = s.random) (hst : R s t) {name : Text} {rule : Rule γ}
    (hput : ∀ picked rule' random, rule.select s.random = .ok (picked, rule', random) →
      R { s with rules := s.rules.put name rule', random := random }
        { t with rules := t.rules.put name rule', random := random })
    (cut : Fault → Prop) :
    EndAlike R cut (selectCandidate name rule s) (selectCandidate name rule t) := by
  unfold selectCandidate
  rw [hrandom]
  cases hselect : rule.select s.random with
  | error fault => exact .error fault hst
  | ok answer =>
      obtain ⟨picked, rule', random⟩ := answer
      cases picked with
      | none => exact .error _ (hput _ rule' random hselect)
      | some choice => exact .ok choice (hput _ rule' random hselect)

/-- Two sessions stay related while the same fitting nodes are evaluated from both. The relation is
told how many levels are left beneath. -/
structure Parallel (fits : Node → Prop) (R : Nat → Session γ → Session γ → Prop)
    (cut : Fault → Prop) : Prop where
  depth {k : Nat} {s t : Session γ} : R k s t → t.context.depth = s.context.depth
  /-- A frame takes a level. -/
  enter {k : Nat} {frame : Frame} (s t : Session γ) (c : Context) : R k s t →
    s.context.enter frame = .ok c → ∃ d, t.context.enter frame = .ok d ∧
      R (k - 1) { s with context := c } { t with context := d }
  full {k : Nat} {frame : Frame} (s t : Session γ) (o : Overflow) : R k s t →
    s.context.enter frame = .error o → cut (.overflow o) ∨ t.context.enter frame = .error o
  leave {k : Nat} (s t : Session γ) : R (k - 1) s t →
    R k { s with context := s.context.leave } { t with context := t.context.leave }
  enterScope {k : Nat} (s t : Session γ) : R k s t →
    R k { s with tags := s.tags.enterScope } { t with tags := t.tags.enterScope }
  exitScope {k : Nat} (s t : Session γ) : R k s t →
    R k { s with tags := s.tags.exitScope } { t with tags := t.tags.exitScope }
  bind {k : Nat} {a : Assignment} {s t : Session γ} (text : Text) : fits (.assign a) →
    R k s t → R k (s.bind a.name (some text)) (t.bind a.name (some text))
  lookup {k : Nat} {s t : Session γ} (name : Text) : R k s t →
    t.tags.lookup name = s.tags.lookup name
  missing {k : Nat} {s t : Session γ} {name : Text} : R k s t → s.rules.get? name = none →
    t.rules.get? name = none ∧ R k (s.recordUnresolved name) (t.recordUnresolved name)
  /-- Both have the rule, and choose alike. -/
  rule {k : Nat} {s t : Session γ} {name : Text} {rule : Rule γ} : R k s t →
    s.rules.get? name = some rule → ∃ rule', t.rules.get? name = some rule' ∧
      EndAlike (R k) cut (selectCandidate name rule s) (selectCandidate name rule' t)
  candidate {k : Nat} {s t : Session γ} {name : Text} {rule : Rule γ} {c : Candidate} :
    R k s t → s.rules.get? name = some rule → c ∈ rule.candidates →
      ∀ n ∈ Node.walkAll c.nodes, fits n
  record {k : Nat} {s t : Session γ} (e : Event) : R k s t → R k (s.record e) (t.record e)
  trace {k : Nat} (s t : Session γ) (tracer : Nat) (e : Event) : R k s t →
    R k (s.trace tracer e) (t.trace tracer e)
  note {k : Nat} (s t : Session γ) (entry : Text) : R k s t →
    R k { s with journal := s.journal.push entry } { t with journal := t.journal.push entry }

/-- On so many levels and fewer, one evaluation of fitting nodes follows another. -/
def LevelsFollow (fits : Node → Prop) (R : Nat → Session γ → Session γ → Prop)
    (cut : Fault → Prop) (levels : Nat) (inner inner' : List Node → Work γ Text) : Prop :=
  ∀ k ≤ levels, ∀ nodes, (∀ n ∈ Node.walkAll nodes, fits n) →
    Follows (R k) cut (inner nodes) (inner' nodes)

/-- Two sessions stay related, and the scripts of the extensions do not part them either. -/
structure Lockstep (x : Extensions) (fits : Node → Prop)
    (R : Nat → Session γ → Session γ → Prop) (cut : Fault → Prop) : Prop
    extends Parallel fits R cut where
  modifier {name : Text} {m : Modifier} {levels k : Nat}
    {inner inner' : List Node → Work γ Text} : x.modifiers.get? name = some m →
      LevelsFollow fits R cut levels inner inner' → ∀ text args,
        Follows (R k) cut (runScript inner (m text args)) (runScript inner' (m text args))
  hook {f : Event → Script Unit} {levels k : Nat} {inner inner' : List Node → Work γ Text} :
    Hook.call f ∈ x.hooks → LevelsFollow fits R cut levels inner inner' → ∀ e,
      Follows (R k) cut (runScript inner (f e)) (runScript inner' (f e))

namespace Parallel

variable {fits : Node → Prop} {R : Nat → Session γ → Session γ → Prop} {cut : Fault → Prop}
  {inner inner' : List Node → Work γ Text} {k : Nat}

/-- A private request reads or writes the journal. Unless both journals are the same, it must not
read it. -/
theorem follows_grant (h : Parallel fits R cut) {request : Script.Request}
    (hprivate : request.isPrivate = true)
    (hjournal : request.looksBack = false ∨ ∀ k s t, R k s t → t.journal = s.journal) :
    Follows (R k) cut (grant inner request) (grant inner' request) := by
  cases request with
  | expand | addRule | setSelector | bind => cases hprivate
  | note entry => exact follows_change fun s t hst => h.note s t entry hst
  | lookBack =>
      have hsame := hjournal.resolve_left nofun
      intro s t hst
      change EndAlike (R k) cut (.ok s.journal.toList s) (.ok t.journal.toList t)
      rw [hsame k s t hst]
      exact .ok _ hst

/-- A script that asks for nothing reads and writes the journal only. Unless both journals are the
same, it must not read it. -/
theorem follows_runScript (h : Parallel fits R cut) {script : Script α}
    (hscript : script.Detached)
    (hjournal : script.Forgetful ∨ ∀ k s t, R k s t → t.journal = s.journal) :
    Follows (R k) cut (runScript inner script) (runScript inner' script) := by
  induction hscript with
  | @done a => exact follows_pure a
  | @fail fault => exact follows_stop fault
  | @ask request _ hprivate _ ih =>
      have hrequest := hjournal.imp_left fun hforgetful => hforgetful.of_ask.1
      have hnext := fun answer => hjournal.imp_left fun hforgetful => hforgetful.of_ask.2 answer
      exact (h.follows_grant hprivate hrequest).bind fun answer => ih answer (hnext answer)

theorem lockstep_of_detached (h : Parallel fits R cut) {x : Extensions} (hx : x.Detached)
    (hjournal : x.Forgetful ∨ ∀ k s t, R k s t → t.journal = s.journal) :
    Lockstep x fits R cut where
  toParallel := h
  modifier hm _ text args := h.follows_runScript (hx.modifiers _ _ hm text args)
    (hjournal.imp_left fun hforgetful => hforgetful.modifiers _ _ hm text args)
  hook hf _ e := h.follows_runScript (hx.hooks _ hf e)
    (hjournal.imp_left fun hforgetful => hforgetful.hooks _ hf e)

end Parallel

namespace Lockstep

variable {x : Extensions} {fits : Node → Prop} {R : Nat → Session γ → Session γ → Prop}
  {cut : Fault → Prop} {inner inner' : List Node → Work γ Text} {levels k : Nat}

section Level

variable (h : Lockstep x fits R cut) (hinner : LevelsFollow fits R cut levels inner inner')

include h hinner

theorem follows_applyModifiers (text : Option Text) (calls : List ModifierCall) :
    Follows (R k) cut (applyModifiers x inner text calls)
      (applyModifiers x inner' text calls) := by
  induction calls generalizing text with
  | nil => exact follows_pure text
  | cons call rest ih =>
      unfold applyModifiers
      split
      · exact follows_stop _
      · next m hm => exact (h.modifier hm hinner text call.args).bind fun text => ih text

theorem follows_callHooks (e : Event) {hooks : List Hook} (hhooks : hooks ⊆ x.hooks) :
    Follows (R k) cut (callHooks inner e hooks) (callHooks inner' e hooks) := by
  induction hooks with
  | nil => exact follows_pure ()
  | cons hook rest ih =>
      rw [List.cons_subset] at hhooks
      have hrest := ih hhooks.2
      cases hook with
      | trace tracer =>
          exact (follows_change fun s t hst => h.trace s t tracer e hst).bind fun _ => hrest
      | call f => exact (h.hook hhooks.1 hinner e).bind fun _ => hrest

theorem follows_complete (name : Text) (index : Index) (text : Text) :
    Follows (R k) cut (complete x inner name index text) (complete x inner' name index text) := by
  intro s t hst
  unfold complete
  rw [h.depth hst]
  exact h.follows_callHooks hinner _ (List.Subset.refl x.hooks) _ _ (h.record _ hst)

theorem endAlike_expandRule (hk : k ≤ levels) {s t : Session γ} (hst : R k s t) {name : Text}
    {rule : Rule γ} (hrule : s.rules.get? name = some rule) :
    ∃ rule', t.rules.get? name = some rule' ∧
      EndAlike (R k) cut (expandRule x inner name rule s) (expandRule x inner' name rule' t) := by
  obtain ⟨rule', hrule', hselect⟩ := h.rule hst hrule
  refine ⟨rule', hrule', hselect.bind fun choice u v hchoice huv => ?_⟩
  have hfits := h.candidate hst hrule (mem_candidates_of_selectCandidate hchoice)
  have hrest : Follows (R k) cut
      (inner choice.2.nodes >>= fun text => complete x inner name choice.1 text >>= fun _ =>
        pure text)
      (inner' choice.2.nodes >>= fun text => complete x inner' name choice.1 text >>= fun _ =>
        pure text) :=
    (hinner k hk choice.2.nodes hfits).bind fun text =>
      (h.follows_complete hinner name choice.1 text).bind fun _ => follows_pure text
  exact hrest u v huv

theorem follows_resolve (hk : k ≤ levels) (name : Text) :
    Follows (R k) cut (resolve x inner name) (resolve x inner' name) := by
  intro s t hst
  unfold resolve
  by_cases hname : name = ""
  · rw [if_pos hname, if_pos hname]
    exact .ok ("" : Text) hst
  · rw [if_neg hname, if_neg hname, h.lookup name hst]
    cases s.tags.lookup name with
    | some value => exact .ok value hst
    | none =>
        cases hrule : s.rules.get? name with
        | none =>
            obtain ⟨hmissing, hrecord⟩ := h.missing hst hrule
            simp only [hmissing]
            exact .ok _ hrecord
        | some rule =>
            obtain ⟨rule', hrule', hexpand⟩ := h.endAlike_expandRule hinner hk hst hrule
            simp only [hrule']
            exact hexpand

omit h hinner

mutual

theorem follows_nodeParts (h : Lockstep x fits R cut)
    (hinner : LevelsFollow fits R cut levels inner inner') :
    (n : Node) → (∀ m ∈ n.walk, fits m) → (k : Nat) → k ≤ levels + 1 →
    Follows (R k) cut (nodeParts x inner n) (nodeParts x inner' n)
  | .text t, _, _, _ => follows_pure [some t]
  | .reference name modifiers actions, hfits, k, hk => by
      rw [Node.walk, List.forall_mem_cons] at hfits
      -- The name is resolved inside the frame, with a level less.
      have hbody : Follows (R (k - 1)) cut
          (assignAll x inner actions >>= fun _ => resolve x inner name)
          (assignAll x inner' actions >>= fun _ => resolve x inner' name) :=
        (follows_assignAll h hinner actions hfits.2 (k - 1) (by omega)).bind fun _ =>
          follows_resolve h hinner (by omega) name
      unfold nodeParts
      refine ((hbody.inScope h.enterScope h.exitScope).inFrame h.enter h.full h.leave).bind
        fun text => ?_
      exact (h.follows_applyModifiers hinner (some text) modifiers).bind fun text =>
        follows_pure [text]
  | .assign a, hfits, k, hk => by
      rw [Node.walk, List.forall_mem_cons] at hfits
      exact (follows_assign h hinner a hfits.1 hfits.2 k hk).bind fun _ => follows_pure []
  | .weight _, _, _, _ => follows_pure []
  | .stray shown, _, _, _ => follows_stop (.strayNode shown)

theorem follows_assign (h : Lockstep x fits R cut)
    (hinner : LevelsFollow fits R cut levels inner inner') :
    (a : Assignment) → fits (.assign a) → (∀ m ∈ a.walkValue, fits m) →
    (k : Nat) → k ≤ levels + 1 → Follows (R k) cut (assign x inner a) (assign x inner' a)
  | ⟨name, value⟩, hname, hfits, k, hk => by
      have hbody : Follows (R (k - 1)) cut
          (sequenceParts x inner value >>= fun parts => Work.ofExcept (join parts))
          (sequenceParts x inner' value >>= fun parts => Work.ofExcept (join parts)) :=
        (follows_sequenceParts h hinner value hfits (k - 1) (by omega)).bind fun parts =>
          follows_ofExcept (join parts)
      unfold assign
      refine (hbody.inFrame h.enter h.full h.leave).bind fun text => ?_
      exact follows_change fun s t hst => h.bind text hname hst

theorem follows_assignAll (h : Lockstep x fits R cut)
    (hinner : LevelsFollow fits R cut levels inner inner') :
    (actions : List Assignment) →
    (∀ m ∈ Assignment.walkAll actions, fits m) → (k : Nat) → k ≤ levels + 1 →
      Follows (R k) cut (assignAll x inner actions) (assignAll x inner' actions)
  | [], _, _, _ => follows_pure ()
  | a :: rest, hfits, k, hk => by
      rw [Assignment.walkAll_cons, List.forall_mem_cons, List.forall_mem_append] at hfits
      exact (follows_assign h hinner a hfits.1 hfits.2.1 k hk).bind fun _ =>
        follows_assignAll h hinner rest hfits.2.2 k hk

theorem follows_sequenceParts (h : Lockstep x fits R cut)
    (hinner : LevelsFollow fits R cut levels inner inner') :
    (nodes : List Node) → (∀ m ∈ Node.walkAll nodes, fits m) →
    (k : Nat) → k ≤ levels + 1 →
      Follows (R k) cut (sequenceParts x inner nodes) (sequenceParts x inner' nodes)
  | [], _, _, _ => follows_pure []
  | n :: rest, hfits, k, hk => by
      rw [Node.walkAll_cons, List.forall_mem_append] at hfits
      refine (follows_nodeParts h hinner n hfits.1 k hk).bind fun parts => ?_
      exact (follows_sequenceParts h hinner rest hfits.2 k hk).bind fun more =>
        follows_pure (parts ++ more)

end

end Level

/-- An evaluation follows another one on every level. Where the second has more levels, the
relation must not hold with none left. -/
theorem follows_evaluateAt (h : Lockstep x fits R cut) {more : Nat}
    (hmore : more = 0 ∨ ∀ s t, ¬R 0 s t) (levels : Nat) :
    LevelsFollow fits R cut levels (evaluateAt x levels) (evaluateAt x (levels + more)) := by
  induction levels with
  | zero =>
      intro k hk nodes _ s t hst
      obtain rfl : k = 0 := Nat.le_zero.1 hk
      rcases hmore with rfl | hnone
      · exact .error .tooNested hst
      · exact absurd hst (hnone s t)
  | succ levels ih =>
      intro k hk nodes hfits
      rw [Nat.succ_add]
      exact (follows_sequenceParts h ih nodes hfits k hk).bind fun parts =>
        follows_ofExcept (join parts)

end Lockstep

/-! ## Expansions -/

section Expansion

omit [RandomSource γ]

variable {R : Session γ → Session γ → Prop} {cut : Fault → Prop}
  {inner inner' : List Node → Work γ Text} {origin : Origin}

/-- Nothing is read of a session before the nodes are evaluated but its maximal depth. -/
theorem follows_readAndEvaluate (hmax : ∀ s t, R s t → t.context.maxDepth = s.context.maxDepth)
    (hinner : ∀ text nodes, origin.read = .ok text → parseText text false = .ok nodes →
      Follows R cut (inner nodes) (inner' nodes)) :
    Follows R cut (readAndEvaluate inner origin) (readAndEvaluate inner' origin) := by
  intro s t hst
  rcases readAndEvaluate_cases (γ := γ) origin s.context.maxDepth with
    ⟨fault, hfault⟩ | ⟨text, nodes, htext, hnodes, heval⟩
  · rw [hfault inner s rfl, hfault inner' t (hmax s t hst)]
    exact .error fault hst
  · rw [(heval inner s rfl).2, (heval inner' t (hmax s t hst)).2]
    exact hinner text nodes htext hnodes s t hst

/-- An expansion answers, whatever fault it ends with. -/
theorem follows_expandWith (hcut : ∀ fault, ¬cut fault)
    (hreset : ∀ s t, R s t → R s.reset t.reset)
    (hnotice : ∀ s t notice, R s t → R (s.report notice) (t.report notice))
    (hread : Follows R cut (readAndEvaluate inner origin) (readAndEvaluate inner' origin))
    (reset : Bool) :
    Follows R cut (expandWith inner origin reset) (expandWith inner' origin reset) := by
  intro s t hst
  have hstart : R (if reset then s.reset else s) (if reset then t.reset else t) := by
    cases reset with
    | true => exact hreset s t hst
    | false => exact hst
  unfold expandWith
  rcases (hread _ _ hstart).inv with ⟨answer, u, v, hs, ht, huv⟩ | ⟨fault, u, v, hs, ht, huv⟩ |
    ⟨fault, u, -, hend⟩
  · rw [hs, ht]
    exact .ok answer huv
  · rw [hs, ht]
    exact .ok _ (hnotice u v _ huv)
  · exact absurd hend (hcut fault)

end Expansion

end TextGrammar
