import TextGrammar.Proofs.Evaluation.Steady

/-!
# What an evaluation ensures

An evaluation works on nodes that fit a condition, from sessions with a property. A contract
(`Contract`) lists what then has to be known of each single step: that the property lasts, which
names can be resolved at all, and which faults may stop the work. From it follows what any
evaluation ensures (`Contract.ensures_evaluateAt`). However it ends, the property holds and the
context is the one it began with; a fault is one of those that may occur; and an answer means that
every name referred to, wherever the reference stands, could be resolved. So a name that cannot be
resolved shows that there is no answer.

The levels of an evaluation are counted against its context: each reference opens a frame before
it may use up a level. Where they reach beyond the frames that are left, the frames run out
first, and no fault of the levels has to be allowed for.

Scripts are those that ask nothing of the engine. A relation that bears every request is followed
along an evaluation as a steady one.
-/

namespace TextGrammar

variable {γ α β : Type}

namespace Work

/-- A computation has ended with a session that has a property and with a certain context, and its
answer or its fault is as it should be. -/
def Lands (J : Session γ → Prop) (c : Context) (Q : α → Prop) (E : Fault → Prop) :
    EStateM.Result Fault (Session γ) α → Prop
  | .ok a t => J t ∧ t.context = c ∧ Q a
  | .error fault t => J t ∧ t.context = c ∧ E fault

/-- A computation, begun in a session with a property and with fewer frames left than levels, lands
with the same property and context. -/
def Ensures (J : Session γ → Prop) (levels : Nat) (Q : α → Prop) (E : Fault → Prop)
    (m : Work γ α) : Prop :=
  ∀ s, J s → s.context.maxDepth < s.context.depth + levels → Lands J s.context Q E (m s)

variable {J : Session γ → Prop} {levels : Nat} {Q R : α → Prop} {E : Fault → Prop}
  {c : Context} {m : Work γ α}

theorem Lands.imp {r : EStateM.Result Fault (Session γ) α} (h : Lands J c Q E r)
    (hQ : ∀ a, Q a → R a) : Lands J c R E r := by
  cases r with
  | ok a t => exact ⟨h.1, h.2.1, hQ a h.2.2⟩
  | error fault t => exact h

theorem Lands.after {s : Session γ} (h : Lands J c Q E (m s)) : J (m.after s) := by
  cases hend : m s with
  | ok a t =>
      rw [hend] at h
      rw [after_of_ok hend]
      exact h.1
  | error fault t =>
      rw [hend] at h
      rw [after_of_error hend]
      exact h.1

theorem Lands.bind {R : β → Prop} {f : α → Work γ β} {s : Session γ}
    (h : Lands J c Q E (m s))
    (hf : ∀ a t, J t → t.context = c → Q a → Lands J c R E (f a t)) :
    Lands J c R E ((m >>= f) s) := by
  cases hend : m s with
  | ok a t =>
      rw [hend] at h
      rw [bind_of_ok hend]
      exact hf a t h.1 h.2.1 h.2.2
  | error fault t =>
      rw [hend] at h
      rw [bind_of_error hend]
      exact h

theorem Lands.inScope {s : Session γ}
    (h : Lands J s.context Q E (m { s with tags := s.tags.enterScope }))
    (hexit : ∀ s, J s → J { s with tags := s.tags.exitScope }) :
    Lands J s.context Q E (inScope m s) := by
  unfold Work.inScope
  cases hend : m { s with tags := s.tags.enterScope } with
  | ok a t =>
      rw [hend] at h
      exact ⟨hexit t h.1, h.2⟩
  | error fault t =>
      rw [hend] at h
      exact ⟨hexit t h.1, h.2⟩

theorem Lands.inFrame {s : Session γ} {frame : Frame} (hs : J s)
    (hJ : ∀ s c, J s → J { s with context := c })
    (hfull : ∀ o, s.context.enter frame = .error o → E (.overflow o))
    (h : ∀ c, s.context.enter frame = .ok c → Lands J c Q E (m { s with context := c })) :
    Lands J s.context Q E (inFrame frame m s) := by
  unfold Work.inFrame
  cases henter : s.context.enter frame with
  | error o => exact ⟨hs, rfl, hfull o henter⟩
  | ok c =>
      have hbody := h c henter
      have hleave : c.leave = s.context := Context.leave_of_enter henter
      simp only
      cases hend : m { s with context := c } with
      | ok a t =>
          rw [hend] at hbody
          exact ⟨hJ t _ hbody.1, by rw [hbody.2.1]; exact hleave, hbody.2.2⟩
      | error fault t =>
          rw [hend] at hbody
          exact ⟨hJ t _ hbody.1, by rw [hbody.2.1]; exact hleave, hbody.2.2⟩

theorem Ensures.imp (h : Ensures J levels Q E m) (hQ : ∀ a, Q a → R a) :
    Ensures J levels R E m :=
  fun s hs hroom => (h s hs hroom).imp hQ

theorem Ensures.of_ok (h : Ensures J levels Q E m) {s t : Session γ} {a : α} (hs : J s)
    (hroom : s.context.maxDepth < s.context.depth + levels) (hm : m s = .ok a t) :
    J t ∧ t.context = s.context ∧ Q a := by
  have hlands := h s hs hroom
  rwa [hm] at hlands

theorem Ensures.of_succ (h : Ensures J (levels + 1) Q E m) : Ensures J levels Q E m :=
  fun s hs hroom => h s hs (Nat.lt_succ_of_lt hroom)

theorem ensures_pure {a : α} (h : Q a) : Ensures J levels Q E (pure a) :=
  fun _ hs _ => ⟨hs, rfl, h⟩

theorem ensures_stop {fault : Fault} (h : E fault) : Ensures J levels Q E (stop fault) :=
  fun _ hs _ => ⟨hs, rfl, h⟩

theorem Ensures.bind {R : β → Prop} {f : α → Work γ β} (hm : Ensures J levels Q E m)
    (hf : ∀ a, Q a → Ensures J levels R E (f a)) : Ensures J levels R E (m >>= f) := by
  intro s hs hroom
  refine (hm s hs hroom).bind fun a t ht hcontext ha => ?_
  rw [← hcontext] at hroom ⊢
  exact hf a ha t ht hroom

/-- The frame that is opened stands for the level that the work inside has less. -/
theorem Ensures.inFrame (h : Ensures J levels Q E m)
    (hJ : ∀ s c, J s → J { s with context := c }) (hE : ∀ o, E (.overflow o)) (frame : Frame) :
    Ensures J (levels + 1) Q E (inFrame frame m) := by
  intro s hs hroom
  refine Lands.inFrame hs hJ (fun o _ => hE o) fun c henter => ?_
  have hdepth : c.depth = s.context.depth + 1 := Context.depth_of_enter henter
  have hmax : c.maxDepth = s.context.maxDepth := (Context.enter_eq_ok_iff.1 henter).1
  have hleft : c.maxDepth < c.depth + levels := by omega
  exact h { s with context := c } (hJ s c hs) hleft

theorem Ensures.inScope (h : Ensures J levels Q E m)
    (henter : ∀ s, J s → J { s with tags := s.tags.enterScope })
    (hexit : ∀ s, J s → J { s with tags := s.tags.exitScope }) :
    Ensures J levels Q E (inScope m) :=
  fun s hs hroom => Lands.inScope (h _ (henter s hs) hroom) hexit

end Work

open Work

/-- A part of a sequence may be missing only where the fault of a missing text may occur. -/
def PartAllowed (E : Fault → Prop) (part : Option Text) : Prop :=
  part = none → ∀ place, E (.missingText place)

theorem partAllowed_some (E : Fault → Prop) (text : Text) : PartAllowed E (some text) := by
  intro h
  cases h

theorem allowed_of_joinFrom {E : Fault → Prop} {parts : List (Option Text)}
    (h : ∀ part ∈ parts, PartAllowed E part) {place : Nat} {fault : Fault}
    (hfault : joinFrom place parts = .error fault) : E fault := by
  induction parts generalizing place with
  | nil => cases hfault
  | cons part rest ih =>
      rw [List.forall_mem_cons] at h
      cases part with
      | none =>
          cases hfault
          exact h.1 rfl place
      | some text =>
          unfold joinFrom at hfault
          cases hrest : joinFrom (place + 1) rest with
          | ok joined => simp [hrest] at hfault
          | error fault' =>
              simp only [hrest, Except.error.injEq] at hfault
              exact ih h.2 (hfault ▸ hrest)

theorem ensures_join {J : Session γ → Prop} {levels : Nat} {E : Fault → Prop}
    {parts : List (Option Text)} (h : ∀ part ∈ parts, PartAllowed E part) :
    Ensures J levels (fun _ => True) E (Work.ofExcept (join parts)) := by
  cases hend : join parts with
  | ok text => exact ensures_pure trivial
  | error fault => exact ensures_stop (allowed_of_joinFrom h hend)

def Settled (resolvable : Text → Prop) (nodes : List Node) : Prop :=
  ∀ name ∈ nodes.filterMap Node.referenceName?, resolvable name

theorem settled_nil (resolvable : Text → Prop) : Settled resolvable [] :=
  fun _ h => absurd h List.not_mem_nil

theorem Settled.append {resolvable : Text → Prop} {ns ms : List Node}
    (hns : Settled resolvable ns) (hms : Settled resolvable ms) :
    Settled resolvable (ns ++ ms) := by
  intro name hname
  rw [List.filterMap_append, List.mem_append] at hname
  exact hname.elim (hns name) (hms name)

theorem settled_of_no_reference {resolvable : Text → Prop} {n : Node}
    (h : n.referenceName? = none) : Settled resolvable [n] := by
  intro name hname
  simp [h] at hname

/-- A property of sessions that no single step of an evaluation of fitting nodes ends. -/
structure Lasting [RandomSource γ] (fits : Node → Prop) (J : Session γ → Prop) : Prop where
  context (s : Session γ) (c : Context) : J s → J { s with context := c }
  enterScope (s : Session γ) : J s → J { s with tags := s.tags.enterScope }
  exitScope (s : Session γ) : J s → J { s with tags := s.tags.exitScope }
  bind {a : Assignment} (s : Session γ) (text : Text) : fits (.assign a) → J s →
    J (s.bind a.name (some text))
  record (s : Session γ) (e : Event) : J s → J (s.record e)
  trace (s : Session γ) (tracer : Nat) (e : Event) : J s → J (s.trace tracer e)
  journal (s : Session γ) (entries : Array Text) : J s → J { s with journal := entries }
  unresolved {name : Text} {modifiers : List ModifierCall} {actions : List Assignment}
    (s : Session γ) : fits (.reference name modifiers actions) → name ≠ "" →
      s.rules.get? name = none → J s → J (s.recordUnresolved name)
  select {s : Session γ} {name : Text} {rule rule' : Rule γ} {random : γ}
    {picked : Option (Index × Candidate)} :
    s.rules.get? name = some rule → rule.select s.random = .ok (picked, rule', random) → J s →
      J { s with rules := s.rules.put name rule', random := random }

theorem Lasting.and [RandomSource γ] {fits : Node → Prop} {J K : Session γ → Prop}
    (hJ : Lasting fits J) (hK : Lasting fits K) : Lasting fits fun s => J s ∧ K s where
  context s c := And.imp (hJ.context s c) (hK.context s c)
  enterScope s := And.imp (hJ.enterScope s) (hK.enterScope s)
  exitScope s := And.imp (hJ.exitScope s) (hK.exitScope s)
  bind s text hfits := And.imp (hJ.bind s text hfits) (hK.bind s text hfits)
  record s e := And.imp (hJ.record s e) (hK.record s e)
  trace s tracer e := And.imp (hJ.trace s tracer e) (hK.trace s tracer e)
  journal s entries := And.imp (hJ.journal s entries) (hK.journal s entries)
  unresolved s hfits hname hrule :=
    And.imp (hJ.unresolved s hfits hname hrule) (hK.unresolved s hfits hname hrule)
  select hrule hselect := And.imp (hJ.select hrule hselect) (hK.select hrule hselect)

theorem lasting_of_rules [RandomSource γ] {fits : Node → Prop} (P : RuleBook γ → Prop)
    (hselect : ∀ {book : RuleBook γ} {name : Text} {rule rule' : Rule γ} {shared random : γ}
      {picked : Option (Index × Candidate)}, book.get? name = some rule →
        rule.select shared = .ok (picked, rule', random) → P book → P (book.put name rule')) :
    Lasting fits fun s => P s.rules where
  context _ _ := id
  enterScope _ := id
  exitScope _ := id
  bind _ _ _ := id
  record _ _ := id
  trace _ _ _ := id
  journal _ _ := id
  unresolved _ _ _ _ := id
  select := hselect

/-- A property of each rule lasts if choosing does not end it. -/
theorem lasting_of_each_rule [RandomSource γ] {fits : Node → Prop} {P : Rule γ → Prop}
    (hselect : ∀ {rule rule' : Rule γ} {shared random : γ} {picked : Option (Index × Candidate)},
      P rule → rule.select shared = .ok (picked, rule', random) → P rule') :
    Lasting fits fun s => ∀ name rule, s.rules.get? name = some rule → P rule := by
  refine lasting_of_rules (fun book => ∀ name rule, book.get? name = some rule → P rule)
    fun hrule hchoice h other found hfound => ?_
  rw [Lexicon.get?_put] at hfound
  split at hfound
  · cases hfound
    exact hselect (h _ _ hrule) hchoice
  · exact h other found hfound

/-- What has to be known of the steps of an evaluation with certain extensions: which nodes it
works on, a property of its sessions, the names that can be resolved, and the faults that may
occur. -/
structure Contract [RandomSource γ] (x : Extensions) (fits : Node → Prop)
    (J : Session γ → Prop) (resolvable : Text → Prop) (E : Fault → Prop) : Prop
    extends Lasting fits J where
  /-- The nodes of candidates are fitting ones again. -/
  candidate {s : Session γ} {name : Text} {rule : Rule γ} {c : Candidate} : J s →
    s.rules.get? name = some rule → c ∈ rule.candidates → ∀ n ∈ Node.walkAll c.nodes, fits n
  tag {s : Session γ} {name value : Text} : J s → s.tags.lookup name = some value →
    resolvable name
  missing {s : Session γ} {name : Text} : J s → s.rules.get? name = none → resolvable name
  /-- A rule can be resolved if a candidate refers only to names that can. -/
  rule {s : Session γ} {name : Text} {rule : Rule γ} {c : Candidate} : J s →
    s.rules.get? name = some rule → c ∈ rule.candidates →
      (∀ other ∈ Node.references c.nodes, resolvable other) → resolvable name
  overflow (o : Overflow) : E (.overflow o)
  stray {shown : Text} : fits (.stray shown) → E (.strayNode shown)
  refused {s : Session γ} {name : Text} {rule : Rule γ} {fault : Fault} : J s →
    s.rules.get? name = some rule → rule.select s.random = .error fault → E fault
  noCandidate {s : Session γ} {name : Text} {rule rule' : Rule γ} {random : γ} : J s →
    s.rules.get? name = some rule → rule.select s.random = .ok (none, rule', random) →
      E (.noCandidate name)
  modifiers {name : Text} {modifiers : List ModifierCall} {actions : List Assignment} :
    fits (.reference name modifiers actions) →
      ∀ (inner : List Node → Work γ Text) (levels : Nat) (text : Text),
        Ensures J levels (PartAllowed E) E (applyModifiers x inner (some text) modifiers)
  hooks (inner : List Node → Work γ Text) (levels : Nat) (e : Event) :
    Ensures J levels (fun _ => True) E (callHooks inner e x.hooks)

/-! ## Scripts that ask for nothing -/

namespace Lasting

variable [RandomSource γ] {fits : Node → Prop} {J : Session γ → Prop} {E : Fault → Prop}
  {inner : List Node → Work γ Text} {levels : Nat}

theorem lands_runScript (hJ : Lasting fits J) {script : Script α} (hscript : script.Detached)
    (hfails : script.FailsOnly E) {s : Session γ} (hs : J s) :
    Lands J s.context (fun _ => True) E (runScript inner script s) := by
  induction hscript generalizing s with
  | done => exact ⟨hs, rfl, trivial⟩
  | fail =>
      cases hfails with
      | fail hfault => exact ⟨hs, rfl, hfault⟩
  | ask hprivate _ ih =>
      obtain ⟨answer, journal, hgrant⟩ := exists_grant_of_isPrivate inner hprivate s
      rw [runScript, bind_of_ok hgrant]
      exact ih answer (hfails.of_ask.2 answer) (hJ.journal s journal hs)

theorem lands_callHooks (hJ : Lasting fits J) {hooks : List Hook}
    (hdetached : ∀ f, Hook.call f ∈ hooks → ∀ e, (f e).Detached)
    (hfails : ∀ f, Hook.call f ∈ hooks → ∀ e, (f e).FailsOnly E) (e : Event) {s : Session γ}
    (hs : J s) : Lands J s.context (fun _ => True) E (callHooks inner e hooks s) := by
  induction hooks generalizing s with
  | nil => exact ⟨hs, rfl, trivial⟩
  | cons hook rest ih =>
      have hrest {t : Session γ} (ht : J t) :
          Lands J t.context (fun _ => True) E (callHooks inner e rest t) :=
        ih (fun f hf => hdetached f (List.mem_cons_of_mem _ hf))
          (fun f hf => hfails f (List.mem_cons_of_mem _ hf)) ht
      cases hook with
      | trace tracer => exact hrest (hJ.trace s tracer e hs)
      | call f =>
          have hmem : Hook.call f ∈ Hook.call f :: rest := List.mem_cons_self ..
          refine (hJ.lands_runScript (hdetached f hmem e) (hfails f hmem e) hs).bind
            fun _ t ht hcontext _ => ?_
          exact hcontext ▸ hrest ht

theorem lands_applyModifiers (hJ : Lasting fits J) {x : Extensions} (hx : x.Detached)
    (hfails : x.FailOnly E) (hunknown : ∀ name, E (.unknownModifier name)) (text : Option Text)
    (calls : List ModifierCall) {s : Session γ} (hs : J s) :
    Lands J s.context (fun _ => True) E (applyModifiers x inner text calls s) := by
  induction calls generalizing text s with
  | nil => exact ⟨hs, rfl, trivial⟩
  | cons call rest ih =>
      unfold applyModifiers
      cases hm : x.modifiers.get? call.name with
      | none => exact ⟨hs, rfl, hunknown call.name⟩
      | some m =>
          have hscript := hx.modifiers call.name m hm text call.args
          have hfaults := hfails.modifiers call.name m hm text call.args
          refine (hJ.lands_runScript hscript hfaults hs).bind fun text t ht hcontext _ => ?_
          exact hcontext ▸ ih text ht

/-- A rule that chooses lands on one of its candidates. -/
theorem lands_selectCandidate (hJ : Lasting fits J) {s : Session γ} {name : Text}
    {rule : Rule γ} (hs : J s) (hrule : s.rules.get? name = some rule)
    (hrefused : ∀ fault, rule.select s.random = .error fault → E fault)
    (hnone : ∀ rule' random, rule.select s.random = .ok (none, rule', random) →
      E (.noCandidate name)) :
    Lands J s.context (fun choice => choice.2 ∈ rule.candidates) E
      (selectCandidate name rule s) := by
  unfold selectCandidate
  cases hselect : rule.select s.random with
  | error fault => exact ⟨hs, rfl, hrefused fault hselect⟩
  | ok answer =>
      obtain ⟨picked, rule', random⟩ := answer
      have hafter := hJ.select hrule hselect hs
      cases picked with
      | none => exact ⟨hafter, rfl, hnone rule' random hselect⟩
      | some choice => exact ⟨hafter, rfl, (Rule.select_eq_ok hselect).2 choice rfl⟩

theorem ensures_callHooks (hJ : Lasting fits J) {hooks : List Hook}
    (hdetached : ∀ f, Hook.call f ∈ hooks → ∀ e, (f e).Detached)
    (hE : (∀ fault, E fault) ∨ ∀ f, Hook.call f ∈ hooks → ∀ e, (f e).Faultless) (e : Event) :
    Ensures J levels (fun _ => True) E (callHooks inner e hooks) := by
  intro s hs _
  refine hJ.lands_callHooks hdetached (fun f hf e => ?_) e hs
  rcases hE with hE | hfaultless
  · exact Script.obeys_of_forall (fun _ => trivial) hE (fun _ => trivial) (f e)
  · exact (hfaultless f hf e).mono (fun _ => id) fun _ => False.elim

theorem ensures_applyModifiers (hJ : Lasting fits J) {x : Extensions} (hx : x.Detached)
    (hE : ∀ fault, E fault) (text : Option Text) (calls : List ModifierCall) :
    Ensures J levels (PartAllowed E) E (applyModifiers x inner text calls) := by
  intro s hs _
  have hfails : x.FailOnly E := x.obey_of_forall (fun _ => trivial) hE
  exact (hJ.lands_applyModifiers hx hfails (fun _ => hE _) text calls hs).imp
    fun _ _ _ place => hE (.missingText place)

theorem contract (hJ : Lasting fits J) {x : Extensions} (hx : x.Detached)
    (hcandidate : ∀ {s : Session γ} {name : Text} {rule : Rule γ} {c : Candidate}, J s →
      s.rules.get? name = some rule → c ∈ rule.candidates → ∀ n ∈ Node.walkAll c.nodes, fits n) :
    Contract x fits J (fun _ => True) (fun _ => True) where
  toLasting := hJ
  candidate := hcandidate
  tag _ _ := trivial
  missing _ _ := trivial
  rule _ _ _ _ := trivial
  overflow _ := trivial
  stray _ := trivial
  refused _ _ _ := trivial
  noCandidate _ _ _ := trivial
  modifiers _ _ _ text := hJ.ensures_applyModifiers hx (fun _ => trivial) (some text) _
  hooks _ _ e := hJ.ensures_callHooks hx.hooks (.inl fun _ => trivial) e

end Lasting

/-! ## Along an evaluation -/

namespace Contract

variable [RandomSource γ] {x : Extensions} {fits : Node → Prop} {J : Session γ → Prop}
  {resolvable : Text → Prop} {E : Fault → Prop} {inner : List Node → Work γ Text}
  {levels : Nat}

theorem lands_selectCandidate (h : Contract x fits J resolvable E) {s : Session γ}
    {name : Text} {rule : Rule γ} (hs : J s) (hrule : s.rules.get? name = some rule) :
    Lands J s.context (fun choice => choice.2 ∈ rule.candidates) E
      (selectCandidate name rule s) :=
  h.toLasting.lands_selectCandidate hs hrule (fun _ hselect => h.refused hs hrule hselect)
    fun _ _ hselect => h.noCandidate hs hrule hselect

theorem ensures_complete (h : Contract x fits J resolvable E) (name : Text) (index : Index)
    (text : Text) :
    Ensures J levels (fun _ => True) E (complete x inner name index text) := by
  intro s hs hroom
  exact h.hooks inner levels _ _ (h.record s _ hs) hroom

section Level

variable (h : Contract x fits J resolvable E)
  (hinner : ∀ nodes, (∀ n ∈ Node.walkAll nodes, fits n) →
    Ensures J levels (fun _ => Settled resolvable (Node.walkAll nodes)) E (inner nodes))

include h hinner

theorem lands_expandRule {s : Session γ} {name : Text} {rule : Rule γ} (hs : J s)
    (hroom : s.context.maxDepth < s.context.depth + levels)
    (hrule : s.rules.get? name = some rule) :
    Lands J s.context (fun _ => resolvable name) E (expandRule x inner name rule s) := by
  refine (h.lands_selectCandidate hs hrule).bind fun choice t ht hcontext hmem => ?_
  obtain ⟨index, c⟩ := choice
  have hcandidate := hinner c.nodes (h.candidate hs hrule hmem)
  have hrest : Ensures J levels (fun _ => resolvable name) E (do
      let text ← inner c.nodes
      complete x inner name index text
      pure text) :=
    hcandidate.bind fun text hsettled =>
      (h.ensures_complete name index text).bind fun _ _ =>
        ensures_pure (h.rule hs hrule hmem hsettled)
  rw [← hcontext] at hroom ⊢
  exact hrest t ht hroom

theorem ensures_resolve {name : Text} {modifiers : List ModifierCall}
    {actions : List Assignment} (hfits : fits (.reference name modifiers actions)) :
    Ensures J levels (fun _ => name ≠ "" → resolvable name) E (resolve x inner name) := by
  intro s hs hroom
  unfold resolve
  by_cases hname : name = ""
  · rw [if_pos hname]
    exact ⟨hs, rfl, fun hne => absurd hname hne⟩
  · rw [if_neg hname]
    cases htag : s.tags.lookup name with
    | some value => exact ⟨hs, rfl, fun _ => h.tag hs htag⟩
    | none =>
        cases hrule : s.rules.get? name with
        | none => exact ⟨h.unresolved s hfits hname hrule hs, rfl, fun _ => h.missing hs hrule⟩
        | some rule =>
            exact (lands_expandRule h hinner hs hroom hrule).imp fun _ hresolvable _ =>
              hresolvable

omit h hinner

mutual

theorem ensures_nodeParts (h : Contract x fits J resolvable E)
    (hinner : ∀ nodes, (∀ n ∈ Node.walkAll nodes, fits n) →
      Ensures J levels (fun _ => Settled resolvable (Node.walkAll nodes)) E (inner nodes)) :
    (n : Node) → (∀ m ∈ n.walk, fits m) →
    Ensures J (levels + 1)
      (fun parts => (∀ part ∈ parts, PartAllowed E part) ∧ Settled resolvable n.walk) E
      (nodeParts x inner n)
  | .text t, _ => ensures_pure
      ⟨by simp [partAllowed_some], settled_of_no_reference (n := .text t) rfl⟩
  | .reference name modifiers actions, hfits => by
      rw [Node.walk, List.forall_mem_cons] at hfits
      have hactions := (ensures_assignAll h hinner actions hfits.2).of_succ
      have hresolve : Ensures J (levels + 1)
          (fun _ => Settled resolvable (Node.reference name modifiers actions).walk) E
          (Work.inFrame ⟨.rule, name⟩ (Work.inScope do
            assignAll x inner actions
            resolve x inner name)) := by
        refine ((hactions.bind fun _ hsettled => ?_).inScope h.enterScope h.exitScope).inFrame
          h.context h.overflow _
        refine (ensures_resolve h hinner hfits.1).imp fun text hname => ?_
        have hself : Settled resolvable [.reference name modifiers actions] := by
          intro other hother
          by_cases hempty : name = ""
          · simp [Node.referenceName?, hempty] at hother
          · simp only [Node.referenceName?, hempty, List.filterMap_cons, if_false,
              List.filterMap_nil, List.mem_singleton] at hother
            exact hother ▸ hname hempty
        exact hself.append hsettled
      -- The frame is closed before the modifiers, so that they have the level back.
      refine hresolve.bind fun text hsettled => ?_
      refine (h.modifiers hfits.1 inner (levels + 1) text).bind fun part hpart => ?_
      exact ensures_pure ⟨by simpa using hpart, hsettled⟩
  | .assign a, hfits => by
      rw [Node.walk, List.forall_mem_cons] at hfits
      refine (ensures_assign h hinner a hfits.1 hfits.2).bind fun _ hsettled =>
        ensures_pure ⟨by simp, ?_⟩
      exact (settled_of_no_reference (n := .assign a) rfl).append hsettled
  | .weight n, _ => ensures_pure
      ⟨by simp, settled_of_no_reference (n := .weight n) rfl⟩
  | .stray shown, hfits => ensures_stop
      (h.stray (hfits (.stray shown) (List.mem_singleton.2 rfl)))

theorem ensures_assign (h : Contract x fits J resolvable E)
    (hinner : ∀ nodes, (∀ n ∈ Node.walkAll nodes, fits n) →
      Ensures J levels (fun _ => Settled resolvable (Node.walkAll nodes)) E (inner nodes)) :
    (a : Assignment) → fits (.assign a) → (∀ m ∈ a.walkValue, fits m) →
    Ensures J (levels + 1) (fun _ => Settled resolvable a.walkValue) E (assign x inner a)
  | ⟨name, value⟩, hname, hfits => by
      have hvalue : Ensures J (levels + 1) (fun _ => Settled resolvable (Node.walkAll value)) E
          (Work.inFrame ⟨.tag, name⟩ (do
            let parts ← sequenceParts x inner value
            Work.ofExcept (join parts))) :=
        ((ensures_sequenceParts h hinner value hfits).of_succ.bind fun parts hparts =>
          (ensures_join hparts.1).imp fun _ _ => hparts.2).inFrame h.context h.overflow _
      unfold assign
      refine hvalue.bind fun text hsettled s hs _ => ?_
      exact ⟨h.bind s text hname hs, rfl, hsettled⟩

theorem ensures_assignAll (h : Contract x fits J resolvable E)
    (hinner : ∀ nodes, (∀ n ∈ Node.walkAll nodes, fits n) →
      Ensures J levels (fun _ => Settled resolvable (Node.walkAll nodes)) E (inner nodes)) :
    (actions : List Assignment) → (∀ m ∈ Assignment.walkAll actions, fits m) →
      Ensures J (levels + 1) (fun _ => Settled resolvable (Assignment.walkAll actions)) E
        (assignAll x inner actions)
  | [], _ => ensures_pure (settled_nil resolvable)
  | a :: rest, hfits => by
      rw [Assignment.walkAll_cons, List.forall_mem_cons, List.forall_mem_append] at hfits
      refine (ensures_assign h hinner a hfits.1 hfits.2.1).bind fun _ hvalue => ?_
      refine (ensures_assignAll h hinner rest hfits.2.2).imp fun _ hrest => ?_
      exact (settled_of_no_reference (n := .assign a) rfl).append (hvalue.append hrest)

theorem ensures_sequenceParts (h : Contract x fits J resolvable E)
    (hinner : ∀ nodes, (∀ n ∈ Node.walkAll nodes, fits n) →
      Ensures J levels (fun _ => Settled resolvable (Node.walkAll nodes)) E (inner nodes)) :
    (nodes : List Node) → (∀ m ∈ Node.walkAll nodes, fits m) →
    Ensures J (levels + 1)
      (fun parts => (∀ part ∈ parts, PartAllowed E part) ∧
        Settled resolvable (Node.walkAll nodes)) E
      (sequenceParts x inner nodes)
  | [], _ => ensures_pure ⟨by simp, settled_nil resolvable⟩
  | n :: rest, hfits => by
      rw [Node.walkAll_cons, List.forall_mem_append] at hfits
      refine (ensures_nodeParts h hinner n hfits.1).bind fun parts hparts => ?_
      refine (ensures_sequenceParts h hinner rest hfits.2).bind fun more hmore => ?_
      exact ensures_pure
        ⟨List.forall_mem_append.2 ⟨hparts.1, hmore.1⟩, hparts.2.append hmore.2⟩

end

end Level

theorem ensures_evaluateAt (h : Contract x fits J resolvable E) (levels : Nat)
    {nodes : List Node} (hfits : ∀ n ∈ Node.walkAll nodes, fits n) :
    Ensures J levels (fun _ => Settled resolvable (Node.walkAll nodes)) E
      (evaluateAt x levels nodes) := by
  induction levels generalizing nodes with
  | zero =>
      -- The context has no room for an evaluation without levels.
      intro s _ hroom
      exact absurd s.context.depth_le (Nat.not_le_of_gt hroom)
  | succ levels ih =>
      refine (ensures_sequenceParts h (fun _ => ih) nodes hfits).bind fun parts hparts => ?_
      exact (ensures_join hparts.1).imp fun _ _ => hparts.2

theorem lands_evaluate (h : Contract x fits J resolvable E) {nodes : List Node}
    (hfits : ∀ n ∈ Node.walkAll nodes, fits n) {s : Session γ} (hs : J s) :
    Lands J s.context (fun _ => ∀ name ∈ Node.references nodes, resolvable name) E
      (evaluate x nodes s) :=
  h.ensures_evaluateAt (nestingLevels s.context.maxDepth) hfits s hs
    (Nat.lt_of_lt_of_le (lt_nestingLevels _) (Nat.le_add_left _ _))

end Contract

end TextGrammar
