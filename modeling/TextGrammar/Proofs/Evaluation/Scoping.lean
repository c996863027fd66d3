import TextGrammar.Proofs.Engine.Balance
import TextGrammar.Proofs.Evaluation.Confined
import TextGrammar.Proofs.Evaluation.Lockstep

/-!
# Scopes in which nothing is bound

The two policies differ in what becomes of a binding that is made inside a reference. Where none is
made there, all bindings are in the outermost scope, and the scopes that references open stay empty
(`Opened`): they hide nothing, and what is lost with them is nothing. So an evaluation takes the
same steps from a session that keeps its tags in one table and from one that keeps them in scopes
(`SameBindings`).

Bindings may be made outside of references. They go to the outermost scope as long as it is the only
one, and so it is between the nodes of a text and in the values of its assignments (`SameOuter`).
-/

namespace TextGrammar

open Work

variable {γ : Type}

/-! ## Scopes over a table -/

/-- Scopes of which only the outermost binds anything. -/
inductive Opened (tags : TagTable) : TagStore → Prop
  | root : Opened tags (.nested tags [])
  | scope {store : TagStore} : Opened tags store → Opened tags store.enterScope

namespace Opened

variable {tags : TagTable} {store : TagStore}

theorem exitScope (h : Opened tags store) : Opened tags store.exitScope := by
  cases h with
  | root => exact .root
  | scope hinner => rwa [TagStore.exitScope_enterScope]

theorem lookup (h : Opened tags store) (name : Text) :
    store.lookup name = (TagStore.flat tags).lookup name := by
  induction h with
  | root => rfl
  | scope _ ih => rw [TagStore.lookup_enterScope, ih]

theorem exists_scopes (h : Opened tags store) : ∃ n, store.scopes? = some n := by
  induction h with
  | root => exact ⟨1, rfl⟩
  | scope _ ih =>
      obtain ⟨n, hn⟩ := ih
      exact ⟨n + 1, by rw [TagStore.scopes?_enterScope, hn, Option.map_some]⟩

theorem eq_of_scopes (h : Opened tags store) (hone : store.scopes? = some 1) :
    store = .nested tags [] := by
  cases h with
  | root => rfl
  | scope hinner =>
      obtain ⟨n, hn⟩ := hinner.exists_scopes
      have hpos := TagStore.one_le_of_scopes? hn
      rw [TagStore.scopes?_enterScope, hn, Option.map_some, Option.some.injEq] at hone
      omega

end Opened

/-! ## Sessions with the same bindings -/

theorem SameCandidates.of_rules {book : RuleBook γ} {s t : Session γ} (h : SameCandidates book s)
    (heq : t.rules = s.rules) : SameCandidates book t :=
  fun name => heq ▸ h name

theorem SameCandidates.put {book : RuleBook γ} {s : Session γ} (h : SameCandidates book s)
    {name : Text} {rule rule' : Rule γ} (hrule : s.rules.get? name = some rule)
    (hsame : rule'.candidates = rule.candidates) (random : γ) :
    SameCandidates book { s with rules := s.rules.put name rule', random := random } := by
  intro other
  rw [Lexicon.get?_put]
  split
  · next heq => rw [heq, ← h, hrule, Option.map_some, Option.map_some, hsame]
  · exact h other

/-- Two sessions are alike, but for notices, and one keeps its tags in a table and the other the
same tags in scopes. The rules are those of a book. -/
inductive SameBindings (book : RuleBook γ) : Session γ → Session γ → Prop
  | intro {s : Session γ} {tags : TagTable} {store : TagStore} (notices : Array Notice) :
      SameCandidates book s → s.tags = .flat tags → Opened tags store →
        SameBindings book s { s with tags := store, notices := notices }

namespace SameBindings

variable {book : RuleBook γ} {s t : Session γ}

theorem context_eq (h : SameBindings book s t) : t.context = s.context := by
  obtain ⟨notices, -, -, -⟩ := h
  rfl

theorem tracers_eq (h : SameBindings book s t) : t.tracers = s.tracers := by
  obtain ⟨notices, -, -, -⟩ := h
  rfl

theorem journal_eq (h : SameBindings book s t) : t.journal = s.journal := by
  obtain ⟨notices, -, -, -⟩ := h
  rfl

theorem map (h : SameBindings book s t) (f : Session γ → Session γ)
    (hrules : (f s).rules = s.rules) (htags : (f s).tags = s.tags)
    (hf : ∀ store notices, f { s with tags := store, notices := notices } =
      { f s with
        tags := store
        notices := (f { s with tags := store, notices := notices }).notices }) :
    SameBindings book (f s) (f t) := by
  obtain ⟨notices, hsame, hflat, hopened⟩ := h
  rw [hf _ notices]
  exact .intro _ (hsame.of_rules hrules) (htags.trans hflat) hopened

theorem enterScope (h : SameBindings book s t) :
    SameBindings book { s with tags := s.tags.enterScope }
      { t with tags := t.tags.enterScope } := by
  obtain ⟨notices, hsame, hflat, hopened⟩ := h
  have hflat' : s.tags.enterScope = .flat _ := congrArg TagStore.enterScope hflat
  exact .intro notices (hsame.of_rules rfl) hflat' hopened.scope

theorem exitScope (h : SameBindings book s t) :
    SameBindings book { s with tags := s.tags.exitScope } { t with tags := t.tags.exitScope } := by
  obtain ⟨notices, hsame, hflat, hopened⟩ := h
  have hflat' : s.tags.exitScope = .flat _ := congrArg TagStore.exitScope hflat
  exact .intro notices (hsame.of_rules rfl) hflat' hopened.exitScope

end SameBindings

variable [RandomSource γ] {book : RuleBook γ}

def Node.BindsNothing (n : Node) : Prop := n.assignedName? = none

theorem parallel_sameBindings
    (hbook : ∀ c, book.HasCandidate c → ∀ n ∈ Node.walkAll c.nodes, n.BindsNothing) :
    Parallel Node.BindsNothing (fun _ => SameBindings book) (fun _ => False) where
  depth h := congrArg Context.depth h.context_eq
  enter s t c h henter :=
    ⟨c, h.context_eq ▸ henter, h.map (fun s => { s with context := c }) rfl rfl fun _ _ => rfl⟩
  full s t o h hfull := .inr (h.context_eq ▸ hfull)
  leave s t h :=
    h.map (fun s => { s with context := s.context.leave }) rfl rfl fun _ _ => rfl
  enterScope s t h := h.enterScope
  exitScope s t h := h.exitScope
  bind _ hfits _ := nomatch hfits
  lookup name h := by
    obtain ⟨notices, -, hflat, hopened⟩ := h
    rw [hflat]
    exact hopened.lookup name
  missing {k s t name} h hmissing := by
    refine ⟨?_, h.map (·.recordUnresolved name) rfl rfl fun _ _ => rfl⟩
    obtain ⟨notices, -, -, -⟩ := h
    exact hmissing
  rule {k s t name rule} h hrule := by
    obtain ⟨notices, hsame, hflat, hopened⟩ := h
    refine ⟨rule, hrule, endAlike_selectCandidate ?_ (.intro notices hsame hflat hopened) ?_ _⟩
    · rfl
    · intro picked rule' random hselect
      exact .intro notices (hsame.put hrule (Rule.select_eq_ok hselect).1 random) hflat hopened
  candidate h hrule hc := by
    obtain ⟨notices, hsame, -, -⟩ := h
    exact hbook _ (hsame.hasCandidate hrule hc)
  record e h := h.map (·.record e) rfl rfl fun _ _ => rfl
  trace s t tracer e h := h.map (·.trace tracer e) rfl rfl fun _ _ => rfl
  note s t entry h :=
    h.map (fun s => { s with journal := s.journal.push entry }) rfl rfl fun _ _ => rfl

theorem lockstep_sameBindings {x : Extensions} (hx : x.Detached)
    (hbook : ∀ c, book.HasCandidate c → ∀ n ∈ Node.walkAll c.nodes, n.BindsNothing) :
    Lockstep x Node.BindsNothing (fun _ => SameBindings book) (fun _ => False) :=
  (parallel_sameBindings hbook).lockstep_of_detached hx (.inr fun _ _ _ => SameBindings.journal_eq)

/-! ## Bindings outside of references -/

/-- Two sessions with the same bindings, of which the second has only the outermost scope. -/
structure SameOuter (book : RuleBook γ) (s t : Session γ) : Prop where
  bindings : SameBindings book s t
  scopes : t.tags.scopes? = some 1

namespace SameOuter

variable {s t : Session γ}

omit [RandomSource γ]

theorem map (h : SameOuter book s t) (f : Session γ → Session γ)
    (hrules : (f s).rules = s.rules) (htags : ∀ s, (f s).tags = s.tags)
    (hf : ∀ store notices, f { s with tags := store, notices := notices } =
      { f s with
        tags := store
        notices := (f { s with tags := store, notices := notices }).notices }) :
    SameOuter book (f s) (f t) :=
  ⟨h.bindings.map f hrules (htags s) hf, (congrArg TagStore.scopes? (htags t)).trans h.scopes⟩

/-- What is bound goes to the same table. -/
theorem bind (h : SameOuter book s t) (name : Text) (value : Option Text) :
    SameOuter book (s.bind name value) (t.bind name value) := by
  obtain ⟨⟨notices, hsame, hflat, hopened⟩, hone⟩ := h
  obtain rfl := hopened.eq_of_scopes hone
  have hbound : (s.bind name value).tags = .flat _ := congrArg (TagStore.bind name value) hflat
  exact ⟨.intro notices (hsame.of_rules rfl) hbound .root, rfl⟩

theorem inFrame {α : Type} {m m' : Work γ α}
    (h : Follows (SameOuter book) (fun _ => False) m m') (frame : Frame) :
    Follows (SameOuter book) (fun _ => False) (Work.inFrame frame m) (Work.inFrame frame m') := by
  refine Follows.inFrame h (fun s t c hst henter => ⟨c, ?_, ?_⟩) ?_ ?_
  · exact hst.bindings.context_eq ▸ henter
  · exact hst.map (fun s => { s with context := c }) rfl (fun _ => rfl) fun _ _ => rfl
  · exact fun s t o hst hfull => .inr (hst.bindings.context_eq ▸ hfull)
  · intro s t hst
    exact hst.map (fun s => { s with context := s.context.leave }) rfl (fun _ => rfl)
      fun _ _ => rfl

theorem reset (h : SameOuter book s t) : SameOuter book s.reset t.reset := by
  obtain ⟨⟨notices, hsame, hflat, hopened⟩, hone⟩ := h
  obtain rfl := hopened.eq_of_scopes hone
  have hempty : s.reset.tags = .flat .empty := congrArg TagStore.removeAll hflat
  exact ⟨.intro notices (hsame.of_rules rfl) hempty .root, rfl⟩

end SameOuter

omit [RandomSource γ] in
theorem Work.Follows.outer {α : Type} {m m' : Work γ α}
    (h : Follows (SameBindings book) (fun _ => False) m m') (hkeeps : Keeps SameDepth m') :
    Follows (SameOuter book) (fun _ => False) m m' := by
  rintro s t ⟨hst, hone⟩
  rcases (h s t hst).inv with ⟨a, u, v, hs, ht, huv⟩ | ⟨fault, u, v, hs, ht, huv⟩ | ⟨_, _, _, hcut⟩
  · rw [hs, ht]
    exact .ok a ⟨huv, (hkeeps.of_ok ht).scopes.trans hone⟩
  · rw [hs, ht]
    exact .error fault ⟨huv, (hkeeps.of_error ht).scopes.trans hone⟩
  · exact hcut.elim

def Node.Actionless : Node → Prop
  | .reference _ _ actions => actions = []
  | _ => True

/-- Whatever is read of an origin carries no actions. -/
def Origin.Actionless (origin : Origin) : Prop :=
  ∀ text nodes, origin.read = .ok text → parseText text false = .ok nodes →
    ∀ n ∈ Node.walkAll nodes, n.Actionless

instance : DecidablePred Node.Actionless
  | .reference _ _ actions => decidable_of_iff (actions.isEmpty = true) List.isEmpty_iff
  | .text _ | .assign _ | .weight _ | .stray _ => .isTrue trivial

instance (origin : Origin) : Decidable origin.Actionless :=
  match htext : origin.read with
  | .error _ => .isTrue fun text nodes h => nomatch htext.symm.trans h
  | .ok text =>
      match hnodes : parseText text false with
      | .error _ => .isTrue fun other nodes hother h => by
          cases htext.symm.trans hother
          cases hnodes.symm.trans h
      | .ok nodes =>
          decidable_of_iff (∀ n ∈ Node.walkAll nodes, n.Actionless) <| by
            constructor
            · intro hall other found hother hfound
              cases htext.symm.trans hother
              cases hnodes.symm.trans hfound
              exact hall
            · exact fun h => h text nodes htext hnodes

section Level

variable {x : Extensions} {inner : List Node → Work γ Text} {levels : Nat}

mutual

theorem outer_nodeParts
    (hbook : ∀ c, book.HasCandidate c → ∀ n ∈ Node.walkAll c.nodes, n.BindsNothing)
    (hx : x.Detached) (hkeeps : ∀ nodes, Keeps (SameDepth (γ := γ)) (inner nodes))
    (hinner : LevelsFollow Node.BindsNothing (fun _ => SameBindings book) (fun _ => False) levels
      inner inner) :
    (n : Node) → (∀ m ∈ n.walk, m.Actionless) →
    Follows (SameOuter book) (fun _ => False) (nodeParts x inner n) (nodeParts x inner n)
  | .text t, _ => follows_pure [some t]
  | .reference name modifiers actions, hn => by
      rw [Node.walk, List.forall_mem_cons] at hn
      obtain rfl : actions = [] := hn.1
      have hfits : ∀ m ∈ (Node.reference name modifiers []).walk, m.BindsNothing := by
        simp [Node.walk, Node.BindsNothing, Node.assignedName?]
      have hfollows := (lockstep_sameBindings hx hbook).follows_nodeParts hinner
        (.reference name modifiers []) hfits 0 (Nat.zero_le _)
      exact hfollows.outer (steady_sameDepth.keeps_nodeParts hkeeps hx.resetless.ask_allowed _)
  | .assign a, hn => by
      rw [Node.walk, List.forall_mem_cons] at hn
      exact (outer_assign hbook hx hkeeps hinner a hn.2).bind fun _ => follows_pure []
  | .weight _, _ => follows_pure []
  | .stray shown, _ => follows_stop (.strayNode shown)

theorem outer_assign
    (hbook : ∀ c, book.HasCandidate c → ∀ n ∈ Node.walkAll c.nodes, n.BindsNothing)
    (hx : x.Detached) (hkeeps : ∀ nodes, Keeps (SameDepth (γ := γ)) (inner nodes))
    (hinner : LevelsFollow Node.BindsNothing (fun _ => SameBindings book) (fun _ => False) levels
      inner inner) :
    (a : Assignment) → (∀ m ∈ a.walkValue, m.Actionless) →
    Follows (SameOuter book) (fun _ => False) (assign x inner a) (assign x inner a)
  | ⟨name, value⟩, hn => by
      have hvalue : Follows (SameOuter book) (fun _ => False)
          (sequenceParts x inner value >>= fun parts => Work.ofExcept (join parts))
          (sequenceParts x inner value >>= fun parts => Work.ofExcept (join parts)) :=
        (outer_sequenceParts hbook hx hkeeps hinner value hn).bind fun parts =>
          follows_ofExcept (join parts)
      unfold assign
      exact (SameOuter.inFrame hvalue ⟨.tag, name⟩).bind fun text =>
        follows_change fun s t hst => hst.bind name (some text)

theorem outer_sequenceParts
    (hbook : ∀ c, book.HasCandidate c → ∀ n ∈ Node.walkAll c.nodes, n.BindsNothing)
    (hx : x.Detached) (hkeeps : ∀ nodes, Keeps (SameDepth (γ := γ)) (inner nodes))
    (hinner : LevelsFollow Node.BindsNothing (fun _ => SameBindings book) (fun _ => False) levels
      inner inner) :
    (nodes : List Node) → (∀ m ∈ Node.walkAll nodes, m.Actionless) →
    Follows (SameOuter book) (fun _ => False) (sequenceParts x inner nodes)
      (sequenceParts x inner nodes)
  | [], _ => follows_pure []
  | n :: rest, hn => by
      rw [Node.walkAll_cons, List.forall_mem_append] at hn
      exact (outer_nodeParts hbook hx hkeeps hinner n hn.1).bind fun parts =>
        (outer_sequenceParts hbook hx hkeeps hinner rest hn.2).bind fun more =>
          follows_pure (parts ++ more)

end

end Level

/-! ## Evaluations and expansions -/

section Expansion

variable {x : Extensions} (hx : x.Detached)
  (hbook : ∀ c, book.HasCandidate c → ∀ n ∈ Node.walkAll c.nodes, n.BindsNothing)

include hx hbook

theorem outer_evaluateAt (levels : Nat) {nodes : List Node}
    (hnodes : ∀ n ∈ Node.walkAll nodes, n.Actionless) :
    Follows (SameOuter book) (fun _ => False) (evaluateAt x levels nodes)
      (evaluateAt x levels nodes) := by
  cases levels with
  | zero => exact follows_stop .tooNested
  | succ levels =>
      have hkeeps (nodes : List Node) : Keeps (SameDepth (γ := γ)) (evaluateAt x levels nodes) :=
        steady_sameDepth.keeps_evaluateAt hx.resetless.ask_allowed levels nodes
      have hinner := (lockstep_sameBindings hx hbook).follows_evaluateAt (.inl rfl) levels
      exact (outer_sequenceParts hbook hx hkeeps hinner nodes hnodes).bind fun parts =>
        follows_ofExcept (join parts)

theorem outer_evaluate {nodes : List Node} (hnodes : ∀ n ∈ Node.walkAll nodes, n.Actionless) :
    Follows (SameOuter book) (fun _ => False) (evaluate x nodes) (evaluate x nodes) := by
  intro s t hst
  unfold evaluate
  rw [hst.bindings.context_eq]
  exact outer_evaluateAt hx hbook _ hnodes s t hst

theorem outer_expand {origin : Origin} (horigin : origin.Actionless) (reset : Bool) :
    Follows (SameOuter book) (fun _ => False) (expand x origin reset) (expand x origin reset) := by
  have hread : Follows (SameOuter book) (fun _ => False) (readAndEvaluate (evaluate x) origin)
      (readAndEvaluate (evaluate x) origin) := by
    apply follows_readAndEvaluate
    · exact fun s t hst => congrArg Context.maxDepth hst.bindings.context_eq
    · exact fun text nodes htext hnodes => outer_evaluate hx hbook (horigin text nodes htext hnodes)
  apply follows_expandWith (fun _ => not_false) (fun s t hst => hst.reset) _ hread reset
  exact fun s t notice hst => hst.map (·.report notice) rfl (fun _ => rfl) fun _ _ => rfl

end Expansion

end TextGrammar
