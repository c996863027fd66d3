import TextGrammar.Proofs.Evaluation.Detached
import TextGrammar.Proofs.Evaluation.Resolution

/-!
# What an evaluation records

A name is recorded as unresolved only where the evaluation comes to resolve it, and then neither a
tag nor a rule has it. So a property of the record lasts along an evaluation if it bears the names
that are resolved in this way (`unresolved_evaluateAt`). This is also to say that no such
resolution is left out by `Resolves`.
-/

namespace TextGrammar

open Work

variable {γ α β : Type}

theorem after_ofExcept (r : Except Fault α) (s : Session γ) : (Work.ofExcept r).after s = s := by
  cases r <;> rfl

/-- A record goes on after certain names with such as have a property. -/
def Records (P : Text → Prop) (before : List Text) (record : Array Text) : Prop :=
  ∃ appended, record.toList = before ++ appended ∧ ∀ name ∈ appended, P name

theorem Records.refl (P : Text → Prop) (record : Array Text) :
    Records P record.toList record :=
  ⟨[], by simp, by simp⟩

theorem Records.push {P : Text → Prop} {before : List Text} {record : Array Text}
    {name : Text} (h : Records P before record) (hname : P name) :
    Records P before (record.push name) := by
  obtain ⟨appended, happended, hP⟩ := h
  refine ⟨appended ++ [name], ?_, List.forall_mem_append.2 ⟨hP, fun other hother => ?_⟩⟩
  · rw [Array.toList_push, happended, List.append_assoc]
  · rw [List.mem_singleton.1 hother]
    exact hname

theorem Records.and {P Q : Text → Prop} {before : List Text} {record : Array Text}
    (hP : Records P before record) (hQ : Records Q before record) :
    Records (fun name => P name ∧ Q name) before record := by
  obtain ⟨appended, happended, hP⟩ := hP
  obtain ⟨more, hmore, hQ⟩ := hQ
  rw [happended, List.append_cancel_left_eq] at hmore
  subst hmore
  exact ⟨appended, happended, fun name hname => ⟨hP name hname, hQ name hname⟩⟩

/-! ## What leaves the record as it is -/

variable [RandomSource γ] {x : Extensions} {inner : List Node → Work γ Text}

theorem unresolved_applyModifiers (hx : x.Detached) (text : Option Text)
    (calls : List ModifierCall) (s : Session γ) :
    ((applyModifiers x inner text calls).after s).unresolved = s.unresolved := by
  obtain ⟨journal, hafter⟩ := hx.after_applyModifiers inner text calls s
  rw [hafter]

section Level

variable (x inner)

/-- Carrying out assignments comes to resolve a name in a session. -/
def MeetsValue (actions : List Assignment) (s : Session γ) (name : Text) (t : Session γ) : Prop :=
  ∃ done a more u v, actions = done ++ a :: more ∧ assignAll x inner done s = .ok () u ∧
    OpensTag a.name u v ∧ Meets x inner a.value v name t

/-- The resolution of a name bears a property of the record. -/
def Bears (K : Array Text → Prop) (name : Text) (t : Session γ) : Prop :=
  K t.unresolved → K ((resolve x inner name).after t).unresolved

variable {x inner}

theorem sequenceParts_cons_of_ok {n : Node} {before : List Node}
    {parts more : List (Option Text)} {s t u : Session γ}
    (hn : nodeParts x inner n s = .ok parts t)
    (hbefore : sequenceParts x inner before t = .ok more u) :
    sequenceParts x inner (n :: before) s = .ok (parts ++ more) u := by
  rw [sequenceParts, bind_of_ok hn, bind_of_ok hbefore]
  rfl

theorem OpensReference.cons {n : Node} {before : List Node} {name : Text}
    {parts : List (Option Text)} {s t u : Session γ} (hn : nodeParts x inner n s = .ok parts t)
    (h : OpensReference x inner before name t u) :
    OpensReference x inner (n :: before) name s u := by
  obtain ⟨more, v, context, hbefore, henter, rfl⟩ := h
  exact ⟨parts ++ more, v, context, sequenceParts_cons_of_ok hn hbefore, henter, rfl⟩

theorem Meets.cons {n : Node} {rest : List Node} {name : Text} {parts : List (Option Text)}
    {s t u : Session γ} (hn : nodeParts x inner n s = .ok parts t)
    (h : Meets x inner rest t name u) : Meets x inner (n :: rest) s name u := by
  cases h with
  | reference hopens hactions =>
      rw [← List.cons_append]
      exact .reference (hopens.cons hn) hactions
  | action hopens hdone htag hvalue =>
      rw [← List.cons_append]
      exact .action (hopens.cons hn) hdone htag hvalue
  | value hbefore htag hvalue =>
      rw [← List.cons_append]
      exact .value (sequenceParts_cons_of_ok hn hbefore) htag hvalue

theorem Meets.append {nodes more : List Node} {name : Text} {s t : Session γ}
    (h : Meets x inner nodes s name t) : Meets x inner (nodes ++ more) s name t := by
  cases h with
  | reference hopens hactions =>
      rw [List.append_assoc, List.cons_append]
      exact .reference hopens hactions
  | action hopens hdone htag hvalue =>
      rw [List.append_assoc, List.cons_append]
      exact .action hopens hdone htag hvalue
  | value hbefore htag hvalue =>
      rw [List.append_assoc, List.cons_append]
      exact .value hbefore htag hvalue

theorem MeetsValue.cons {a : Assignment} {rest : List Assignment} {name : Text}
    {s t u : Session γ} (ha : assign x inner a s = .ok () t)
    (h : MeetsValue x inner rest t name u) : MeetsValue x inner (a :: rest) s name u := by
  obtain ⟨done, b, more, v, w, rfl, hdone, htag, hvalue⟩ := h
  refine ⟨a :: done, b, more, v, w, rfl, ?_, htag, hvalue⟩
  rw [assignAll, bind_of_ok ha, hdone]

variable {K : Array Text → Prop} (hx : x.Detached)

include hx

omit hx

mutual

theorem unresolved_nodeParts (hx : x.Detached) :
    (n : Node) → (s : Session γ) →
    (∀ name t, Meets x inner [n] s name t → Bears x inner K name t) → K s.unresolved →
      K ((nodeParts x inner n).after s).unresolved
  | .text _, _, _, hs => hs
  | .reference name modifiers actions, s, h, hs => by
      -- Only inside the frame is anything resolved: first in the actions, and then the name itself.
      refine holds_after_bind (J := fun t => K t.unresolved) ?_ fun text t _ ht => ?_
      · cases henter : s.context.enter ⟨.rule, name⟩ with
        | error o =>
            rw [after_inFrame_of_error henter]
            exact hs
        | ok context =>
            rw [after_inFrame henter, after_inScope]
            have hopens : OpensReference x inner [] name s
                { s with context := context, tags := s.tags.enterScope } :=
              ⟨[], s, context, rfl, henter, rfl⟩
            refine holds_after_bind (J := fun t => K t.unresolved) ?_ fun _ u hactions hu => ?_
            · refine unresolved_assignAll hx actions _ ?_ hs
              rintro other t ⟨done, a, more, u, v, rfl, hdone, htag, hvalue⟩
              exact h other t (.action hopens hdone htag hvalue)
            · exact h name u (.reference hopens hactions) hu
      · rw [after_bind_pure, unresolved_applyModifiers hx]
        exact ht
  | .assign a, s, h, hs => by
      rw [nodeParts, after_bind_pure]
      refine unresolved_assign hx a s (fun v name t htag hvalue => ?_) hs
      have hmeets : Meets x inner ([] ++ .assign a :: []) s name t := .value rfl htag hvalue
      exact h name t hmeets
  | .weight _, _, _, hs => hs
  | .stray _, _, _, hs => hs

theorem unresolved_assign (hx : x.Detached) :
    (a : Assignment) → (s : Session γ) →
    (∀ t name u, OpensTag a.name s t → Meets x inner a.value t name u → Bears x inner K name u) →
      K s.unresolved → K ((assign x inner a).after s).unresolved
  | ⟨name, value⟩, s, h, hs => by
      refine holds_after_bind (J := fun t => K t.unresolved) ?_ fun text t _ ht => ht
      cases henter : s.context.enter ⟨.tag, name⟩ with
      | error o =>
          rw [after_inFrame_of_error henter]
          exact hs
      | ok context =>
          rw [after_inFrame henter]
          refine holds_after_bind (J := fun t => K t.unresolved) ?_ fun parts t _ ht => ?_
          · exact unresolved_sequenceParts hx value _
              (fun other t hmeets => h _ other t ⟨context, henter, rfl⟩ hmeets) hs
          · rwa [after_ofExcept]

theorem unresolved_assignAll (hx : x.Detached) :
    (actions : List Assignment) → (s : Session γ) →
    (∀ name t, MeetsValue x inner actions s name t → Bears x inner K name t) → K s.unresolved →
      K ((assignAll x inner actions).after s).unresolved
  | [], _, _, hs => hs
  | a :: rest, s, h, hs => by
      refine holds_after_bind (J := fun t => K t.unresolved) ?_ fun _ t ha ht => ?_
      · exact unresolved_assign hx a s (fun v name t htag hvalue =>
          h name t ⟨[], a, rest, s, v, rfl, rfl, htag, hvalue⟩) hs
      · exact unresolved_assignAll hx rest t (fun name u hmeets => h name u (hmeets.cons ha)) ht

/-- A property of the record lasts along a sequence if every resolution bears it that the
sequence comes to. -/
theorem unresolved_sequenceParts (hx : x.Detached) :
    (nodes : List Node) → (s : Session γ) →
    (∀ name t, Meets x inner nodes s name t → Bears x inner K name t) → K s.unresolved →
      K ((sequenceParts x inner nodes).after s).unresolved
  | [], _, _, hs => hs
  | n :: rest, s, h, hs => by
      refine holds_after_bind (J := fun t => K t.unresolved) ?_ fun parts t hn ht => ?_
      · exact unresolved_nodeParts hx n s (fun name t hmeets => h name t hmeets.append) hs
      · rw [after_bind_pure]
        exact unresolved_sequenceParts hx rest t (fun name u hmeets => h name u (hmeets.cons hn)) ht

end

end Level

end TextGrammar
