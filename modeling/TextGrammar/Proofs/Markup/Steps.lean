import TextGrammar.Markup.Grammar
import TextGrammar.Markup.Reading

/-!
# The steps of reading

`State.step` as a relation: one constructor for each thing that a token can do to a state
(`State.Takes`). The first token behind a hash that begins no action is taken as the first token of
a name is, and the token behind a bare modifier as the token behind arguments is.

What every step keeps holds at the end of any reading that ends well (`readNodes_keeps`).
-/

namespace TextGrammar

namespace Reading

open Grammar

/-- A state takes a token and becomes another. -/
inductive State.Takes (t : Token) : State → State → Prop
  | endAssignment {name : Text} {nodes : List Node} {home : Home} :
      t.kind = .mark .closeBracket →
        Takes t (.inSequence (.value name nodes home)) (home.accept ⟨name, nodes.reverse⟩)
  | reference {s : OpenSequence} : t.kind = .mark .hash →
      Takes t (.inSequence s) (.atReference [] s)
  | assignment {s : OpenSequence} : t.kind = .mark .openBracket →
      Takes t (.inSequence s) (.inTagName "" (.node s))
  | plain {s : OpenSequence} : IsPlain t → Takes t (.inSequence s) (.inSequence (s.addText t.text))
  | colon {name : Text} {home : Home} : t.kind = .mark .colon → strip name ≠ "" →
      Takes t (.inTagName name home) (.inSequence (.value (strip name) [] home))
  | tagName {name : Text} {home : Home} : t.kind = .text →
      Takes t (.inTagName name home) (.inTagName (name ++ t.text) home)
  | action {actions : List Assignment} {s : OpenSequence} : t.kind = .mark .openBracket →
      Takes t (.atReference actions s) (.inTagName "" (.action actions s))
  | begin {actions : List Assignment} {s : OpenSequence} {next : State} :
      Takes t (.inName ⟨actions, "", [], s⟩) next → Takes t (.atReference actions s) next
  | close {r : OpenReference} : t.kind = .mark .hash → r.name ≠ "" ∨ r.actions ≠ [] →
      Takes t (.inName r) r.close
  | dot {r : OpenReference} : t.kind = .mark .dot → Takes t (.inName r) (.atModifier r)
  | name {r : OpenReference} : t.kind = .text →
      Takes t (.inName r) (.inName { r with name := r.name ++ t.text })
  | modifier {r : OpenReference} : t.kind = .text → strip t.text ≠ "" →
      Takes t (.atModifier r) (.afterModifierName (strip t.text) r)
  | openParen {modifier : Text} {r : OpenReference} : t.kind = .mark .openParen →
      Takes t (.afterModifierName modifier r) (.inArguments modifier [] [] r)
  | bare {modifier : Text} {r : OpenReference} {next : State} : t.kind ≠ .mark .openParen →
      Takes t (.afterArguments (r.addModifier ⟨modifier, []⟩)) next →
        Takes t (.afterModifierName modifier r) next
  | closeParen {modifier : Text} {done current : List Text} {r : OpenReference} :
      t.kind = .mark .closeParen → Takes t (.inArguments modifier done current r)
        (.afterArguments (r.addModifier (completeCall modifier done current)))
  | comma {modifier : Text} {done current : List Text} {r : OpenReference} :
      t.kind = .mark .comma → Takes t (.inArguments modifier done current r)
        (.inArguments modifier (done ++ [Text.join current]) [] r)
  | argument {modifier : Text} {done current : List Text} {r : OpenReference} :
      t.kind ≠ .mark .closeParen → t.kind ≠ .mark .comma →
        Takes t (.inArguments modifier done current r)
          (.inArguments modifier done (current ++ [t.text]) r)
  | link {r : OpenReference} : t.kind = .mark .dot → Takes t (.afterArguments r) (.atModifier r)
  | endChain {r : OpenReference} : t.kind ≠ .mark .dot → Takes t (.afterArguments r) r.close

variable {t : Token}

/-- Any token but a dot ends a chain of modifiers. -/
theorem OpenReference.stepChain_of_ne (r : OpenReference) (h : t.kind ≠ .mark .dot) :
    r.stepChain t = r.close := by
  rw [OpenReference.stepChain]
  split
  · next hdot => exact absurd hdot h
  · rfl

namespace State

variable {st next : State}

/-- A token that begins no action is read as the first one of a name. -/
theorem step_atReference_of_ne (actions : List Assignment) (s : OpenSequence)
    (h : t.kind ≠ .mark .openBracket) :
    (State.atReference actions s).step t = OpenReference.stepName ⟨actions, "", [], s⟩ t := by
  rw [step]
  split
  · next hopen => exact absurd hopen h
  · rfl

/-- A token that begins no arguments is read as one behind a modifier without any. -/
theorem step_afterModifierName_of_ne (modifier : Text) (r : OpenReference)
    (h : t.kind ≠ .mark .openParen) :
    (State.afterModifierName modifier r).step t =
      .ok ((r.addModifier ⟨modifier, []⟩).stepChain t) := by
  rw [step]
  split
  · next hopen => exact absurd hopen h
  · rfl

theorem takes_of_stepName {r : OpenReference} (h : r.stepName t = .ok next) :
    Takes t (.inName r) next := by
  unfold OpenReference.stepName at h
  split at h
  · next hkind =>
      split at h
      · cases h
      · next hne =>
          cases h
          refine .close hkind ?_
          rwa [Decidable.not_and_iff_or_not, List.isEmpty_iff] at hne
  · next hkind =>
      cases h
      exact .dot hkind
  · next hkind =>
      cases h
      exact .name hkind
  · cases h

theorem takes_stepChain (r : OpenReference) (t : Token) :
    Takes t (.afterArguments r) (r.stepChain t) := by
  unfold OpenReference.stepChain
  split
  · next hkind => exact .link hkind
  · next hkind => exact .endChain hkind

theorem takes_of_step (h : st.step t = .ok next) : Takes t st next := by
  cases st with
  | inSequence s =>
      simp only [step] at h
      split at h
      · next hkind =>
          cases s with
          | top nodes => cases h
          | value name nodes home =>
              cases h
              exact .endAssignment hkind
      · next hkind =>
          cases h
          exact .reference hkind
      · next hkind =>
          cases h
          exact .assignment hkind
      · next hclose hhash hopen =>
          cases h
          exact .plain ⟨hhash, hopen, hclose⟩
  | inTagName name home =>
      simp only [step] at h
      split at h
      · next hkind =>
          split at h
          · cases h
          · next hne =>
              cases h
              exact .colon hkind hne
      · cases h
      · next hkind =>
          cases h
          exact .tagName hkind
      · cases h
  | atReference actions s =>
      simp only [step] at h
      split at h
      · next hkind =>
          cases h
          exact .action hkind
      · exact .begin (takes_of_stepName h)
  | inName r => exact takes_of_stepName h
  | atModifier r =>
      simp only [step] at h
      split at h
      · next hkind =>
          split at h
          · cases h
          · next hne =>
              cases h
              exact .modifier hkind hne
      · cases h
  | afterModifierName modifier r =>
      simp only [step] at h
      split at h
      · next hkind =>
          cases h
          exact .openParen hkind
      · next hkind =>
          cases h
          exact .bare hkind (takes_stepChain _ t)
  | inArguments modifier done current r =>
      simp only [step] at h
      split at h
      · next hkind =>
          cases h
          exact .closeParen hkind
      · next hkind =>
          cases h
          exact .comma hkind
      · next hclose hcomma =>
          cases h
          exact .argument hclose hcomma
  | afterArguments r =>
      cases h
      exact takes_stepChain r t

theorem run_keeps {G : Token → Prop} {P : State → Prop}
    (hP : ∀ t st next, G t → P st → Takes t st next → P next) {ts : List Token}
    (hts : ∀ t ∈ ts, G t) (h : P st) (hrun : st.run ts = .ok next) : P next := by
  induction ts generalizing st with
  | nil =>
      cases hrun
      exact h
  | cons t rest ih =>
      rw [List.forall_mem_cons] at hts
      rw [run_cons] at hrun
      cases hstep : st.step t with
      | error fault =>
          rw [hstep] at hrun
          cases hrun
      | ok mid =>
          rw [hstep] at hrun
          exact ih hts.2 (hP t st mid hts.1 h (takes_of_step hstep)) hrun

theorem Takes.ne_initial (h : Takes t st next) : next ≠ initial := by
  have hadd (s : OpenSequence) (n : Node) : State.inSequence (s.addNode n) ≠ initial := by
    cases s <;> simp [OpenSequence.addNode, initial]
  induction h with
  | @endAssignment name nodes home =>
      cases home with
      | node s => exact hadd s _
      | action actions s => exact nofun
  | @plain s =>
      cases s with
      | top nodes =>
          simp only [OpenSequence.addText, Reading.addText, initial]
          split <;> simp
      | value name nodes home => simp [OpenSequence.addText, initial]
  | close => exact hadd _ _
  | endChain => exact hadd _ _
  | begin _ ih => exact ih
  | bare _ _ ih => exact ih
  | _ => exact nofun

end State

end Reading

open Reading

/-- A reading that ends well ends where every step has led, from the beginning, along its tokens. -/
theorem exists_run_of_readNodes {ts : List Token} {nodes : List Node}
    (h : readNodes ts = .ok nodes) :
    State.initial.run ts = .ok (.inSequence (.top nodes.reverse)) := by
  unfold readNodes at h
  cases hrun : State.initial.run ts with
  | error fault =>
      rw [hrun] at h
      cases h
  | ok st =>
      rw [hrun] at h
      rw [State.eq_top_of_finish h]

theorem readNodes_keeps {G : Token → Prop} {P : State → Prop} (hinitial : P State.initial)
    (hP : ∀ t st next, G t → P st → State.Takes t st next → P next) {ts : List Token}
    (hts : ∀ t ∈ ts, G t) {nodes : List Node} (h : readNodes ts = .ok nodes) :
    P (.inSequence (.top nodes.reverse)) :=
  State.run_keeps hP hts hinitial (exists_run_of_readNodes h)

theorem ne_nil_of_readNodes {ts : List Token} (hts : ts ≠ []) {nodes : List Node}
    (h : readNodes ts = .ok nodes) : nodes ≠ [] := by
  obtain ⟨t, rest, rfl⟩ := List.exists_cons_of_ne_nil hts
  have hrun := exists_run_of_readNodes h
  rw [State.run_cons] at hrun
  cases hstep : State.initial.step t with
  | error fault =>
      rw [hstep] at hrun
      cases hrun
  | ok st =>
      rw [hstep] at hrun
      have hend := State.run_keeps (P := (· ≠ State.initial)) (G := fun _ => True)
        (fun _ _ _ _ _ htakes => htakes.ne_initial) (fun _ _ => trivial)
        (State.takes_of_step hstep).ne_initial hrun
      rintro rfl
      exact hend rfl

end TextGrammar
