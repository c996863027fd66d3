import Mathlib.Tactic.Tauto
import TextGrammar.Markup.Reading
import TextGrammar.Proofs.Markup.Completion
import TextGrammar.Proofs.Markup.Steps

/-!
# Which tokens are read

Reading accepts the words of the grammar, where any token that does not go on with the chain may
end a reference with modifiers. To see this, every state of reading is given the language of the
tokens that complete it (`State.Completion`). One token takes a state to the next exactly as it
takes the first language to the second (`completion_cons_iff`), and by induction along the
tokens a state is completed by those that it reads to the end (`completion_iff`).

The grammar leaves open which tokens may end a chain of modifiers. So do the languages here, and
the statements tell for every choice which of the accepted lists remain: those in whose reading
every such token was of the chosen ones (`State.EndsChainsWith`).
-/

namespace TextGrammar

open Grammar

namespace Reading

section Languages

variable (closes : Token → Prop)

mutual

/-- The tokens that may come behind a complete sequence. -/
def OpenSequence.Tail : OpenSequence → List Token → Prop
  | .top _ => fun ts => ts = []
  | .value _ _ home => Closed home.Tail

/-- The tokens that may come behind a complete assignment. -/
def Home.Tail : Home → List Token → Prop
  | .node s => Then (IsSequence closes) s.Tail
  | .action _ s => Then (InReference closes True) (Then (IsSequence closes) s.Tail)

end

/-- The tokens that may come behind a complete node of a sequence. -/
def OpenSequence.Rest (s : OpenSequence) : List Token → Prop :=
  Then (IsSequence closes) (s.Tail closes)

namespace State

/-- The tokens that complete what is open. -/
def Completion : State → List Token → Prop
  | .inSequence s => s.Rest closes
  | .inTagName name home => Then (InTagName closes name) (Closed (home.Tail closes))
  | .atReference actions s => Then (InReference closes (actions ≠ [])) (s.Rest closes)
  | .inName r =>
      Then (InName closes (r.name ≠ "" ∨ r.actions ≠ [])) (r.sequence.Rest closes)
  | .atModifier r => Then (AfterDot closes) (r.sequence.Rest closes)
  | .afterModifierName _ r => Then (Grammar.AfterModifierName closes) (r.sequence.Rest closes)
  | .inArguments _ _ _ r => Then (Grammar.InArguments closes) (r.sequence.Rest closes)
  | .afterArguments r => Then (AfterModifier closes true) (r.sequence.Rest closes)

/-- Whether a token ends a chain of modifiers, and with it the reference. -/
def EndsChain : State → Token → Prop
  | .afterModifierName .., t => t.kind ≠ .mark .dot ∧ t.kind ≠ .mark .openParen
  | .afterArguments _, t => t.kind ≠ .mark .dot
  | _, _ => False

/-- Every chain of modifiers that ends while tokens are read ends with one of certain tokens. -/
def EndsChainsWith : State → List Token → Prop
  | _, [] => True
  | st, t :: rest =>
      (st.EndsChain t → closes t) ∧ ∀ next, st.step t = .ok next → next.EndsChainsWith rest

end State

theorem State.endsChainsWith_true (st : State) (ts : List Token) :
    st.EndsChainsWith (fun _ => True) ts := by
  induction ts generalizing st with
  | nil => trivial
  | cons t ts ih => exact ⟨fun _ => trivial, fun next _ => ih next⟩

@[simp] theorem Home.tail_node (s : OpenSequence) :
    (Home.node s).Tail closes = s.Rest closes := by
  rw [Home.Tail, OpenSequence.Rest]

@[simp] theorem Home.tail_action (actions : List Assignment) (s : OpenSequence) :
    (Home.action actions s).Tail closes = Then (InReference closes True) (s.Rest closes) := by
  rw [Home.Tail, OpenSequence.Rest]

@[simp] theorem OpenSequence.rest_addNode (n : Node) (s : OpenSequence) :
    (s.addNode n).Rest closes = s.Rest closes := by
  cases s <;> simp [OpenSequence.Rest, OpenSequence.addNode, OpenSequence.Tail]

@[simp] theorem OpenSequence.rest_addText (text : Text) (s : OpenSequence) :
    (s.addText text).Rest closes = s.Rest closes := by
  cases s <;> simp [OpenSequence.Rest, OpenSequence.addText, OpenSequence.Tail]

/-- Only a closing bracket comes behind a sequence, and only where one was opened. -/
theorem OpenSequence.tail_cons_of_ne (s : OpenSequence) {t : Token} (ts : List Token)
    (h : t.kind ≠ .mark .closeBracket) : ¬s.Tail closes (t :: ts) := by
  cases s with
  | top nodes => simp [OpenSequence.Tail]
  | value name nodes home => simp [OpenSequence.Tail, Closed, h]

/-- An assignment that its bracket closes leaves what may come behind it. -/
theorem Home.completion_accept (a : Assignment) (home : Home) :
    (home.accept a).Completion closes = home.Tail closes := by
  cases home with
  | node s => simp [Home.accept, State.Completion]
  | action actions s => simp [Home.accept, State.Completion]

/-! ## No token left -/

/-- A state that no token has to complete is one in which reading may end. -/
theorem completion_nil_iff (st : State) :
    st.Completion closes [] ↔ ∃ nodes, st.finish = .ok nodes := by
  cases st with
  | inSequence s =>
      cases s with
      | top nodes =>
          simp [State.Completion, OpenSequence.Rest, then_nil_iff, OpenSequence.Tail,
            State.finish, IsSequence.nil]
      | value name nodes home =>
          simp [State.Completion, OpenSequence.Rest, then_nil_iff, OpenSequence.Tail,
            State.finish, Closed]
  | inTagName name home =>
      simp [State.Completion, then_nil_iff, State.finish, not_inTagName_nil]
  | atReference actions s =>
      simp [State.Completion, then_nil_iff, State.finish, not_inReference_nil]
  | inName r => simp [State.Completion, then_nil_iff, State.finish, not_inName_nil]
  | atModifier r => simp [State.Completion, then_nil_iff, State.finish, not_afterDot_nil]
  | afterModifierName modifier r =>
      simp [State.Completion, then_nil_iff, State.finish, Grammar.AfterModifierName]
  | inArguments modifier done current r =>
      simp [State.Completion, then_nil_iff, State.finish, not_inArguments_nil]
  | afterArguments r =>
      simp [State.Completion, then_nil_iff, State.finish, not_afterModifier_nil]

/-! ## One token -/

theorem rest_cons_iff (s : OpenSequence) (t : Token) (ts : List Token) :
    s.Rest closes (t :: ts) ↔ s.Tail closes (t :: ts) ∨ (IsPlain t ∧ s.Rest closes ts) ∨
      (t.kind = .mark .hash ∧ Then (InReference closes False) (s.Rest closes) ts) ∨
      (t.kind = .mark .openBracket ∧
        Then (InTagName closes "") (Closed (s.Rest closes)) ts) := by
  rw [OpenSequence.Rest, then_cons_iff]
  simp only [isSequence_cons_iff, then_or_iff, then_and_iff, then_assoc, then_closed,
    isReference_eq, isAssignment_eq, IsSequence.nil, true_and]

theorem completion_inSequence_cons_iff (s : OpenSequence) (t : Token) (ts : List Token) :
    s.Rest closes (t :: ts) ↔
      ∃ next, (State.inSequence s).step t = .ok next ∧ next.Completion closes ts := by
  rw [rest_cons_iff]
  obtain ⟨kind, text⟩ := t
  by_cases hclose : kind = .mark .closeBracket
  · rw [hclose]
    cases s with
    | top nodes => simp [OpenSequence.Tail, IsPlain, State.step]
    | value name nodes home =>
        simp [OpenSequence.Tail, IsPlain, State.step, Closed, Home.completion_accept]
  · have htail : ¬s.Tail closes (⟨kind, text⟩ :: ts) := s.tail_cons_of_ne closes ts hclose
    cases kind with
    | mark m =>
        cases m with
        | closeBracket => exact absurd rfl hclose
        | _ => simp [htail, IsPlain, State.step, State.Completion]
    | _ => simp [htail, IsPlain, State.step, State.Completion]

theorem completion_name_cons_iff (r : OpenReference) (t : Token) (ts : List Token) :
    Then (InName closes (r.name ≠ "" ∨ r.actions ≠ [])) (r.sequence.Rest closes) (t :: ts) ↔
      ∃ next, r.stepName t = .ok next ∧ next.Completion closes ts := by
  obtain ⟨kind, text⟩ := t
  rw [then_cons_iff]
  simp only [inName_cons_iff, not_inName_nil, false_and, false_or, then_or_iff, then_and_iff,
    then_eq_nil_iff]
  cases kind with
  | mark m =>
      cases m with
      | hash =>
          by_cases hpart : r.name = "" ∧ r.actions = []
          · simp [OpenReference.stepName, hpart]
          · have hsome : r.name ≠ "" ∨ r.actions ≠ [] := by
              rwa [not_and_or] at hpart
            simp [OpenReference.stepName, hpart, hsome, OpenReference.close, State.Completion]
      | dot => simp [OpenReference.stepName, State.Completion]
      | _ => simp [OpenReference.stepName]
  | text =>
      have hname : ((r.name ≠ "" ∨ r.actions ≠ []) ∨ text ≠ "") =
          (r.name ++ text ≠ "" ∨ r.actions ≠ []) := by
        rw [ne_eq (r.name ++ text), Text.append_eq_empty_iff, not_and_or]
        exact propext (by tauto)
      simp [OpenReference.stepName, State.Completion, hname]
  | other name => simp [OpenReference.stepName]

theorem completion_chain_cons_iff (called : Bool) (r : OpenReference) {t : Token}
    (hopen : called = false → t.kind ≠ .mark .openParen) (ts : List Token) :
    Then (AfterModifier closes called) (r.sequence.Rest closes) (t :: ts) ↔
      (t.kind ≠ .mark .dot → closes t) ∧ (r.stepChain t).Completion closes ts := by
  rw [then_cons_iff]
  simp only [afterModifier_cons_iff, not_afterModifier_nil, false_and, false_or]
  by_cases hdot : t.kind = .mark .dot
  · simp [hdot, OpenReference.stepChain, State.Completion]
  · have hstep : r.stepChain t = r.close := r.stepChain_of_ne hdot
    simp only [if_neg hdot, then_and_iff, then_eq_nil_iff, hstep, OpenReference.close,
      State.Completion, OpenSequence.rest_addNode]
    constructor
    · intro hw
      rcases hw with ⟨_, hcloses, h⟩
      exact ⟨fun _ => hcloses, h⟩
    · intro hw
      rcases hw with ⟨hcloses, h⟩
      exact ⟨hopen, hcloses hdot, h⟩

theorem completion_inTagName_cons_iff (name : Text) (home : Home) (t : Token)
    (ts : List Token) :
    (State.inTagName name home).Completion closes (t :: ts) ↔
      ∃ next, (State.inTagName name home).step t = .ok next ∧ next.Completion closes ts := by
  obtain ⟨kind, text⟩ := t
  rw [State.Completion, then_cons_iff]
  simp only [inTagName_cons_iff, not_inTagName_nil, false_and, false_or, then_or_iff,
    then_and_iff]
  cases kind with
  | mark m =>
      cases m with
      | colon =>
          by_cases hname : strip name = ""
          · simp [State.step, hname]
          · simp [State.step, State.Completion, OpenSequence.Rest, OpenSequence.Tail, hname]
      | _ => simp [State.step]
  | text => simp [State.step, State.Completion]
  | other kindName => simp [State.step]

theorem completion_atReference_cons_iff (actions : List Assignment) (s : OpenSequence)
    (t : Token) (ts : List Token) :
    (State.atReference actions s).Completion closes (t :: ts) ↔
      ∃ next, (State.atReference actions s).step t = .ok next ∧ next.Completion closes ts := by
  rw [State.Completion, then_cons_iff]
  simp only [inReference_cons_iff, not_inReference_nil, false_and, false_or]
  by_cases hopen : t.kind = .mark .openBracket
  · simp [hopen, State.step, State.Completion, then_assoc, then_closed, isAssignment_eq]
  · have hname := completion_name_cons_iff closes ⟨actions, "", [], s⟩ t ts
    have hstep := State.step_atReference_of_ne actions s hopen
    rw [then_cons_iff] at hname
    simpa [hopen, hstep, not_inName_nil] using hname

theorem completion_atModifier_cons_iff (r : OpenReference) (t : Token) (ts : List Token) :
    (State.atModifier r).Completion closes (t :: ts) ↔
      ∃ next, (State.atModifier r).step t = .ok next ∧ next.Completion closes ts := by
  obtain ⟨kind, text⟩ := t
  rw [State.Completion, then_cons_iff]
  simp only [afterDot_cons_iff, not_afterDot_nil, false_and, false_or, then_and_iff]
  cases kind with
  | text =>
      by_cases hname : strip text = ""
      · simp [State.step, hname]
      · simp [State.step, State.Completion, hname]
  | _ => simp [State.step]

theorem completion_afterModifierName_cons_iff (modifier : Text) (r : OpenReference) (t : Token)
    (ts : List Token) :
    (State.afterModifierName modifier r).Completion closes (t :: ts) ↔
      ((State.afterModifierName modifier r).EndsChain t → closes t) ∧
        ∃ next, (State.afterModifierName modifier r).step t = .ok next ∧
          next.Completion closes ts := by
  by_cases hopen : t.kind = .mark .openParen
  · rw [State.Completion, then_cons_iff]
    simp [hopen, Grammar.AfterModifierName, State.step, State.EndsChain, State.Completion]
  · have hchain := completion_chain_cons_iff closes false (r.addModifier ⟨modifier, []⟩)
      (fun _ => hopen) ts
    have hstep := State.step_afterModifierName_of_ne modifier r hopen
    rw [then_cons_iff] at hchain
    rw [State.Completion, then_cons_iff]
    simpa [hopen, hstep, Grammar.AfterModifierName, State.EndsChain,
      not_afterModifier_nil] using hchain

theorem completion_inArguments_cons_iff (modifier : Text) (done current : List Text)
    (r : OpenReference) (t : Token) (ts : List Token) :
    (State.inArguments modifier done current r).Completion closes (t :: ts) ↔
      ∃ next, (State.inArguments modifier done current r).step t = .ok next ∧
        next.Completion closes ts := by
  obtain ⟨kind, text⟩ := t
  rw [State.Completion, then_cons_iff]
  simp only [inArguments_cons_iff, not_inArguments_nil, false_and, false_or]
  cases kind with
  | mark m => cases m <;> simp [State.step, State.Completion, OpenReference.sequence_addModifier]
  | _ => simp [State.step, State.Completion]

/-- One token takes the language of a state to that of the next state, or it is refused. -/
theorem completion_cons_iff (st : State) (t : Token) (ts : List Token) :
    st.Completion closes (t :: ts) ↔ (st.EndsChain t → closes t) ∧
      ∃ next, st.step t = .ok next ∧ next.Completion closes ts := by
  cases st with
  | inSequence s =>
      rw [State.Completion, completion_inSequence_cons_iff]
      simp [State.EndsChain]
  | inTagName name home =>
      rw [completion_inTagName_cons_iff]
      simp [State.EndsChain]
  | atReference actions s =>
      rw [completion_atReference_cons_iff]
      simp [State.EndsChain]
  | inName r =>
      rw [State.Completion, completion_name_cons_iff]
      simp [State.EndsChain, State.step]
  | atModifier r =>
      rw [completion_atModifier_cons_iff]
      simp [State.EndsChain]
  | afterModifierName modifier r =>
      exact completion_afterModifierName_cons_iff closes modifier r t ts
  | inArguments modifier done current r =>
      rw [completion_inArguments_cons_iff]
      simp [State.EndsChain]
  | afterArguments r =>
      rw [State.Completion, completion_chain_cons_iff closes true r (by simp)]
      simp [State.EndsChain, State.step]

/-! ## All tokens -/

/-- The tokens that complete a state are those that it reads to the end, as long as the chains of
modifiers end with the right tokens. -/
theorem completion_iff (st : State) (ts : List Token) :
    st.Completion closes ts ↔
      (∃ nodes, st.run ts >>= State.finish = .ok nodes) ∧ st.EndsChainsWith closes ts := by
  induction ts generalizing st with
  | nil =>
      rw [completion_nil_iff, State.run_nil]
      simp [State.EndsChainsWith, bind, Except.bind]
  | cons t ts ih =>
      rw [completion_cons_iff, State.run_cons, State.EndsChainsWith]
      cases hstep : st.step t with
      | error fault => simp [bind, Except.bind]
      | ok next =>
          have hnext := ih next
          simp only [Except.ok.injEq, exists_eq_left', hnext]
          constructor
          · intro hw
            rcases hw with ⟨hcloses, hrun, hends⟩
            exact ⟨hrun, hcloses, fun _ h => h ▸ hends⟩
          · intro hw
            rcases hw with ⟨hrun, hcloses, hends⟩
            exact ⟨hcloses, hrun, hends next rfl⟩

/-- The words of the grammar are the lists of tokens that are read, where the grammar lets the
chains of modifiers end as they end in reading. -/
theorem isSequence_iff (ts : List Token) :
    IsSequence closes ts ↔
      (∃ nodes, readNodes ts = .ok nodes) ∧ State.initial.EndsChainsWith closes ts := by
  have hcompletion : State.initial.Completion closes ts ↔ IsSequence closes ts := by
    constructor
    · intro hw
      rcases hw with ⟨us, vs, rfl, hus, hvs⟩
      rw [show vs = [] from hvs, List.append_nil]
      exact hus
    · exact fun h => ⟨ts, [], by simp, h, rfl⟩
  rw [← hcompletion, completion_iff]
  rfl

end Languages

end Reading

open Reading

theorem exists_parseText_eq_ok_iff (source : Text) :
    (∃ nodes, parseText source false = .ok nodes) ↔
      ∃ nodes, readNodes (tokenize source) = .ok nodes := by
  rw [parseText, parse, if_neg Bool.false_ne_true]
  cases readNodes (tokenize source) with
  | error fault => simp
  | ok nodes => simp

/-- Which texts are read. They are the words of the grammar in which a chain of modifiers is ended
by any token that does not go on with it; the words of the grammar in which only a hash ends a
reference are those of them in whose reading no other token ended a chain. -/
theorem parseText_eq_ok_iff (source : Text) :
    ((∃ nodes, parseText source false = .ok nodes) ↔
        IsSequence (fun _ => True) (tokenize source)) ∧
      (IsSequence (fun t => t.kind = .mark .hash) (tokenize source) ↔
        (∃ nodes, parseText source false = .ok nodes) ∧
          State.initial.EndsChainsWith (fun t => t.kind = .mark .hash) (tokenize source)) := by
  rw [exists_parseText_eq_ok_iff, isSequence_iff, isSequence_iff]
  refine ⟨⟨fun h => ⟨h, ?_⟩, fun h => h.1⟩, Iff.rfl⟩
  exact State.endsChainsWith_true State.initial (tokenize source)

theorem parseText_bracket_ends_reference :
    parseText "#a.b]" false = .ok [.reference "a" [⟨"b", []⟩] []] ∧
      ¬IsSequence (fun t => t.kind = .mark .hash) (tokenize "#a.b]") := by
  refine ⟨rfl, ?_⟩
  rw [isSequence_iff]
  intro hw
  rcases hw with ⟨-, h⟩
  have htokens : tokenize "#a.b]" = [.ofMark .hash, .ofText "a", .ofMark .dot, .ofText "b",
      .ofMark .closeBracket] := by decide
  rw [htokens] at h
  have hname := (((h.2 _ rfl).2 _ rfl).2 _ rfl).2 _ rfl
  have hbracket := hname.1 (by simp [State.EndsChain, Token.ofMark])
  exact absurd hbracket (by decide)

end TextGrammar
