import TextGrammar.Markup.NormalForm
import TextGrammar.Markup.Reading

/-!
# Reading in pieces

Tokens that are read as nodes leave reading where it began, between the nodes of a sequence that
nothing stands around. So what comes behind them is read as it would be read alone, only that its
nodes join those that are there already (`readNodes_append`). Texts that touch become one, which is
what `Node.merge` does (`Node.merge_cases`).

The proof reads the second list twice, once alone and once behind the nodes of the first. The two
readings are in the same state all along but for these nodes, which stand at the bottom of the
second (`State.onto`).
-/

namespace TextGrammar

namespace Node

theorem merge_cons_of_ne_nil (n : Node) {ns : List Node} (h : ns ≠ []) (ms : List Node) :
    merge (n :: ns) ms = n :: merge ns ms := by
  cases ns with
  | nil => exact absurd rfl h
  | cons m rest => rw [merge.eq_3 _ _ _ (by simp)]

theorem merge_text_text (a b : Text) (ms : List Node) :
    merge [.text a] (.text b :: ms) = .text (a ++ b) :: ms := rfl

theorem merge_singleton_cons {n m : Node} (h : n.isText = false ∨ m.isText = false)
    (ms : List Node) : merge [n] (m :: ms) = n :: m :: ms := by
  cases n with
  | text a =>
      cases m with
      | text b => rcases h with h | h <;> cases h
      | _ => rfl
  | _ => rfl

theorem merge_ne_nil {ns : List Node} (h : ns ≠ []) (ms : List Node) : merge ns ms ≠ [] := by
  cases ns with
  | nil => exact absurd rfl h
  | cons n rest =>
      unfold merge
      split <;> simp_all

/-- Only the last node of the first sequence may be changed. -/
theorem merge_concat (ns : List Node) (n : Node) (ms : List Node) :
    merge (ns ++ [n]) ms = ns ++ merge [n] ms := by
  induction ns with
  | nil => rfl
  | cons m rest ih =>
      rw [List.cons_append, merge_cons_of_ne_nil m (List.concat_ne_nil n rest), ih,
        List.cons_append]

theorem merge_singleton {n : Node} (h : n.isText = false) (ns : List Node) :
    merge ns [n] = ns ++ [n] := by
  rcases List.eq_nil_or_concat ns with rfl | ⟨before, m, rfl⟩
  · rfl
  · rw [List.concat_eq_append, merge_concat, merge_singleton_cons (.inr h), List.append_assoc,
      List.singleton_append]

theorem isText_iff {n : Node} : n.isText = true ↔ ∃ t, n = .text t := by
  cases n <;> simp [isText]

theorem not_both_text {n m : Node} (h : ¬(n.isText = true ∧ m.isText = true)) :
    n.isText = false ∨ m.isText = false := by
  simpa only [Bool.not_eq_true] using Decidable.not_and_iff_or_not.1 h

theorem merge_singleton_assoc (k : Node) (ns ms : List Node) :
    merge (merge [k] ns) ms = merge [k] (merge ns ms) := by
  cases ns with
  | nil => simp
  | cons n rest =>
      by_cases h : k.isText = true ∧ n.isText = true
      · obtain ⟨a, rfl⟩ := isText_iff.1 h.1
        obtain ⟨b, rfl⟩ := isText_iff.1 h.2
        rw [merge_text_text]
        cases rest with
        | cons m rest =>
            rw [merge_cons_of_ne_nil _ (List.cons_ne_nil m rest),
              merge_cons_of_ne_nil _ (List.cons_ne_nil m rest), merge_text_text]
        | nil =>
            cases ms with
            | nil => rfl
            | cons m ms => cases m <;> simp [merge, Text.append_assoc]
      · have h' := not_both_text h
        rw [merge_singleton_cons h', merge_cons_of_ne_nil k (List.cons_ne_nil n rest)]
        -- what comes first in the rest is text where `n` is
        cases rest with
        | cons m rest =>
            rw [merge_cons_of_ne_nil n (List.cons_ne_nil m rest), merge_singleton_cons h']
        | nil =>
            cases ms with
            | nil => rw [merge_nil_right, merge_singleton_cons h']
            | cons m ms =>
                by_cases hm : n.isText = true ∧ m.isText = true
                · obtain ⟨b, rfl⟩ := isText_iff.1 hm.1
                  obtain ⟨c, rfl⟩ := isText_iff.1 hm.2
                  have hk : k.isText = false := h'.resolve_right (by simp [isText])
                  rw [merge_text_text, merge_singleton_cons (.inl hk)]
                · rw [merge_singleton_cons (not_both_text hm), merge_singleton_cons h']

theorem merge_assoc (ks ns ms : List Node) :
    merge (merge ks ns) ms = merge ks (merge ns ms) := by
  induction ks with
  | nil => simp
  | cons k rest ih =>
      by_cases hrest : rest = []
      · rw [hrest, merge_singleton_assoc]
      · rw [merge_cons_of_ne_nil k hrest, merge_cons_of_ne_nil k (merge_ne_nil hrest ns),
          merge_cons_of_ne_nil k hrest, ih]

/-- Merging is putting side by side, except where a text ends the one sequence and a text begins
the other. -/
theorem merge_cases (ns ms : List Node) :
    merge ns ms = ns ++ ms ∨
      ∃ before a b rest, ns = before ++ [.text a] ∧ ms = .text b :: rest ∧
        merge ns ms = before ++ .text (a ++ b) :: rest := by
  rcases List.eq_nil_or_concat ns with rfl | ⟨before, n, rfl⟩
  · exact .inl (merge_nil_left ms)
  · rw [List.concat_eq_append, merge_concat]
    cases ms with
    | nil => exact .inl (by rw [merge_nil_right, List.append_nil])
    | cons m rest =>
        by_cases h : n.isText = true ∧ m.isText = true
        · obtain ⟨a, rfl⟩ := isText_iff.1 h.1
          obtain ⟨b, rfl⟩ := isText_iff.1 h.2
          exact .inr ⟨before, a, b, rest, rfl, rfl, by rw [merge_text_text]⟩
        · refine .inl ?_
          rw [merge_singleton_cons (not_both_text h), List.append_assoc, List.singleton_append]

end Node

namespace Reading

open Node (merge merge_assoc merge_concat merge_singleton)

/-- Adding text is merging with it, seen from the end. -/
theorem addText_eq_merge (text : Text) (nodes : List Node) :
    addText text nodes = (merge nodes.reverse [.text text]).reverse := by
  cases nodes with
  | nil => rfl
  | cons n rest =>
      rw [List.reverse_cons, merge_concat, List.reverse_append, List.reverse_reverse]
      cases n <;> rfl

mutual

/-- A sequence with other nodes at the bottom, in front of all that has been read. -/
def OpenSequence.onto (ms : List Node) : OpenSequence → OpenSequence
  | .top nodes => .top (merge ms nodes.reverse).reverse
  | .value name nodes home => .value name nodes (home.onto ms)

def Home.onto (ms : List Node) : Home → Home
  | .node sequence => .node (sequence.onto ms)
  | .action actions sequence => .action actions (sequence.onto ms)

end

def OpenReference.onto (ms : List Node) (r : OpenReference) : OpenReference :=
  { r with sequence := r.sequence.onto ms }

def State.onto (ms : List Node) : State → State
  | .inSequence sequence => .inSequence (sequence.onto ms)
  | .inTagName name home => .inTagName name (home.onto ms)
  | .atReference actions sequence => .atReference actions (sequence.onto ms)
  | .inName r => .inName (r.onto ms)
  | .atModifier r => .atModifier (r.onto ms)
  | .afterModifierName modifier r => .afterModifierName modifier (r.onto ms)
  | .inArguments modifier done current r => .inArguments modifier done current (r.onto ms)
  | .afterArguments r => .afterArguments (r.onto ms)

variable (ms : List Node)

theorem OpenSequence.addNode_onto {n : Node} (h : n.isText = false) (sequence : OpenSequence) :
    (sequence.onto ms).addNode n = (sequence.addNode n).onto ms := by
  cases sequence with
  | value name nodes home => rfl
  | top nodes =>
      simp only [onto, addNode]
      rw [List.reverse_cons, ← merge_singleton h, ← merge_assoc, merge_singleton h,
        List.reverse_append, List.reverse_singleton, List.singleton_append]

theorem OpenSequence.addText_onto (text : Text) (sequence : OpenSequence) :
    (sequence.onto ms).addText text = (sequence.addText text).onto ms := by
  cases sequence with
  | value name nodes home => rfl
  | top nodes =>
      simp only [onto, addText]
      rw [addText_eq_merge, addText_eq_merge, List.reverse_reverse, List.reverse_reverse,
        merge_assoc]

theorem Home.accept_onto (a : Assignment) (home : Home) :
    (home.onto ms).accept a = (home.accept a).onto ms := by
  cases home with
  | node sequence => exact congrArg State.inSequence (sequence.addNode_onto ms rfl)
  | action actions sequence => rfl

namespace OpenReference

theorem close_onto (r : OpenReference) : (r.onto ms).close = r.close.onto ms :=
  congrArg State.inSequence (r.sequence.addNode_onto ms rfl)

theorem stepName_onto (r : OpenReference) (t : Token) :
    (r.onto ms).stepName t = (r.stepName t).map (State.onto ms) := by
  unfold stepName
  split
  · change (if r.name = "" ∧ r.actions.isEmpty = true then _ else _) = _
    split
    · rfl
    · exact congrArg Except.ok (r.close_onto ms)
  · rfl
  · rfl
  · rfl

theorem stepChain_onto (r : OpenReference) (t : Token) :
    (r.onto ms).stepChain t = (r.stepChain t).onto ms := by
  unfold stepChain
  split
  · rfl
  · exact r.close_onto ms

end OpenReference

namespace State

/-- What stands at the bottom decides nothing. -/
theorem step_onto (st : State) (t : Token) :
    (st.onto ms).step t = (st.step t).map (State.onto ms) := by
  cases st with
  | inSequence sequence =>
      simp only [onto, step]
      split
      · cases sequence with
        | top nodes => rfl
        | value name nodes home =>
            exact congrArg Except.ok (home.accept_onto ms _)
      · rfl
      · rfl
      · exact congrArg (Except.ok ∘ State.inSequence) (sequence.addText_onto ms t.text)
  | inTagName name home =>
      simp only [onto, step]
      split
      · split <;> rfl
      · rfl
      · rfl
      · rfl
  | atReference actions sequence =>
      simp only [onto, step]
      split
      · rfl
      · exact OpenReference.stepName_onto ms ⟨actions, "", [], sequence⟩ t
  | inName r => exact r.stepName_onto ms t
  | atModifier r =>
      simp only [onto, step]
      split
      · split <;> rfl
      · rfl
  | afterModifierName modifier r =>
      simp only [onto, step]
      split
      · rfl
      · exact congrArg Except.ok ((r.addModifier ⟨modifier, []⟩).stepChain_onto ms t)
  | inArguments modifier done current r =>
      simp only [onto, step]
      split <;> rfl
  | afterArguments r => exact congrArg Except.ok (r.stepChain_onto ms t)

theorem run_onto (st : State) (ts : List Token) :
    (st.onto ms).run ts = (st.run ts).map (State.onto ms) := by
  induction ts generalizing st with
  | nil => rfl
  | cons t rest ih =>
      rw [run_cons, run_cons, step_onto]
      cases st.step t with
      | error fault => rfl
      | ok next => exact ih next

theorem finish_onto (st : State) : (st.onto ms).finish = st.finish.map (merge ms) := by
  cases st with
  | inSequence sequence =>
      cases sequence with
      | top nodes => exact congrArg Except.ok (List.reverse_reverse _)
      | value name nodes home => rfl
  | _ => rfl

end State

end Reading

open Reading

/-- What comes behind tokens that are read as nodes is read as it is alone, and its nodes join
those. -/
theorem readNodes_append {ts : List Token} {ms : List Node} (h : readNodes ts = .ok ms)
    (us : List Token) : readNodes (ts ++ us) = (readNodes us).map (Node.merge ms) := by
  unfold readNodes at h ⊢
  cases hrun : State.initial.run ts with
  | error fault =>
      rw [hrun] at h
      cases h
  | ok st =>
      rw [hrun] at h
      have hst : st = State.initial.onto ms := by
        rw [State.eq_top_of_finish h]
        simp [State.initial, State.onto, OpenSequence.onto]
      rw [State.run_append, hrun, hst]
      change (State.initial.onto ms).run us >>= State.finish = _
      rw [State.run_onto]
      cases State.initial.run us with
      | error fault => rfl
      | ok st => exact st.finish_onto ms

/-- Texts are read piece by piece. -/
theorem parse_append {ts : List Token} {ms : List Node} (h : parse ts false = .ok ms)
    (us : List Token) : parse (ts ++ us) false = (parse us false).map (Node.merge ms) := by
  have hread : readNodes ts = .ok ms := by
    cases hts : readNodes ts with
    | error fault => simp [parse, hts] at h
    | ok ns => simpa [parse, hts] using h
  simp only [parse, Bool.false_eq_true, if_false, readNodes_append hread]
  cases readNodes us <;> rfl

end TextGrammar
