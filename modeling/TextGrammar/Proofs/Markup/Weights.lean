import TextGrammar.Proofs.Markup.Steps

/-!
# Where weights stand

Reading makes texts, references and assignments, and no other nodes, at any depth
(`readNodes_written`). A weight comes from the end of the tokens alone: it stands behind what is
read of the others and is positive (`parse_weighted`).
-/

namespace TextGrammar

/-- A node that stands for something written in a sequence: neither a weight nor a stray. -/
def Node.IsWritten : Node → Prop
  | .text _ => True
  | .reference .. => True
  | .assign _ => True
  | .weight _ => False
  | .stray _ => False

/-- All nodes, at any depth, stand for something written. -/
def Node.AllWritten (ns : List Node) : Prop := ∀ n ∈ Node.walkAll ns, n.IsWritten

def Assignment.AllWritten (as : List Assignment) : Prop :=
  ∀ n ∈ Assignment.walkAll as, n.IsWritten

theorem Node.IsWritten.weight?_eq_none {n : Node} (h : n.IsWritten) : n.weight? = none := by
  cases n with
  | weight value => exact h.elim
  | _ => rfl

theorem Node.allWritten_nil : Node.AllWritten [] := fun _ h => absurd h List.not_mem_nil

theorem Node.allWritten_cons {n : Node} {rest : List Node} :
    Node.AllWritten (n :: rest) ↔ (∀ m ∈ n.walk, m.IsWritten) ∧ Node.AllWritten rest :=
  List.forall_mem_append

theorem Node.AllWritten.reverse {ns : List Node} (h : Node.AllWritten ns) :
    Node.AllWritten ns.reverse := by
  intro n hn
  rw [Node.mem_walkAll_iff] at hn
  obtain ⟨m, hm, hn⟩ := hn
  exact h n (Node.mem_walkAll_iff.2 ⟨m, List.mem_reverse.1 hm, hn⟩)

theorem Node.written_text (t : Text) : ∀ m ∈ (Node.text t).walk, m.IsWritten := by
  simp [Node.walk, Node.IsWritten]

theorem Node.written_assign {name : Text} {value : List Node} (h : Node.AllWritten value) :
    ∀ m ∈ (Node.assign ⟨name, value⟩).walk, m.IsWritten :=
  List.forall_mem_cons.2 ⟨trivial, h⟩

theorem Node.written_reference {name : Text} {modifiers : List ModifierCall}
    {actions : List Assignment} (h : Assignment.AllWritten actions) :
    ∀ m ∈ (Node.reference name modifiers actions).walk, m.IsWritten :=
  List.forall_mem_cons.2 ⟨trivial, h⟩

theorem Assignment.AllWritten.append_assign {as : List Assignment} {name : Text}
    {value : List Node} (has : Assignment.AllWritten as) (hvalue : Node.AllWritten value) :
    Assignment.AllWritten (as ++ [⟨name, value⟩]) := by
  rw [Assignment.AllWritten, Assignment.walkAll_append, List.forall_mem_append]
  exact ⟨has, List.forall_mem_cons.2 ⟨trivial, List.forall_mem_append.2 ⟨hvalue, by simp⟩⟩⟩

namespace Reading

theorem allWritten_addText {nodes : List Node} (h : Node.AllWritten nodes) (text : Text) :
    Node.AllWritten (addText text nodes) := by
  unfold addText
  split
  · rw [Node.allWritten_cons] at h ⊢
    exact ⟨Node.written_text _, h.2⟩
  · exact Node.allWritten_cons.2 ⟨Node.written_text text, h⟩

mutual

/-- The nodes of an open sequence, and of all that stands around it, stand for something written. -/
def OpenSequence.Written : OpenSequence → Prop
  | .top nodes => Node.AllWritten nodes
  | .value _ nodes home => Node.AllWritten nodes ∧ home.Written

def Home.Written : Home → Prop
  | .node s => s.Written
  | .action actions s => Assignment.AllWritten actions ∧ s.Written

end

def OpenReference.Written (r : OpenReference) : Prop :=
  Assignment.AllWritten r.actions ∧ r.sequence.Written

/-- The same of all that has been read. -/
def State.Written : State → Prop
  | .inSequence s => s.Written
  | .inTagName _ home => home.Written
  | .atReference actions s => Assignment.AllWritten actions ∧ s.Written
  | .inName r => r.Written
  | .atModifier r => r.Written
  | .afterModifierName _ r => r.Written
  | .inArguments _ _ _ r => r.Written
  | .afterArguments r => r.Written

theorem OpenSequence.Written.addNode {s : OpenSequence} (h : s.Written) {n : Node}
    (hn : ∀ m ∈ n.walk, m.IsWritten) : (s.addNode n).Written := by
  cases s with
  | top nodes => exact Node.allWritten_cons.2 ⟨hn, h⟩
  | value name nodes home => exact ⟨Node.allWritten_cons.2 ⟨hn, h.1⟩, h.2⟩

theorem OpenSequence.Written.addText {s : OpenSequence} (h : s.Written) (text : Text) :
    (s.addText text).Written := by
  cases s with
  | top nodes => exact allWritten_addText h text
  | value name nodes home => exact ⟨allWritten_addText h.1 text, h.2⟩

theorem Home.Written.accept {home : Home} (h : home.Written) {name : Text}
    {value : List Node} (hvalue : Node.AllWritten value) :
    (home.accept ⟨name, value⟩).Written := by
  cases home with
  | node s => exact OpenSequence.Written.addNode h (Node.written_assign hvalue)
  | action actions s => exact ⟨h.1.append_assign hvalue, h.2⟩

theorem OpenReference.Written.close {r : OpenReference} (h : r.Written) : r.close.Written :=
  h.2.addNode (Node.written_reference h.1)

theorem State.Written.takes {t : Token} {st next : State} (h : st.Written)
    (htakes : State.Takes t st next) : next.Written := by
  induction htakes with
  | endAssignment _ => exact Home.Written.accept h.2 h.1.reverse
  | reference _ => exact ⟨fun _ hn => absurd hn List.not_mem_nil, h⟩
  | plain _ => exact OpenSequence.Written.addText h t.text
  | colon _ _ => exact ⟨Node.allWritten_nil, h⟩
  | begin _ ih => exact ih h
  | bare _ _ ih => exact ih h
  | close _ _ => exact OpenReference.Written.close h
  | endChain _ => exact OpenReference.Written.close h
  | _ => exact h

end Reading

open Reading

theorem readNodes_written {ts : List Token} {nodes : List Node} (h : readNodes ts = .ok nodes) :
    Node.AllWritten nodes := by
  have hend := readNodes_keeps (G := fun _ => True) (P := State.Written) Node.allWritten_nil
    (fun _ _ _ _ hst htakes => hst.takes htakes) (fun _ _ => trivial) h
  rw [← nodes.reverse_reverse]
  exact Node.AllWritten.reverse hend

/-- A weight that is split off is a positive number, written behind a comma and other tokens. -/
theorem splitWeight_eq_ok_some {ts body : List Token} {n : Nat}
    (h : splitWeight ts = .ok (body, some n)) :
    ∃ sep value, ts = body ++ [sep, value] ∧ body ≠ [] ∧ readInt value.text = .ok (n : Int) ∧
      0 < n := by
  unfold splitWeight at h
  split at h
  · next value sep last before hreverse =>
      split at h
      · split at h
        · cases h
        · next m hread =>
            split at h
            · cases h
            · next hpos =>
                cases h
                refine ⟨sep, value, ?_, by simp, ?_, by omega⟩
                · rw [← List.reverse_reverse ts, hreverse]
                  simp
                · rw [hread, Int.toNat_of_nonneg (by omega)]
      · cases h
  · cases h

theorem splitWeight_eq_ok_none {ts body : List Token} (h : splitWeight ts = .ok (body, none)) :
    body = ts := by
  unfold splitWeight at h
  split at h
  · split at h
    · split at h
      · cases h
      · split at h
        · cases h
          rfl
        · cases h
    · cases h
      rfl
  · cases h
    rfl

theorem splitWeight_pos {ts body : List Token} {n : Nat}
    (h : splitWeight ts = .ok (body, some n)) : 0 < n := by
  obtain ⟨_, _, -, -, -, hpos⟩ := splitWeight_eq_ok_some h
  exact hpos

/-- What is read of a candidate: nodes without a weight, and behind them perhaps one. -/
theorem parse_weighted {ts : List Token} {nodes : List Node} (h : parse ts true = .ok nodes) :
    ∃ (body : List Node) (weight : Option Nat),
      nodes = body ++ (weight.map Node.weight).toList ∧ Node.AllWritten body ∧
        ∀ n ∈ weight, 0 < n := by
  unfold parse at h
  rw [if_pos rfl] at h
  split at h
  · cases h
  · next rest weight hsplit =>
      split at h
      · cases h
      · next body hbody =>
          cases h
          refine ⟨body, weight, rfl, readNodes_written hbody, fun n hn => ?_⟩
          cases hn
          exact splitWeight_pos hsplit

end TextGrammar
