import Mathlib.Data.List.Chain
import Mathlib.Data.List.DropRight
import TextGrammar.Proofs.Markup.Joining
import TextGrammar.Proofs.Markup.Literal
import TextGrammar.Proofs.Markup.Weights

/-!
# What is read is in normal form

Every step of reading keeps all that has been read in normal form (`Reading.State.Normal.takes`), as
long as no token is empty, which cutting sees to. Texts never touch because text behind text joins
it, names are stripped and refused where nothing is left, and an argument list of one argument has a
token in it. So what is read of any source is in normal form, and as each normal form is read from
its own rule text, the normal forms are just what reading gives (`read_exactly_normal_forms`).
-/

namespace TextGrammar

open Reading

/-! ## Names -/

theorem stripChars_eq_rdropWhile (cs : List CodePoint) :
    stripChars cs = (cs.dropWhile isBlank).rdropWhile isBlank := rfl

/-- What is left when the blanks are dropped at the end still begins with the same character. -/
theorem stripChars_stripChars (cs : List CodePoint) :
    stripChars (stripChars cs) = stripChars cs := by
  have hfront : (stripChars cs).dropWhile isBlank = stripChars cs := by
    rw [List.dropWhile_eq_self_iff]
    intro hpos
    obtain ⟨blanks, hprefix⟩ := List.rdropWhile_prefix isBlank (cs.dropWhile isBlank)
    rw [← stripChars_eq_rdropWhile] at hprefix
    have hlength : 0 < (cs.dropWhile isBlank).length := by
      rw [← hprefix, List.length_append]
      omega
    have hhead := List.dropWhile_eq_self_iff.1 (List.dropWhile_idempotent isBlank cs) hlength
    simpa only [← hprefix, List.getElem_append_left hpos] using hhead
  rw [stripChars_eq_rdropWhile (stripChars cs), hfront, stripChars_eq_rdropWhile,
    List.rdropWhile_idempotent]

theorem isStripped_strip {name : Text} (h : strip name ≠ "") : IsStripped (strip name) := by
  refine ⟨h, ?_⟩
  unfold strip
  rw [Text.toList_ofList, stripChars_stripChars]

/-! ## Nodes -/

namespace Node

theorem textsApart_iff_isChain (ns : List Node) :
    TextsApart ns ↔ ns.IsChain fun n m => ¬(n.isText = true ∧ m.isText = true) := by
  induction ns with
  | nil => simp [TextsApart]
  | cons n rest ih =>
      cases rest with
      | nil => simp [TextsApart]
      | cons m rest => rw [TextsApart, ih, List.isChain_cons_cons]

theorem TextsApart.reverse {ns : List Node} (h : TextsApart ns) : TextsApart ns.reverse := by
  rw [textsApart_iff_isChain] at h ⊢
  rw [List.isChain_reverse]
  exact h.imp fun n m hnm => fun hmn => hnm hmn.symm

theorem NormalSequence.reverse {ns : List Node} (h : NormalSequence ns) :
    NormalSequence ns.reverse := by
  refine ⟨h.1.reverse, allNormal_iff.2 fun n hn => ?_⟩
  exact allNormal_iff.1 h.2 n (List.mem_reverse.1 hn)

theorem normalSequence_nil : NormalSequence [] := ⟨trivial, trivial⟩

theorem NormalSequence.cons {n : Node} {ns : List Node} (hn : n.Normal) (htext : n.isText = false)
    (h : NormalSequence ns) : NormalSequence (n :: ns) := by
  refine ⟨(textsApart_cons n ns).2 ⟨fun htrue => ?_, h.1⟩, hn, h.2⟩
  rw [htext] at htrue
  cases htrue

end Node

theorem Assignment.AllNormal.append {as bs : List Assignment} (has : Assignment.AllNormal as)
    (hbs : Assignment.AllNormal bs) : Assignment.AllNormal (as ++ bs) := by
  induction as with
  | nil => exact hbs
  | cons a rest ih => exact ⟨has.1, ih has.2⟩

namespace Reading

/-- Text joins text before it, and else becomes a node of its own. -/
theorem normalSequence_addText {nodes : List Node} (h : Node.NormalSequence nodes) {text : Text}
    (htext : text ≠ "") : Node.NormalSequence (addText text nodes) := by
  unfold addText
  split
  · next before rest =>
      have hne : before ++ text ≠ "" := by simp [htext]
      have happart := (Node.textsApart_cons (.text before) rest).1 h.1
      exact ⟨(Node.textsApart_cons _ rest).2 happart, hne, h.2.2⟩
  · next hlast =>
      refine ⟨(Node.textsApart_cons _ nodes).2 ⟨fun _ n hn => ?_, h.1⟩, htext, h.2⟩
      cases hcase : n.isText with
      | false => rfl
      | true =>
          obtain ⟨before, rfl⟩ := Node.isText_iff.1 hcase
          obtain ⟨rest, rfl⟩ := List.head?_eq_some_iff.1 hn
          exact absurd rfl (hlast before rest)

/-- Arguments are never a single empty one: with no comma among them there is a token. -/
theorem normal_completeCall {modifier : Text} (hname : IsStripped modifier)
    {current : List Text} (hcurrent : ∀ part ∈ current, part ≠ "") (done : List Text) :
    (completeCall modifier done current).Normal := by
  refine ⟨hname, fun hargs => ?_⟩
  cases done with
  | nil =>
      cases current with
      | nil => simp [completeCall] at hargs
      | cons part rest =>
          have hpart := hcurrent part (List.mem_cons_self ..)
          simp [completeCall, hpart] at hargs
  | cons arg rest => simp [completeCall] at hargs

/-! ## States -/

mutual

/-- The nodes of an open sequence are in normal form, and so is all that stands around it. -/
def OpenSequence.Normal : OpenSequence → Prop
  | .top nodes => Node.NormalSequence nodes
  | .value name nodes home => IsStripped name ∧ Node.NormalSequence nodes ∧ home.Normal

def Home.Normal : Home → Prop
  | .node s => s.Normal
  | .action actions s => Assignment.AllNormal actions ∧ s.Normal

end

/-- The same of an open reference, which may still be empty. -/
structure OpenReference.Normal (r : OpenReference) : Prop where
  actions : Assignment.AllNormal r.actions
  modifiers : ∀ call ∈ r.modifiers, call.Normal
  sequence : r.sequence.Normal

/-- The same of all that has been read. Behind arguments the reference has a modifier. -/
def State.Normal : State → Prop
  | .inSequence s => s.Normal
  | .inTagName _ home => home.Normal
  | .atReference actions s => Assignment.AllNormal actions ∧ s.Normal
  | .inName r => r.Normal
  | .atModifier r => r.Normal
  | .afterModifierName modifier r => IsStripped modifier ∧ r.Normal
  | .inArguments modifier _ current r =>
      IsStripped modifier ∧ (∀ part ∈ current, part ≠ "") ∧ r.Normal
  | .afterArguments r => r.modifiers ≠ [] ∧ r.Normal

theorem OpenSequence.Normal.addNode {s : OpenSequence} (h : s.Normal) {n : Node} (hn : n.Normal)
    (htext : n.isText = false) : (s.addNode n).Normal := by
  cases s with
  | top nodes => exact Node.NormalSequence.cons hn htext h
  | value name nodes home => exact ⟨h.1, h.2.1.cons hn htext, h.2.2⟩

theorem OpenSequence.Normal.addText {s : OpenSequence} (h : s.Normal) {text : Text}
    (htext : text ≠ "") : (s.addText text).Normal := by
  cases s with
  | top nodes => exact normalSequence_addText h htext
  | value name nodes home => exact ⟨h.1, normalSequence_addText h.2.1 htext, h.2.2⟩

theorem Home.Normal.accept {home : Home} (h : home.Normal) {a : Assignment} (ha : a.Normal) :
    (home.accept a).Normal := by
  cases home with
  | node s => exact OpenSequence.Normal.addNode h ha rfl
  | action actions s => exact ⟨h.1.append ⟨ha, trivial⟩, h.2⟩

theorem OpenReference.Normal.addModifier {r : OpenReference} (h : r.Normal) {call : ModifierCall}
    (hcall : call.Normal) : (State.afterArguments (r.addModifier call)).Normal := by
  refine ⟨by simp [OpenReference.addModifier], h.actions, ?_, h.sequence⟩
  exact List.forall_mem_append.2 ⟨h.modifiers, List.forall_mem_singleton.2 hcall⟩

theorem OpenReference.Normal.close {r : OpenReference} (h : r.Normal)
    (hne : r.name ≠ "" ∨ r.modifiers ≠ [] ∨ r.actions ≠ []) : r.close.Normal :=
  h.sequence.addNode ⟨hne, h.modifiers, h.actions⟩ rfl

/-- A step on a token that is not empty keeps all in normal form. -/
theorem State.Normal.takes {t : Token} (ht : t.text ≠ "") {st next : State} (h : st.Normal)
    (htakes : State.Takes t st next) : next.Normal := by
  induction htakes with
  | endAssignment _ =>
      have hvalue := Node.NormalSequence.reverse h.2.1
      exact Home.Normal.accept h.2.2 ⟨h.1, hvalue.1, hvalue.2⟩
  | reference _ => exact ⟨trivial, h⟩
  | plain _ => exact OpenSequence.Normal.addText h ht
  | colon _ hname => exact ⟨isStripped_strip hname, Node.normalSequence_nil, h⟩
  | begin _ ih => exact ih ⟨h.1, nofun, h.2⟩
  | close _ hne => exact OpenReference.Normal.close h (hne.imp id .inr)
  | name _ => exact ⟨h.actions, h.modifiers, h.sequence⟩
  | modifier _ hname => exact ⟨isStripped_strip hname, h⟩
  | openParen _ => exact ⟨h.1, nofun, h.2⟩
  | bare _ _ ih => exact ih (h.2.addModifier ⟨h.1, nofun⟩)
  | closeParen _ => exact h.2.2.addModifier (normal_completeCall h.1 h.2.1 _)
  | comma _ => exact ⟨h.1, nofun, h.2.2⟩
  | argument _ _ =>
      exact ⟨h.1, List.forall_mem_append.2 ⟨h.2.1, List.forall_mem_singleton.2 ht⟩, h.2.2⟩
  | link _ => exact h.2
  | endChain _ => exact OpenReference.Normal.close h.2 (.inr (.inl h.1))
  | _ => exact h

end Reading

/-! ## Reading -/

theorem normalSequence_of_readNodes {ts : List Token} (hts : ∀ t ∈ ts, t.text ≠ "")
    {nodes : List Node} (h : readNodes ts = .ok nodes) : Node.NormalSequence nodes := by
  have hend : (State.inSequence (.top nodes.reverse)).Normal :=
    readNodes_keeps Node.normalSequence_nil (fun _ _ _ ht hst htakes => hst.takes ht htakes) hts h
  rw [← nodes.reverse_reverse]
  exact Node.NormalSequence.reverse hend

theorem ne_empty_of_mem_tokenize {source : Text} : ∀ t ∈ tokenize source, t.text ≠ "" :=
  fun t ht => Token.text_ne_empty_of_isCanonical
    (Token.isCanonical_of_mem (canonical_tokenize source) t ht)

theorem normalSequence_of_parseText {source : Text} {nodes : List Node}
    (h : parseText source false = .ok nodes) : Node.NormalSequence nodes := by
  unfold parseText parse at h
  rw [if_neg Bool.false_ne_true] at h
  split at h
  · cases h
  · next ns hread =>
      cases h
      exact normalSequence_of_readNodes ne_empty_of_mem_tokenize hread

theorem normalCandidate_of_parseText {source : Text} {nodes : List Node}
    (h : parseText source true = .ok nodes) : Node.NormalCandidate nodes := by
  have htokens : ∀ t ∈ tokenize source, t.text ≠ "" := ne_empty_of_mem_tokenize
  unfold parseText parse at h
  rw [if_pos rfl] at h
  split at h
  · cases h
  · next body weight hsplit =>
      split at h
      · cases h
      · next ns hread =>
          cases h
          cases weight with
          | none =>
              obtain rfl := splitWeight_eq_ok_none hsplit
              rw [Option.map_none, Option.toList_none, List.append_nil]
              exact .inl (normalSequence_of_readNodes htokens hread)
          | some n =>
              obtain ⟨sep, value, hts, hbody, hvalue, hpos⟩ := splitWeight_eq_ok_some hsplit
              rw [hts, List.forall_mem_append] at htokens
              have hlt : n < tenTo maxDigits := by
                have := readInt_lt hvalue
                omega
              exact .inr ⟨ns, n, rfl, ne_nil_of_readNodes hbody hread,
                normalSequence_of_readNodes htokens.1 hread, hpos, hlt⟩

theorem parseText_ruleText_of_weight {ns : List Node} (hne : ns ≠ []) (h : Node.NormalSequence ns)
    {n : Nat} (hpos : 0 < n) (hlt : n < tenTo maxDigits) :
    parseText (ruleText (ns ++ [.weight n])) true = .ok (ns ++ [.weight n]) := by
  rw [parseText, tokenize_ruleText_weight h]
  simp [parse, splitWeight_tokensAll_weight hne h hpos hlt, readNodes_tokensAll h]

/-- What is read of a source, whatever it is, is in normal form: no text is empty and no two touch,
names of tags and modifiers are stripped and not empty, no modifier has just one empty argument, no
reference is empty, and where weights are read a positive one may stand behind all other nodes, of
which there is one at least, and nowhere else. And nodes in normal form are all read of some
source. -/
theorem read_exactly_normal_forms :
    (∀ nodes, (∃ source, parseText source true = .ok nodes) ↔ Node.NormalCandidate nodes) ∧
      ∀ nodes, (∃ source, parseText source false = .ok nodes) ↔ Node.NormalSequence nodes := by
  constructor
  · refine fun nodes => ⟨fun ⟨source, h⟩ => normalCandidate_of_parseText h, ?_⟩
    rintro (hsequence | ⟨body, n, rfl, hne, hbody, hpos, hlt⟩)
    · exact ⟨_, parseText_ruleText_of_normal hsequence true⟩
    · exact ⟨_, parseText_ruleText_of_weight hne hbody hpos hlt⟩
  · refine fun nodes => ⟨fun ⟨source, h⟩ => normalSequence_of_parseText h, fun h => ?_⟩
    exact ⟨_, parseText_ruleText_of_normal h false⟩

end TextGrammar
