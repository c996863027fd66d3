import TextGrammar.Markup.Reading
import TextGrammar.Proofs.Markup.Spelling

/-!
# Reading the tokens of nodes

Reading the tokens that spell nodes adds exactly these nodes to the sequence that is open
(`Reading.run_tokensAll`). The lemmas before it say what reading the tokens of one construct
does, given whatever comes behind: each of them ends in the state in which that rest is read.
-/

namespace TextGrammar

open Token (textTokens ofMark ofText)

namespace Reading

/-! ## Open sequences -/

namespace OpenSequence

def last? : OpenSequence → Option Node
  | .top nodes => nodes.head?
  | .value _ nodes _ => nodes.head?

def addNodes (ns : List Node) (s : OpenSequence) : OpenSequence :=
  ns.foldl (fun s n => s.addNode n) s

@[simp] theorem addNodes_nil (s : OpenSequence) : s.addNodes [] = s := rfl

theorem addNodes_cons (n : Node) (ns : List Node) (s : OpenSequence) :
    s.addNodes (n :: ns) = (s.addNode n).addNodes ns := rfl

@[simp] theorem last?_addNode (n : Node) (s : OpenSequence) : (s.addNode n).last? = some n := by
  cases s <;> rfl

theorem addNodes_top (ns nodes : List Node) :
    (OpenSequence.top nodes).addNodes ns = .top (ns.reverse ++ nodes) := by
  induction ns generalizing nodes with
  | nil => rfl
  | cons n ns ih =>
      rw [addNodes_cons, addNode, ih, List.reverse_cons, List.append_assoc]
      rfl

theorem addNodes_value (ns : List Node) (name : Text) (nodes : List Node) (home : Home) :
    (OpenSequence.value name nodes home).addNodes ns = .value name (ns.reverse ++ nodes) home := by
  induction ns generalizing nodes with
  | nil => rfl
  | cons n ns ih =>
      rw [addNodes_cons, addNode, ih, List.reverse_cons, List.append_assoc]
      rfl

theorem addText_of_last? {s : OpenSequence} (h : ∀ n ∈ s.last?, n.isText = false)
    (text : Text) : s.addText text = s.addNode (.text text) := by
  have hadd : ∀ nodes : List Node, (∀ n ∈ nodes.head?, n.isText = false) →
      Reading.addText text nodes = .text text :: nodes := by
    intro nodes hnodes
    cases nodes with
    | nil => rfl
    | cons n nodes =>
        have hn := hnodes n rfl
        cases n with
        | text t => exact absurd hn (by simp [Node.isText])
        | _ => rfl
  cases s with
  | top nodes => rw [OpenSequence.addText, hadd nodes h, addNode]
  | value name nodes home => rw [OpenSequence.addText, hadd nodes h, addNode]

end OpenSequence

/-! ## Names -/

theorem run_of_step {st next : State} {t : Token} (h : st.step t = .ok next)
    (rest : List Token) : st.run (t :: rest) = next.run rest := by
  rw [State.run_cons, h]
  rfl

theorem run_tagName (name text : Text) (home : Home) (rest : List Token) :
    (State.inTagName name home).run (textTokens text ++ rest) =
      (State.inTagName (name ++ text) home).run rest := by
  by_cases h : text = ""
  · rw [h, Token.textTokens_empty, List.nil_append, Text.append_empty]
  · rw [Token.textTokens_of_ne h, List.singleton_append]
    exact run_of_step rfl rest

/-- The name of a reference is read up to the mark behind it, which opens no action. -/
theorem run_referenceName (actions : List Assignment) (name : Text) (s : OpenSequence)
    {m : Mark} (hm : m ≠ .openBracket) (rest : List Token) :
    (State.atReference actions s).run (textTokens name ++ ofMark m :: rest) =
      (State.inName ⟨actions, name, [], s⟩).run (ofMark m :: rest) := by
  by_cases h : name = ""
  · rw [h, Token.textTokens_empty, List.nil_append, State.run_cons, State.run_cons]
    cases m <;> first | rfl | exact absurd rfl hm
  · have hname : (State.atReference actions s).step (ofText name) =
        .ok (.inName ⟨actions, "" ++ name, [], s⟩) := rfl
    rw [Token.textTokens_of_ne h, List.singleton_append, run_of_step hname, Text.empty_append]

/-! ## Modifiers -/

theorem run_argumentTokens (modifier : Text) {args done : List Text}
    (r : OpenReference) (hne : args ≠ []) (hargs : done ++ args ≠ [("" : Text)])
    (rest : List Token) :
    (State.inArguments modifier done [] r).run
        (argumentTokens args ++ ofMark .closeParen :: rest) =
      (State.afterArguments (r.addModifier ⟨modifier, done ++ args⟩)).run rest := by
  induction args generalizing done with
  | nil => exact absurd rfl hne
  | cons arg args ih =>
      cases args with
      | nil =>
          rw [argumentTokens]
          by_cases h : arg = ""
          · have hdone : done.isEmpty = false := by
              cases done with
              | nil => exact absurd (by rw [h]; rfl) hargs
              | cons d done => rfl
            rw [h, Token.textTokens_empty, List.nil_append]
            refine (run_of_step rfl rest).trans ?_
            rw [completeCall, hdone]
            rfl
          · rw [Token.textTokens_of_ne h, List.singleton_append]
            refine (run_of_step rfl _).trans ((run_of_step rfl rest).trans ?_)
            simp [completeCall, ofText, Text.join]
      | cons next args =>
          have hcomma : (State.inArguments modifier done [] r).run
              (textTokens arg ++ ofMark .comma ::
                (argumentTokens (next :: args) ++ ofMark .closeParen :: rest)) =
              (State.inArguments modifier (done ++ [arg]) [] r).run
                (argumentTokens (next :: args) ++ ofMark .closeParen :: rest) := by
            by_cases h : arg = ""
            · rw [h, Token.textTokens_empty, List.nil_append]
              exact run_of_step rfl _
            · rw [Token.textTokens_of_ne h, List.singleton_append]
              refine (run_of_step rfl _).trans ((run_of_step rfl _).trans ?_)
              simp [ofText, Text.join]
          have hassoc : done ++ arg :: next :: args = (done ++ [arg]) ++ next :: args := by simp
          rw [hassoc] at hargs ⊢
          rw [argumentTokens, List.append_assoc, List.cons_append, hcomma,
            ih (by simp) hargs]
          simp

/-- A modifier is read up to the mark behind it, which opens no arguments. -/
theorem run_modifier {call : ModifierCall} (hcall : call.Normal) {st : State}
    {r : OpenReference} (hst : st.step (ofMark .dot) = .ok (.atModifier r)) {m : Mark}
    (hm : m ≠ .openParen) (rest : List Token) :
    st.run (call.tokens ++ ofMark m :: rest) =
      (State.afterArguments (r.addModifier call)).run (ofMark m :: rest) := by
  obtain ⟨name, args⟩ := call
  obtain ⟨⟨hne, hstrip⟩, hargs⟩ := hcall
  simp only at hne hstrip hargs
  have hname : (State.atModifier r).step (ofText name) = .ok (.afterModifierName name r) := by
    simp [State.step, ofText, hstrip, hne]
  rw [ModifierCall.tokens, List.cons_append, run_of_step hst, List.append_assoc,
    Token.textTokens_of_ne hne, List.singleton_append, run_of_step hname]
  cases args with
  | nil =>
      rw [List.isEmpty_nil, if_pos rfl, List.nil_append, State.run_cons, State.run_cons]
      cases m <;> first | rfl | exact absurd rfl hm
  | cons arg args =>
      rw [List.isEmpty_cons, if_neg Bool.false_ne_true, List.cons_append, List.append_assoc,
        List.singleton_append]
      refine (run_of_step rfl _).trans ?_
      rw [run_argumentTokens name r (by simp) hargs, List.nil_append]

def OpenReference.addModifiers (calls : List ModifierCall) (r : OpenReference) :
    OpenReference :=
  { r with modifiers := r.modifiers ++ calls }

theorem run_modifiers {calls : List ModifierCall} (h : ∀ call ∈ calls, call.Normal)
    (r : OpenReference) (rest : List Token) :
    (State.afterArguments r).run (calls.flatMap ModifierCall.tokens ++ ofMark .hash :: rest) =
      (r.addModifiers calls).close.run rest := by
  induction calls generalizing r with
  | nil =>
      refine (run_of_step rfl rest).trans ?_
      rw [OpenReference.addModifiers, List.append_nil]
      rfl
  | cons call calls ih =>
      have hadd : r.addModifiers (call :: calls) = (r.addModifier call).addModifiers calls := by
        simp [OpenReference.addModifiers, OpenReference.addModifier]
      have hcall := h call (by simp)
      have hcalls := ih (fun c hc => h c (List.mem_cons_of_mem call hc)) (r.addModifier call)
      rw [List.flatMap_cons, List.append_assoc, hadd, ← hcalls]
      cases calls with
      | nil => exact run_modifier hcall rfl (by decide) rest
      | cons next calls => exact run_modifier hcall rfl (by decide) _

theorem run_chain {calls : List ModifierCall} (h : ∀ call ∈ calls, call.Normal)
    {actions : List Assignment} {name : Text} (s : OpenSequence)
    (hpart : name ≠ "" ∨ calls ≠ [] ∨ actions ≠ []) (rest : List Token) :
    (State.inName ⟨actions, name, [], s⟩).run
        (calls.flatMap ModifierCall.tokens ++ ofMark .hash :: rest) =
      (State.inSequence (s.addNode (.reference name calls actions))).run rest := by
  cases calls with
  | nil =>
      have hclose : (State.inName ⟨actions, name, [], s⟩).step (ofMark .hash) =
          .ok (OpenReference.close ⟨actions, name, [], s⟩) := by
        refine if_neg ?_
        rintro ⟨hname, hactions⟩
        rcases hpart with hn | hc | ha
        · exact hn hname
        · exact hc rfl
        · exact ha (List.isEmpty_iff.1 hactions)
      exact run_of_step hclose rest
  | cons call calls =>
      have hcall := h call (by simp)
      have hcalls := run_modifiers (fun c hc => h c (List.mem_cons_of_mem call hc))
        (OpenReference.addModifier ⟨actions, name, [], s⟩ call) rest
      rw [List.flatMap_cons, List.append_assoc]
      refine Eq.trans ?_ hcalls
      cases calls with
      | nil => exact run_modifier hcall rfl (by decide) rest
      | cons next calls => exact run_modifier hcall rfl (by decide) _

/-! ## Nodes -/

mutual

/-- An assignment is read up to its closing bracket, and handed to what it belongs to. -/
theorem run_assignment : ∀ a : Assignment, a.Normal → ∀ {st : State} {home : Home},
    st.step (ofMark .openBracket) = .ok (.inTagName "" home) → ∀ rest : List Token,
    st.run (a.tokens ++ rest) = (home.accept a).run rest
  | ⟨name, value⟩, h, st, home, hst, rest => by
      obtain ⟨⟨hne, hstrip⟩, hapart, hnormal⟩ := h
      have hcolon : (State.inTagName name home).step (ofMark .colon) =
          .ok (.inSequence (.value name [] home)) := by
        simp [State.step, ofMark, hstrip, hne]
      have hclose : (State.inSequence (.value name (value.reverse ++ []) home)).step
          (ofMark .closeBracket) = .ok (home.accept ⟨name, value⟩) := by
        simp [State.step, ofMark]
      have hvalue := run_tokensAll value hapart hnormal (.value name [] home)
        (fun _ _ _ m hm => absurd hm (by simp [OpenSequence.last?]))
        (ofMark .closeBracket :: rest)
      rw [OpenSequence.addNodes_value] at hvalue
      rw [Assignment.tokens, List.cons_append, run_of_step hst, List.append_assoc, run_tagName,
        Text.empty_append, List.cons_append, run_of_step hcolon, List.append_assoc,
        List.singleton_append, hvalue, run_of_step hclose]

theorem run_actions : ∀ as : List Assignment, Assignment.AllNormal as →
    ∀ (done : List Assignment) (s : OpenSequence) (rest : List Token),
    (State.atReference done s).run (Assignment.tokensAll as ++ rest) =
      (State.atReference (done ++ as) s).run rest
  | [], _, done, s, rest => by rw [Assignment.tokensAll, List.nil_append, List.append_nil]
  | a :: as, h, done, s, rest => by
      have hopen : (State.atReference done s).step (ofMark .openBracket) =
          .ok (.inTagName "" (.action done s)) := rfl
      have ha := run_assignment a h.1 hopen (Assignment.tokensAll as ++ rest)
      have has := run_actions as h.2 (done ++ [a]) s rest
      rw [Assignment.tokensAll, List.append_assoc, ha, Home.accept, has, List.append_assoc,
        List.singleton_append]

theorem run_node : ∀ n : Node, n.Normal → n.isText = false →
    ∀ (s : OpenSequence) (rest : List Token),
    (State.inSequence s).run (n.tokens ++ rest) = (State.inSequence (s.addNode n)).run rest
  | .text t, _, ht, _, _ => absurd ht (by simp [Node.isText])
  | .reference name modifiers actions, h, _, s, rest => by
      obtain ⟨hpart, hcalls, hnormal⟩ := h
      have hactions := run_actions actions hnormal [] s
      have hname : (State.atReference actions s).run (textTokens name ++
          (modifiers.flatMap ModifierCall.tokens ++ ofMark .hash :: rest)) =
          (State.inName ⟨actions, name, [], s⟩).run
            (modifiers.flatMap ModifierCall.tokens ++ ofMark .hash :: rest) := by
        cases modifiers with
        | nil => exact run_referenceName actions name s (by decide) rest
        | cons call calls => exact run_referenceName actions name s (by decide) _
      have hhash : (State.inSequence s).step (ofMark .hash) = .ok (.atReference [] s) := rfl
      rw [Node.tokens, List.cons_append, run_of_step hhash, List.append_assoc, hactions,
        List.nil_append, List.append_assoc, List.append_assoc, List.singleton_append, hname,
        run_chain hcalls s hpart]
  | .assign a, h, _, s, rest => by
      have hopen : (State.inSequence s).step (ofMark .openBracket) =
          .ok (.inTagName "" (.node s)) := rfl
      rw [Node.tokens]
      exact run_assignment a h hopen rest
  | .weight _, h, _, _, _ => False.elim h
  | .stray _, h, _, _, _ => False.elim h

/-- A sequence in normal form is read node by node, unless it goes on with a text. -/
theorem run_tokensAll : ∀ ns : List Node, Node.TextsApart ns → Node.AllNormal ns →
    ∀ s : OpenSequence,
    (∀ n ∈ ns.head?, n.isText = true → ∀ m ∈ s.last?, m.isText = false) →
    ∀ rest : List Token,
    (State.inSequence s).run (Node.tokensAll ns ++ rest) =
      (State.inSequence (s.addNodes ns)).run rest
  | [], _, _, _, _, _ => rfl
  | n :: ns, ha, hn, s, hs, rest => by
      obtain ⟨hnext, hapart⟩ := (Node.textsApart_cons n ns).1 ha
      have htail := run_tokensAll ns hapart hn.2 (s.addNode n)
        (by
          intro m hm hmt k hk
          rw [OpenSequence.last?_addNode, Option.mem_some_iff] at hk
          cases hk
          cases hnt : n.isText with
          | true => exact absurd (hnext hnt m hm) (by rw [hmt]; decide)
          | false => rfl)
        rest
      rw [Node.tokensAll, List.append_assoc, OpenSequence.addNodes_cons, ← htail]
      cases ht : n.isText with
      | true =>
          cases n with
          | text t =>
              have hadd := OpenSequence.addText_of_last? (hs _ rfl rfl) t
              rw [Node.tokens, Token.textTokens_of_ne hn.1, List.singleton_append, ← hadd]
              exact run_of_step rfl _
          | _ => exact absurd ht (by simp [Node.isText])
      | false => exact run_node n hn.1 ht s _

end

end Reading

end TextGrammar
