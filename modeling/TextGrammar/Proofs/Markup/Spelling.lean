import TextGrammar.Markup.NormalForm
import TextGrammar.Markup.Writing
import TextGrammar.Proofs.Markup.Cutting
import TextGrammar.Proofs.Text.Numeral

/-!
# The tokens of nodes

The tokens that spell a sequence of nodes, said without going through characters, and the main
statements that cutting the spelling of a sequence gives these tokens: `tokenize_ruleText` for a
sequence in normal form and `tokenize_ruleText_weight` for one with a weight behind it. Texts
that do not touch are what makes this true: two texts side by side would be cut as one.
-/

namespace TextGrammar

open Token (textTokens ofMark Breaks)

def argumentTokens : List Text → List Token
  | [] => []
  | [arg] => textTokens arg
  | arg :: rest => textTokens arg ++ ofMark .comma :: argumentTokens rest

def ModifierCall.tokens (call : ModifierCall) : List Token :=
  ofMark .dot :: (textTokens call.name ++
    if call.args.isEmpty then []
    else ofMark .openParen :: (argumentTokens call.args ++ [ofMark .closeParen]))

mutual

def Node.tokens : Node → List Token
  | .text t => textTokens t
  | .reference name modifiers actions =>
      ofMark .hash :: (Assignment.tokensAll actions ++ (textTokens name ++
        (modifiers.flatMap ModifierCall.tokens ++ [ofMark .hash])))
  | .assign a => a.tokens
  | .weight n => [ofMark .comma, .ofText (toString n)]
  | .stray _ => []

def Assignment.tokens : Assignment → List Token
  | ⟨name, value⟩ =>
      ofMark .openBracket :: (textTokens name ++
        ofMark .colon :: (Node.tokensAll value ++ [ofMark .closeBracket]))

def Assignment.tokensAll : List Assignment → List Token
  | [] => []
  | a :: rest => a.tokens ++ Assignment.tokensAll rest

def Node.tokensAll : List Node → List Token
  | [] => []
  | n :: rest => n.tokens ++ Node.tokensAll rest

end

theorem Node.writeAll_append (ns ms : List Node) :
    Node.writeAll (ns ++ ms) = Node.writeAll ns ++ Node.writeAll ms := by
  induction ns with
  | nil => rfl
  | cons n rest ih =>
      rw [List.cons_append, Node.writeAll_cons, ih, Node.writeAll_cons, List.append_assoc]

theorem Node.tokensAll_append (ns ms : List Node) :
    Node.tokensAll (ns ++ ms) = Node.tokensAll ns ++ Node.tokensAll ms := by
  induction ns with
  | nil => rfl
  | cons n rest ih =>
      rw [List.cons_append, Node.tokensAll, ih, Node.tokensAll, List.append_assoc]

/-! ## Arguments and modifiers -/

theorem cut_writeArguments (args : List Text) {rest : List CodePoint} (h : Breaks rest) :
    Token.cut [] (writeArguments args ++ rest) = argumentTokens args ++ Token.cut [] rest := by
  induction args with
  | nil => rfl
  | cons arg args ih =>
      cases args with
      | nil => exact Token.cut_text arg h
      | cons next args =>
          rw [writeArguments, argumentTokens, List.append_assoc, List.cons_append,
            Token.cut_text arg (Token.breaks_char ',' .comma rfl _),
            Token.cut_nil_char ',' .comma rfl, ih, List.append_assoc, List.cons_append]
          · simp
          · simp

theorem ModifierCall.cut_write (call : ModifierCall) {rest : List CodePoint} (h : Breaks rest) :
    Token.cut [] (call.write ++ rest) = call.tokens ++ Token.cut [] rest := by
  unfold ModifierCall.write ModifierCall.tokens
  rw [List.cons_append, Token.cut_nil_char '.' .dot rfl, List.append_assoc]
  cases hargs : call.args.isEmpty with
  | true =>
      rw [if_pos rfl, if_pos rfl, List.nil_append, List.append_nil, Token.cut_text call.name h]
      rfl
  | false =>
      rw [if_neg Bool.false_ne_true, if_neg Bool.false_ne_true, List.cons_append,
        Token.cut_text call.name (Token.breaks_char '(' .openParen rfl _),
        Token.cut_nil_char '(' .openParen rfl, List.append_assoc, List.singleton_append,
        cut_writeArguments call.args (Token.breaks_char ')' .closeParen rfl _),
        Token.cut_nil_char ')' .closeParen rfl]
      simp

theorem ModifierCall.breaks_write (call : ModifierCall) (rest : List CodePoint) :
    Breaks (call.write ++ rest) :=
  Token.breaks_char '.' .dot rfl _

theorem ModifierCall.cut_flatMap_write (calls : List ModifierCall) {rest : List CodePoint}
    (h : Breaks rest) :
    Token.cut [] (calls.flatMap ModifierCall.write ++ rest) =
      calls.flatMap ModifierCall.tokens ++ Token.cut [] rest := by
  induction calls with
  | nil => rfl
  | cons call calls ih =>
      have hrest : Breaks (calls.flatMap ModifierCall.write ++ rest) := by
        cases calls with
        | nil => exact h
        | cons next calls =>
            rw [List.flatMap_cons, List.append_assoc]
            exact next.breaks_write _
      rw [List.flatMap_cons, List.append_assoc, call.cut_write hrest, ih, List.flatMap_cons,
        List.append_assoc]

/-! ## Nodes -/

/-- Whatever is no text begins with a mark. -/
theorem Node.breaks_write {n : Node} (hn : n.Normal) (ht : n.isText = false)
    (rest : List CodePoint) : Breaks (n.write ++ rest) := by
  cases n with
  | text t => exact absurd ht (by simp [Node.isText])
  | reference name modifiers actions =>
      rw [Node.write]
      exact Token.breaks_char '#' .hash rfl _
  | assign a =>
      obtain ⟨name, value⟩ := a
      rw [Node.write, Assignment.write]
      exact Token.breaks_char '[' .openBracket rfl _
  | weight value => exact False.elim hn
  | stray shown => exact False.elim hn

/-- A run of text ends before a sequence that does not begin with text. -/
theorem Node.breaks_writeAll {ns : List Node} (hns : Node.AllNormal ns)
    (ht : ∀ n ∈ ns.head?, n.isText = false) {rest : List CodePoint} (h : Breaks rest) :
    Breaks (Node.writeAll ns ++ rest) := by
  cases ns with
  | nil => exact h
  | cons n ns =>
      rw [Node.writeAll_cons, List.append_assoc]
      exact Node.breaks_write hns.1 (ht n rfl) _

mutual

theorem Assignment.cut_write : ∀ (a : Assignment), a.Normal → ∀ rest : List CodePoint,
    Token.cut [] (a.write ++ rest) = a.tokens ++ Token.cut [] rest
  | ⟨name, value⟩, h, rest => by
      have hvalue := Node.cut_writeAll value h.2.1 h.2.2
        (Token.breaks_char ']' .closeBracket rfl rest)
      rw [Assignment.write, Assignment.tokens, List.cons_append,
        Token.cut_nil_char '[' .openBracket rfl, List.append_assoc, List.cons_append,
        Token.cut_text name (Token.breaks_char ':' .colon rfl _),
        Token.cut_nil_char ':' .colon rfl, List.append_assoc, List.singleton_append, hvalue,
        Token.cut_nil_char ']' .closeBracket rfl]
      simp

theorem Assignment.cut_writeAll : ∀ as : List Assignment, Assignment.AllNormal as →
    ∀ rest : List CodePoint,
    Token.cut [] (Assignment.writeAll as ++ rest) =
      Assignment.tokensAll as ++ Token.cut [] rest
  | [], _, _ => rfl
  | a :: as, h, rest => by
      rw [Assignment.writeAll_cons, List.append_assoc, Assignment.cut_write a h.1,
        Assignment.cut_writeAll as h.2 rest, Assignment.tokensAll, List.append_assoc]

theorem Node.cut_write : ∀ n : Node, n.Normal → n.isText = false → ∀ rest : List CodePoint,
    Token.cut [] (n.write ++ rest) = n.tokens ++ Token.cut [] rest
  | .text t, _, ht, _ => absurd ht (by simp [Node.isText])
  | .reference name modifiers actions, h, _, rest => by
      have hhash := Token.breaks_char '#' .hash rfl rest
      have hname : Breaks (modifiers.flatMap ModifierCall.write ++ .char '#' :: rest) := by
        cases modifiers with
        | nil => exact hhash
        | cons call calls =>
            rw [List.flatMap_cons, List.append_assoc]
            exact call.breaks_write _
      rw [Node.write, Node.tokens, List.cons_append, Token.cut_nil_char '#' .hash rfl,
        List.append_assoc, List.append_assoc, List.append_assoc, List.singleton_append,
        Assignment.cut_writeAll actions h.2.2, Token.cut_text name hname,
        ModifierCall.cut_flatMap_write modifiers hhash, Token.cut_nil_char '#' .hash rfl]
      simp
  | .assign a, h, _, rest => by
      rw [Node.write, Node.tokens]
      exact Assignment.cut_write a h rest
  | .weight _, h, _, _ => False.elim h
  | .stray _, h, _, _ => False.elim h

/-- A sequence in normal form is cut into its tokens, wherever no run of text goes on behind
it. -/
theorem Node.cut_writeAll : ∀ ns : List Node, Node.TextsApart ns → Node.AllNormal ns →
    ∀ {rest : List CodePoint}, Breaks rest →
    Token.cut [] (Node.writeAll ns ++ rest) = Node.tokensAll ns ++ Token.cut [] rest
  | [], _, _, _, _ => rfl
  | n :: ns, ha, hn, rest, h => by
      obtain ⟨hnext, hapart⟩ := (Node.textsApart_cons n ns).1 ha
      have htail := Node.cut_writeAll ns hapart hn.2 h
      rw [Node.writeAll_cons, Node.tokensAll, List.append_assoc, List.append_assoc, ← htail]
      cases ht : n.isText with
      | true =>
          cases n with
          | text t => exact Token.cut_text t (Node.breaks_writeAll hn.2 (hnext ht) h)
          | _ => exact absurd ht (by simp [Node.isText])
      | false => exact Node.cut_write n hn.1 ht _

end

/-- The spelling of a sequence in normal form is cut into its tokens. -/
theorem tokenize_ruleText {ns : List Node} (h : Node.NormalSequence ns) :
    tokenize (ruleText ns) = Node.tokensAll ns := by
  have hcut := Node.cut_writeAll ns h.1 h.2 Token.breaks_nil
  rw [List.append_nil, Token.cut_nil] at hcut
  rw [tokenize, ruleText, Text.toList_ofList, hcut]
  exact List.append_nil _

theorem escapeChars_toString (n : Nat) :
    escapeChars (toString n : Text).toList = (toString n : Text).toList := by
  apply escapeChars_of_plain
  intro c hc
  obtain ⟨d, hd, rfl⟩ := List.mem_map.1 hc
  have hbounds := (isDigit_iff_toNat d).1 (isDigit_of_mem_toString hd)
  rw [needsEscape_eq_false_iff]
  constructor
  · intro hslash
    cases hslash
    exact absurd hbounds (by decide)
  · cases hm : Mark.ofChar? (.char d) with
    | none => rfl
    | some m =>
        have hmark := Mark.ofChar?_eq_some_iff.1 hm
        cases m <;> cases hmark <;> exact absurd hbounds (by decide)

/-- A weight behind a sequence in normal form is cut into a comma and its digits. -/
theorem tokenize_ruleText_weight {ns : List Node} (h : Node.NormalSequence ns) (n : Nat) :
    tokenize (ruleText (ns ++ [.weight n])) = Node.tokensAll (ns ++ [.weight n]) := by
  have hwrite : Node.writeAll (ns ++ [.weight n]) =
      Node.writeAll ns ++ .char ',' :: escapeChars (toString n : Text).toList := by
    rw [escapeChars_toString, Node.writeAll_append]
    simp [Node.write]
  have hcomma := Token.breaks_char ',' .comma rfl (escapeChars (toString n : Text).toList)
  have hdigits := Token.cut_text (toString n) Token.breaks_nil
  have hne : (toString n : Text) ≠ "" := by
    rw [Ne, Text.ofString_inj, Nat.toString_eq_repr]
    exact Nat.repr_ne_empty
  rw [List.append_nil, Token.textTokens_of_ne hne] at hdigits
  rw [tokenize, ruleText, Text.toList_ofList, hwrite, Node.cut_writeAll ns h.1 h.2 hcomma,
    Token.cut_nil_char ',' .comma rfl, hdigits, Node.tokensAll_append]
  rfl

end TextGrammar
