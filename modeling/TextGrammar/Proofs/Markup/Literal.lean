import TextGrammar.Proofs.Markup.RoundTrip
import TextGrammar.Rule.Definition

/-!
# Literal text

A text that stands for itself is read as one text, or as nothing where it is empty (`literal`). An
escaped text is such a text wherever it stands: alone, as a candidate, or as the value of a tag. A
text without hashes, brackets and backslashes need not even be escaped where it stands alone, since
the other marks mean nothing between the nodes of a sequence.

A word is a name that stands for itself too, because nothing in it needs an escape and nothing is
stripped from it.
-/

namespace TextGrammar

open Reading

/-- The nodes of a text that stands for itself. -/
def literal (text : Text) : List Node := if text = "" then [] else [.text text]

theorem literal_of_ne {text : Text} (h : text ≠ "") : literal text = [.text text] := if_neg h

theorem literal_normal (text : Text) : Node.NormalSequence (literal text) := by
  by_cases h : text = ""
  · rw [h]
    exact ⟨trivial, trivial⟩
  · rw [literal_of_ne h]
    exact ⟨trivial, h, trivial⟩

theorem writeAll_literal (text : Text) :
    Node.writeAll (literal text) = escapeChars text.toList := by
  by_cases h : text = ""
  · rw [h]
    rfl
  · rw [literal_of_ne h, Node.writeAll_cons, Node.writeAll_nil, List.append_nil, Node.write]

theorem ruleText_literal (text : Text) : ruleText (literal text) = escape text := by
  rw [ruleText, writeAll_literal, escape]

/-- Whether weights are read or not, rule text of nodes without a weight is read as these nodes. -/
theorem parseText_ruleText_of_normal {ns : List Node} (h : Node.NormalSequence ns)
    (allowWeight : Bool) : parseText (ruleText ns) allowWeight = .ok ns := by
  rw [parseText, tokenize_ruleText h]
  cases allowWeight with
  | true => simp [parse, splitWeight_tokensAll h, readNodes_tokensAll h]
  | false => simp [parse, readNodes_tokensAll h]

theorem parseText_escape (text : Text) (allowWeight : Bool) :
    parseText (escape text) allowWeight = .ok (literal text) := by
  rw [← ruleText_literal, parseText_ruleText_of_normal (literal_normal text)]

/-! ## Words -/

/-- A name that stands for itself: none of its characters has a structural meaning or is blank. All
names made of letters and digits are words. -/
def IsWord (name : Text) : Prop :=
  name ≠ "" ∧ ∀ c ∈ name.toList, needsEscape c = false ∧ isBlank c = false

theorem isWord_of_isAlphanum {name : String} (hne : name ≠ "")
    (h : ∀ c ∈ name.toList, c.isAlphanum = true) : IsWord name := by
  refine ⟨fun heq => hne (Text.ofString_inj.1 heq), fun point hpoint => ?_⟩
  obtain ⟨c, hc, rfl⟩ := List.mem_map.1 hpoint
  have hbounds : (48 ≤ c.toNat ∧ c.toNat ≤ 57) ∨ (65 ≤ c.toNat ∧ c.toNat ≤ 90) ∨
      97 ≤ c.toNat ∧ c.toNat ≤ 122 := by
    have halpha := h c hc
    unfold Char.isAlphanum Char.isAlpha Char.isUpper Char.isLower Char.isDigit at halpha
    simp only [Bool.or_eq_true, Bool.and_eq_true, decide_eq_true_eq,
      UInt32.le_iff_toNat_le] at halpha
    change ((65 ≤ c.toNat ∧ c.toNat ≤ 90) ∨ 97 ≤ c.toNat ∧ c.toNat ≤ 122) ∨
      48 ≤ c.toNat ∧ c.toNat ≤ 57 at halpha
    omega
  constructor
  · rw [needsEscape_eq_false_iff]
    constructor
    · intro hslash
      cases hslash
      exact absurd hbounds (by decide)
    · cases hm : Mark.ofChar? (.char c) with
      | none => rfl
      | some m =>
          have hmark := Mark.ofChar?_eq_some_iff.1 hm
          cases m <;> cases hmark <;> exact absurd hbounds (by decide)
  · cases hblank : isBlank (.char c) with
    | false => rfl
    | true =>
        obtain ⟨r, hr, hrange⟩ := CodePoint.inRanges_iff.1 hblank
        simp only [blankRanges, List.mem_cons, List.not_mem_nil, or_false] at hr
        rcases hr with rfl | rfl | rfl | rfl | rfl | rfl | rfl | rfl | rfl | rfl
        all_goals
          rw [CodePoint.toNat_char] at hrange
          omega

theorem stripChars_of_not_blank {cs : List CodePoint} (h : ∀ c ∈ cs, isBlank c = false) :
    stripChars cs = cs := by
  have hdrop {ds : List CodePoint} (hd : ∀ c ∈ ds, isBlank c = false) :
      ds.dropWhile isBlank = ds := by
    cases ds with
    | nil => rfl
    | cons d ds => rw [List.dropWhile_cons, hd d (List.mem_cons_self ..), if_neg Bool.false_ne_true]
  rw [stripChars, hdrop h, hdrop fun c hc => h c (List.mem_reverse.1 hc), List.reverse_reverse]

namespace IsWord

variable {name : Text}

theorem escapeChars_eq (h : IsWord name) : escapeChars name.toList = name.toList :=
  escapeChars_of_plain fun c hc => (h.2 c hc).1

theorem isStripped (h : IsWord name) : IsStripped name := by
  refine ⟨h.1, ?_⟩
  rw [strip, stripChars_of_not_blank fun c hc => (h.2 c hc).2, Text.ofList_toList]

theorem isRuleName (h : IsWord name) : isRuleName name = true := by
  have hcut := Token.cut_text name Token.breaks_nil
  rw [List.append_nil, h.escapeChars_eq, Token.textTokens_of_ne h.1] at hcut
  have htokens : tokenize name = [Token.ofText name] := hcut
  have hmark (c : CodePoint) (hc : needsEscape c = true) : name.toList.contains c = false := by
    cases hmem : name.toList.contains c with
    | false => rfl
    | true => exact absurd hc (by rw [(h.2 c (List.contains_iff_mem.1 hmem)).1]; decide)
  rw [TextGrammar.isRuleName, isPlainName, htokens, hmark '#' (by decide), hmark '[' (by decide)]
  rfl

/-- A tag that is bound to a literal text, and then referred to. -/
theorem parseText_bound (h : IsWord name) (text : Text) :
    parseText ("[" ++ name ++ ":" ++ escape text ++ "]#" ++ name ++ "#") false =
      .ok [.assign ⟨name, literal text⟩, .reference name [] []] := by
  have hnormal : Node.NormalSequence [.assign ⟨name, literal text⟩, .reference name [] []] :=
    ⟨⟨nofun, trivial⟩, ⟨h.isStripped, literal_normal text⟩, ⟨.inl h.1, nofun, trivial⟩, trivial⟩
  rw [← parseText_ruleText_of_normal hnormal false]
  congr 1
  apply Text.ext
  simp [ruleText, Node.write, Assignment.write, writeAll_literal, h.escapeChars_eq, escape]

theorem parseText_reference (h : IsWord name) :
    parseText ("#" ++ name ++ "#") false = .ok [.reference name [] []] := by
  have hnormal : Node.NormalSequence [.reference name [] []] :=
    ⟨trivial, ⟨.inl h.1, nofun, trivial⟩, trivial⟩
  rw [← parseText_ruleText_of_normal hnormal false]
  congr 1
  apply Text.ext
  simp [ruleText, Node.write, h.escapeChars_eq]

end IsWord

/-! ## Text that needs no escape where it stands alone -/

/-- A character that means nothing between the nodes of a sequence. -/
def IsInert (c : CodePoint) : Prop := c ≠ '#' ∧ c ≠ '[' ∧ c ≠ ']' ∧ c ≠ '\\'

instance (c : CodePoint) : Decidable (IsInert c) := inferInstanceAs (Decidable (_ ∧ _))

theorem addText_literal (before : Text) {text : Text} (h : text ≠ "") :
    addText text (literal before) = literal (before ++ text) := by
  have hne : before ++ text ≠ "" := by
    intro hnil
    exact h (Text.append_eq_empty_iff.1 hnil).2
  rw [literal_of_ne hne]
  by_cases hbefore : before = ""
  · rw [hbefore, Text.empty_append]
    rfl
  · rw [literal_of_ne hbefore]
    rfl

/-- A token that is no hash and no bracket joins the text before it. -/
theorem run_inert (before : Text) {t : Token} (hne : t.text ≠ "")
    (hkind : ∀ m, t.kind = .mark m → m ≠ .hash ∧ m ≠ .openBracket ∧ m ≠ .closeBracket)
    (rest : List Token) :
    (State.inSequence (.top (literal before))).run (t :: rest) =
      (State.inSequence (.top (literal (before ++ t.text)))).run rest := by
  apply run_of_step
  have hadd : (OpenSequence.top (literal before)).addText t.text =
      .top (literal (before ++ t.text)) :=
    congrArg OpenSequence.top (addText_literal before hne)
  simp only [State.step]
  split
  · next h => exact absurd rfl (hkind _ h).2.2
  · next h => exact absurd rfl (hkind _ h).1
  · next h => exact absurd rfl (hkind _ h).2.1
  · rw [hadd]

theorem run_flush (before : Text) (held : List CodePoint) (rest : List Token) :
    (State.inSequence (.top (literal before))).run (Token.flush held rest) =
      (State.inSequence (.top (literal (before ++ Text.ofList held.reverse)))).run rest := by
  cases held with
  | nil =>
      rw [List.reverse_nil, Text.ofList_nil, Text.append_empty]
      rfl
  | cons c held =>
      have hne : (Token.ofText (Text.ofList (c :: held).reverse)).text ≠ "" := by
        simp [Token.ofText]
      exact run_inert before hne (fun m hm => by cases hm) rest

theorem run_cut_inert {cs : List CodePoint} (h : ∀ c ∈ cs, IsInert c) (before : Text)
    (held : List CodePoint) :
    (State.inSequence (.top (literal before))).run (Token.cut held cs) =
      .ok (.inSequence (.top (literal (before ++ Text.ofList (held.reverse ++ cs))))) := by
  induction cs generalizing before held with
  | nil => rw [Token.cut_nil, run_flush, List.append_nil, State.run_nil]
  | cons c cs ih =>
      rw [List.forall_mem_cons] at h
      obtain ⟨⟨hhash, hopen, hclose, hslash⟩, hrest⟩ := h
      cases hm : Mark.ofChar? c with
      | none =>
          rw [Token.cut_plain held cs hm hslash, ih hrest, List.reverse_cons, List.append_assoc,
            List.singleton_append]
      | some m =>
          obtain rfl : m.char = c := Mark.ofChar?_eq_some_iff.1 hm
          have hkind (k : Mark) (hk : (Token.ofMark m).kind = .mark k) :
              k ≠ .hash ∧ k ≠ .openBracket ∧ k ≠ .closeBracket := by
            obtain rfl : m = k := TokenKind.mark.inj hk
            exact ⟨by rintro rfl; exact hhash rfl, by rintro rfl; exact hopen rfl,
              by rintro rfl; exact hclose rfl⟩
          have hne : (Token.ofMark m).text ≠ "" := Text.singleton_ne_empty m.char
          rw [Token.cut_mark, run_flush, run_inert _ hne hkind, ih hrest]
          congr 4
          apply Text.ext
          simp [Token.ofMark]

theorem parseText_inert {text : Text} (h : ∀ c ∈ text.toList, IsInert c) :
    parseText text false = .ok (literal text) := by
  have hrun := run_cut_inert h "" []
  have hread : readNodes (tokenize text) = .ok (literal text) := by
    have hfinish : State.finish (.inSequence (.top (literal text))) = .ok (literal text) := by
      by_cases hempty : text = ""
      · rw [hempty]
        rfl
      · rw [literal_of_ne hempty]
        rfl
    rw [List.reverse_nil, List.nil_append, Text.empty_append, Text.ofList_toList] at hrun
    change State.run (.inSequence (.top (literal ""))) _ >>= State.finish = _
    rw [tokenize, hrun]
    exact hfinish
  simp [parseText, parse, hread]

end TextGrammar
