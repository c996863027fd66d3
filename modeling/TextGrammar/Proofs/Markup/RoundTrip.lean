import TextGrammar.Proofs.Markup.Rereading

/-!
# Reading back what was written

Rule text that spells nodes in normal form is read as these nodes (`parseText_ruleText`). It is
cut into the tokens of the nodes, and these are read back one after the other. The weight at the
end is taken off before reading, and nothing else in a spelling looks like one, because the last
token of a node that is no text is a hash or a closing bracket.
-/

namespace TextGrammar

open Token (textTokens ofMark ofText)

open Reading

theorem readNodes_tokensAll {ns : List Node} (h : Node.NormalSequence ns) :
    readNodes (Node.tokensAll ns) = .ok ns := by
  have hrun := run_tokensAll ns h.1 h.2 (.top []) (fun _ _ _ m hm =>
    absurd hm (by simp [OpenSequence.last?])) []
  rw [List.append_nil, OpenSequence.addNodes_top, List.append_nil, State.run_nil] at hrun
  rw [readNodes, State.initial, hrun]
  exact congrArg Except.ok ns.reverse_reverse

/-! ## The weight at the end -/

/-- Whatever is no text ends with a mark, which is no comma. -/
theorem Node.exists_tokens_eq_append {n : Node} (hn : n.Normal) (ht : n.isText = false) :
    ∃ (ts : List Token) (m : Mark), n.tokens = ts ++ [ofMark m] ∧ m ≠ .comma := by
  cases n with
  | text t => exact absurd ht (by simp [Node.isText])
  | reference name modifiers actions =>
      refine ⟨ofMark .hash :: (Assignment.tokensAll actions ++ (textTokens name ++
        modifiers.flatMap ModifierCall.tokens)), .hash, ?_, by decide⟩
      simp [Node.tokens]
  | assign a =>
      obtain ⟨name, value⟩ := a
      refine ⟨ofMark .openBracket :: (textTokens name ++ ofMark .colon :: Node.tokensAll value),
        .closeBracket, ?_, by decide⟩
      simp [Node.tokens, Assignment.tokens]
  | weight value => exact False.elim hn
  | stray shown => exact False.elim hn

/-- So does a sequence in which that comes last. -/
theorem Node.exists_tokensAll_eq_append {front : List Node} {n : Node} (hn : n.Normal)
    (ht : n.isText = false) :
    ∃ (ts : List Token) (m : Mark), Node.tokensAll (front ++ [n]) = ts ++ [ofMark m] ∧
      m ≠ .comma := by
  obtain ⟨ts, m, hts, hm⟩ := Node.exists_tokens_eq_append hn ht
  refine ⟨Node.tokensAll front ++ ts, m, ?_, hm⟩
  rw [Node.tokensAll_append, Node.tokensAll, Node.tokensAll, List.append_nil, hts,
    List.append_assoc]

theorem Node.tokensAll_ne_nil {ns : List Node} (hne : ns ≠ []) (h : Node.NormalSequence ns) :
    Node.tokensAll ns ≠ [] := by
  cases ns with
  | nil => exact absurd rfl hne
  | cons m rest =>
      rw [Node.tokensAll]
      refine List.append_ne_nil_of_left_ne_nil ?_ _
      cases ht : m.isText with
      | true =>
          cases m with
          | text t => rw [Node.tokens, Token.textTokens_of_ne h.2.1]; simp
          | _ => exact absurd ht (by simp [Node.isText])
      | false =>
          obtain ⟨ts, k, hts, -⟩ := Node.exists_tokens_eq_append h.2.1 ht
          rw [hts]
          simp

/-- Tokens that do not end with a comma and a text have no weight. -/
theorem splitWeight_of_no_suffix {ts : List Token}
    (h : ∀ before sep value, ts = before ++ [sep, value] → sep.kind = .mark .comma →
      value.kind ≠ .text) : splitWeight ts = .ok (ts, none) := by
  unfold splitWeight
  split
  · next value sep last before hrev =>
      have hts : ts = (last :: before).reverse ++ [sep, value] := by
        rw [← List.reverse_reverse ts, hrev]
        simp
      refine if_neg ?_
      rintro ⟨hsep, hvalue, _⟩
      exact h _ sep value hts hsep hvalue
  · rfl

/-- The spelling of a sequence in normal form does not end like one with a weight. -/
theorem splitWeight_tokensAll {ns : List Node} (h : Node.NormalSequence ns) :
    splitWeight (Node.tokensAll ns) = .ok (Node.tokensAll ns, none) := by
  refine splitWeight_of_no_suffix ?_
  intro before sep value heq hsep hvalue
  rcases List.eq_nil_or_concat ns with rfl | ⟨init, last, rfl⟩
  · exact absurd heq.symm (by simp [Node.tokensAll])
  · rw [List.concat_eq_append] at h heq
    have hnormal := Node.allNormal_iff.1 h.2
    have hsplit : before ++ [sep, value] = (before ++ [sep]) ++ [value] := by simp
    rw [hsplit] at heq
    cases ht : last.isText with
    | false =>
        obtain ⟨ts, m, hts, -⟩ := Node.exists_tokensAll_eq_append (hnormal last (by simp)) ht
        rw [hts] at heq
        rw [← (List.append_inj' heq rfl).2 |> List.singleton_inj.1] at hvalue
        exact absurd hvalue (by simp [ofMark])
    | true =>
        cases last with
        | text t =>
            have hne : t ≠ "" := hnormal (.text t) (by simp)
            rw [Node.tokensAll_append, Node.tokensAll, Node.tokensAll, List.append_nil,
              Node.tokens, Token.textTokens_of_ne hne] at heq
            have hinit := (List.append_inj' heq rfl).1
            rcases List.eq_nil_or_concat init with rfl | ⟨front, m, rfl⟩
            · exact absurd hinit.symm (by simp [Node.tokensAll])
            · rw [List.concat_eq_append] at h hinit
              have happend : Node.TextsApart (front ++ [m, .text t]) := by simpa using h.1
              have hapart := happend.of_append
              have hm : m.isText = false := by
                simpa [Node.TextsApart, Node.isText] using hapart.1
              obtain ⟨ts, k, hts, hk⟩ :=
                Node.exists_tokensAll_eq_append (hnormal m (by simp)) hm
              rw [hts] at hinit
              rw [← (List.append_inj' hinit rfl).2 |> List.singleton_inj.1] at hsep
              exact hk (TokenKind.mark.inj hsep)
        | _ => exact absurd ht (by simp [Node.isText])

/-- A weight behind a sequence is taken off again. -/
theorem splitWeight_tokensAll_weight {ns : List Node} (hne : ns ≠ [])
    (h : Node.NormalSequence ns) {n : Nat} (hpos : 0 < n) (hlt : n < tenTo maxDigits) :
    splitWeight (Node.tokensAll (ns ++ [.weight n])) = .ok (Node.tokensAll ns, some n) := by
  obtain ⟨before, last, hlast⟩ : ∃ before last, Node.tokensAll ns = before ++ [last] :=
    ⟨_, _, (List.dropLast_concat_getLast (Node.tokensAll_ne_nil hne h)).symm⟩
  have hrev : (Node.tokensAll (ns ++ [.weight n])).reverse =
      ofText (toString n) :: ofMark .comma :: last :: before.reverse := by
    rw [Node.tokensAll_append, hlast]
    simp [Node.tokensAll, Node.tokens]
  have hread : readInt (ofText (toString n)).text = .ok (n : Int) := readInt_toString hlt
  rw [splitWeight, hrev]
  simp only
  rw [if_pos ⟨rfl, rfl, isDigitText_toString n⟩, hread]
  simp only
  rw [if_neg (by omega), Int.toNat_natCast, hlast]
  simp

/-- Reading undoes writing: the rule text of nodes in normal form is read as these nodes. A
weight at their end is read where weights are, and where none is there it does not matter
whether weights are read. -/
theorem parseText_ruleText (ns : List Node) (h : Node.NormalCandidate ns) :
    parseText (ruleText ns) true = .ok ns ∧
      ((∀ n ∈ ns, n.weight? = none) → parseText (ruleText ns) false = .ok ns) := by
  rcases h with hseq | ⟨body, n, rfl, hne, hbody, hpos, hlt⟩
  · rw [parseText, parseText, tokenize_ruleText hseq]
    simp [parse, splitWeight_tokensAll hseq, readNodes_tokensAll hseq]
  · constructor
    · rw [parseText, tokenize_ruleText_weight hbody]
      simp [parse, splitWeight_tokensAll_weight hne hbody hpos hlt, readNodes_tokensAll hbody]
    · intro hnone
      exact absurd (hnone (.weight n) (by simp)) (by simp [Node.weight?])

/-- Marks in texts, empty names and arguments, nested brackets and a weight at once. -/
theorem parseText_ruleText_nested :
    let body : List Node := [
      .text "a,7\\", .reference "" [⟨"m", ["", "x)"]⟩] [⟨"t", [.text "#", .reference "" []
        [⟨"u", []⟩], .assign ⟨"v.w", [.text "]"]⟩]⟩], .text " "]
    Node.NormalCandidate (body ++ [.weight 12]) ∧
      parseText (ruleText (body ++ [.weight 12])) true = .ok (body ++ [.weight 12]) ∧
      Node.NormalCandidate body ∧ parseText (ruleText body) false = .ok body := by
  intro body
  have hseq : Node.NormalSequence body := by
    have hm : strip "m" = "m" := by decide
    have ht : strip "t" = "t" := by decide
    have hu : strip "u" = "u" := by decide
    have hv : strip "v.w" = "v.w" := by decide
    simp [body, Node.NormalSequence, Node.TextsApart, Node.AllNormal, Node.Normal,
      Assignment.AllNormal, Assignment.Normal, ModifierCall.Normal, IsStripped, Node.isText,
      hm, ht, hu, hv]
  have hweight : Node.NormalCandidate (body ++ [.weight 12]) :=
    .inr ⟨body, 12, rfl, by simp [body], hseq, by decide, by decide +kernel⟩
  have hnone : ∀ n ∈ body, n.weight? = none := by simp [body, Node.weight?]
  exact ⟨hweight, (parseText_ruleText _ hweight).1, .inl hseq,
    (parseText_ruleText body (.inl hseq)).2 hnone⟩

end TextGrammar
