import TextGrammar.Proofs.Engine.Verbatim
import TextGrammar.Proofs.Markup.Literal
import TextGrammar.Proofs.Registry.Registration

/-!
# Rule names between hashes

A rule is kept under its name as it is given, and a reference is to the name that has been read. A
name may hold backslashes; reading drops those that take the next character out of the structure, so
that such a name, written between two hashes as it is, refers to another one, and if it ends with
such a backslash there is no reference at all, since it takes the closing hash
(`parseText_between_hashes`). What refers to a rule is its name with every backslash and mark
escaped, which is the name itself if there is no backslash in it (`reference_to_rule_name`).
-/

namespace TextGrammar

/-! ## What a text stands for -/

/-- The characters that are read: a backslash is dropped and the character behind it stays. -/
def unescapeChars : List CodePoint → List CodePoint
  | [] => []
  | '\\' :: c :: rest => c :: unescapeChars rest
  | c :: rest => c :: unescapeChars rest

/-- What is read of a text that has no structure. -/
def unescape (text : Text) : Text := Text.ofList (unescapeChars text.toList)

/-- Whether a backslash at the end would take what comes behind. -/
def isOpenEnded : List CodePoint → Bool
  | [] => false
  | ['\\'] => true
  | '\\' :: _ :: rest => isOpenEnded rest
  | _ :: rest => isOpenEnded rest

theorem unescapeChars_cons {c : CodePoint} (h : c ≠ '\\') (rest : List CodePoint) :
    unescapeChars (c :: rest) = c :: unescapeChars rest := by
  rw [unescapeChars]
  rintro _ _ rfl
  exact absurd rfl h

theorem isOpenEnded_cons {c : CodePoint} (h : c ≠ '\\') (rest : List CodePoint) :
    isOpenEnded (c :: rest) = isOpenEnded rest := by
  rw [isOpenEnded]
  · rintro rfl
    exact absurd rfl h
  · rintro _ _ rfl
    exact absurd rfl h

/-- A backslash that takes nothing stands at the end. -/
theorem ne_backslash_of_not_open {c : CodePoint} {cs : List CodePoint}
    (hnot : ∀ d rest, c = '\\' → cs = d :: rest → False) (hend : isOpenEnded (c :: cs) = false) :
    c ≠ '\\' := by
  rintro rfl
  cases cs with
  | nil => cases hend
  | cons d rest => exact hnot d rest rfl rfl

theorem unescapeChars_of_notMem {cs : List CodePoint} (h : CodePoint.char '\\' ∉ cs) :
    unescapeChars cs = cs ∧ isOpenEnded cs = false := by
  induction cs with
  | nil => exact ⟨rfl, rfl⟩
  | cons c cs ih =>
      rw [List.mem_cons, not_or] at h
      rw [unescapeChars_cons (Ne.symm h.1), isOpenEnded_cons (Ne.symm h.1), (ih h.2).1]
      exact ⟨rfl, (ih h.2).2⟩

theorem length_unescapeChars_le (cs : List CodePoint) : (unescapeChars cs).length ≤ cs.length := by
  fun_induction unescapeChars cs with
  | case1 => exact Nat.le_refl _
  | case2 c rest ih =>
      simp only [List.length_cons]
      omega
  | case3 c rest _ ih =>
      simp only [List.length_cons]
      omega

/-- Something is dropped of a text with a backslash, unless it is the one at the end. -/
theorem length_unescapeChars_lt {cs : List CodePoint} (h : CodePoint.char '\\' ∈ cs)
    (hend : isOpenEnded cs = false) :
    (unescapeChars cs).length < cs.length := by
  fun_induction unescapeChars cs with
  | case1 => cases h
  | case2 c rest ih =>
      have hle := length_unescapeChars_le rest
      simp only [List.length_cons]
      omega
  | case3 c rest hnot ih =>
      have hc : c ≠ '\\' := ne_backslash_of_not_open hnot hend
      rw [isOpenEnded_cons hc] at hend
      rw [List.mem_cons] at h
      have hlt := ih (h.resolve_left (Ne.symm hc)) hend
      simp only [List.length_cons]
      omega

/-! ## Cutting names -/

namespace Token

/-- What is cut into no mark holds none that is not escaped. -/
theorem ofChar?_eq_none_of_texts {held cs : List CodePoint} {c : CodePoint}
    (h : ∀ t ∈ cut held (c :: cs), t.kind = .text) : Mark.ofChar? c = none := by
  cases hm : Mark.ofChar? c with
  | none => rfl
  | some m =>
      obtain rfl := Mark.ofChar?_eq_some_iff.1 hm
      have hmem : ofMark m ∈ cut held (m.char :: cs) := by
        rw [cut_mark]
        unfold flush
        split <;> simp
      cases h (ofMark m) hmem

/-- Such characters need no escaping if there is no backslash among them. -/
theorem needsEscape_of_texts {held cs : List CodePoint} (h : ∀ t ∈ cut held cs, t.kind = .text)
    (hslash : CodePoint.char '\\' ∉ cs) : ∀ c ∈ cs, needsEscape c = false := by
  induction cs generalizing held with
  | nil => exact fun _ => nofun
  | cons c cs ih =>
      rw [List.mem_cons, not_or] at hslash
      have hmark := ofChar?_eq_none_of_texts h
      rw [cut_plain held cs hmark (Ne.symm hslash.1)] at h
      rw [List.forall_mem_cons, needsEscape_eq_false_iff]
      exact ⟨⟨Ne.symm hslash.1, hmark⟩, ih h hslash.2⟩

/-- Characters that are cut into no mark join the run of text before them, as what is read of
them. -/
theorem cut_append_of_texts {held cs : List CodePoint} (h : ∀ t ∈ cut held cs, t.kind = .text)
    (hend : isOpenEnded cs = false) (rest : List CodePoint) :
    cut held (cs ++ rest) = cut ((unescapeChars cs).reverse ++ held) rest := by
  fun_induction unescapeChars cs generalizing held with
  | case1 => rfl
  | case2 c cs ih =>
      rw [cut_backslash] at h
      rw [List.cons_append, List.cons_append, cut_backslash, ih h hend, List.reverse_cons,
        List.append_assoc, List.singleton_append]
  | case3 c cs hnot ih =>
      have hmark := ofChar?_eq_none_of_texts h
      have hc : c ≠ '\\' := ne_backslash_of_not_open hnot hend
      rw [cut_plain held cs hmark hc] at h
      rw [isOpenEnded_cons hc] at hend
      rw [List.cons_append, cut_plain held _ hmark hc, ih h hend, List.reverse_cons,
        List.append_assoc, List.singleton_append]

/-- With a backslash at the end they take the character behind them too. -/
theorem exists_cut_append_of_texts {held cs : List CodePoint}
    (h : ∀ t ∈ cut held cs, t.kind = .text)
    (hend : isOpenEnded cs = true) (c : CodePoint) (rest : List CodePoint) :
    ∃ run, cut held (cs ++ c :: rest) = cut (c :: run) rest := by
  fun_induction isOpenEnded cs generalizing held with
  | case1 => cases hend
  | case2 => exact ⟨held, cut_backslash held rest c⟩
  | case3 d cs ih =>
      rw [cut_backslash] at h
      rw [List.cons_append, List.cons_append, cut_backslash]
      exact ih h hend
  | case4 d cs hnil hnot ih =>
      have hmark := ofChar?_eq_none_of_texts h
      have hd : d ≠ '\\' := by
        rintro rfl
        cases cs with
        | nil => exact hnil rfl rfl
        | cons c' cs => exact hnot c' cs rfl rfl
      rw [cut_plain held cs hmark hd] at h
      rw [List.cons_append, cut_plain held _ hmark hd]
      exact ih h hend

end Token

/-! ## Reading names between hashes -/

open Token (ofMark ofText)

theorem kind_of_isPlainName {name : Text} (h : isPlainName name = true) :
    ∀ t ∈ Token.cut [] name.toList, t.kind = .text := by
  unfold isPlainName tokenize at h
  split at h
  · next t ht =>
      rw [ht]
      intro u hu
      rw [List.mem_singleton.1 hu]
      exact of_decide_eq_true h
  · cases h

theorem unescape_ne_empty {name : Text} (h : isPlainName name = true)
    (hend : isOpenEnded name.toList = false) : unescape name ≠ "" := by
  intro hempty
  have hnil : unescapeChars name.toList = [] := by
    rw [← Text.toList_ofList (unescapeChars name.toList)]
    exact congrArg Text.toList hempty
  have hcut := Token.cut_append_of_texts (kind_of_isPlainName h) hend []
  rw [List.append_nil, hnil] at hcut
  unfold isPlainName tokenize at h
  rw [hcut] at h
  cases h

theorem parse_tokensAll {ns : List Node} (h : Node.NormalSequence ns) (allowWeight : Bool) :
    parse (Node.tokensAll ns) allowWeight = .ok ns := by
  rw [← tokenize_ruleText h]
  exact parseText_ruleText_of_normal h allowWeight

theorem normalSequence_reference {name : Text} (h : name ≠ "") :
    Node.NormalSequence [.reference name [] []] :=
  ⟨trivial, ⟨.inl h, nofun, trivial⟩, trivial⟩

/-- A name that is written between hashes as it is refers to what is read of it; a backslash at its
end takes the closing hash. -/
theorem parseText_between_hashes {name : Text} (h : isPlainName name = true)
    (allowWeight : Bool) :
    parseText ("#" ++ name ++ "#") allowWeight =
      if isOpenEnded name.toList then .error (.malformed .unterminatedReference)
      else .ok [.reference (unescape name) [] []] := by
  have hkind := kind_of_isPlainName h
  have hfirst : tokenize ("#" ++ name ++ "#") =
      ofMark .hash :: Token.cut [] (name.toList ++ [.char '#']) := by
    have hchars : ("#" ++ name ++ "#").toList = .char '#' :: (name.toList ++ [.char '#']) := by simp
    rw [tokenize, hchars, Token.cut_nil_char '#' .hash rfl]
  rw [parseText, hfirst]
  cases hend : isOpenEnded name.toList with
  | true =>
      obtain ⟨run, hcut⟩ := Token.exists_cut_append_of_texts hkind hend '#' []
      rw [hcut, if_pos rfl]
      cases allowWeight <;> rfl
  | false =>
      have hne := unescape_ne_empty h hend
      have hcut : Token.cut [] (name.toList ++ [.char '#']) =
          [ofText (unescape name), ofMark .hash] := by
        have hchars : unescapeChars name.toList = (unescape name).toList := by
          rw [unescape, Text.toList_ofList]
        rw [Token.cut_append_of_texts hkind hend, hchars, List.append_nil,
          Token.cut_char '#' .hash rfl, Token.flush_reverse, Token.textTokens_of_ne hne]
        rfl
      have htokens : Node.tokensAll [.reference (unescape name) [] []] =
          [ofMark .hash, ofText (unescape name), ofMark .hash] := by
        simp [Node.tokensAll, Node.tokens, Assignment.tokensAll, Token.textTokens_of_ne hne]
      rw [hcut, ← htokens, if_neg Bool.false_ne_true]
      exact parse_tokensAll (normalSequence_reference hne) allowWeight

theorem parseText_escape_between_hashes {name : Text} (h : name ≠ "") (allowWeight : Bool) :
    parseText ("#" ++ escape name ++ "#") allowWeight = .ok [.reference name [] []] := by
  rw [← parseText_ruleText_of_normal (normalSequence_reference h) allowWeight]
  congr 1
  apply Text.ext
  simp [ruleText, Node.write, escape]

/-- Written as it is, a name refers to itself exactly if it holds no backslash. -/
theorem parseText_between_hashes_self_iff {name : Text} (h : isPlainName name = true)
    (allowWeight : Bool) :
    parseText ("#" ++ name ++ "#") allowWeight = .ok [.reference name [] []] ↔
      CodePoint.char '\\' ∉ name.toList := by
  rw [parseText_between_hashes h]
  constructor
  · intro hself hslash
    cases hend : isOpenEnded name.toList with
    | true =>
        rw [hend] at hself
        cases hself
    | false =>
        have hlt := length_unescapeChars_lt hslash hend
        rw [hend, if_neg Bool.false_ne_true] at hself
        have hname : unescape name = name := by
          simpa using hself
        rw [← Text.toList_ofList (unescapeChars name.toList)] at hlt
        change (unescape name).toList.length < _ at hlt
        rw [hname] at hlt
        exact Nat.lt_irrefl _ hlt
  · intro hslash
    obtain ⟨hsame, hend⟩ := unescapeChars_of_notMem hslash
    rw [hend, if_neg Bool.false_ne_true, unescape, hsame, Text.ofList_toList]

/-- A name without backslashes is written between hashes as it is. -/
theorem escape_of_isPlainName {name : Text} (h : isPlainName name = true)
    (hslash : CodePoint.char '\\' ∉ name.toList) : escape name = name := by
  rw [escape, escapeChars_of_plain (Token.needsEscape_of_texts (kind_of_isPlainName h) hslash),
    Text.ofList_toList]

/-! ## Looking up what is between hashes -/

section Lookup

open Work

variable {γ : Type} [RandomSource γ] {name : Text}

/-- A reference to a name that no tag is bound to expands the rule of that name, in a frame and a
scope of its own. -/
theorem evaluateWith_reference_of_rule {x : Extensions} {inner : List Node → Work γ Text}
    {rule : Rule γ} {s : Session γ} (hname : name ≠ "") (htag : s.tags.lookup name = none)
    (hrule : s.rules.get? name = some rule) :
    evaluateWith x inner [.reference name [] []] s =
      inFrame ⟨.rule, name⟩ (inScope (expandRule x inner name rule)) s := by
  rw [evaluateWith_reference]
  refine inFrame_congr fun context => inScope_congr ?_
  exact resolve_of_rule hname ((TagStore.lookup_enterScope s.tags name).trans htag) hrule

/-- What refers to a rule is its name with every mark and backslash escaped; that is the name as it
is if it holds no backslash, and only then is the name as it is such a reference: else it is one to
what is read of it, or none at all. A definition that is taken makes the rule of its name, and that
rule is the one that such a reference expands, wherever no tag is bound to the name. -/
theorem reference_to_rule_name (hname : ruleName (.text name) = .ok name) :
    (∀ allowWeight,
      parseText ("#" ++ escape name ++ "#") allowWeight = .ok [.reference name [] []] ∧
        (parseText ("#" ++ name ++ "#") allowWeight =
          if isOpenEnded name.toList then .error (.malformed .unterminatedReference)
          else .ok [.reference (unescape name) [] []]) ∧
        (parseText ("#" ++ name ++ "#") allowWeight = .ok [.reference name [] []] ↔
          CodePoint.char '\\' ∉ name.toList)) ∧
      (CodePoint.char '\\' ∉ name.toList → escape name = name) ∧
      (∀ (d : Definition) (s t : Session γ), addRule (.text name) d s = .ok true t →
        ∃ notices rule random, Rule.build name d s.random = (notices, .ok (some (rule, random))) ∧
          t.rules.get? name = some rule) ∧
      ∀ (x : Extensions) (inner : List Node → Work γ Text) (rule : Rule γ) (s : Session γ),
        s.rules.get? name = some rule → s.tags.lookup name = none →
          evaluateWith x inner [.reference name [] []] s =
            inFrame ⟨.rule, name⟩ (inScope (expandRule x inner name rule)) s := by
  have hplain : isPlainName name = true := by
    have hrule := isRuleName_of_ruleName hname
    rw [isRuleName, Bool.and_assoc, Bool.and_eq_true] at hrule
    exact hrule.1
  have hne : name ≠ "" := by
    rintro rfl
    cases hplain
  refine ⟨fun allowWeight => ⟨?_, ?_, ?_⟩, escape_of_isPlainName hplain, fun d s t h => ?_,
    fun x inner rule s hrule htag => evaluateWith_reference_of_rule hne htag hrule⟩
  · exact parseText_escape_between_hashes hne allowWeight
  · exact parseText_between_hashes hplain allowWeight
  · exact parseText_between_hashes_self_iff hplain allowWeight
  · obtain ⟨notices, rule, random, hbuild, hrules⟩ := exists_build_of_addRule hname h
    exact ⟨notices, rule, random, hbuild, by rw [hrules, Lexicon.get?_put_self]⟩

/-- The rule `a\.b` is referred to by `#a\\\.b#`, and `#a\.b#` refers to `a.b`. -/
theorem reference_to_rule_name_escaped :
    let name : Text := "a\\.b"
    let d := Definition.ofTexts ["x"]
    let s : Session Twister := Session.start .flat ⟨256, []⟩ ⟨#[], 0⟩
    ruleName (.text name) = .ok name ∧
      parseText "#a\\\\\\.b#" false = .ok [.reference name [] []] ∧
      parseText "#a\\.b#" false = .ok [.reference "a.b" [] []] ∧
      ∃ t rule, addRule (.text name) d s = .ok true t ∧ t.rules.get? name = some rule := by
  intro name d s
  have hname : ruleName (.text name) = .ok name := by decide +kernel
  have hrefers := reference_to_rule_name (γ := Twister) hname
  have hescape : "#" ++ escape name ++ "#" = "#a\\\\\\.b#" := by decide +kernel
  have hread : unescape name = "a.b" := by decide +kernel
  have hclosed : isOpenEnded name.toList = false := by decide +kernel
  obtain ⟨hescaped, hasItIs, -⟩ := hrefers.1 false
  rw [hescape] at hescaped
  rw [hread, hclosed, if_neg Bool.false_ne_true] at hasItIs
  obtain ⟨t, ht⟩ : ∃ t, addRule (.text name) d s = .ok true t := by
    obtain ⟨notices, hadd⟩ := exists_addRule_eq hname d s
    obtain ⟨rule, t, ht, -⟩ := defineRule_of_ne_nil (Definition.texts_ofTexts ["x"])
      (by decide +kernel) (by decide +kernel) name { s with notices := notices }
    exact ⟨t, hadd.trans ht⟩
  obtain ⟨-, rule, -, -, hrule⟩ := hrefers.2.2.1 d s t ht
  exact ⟨hname, hescaped, hasItIs, t, rule, ht, hrule⟩

/-- A rule name that refers to another name as it is, and one that refers to nothing. -/
theorem reference_to_another_name :
    ruleName (.text "a\\.b") = .ok "a\\.b" ∧
      parseText "#a\\.b#" true = .ok [.reference "a.b" [] []] ∧
      parseText "#a\\.b#" true ≠ .ok [.reference "a\\.b" [] []] ∧
      ruleName (.text "a\\") = .ok "a\\" ∧
      parseText "#a\\#" true = .error (.malformed .unterminatedReference) := by
  have hescaped : parseText "#a\\.b#" true = .ok [.reference "a.b" [] []] := by rfl
  refine ⟨by decide +kernel, hescaped, ?_, by decide +kernel, by rfl⟩
  rw [hescaped]
  simp

end Lookup

end TextGrammar
