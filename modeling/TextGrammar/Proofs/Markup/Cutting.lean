import TextGrammar.Markup.Token

/-!
# Cutting escaped text

An escaped text is cut into one token, or into none where the text is empty, as long as what
comes behind it does not go on with the run (`Token.cut_text`). That is the case at the end and
before every mark, which `Token.Breaks` says once for all: a run held back may as well be put in
front of the tokens of the rest.

Whatever is cut, what comes of it is a canonical list of tokens (`Token.canonical_cut`), and every
canonical list is cut out of its own spelling (`tokenize_render`): a run of text ends where the
spelling of the next token begins, since in such a list that token is a mark.
-/

namespace TextGrammar

theorem needsEscape_eq_false_iff (c : CodePoint) :
    needsEscape c = false ↔ c ≠ '\\' ∧ Mark.ofChar? c = none := by
  simp [needsEscape]

theorem escapeChars_of_plain {cs : List CodePoint} (h : ∀ c ∈ cs, needsEscape c = false) :
    escapeChars cs = cs := by
  induction cs with
  | nil => rfl
  | cons c cs ih =>
      rw [List.forall_mem_cons] at h
      rw [escapeChars, h.1, if_neg Bool.false_ne_true, ih h.2]

namespace Token

def textTokens (text : Text) : List Token := if text = "" then [] else [ofText text]

@[simp] theorem textTokens_empty : textTokens "" = [] := rfl

theorem textTokens_of_ne {text : Text} (h : text ≠ "") : textTokens text = [ofText text] :=
  if_neg h

theorem flush_reverse (text : Text) (rest : List Token) :
    flush text.toList.reverse rest = textTokens text ++ rest := by
  by_cases h : text = ""
  · rw [h]
    rfl
  · have hne : text.toList.reverse.isEmpty = false := by simpa using h
    rw [flush, hne, textTokens_of_ne h]
    simp

/-- An escaped text joins the run of text before it, whatever comes behind. -/
theorem cut_escapeChars (held cs rest : List CodePoint) :
    cut held (escapeChars cs ++ rest) = cut (cs.reverse ++ held) rest := by
  induction cs generalizing held with
  | nil => rfl
  | cons c cs ih =>
      have hheld : (c :: cs).reverse ++ held = cs.reverse ++ (c :: held) := by simp
      rw [hheld, escapeChars]
      cases hc : needsEscape c with
      | true =>
          rw [if_pos rfl, List.cons_append, List.cons_append, cut_backslash]
          exact ih (c :: held)
      | false =>
          obtain ⟨hslash, hmark⟩ := (needsEscape_eq_false_iff c).1 hc
          rw [if_neg Bool.false_ne_true, List.cons_append, cut_plain _ _ hmark hslash]
          exact ih (c :: held)

/-- Characters before which every run of text ends. -/
def Breaks (cs : List CodePoint) : Prop := ∀ held, cut held cs = flush held (cut [] cs)

theorem breaks_nil : Breaks [] := by
  intro held
  rw [cut_nil, cut_nil]
  rfl

theorem cut_char (c : CodePoint) (m : Mark) (h : m.char = c) (held rest : List CodePoint) :
    cut held (c :: rest) = flush held (ofMark m :: cut [] rest) := by
  rw [← h]
  exact cut_mark held rest m

theorem breaks_char (c : CodePoint) (m : Mark) (h : m.char = c) (rest : List CodePoint) :
    Breaks (c :: rest) := by
  intro held
  rw [cut_char c m h, cut_char c m h]
  rfl

theorem cut_nil_char (c : CodePoint) (m : Mark) (h : m.char = c) (rest : List CodePoint) :
    cut [] (c :: rest) = ofMark m :: cut [] rest :=
  cut_char c m h [] rest

theorem cut_text (text : Text) {rest : List CodePoint} (h : Breaks rest) :
    cut [] (escapeChars text.toList ++ rest) = textTokens text ++ cut [] rest := by
  rw [cut_escapeChars, List.append_nil, h, flush_reverse]

/-! ## Canonical lists -/

theorem canonical_cons (t : Token) (ts : List Token) :
    Canonical (t :: ts) ↔
      t.IsCanonical ∧ (t.kind = .text → ∀ u ∈ ts.head?, u.kind ≠ .text) ∧ Canonical ts := by
  cases ts with
  | nil => simp [Canonical]
  | cons u rest => simp [Canonical]

theorem isCanonical_ofMark (m : Mark) : (ofMark m).IsCanonical := rfl

theorem text_ne_empty_of_isCanonical {t : Token} (h : t.IsCanonical) : t.text ≠ "" := by
  unfold IsCanonical at h
  split at h
  · rw [h]
    exact Text.singleton_ne_empty _
  · exact h
  · exact h.elim

theorem isCanonical_of_mem {ts : List Token} (h : Canonical ts) : ∀ t ∈ ts, t.IsCanonical := by
  induction ts with
  | nil => exact nofun
  | cons t rest ih =>
      obtain ⟨ht, -, hrest⟩ := (canonical_cons t rest).1 h
      exact List.forall_mem_cons.2 ⟨ht, ih hrest⟩

/-- A run held back may be put in front of tokens unless these begin with text. -/
theorem canonical_flush (held : List CodePoint) {ts : List Token} (h : Canonical ts)
    (hhead : ∀ u ∈ ts.head?, u.kind ≠ .text) : Canonical (flush held ts) := by
  unfold flush
  split
  · exact h
  · next hne =>
      refine (canonical_cons _ ts).2 ⟨?_, fun _ => hhead, h⟩
      simpa [IsCanonical, ofText] using hne

/-- Cutting gives marks, and texts that are not empty and do not touch. -/
theorem canonical_cut (held cs : List CodePoint) : Canonical (cut held cs) := by
  fun_induction cut held cs with
  | case1 held => exact canonical_flush held trivial (by simp)
  | case2 held c rest ih => exact ih
  | case3 held c rest hslash m hm ih =>
      refine canonical_flush held ((canonical_cons _ _).2 ⟨isCanonical_ofMark m, nofun, ih⟩) ?_
      simp [ofMark]
  | case4 held c rest hslash hm ih => exact ih

/-! ## Spelling canonical lists -/

theorem isCanonical_iff {t : Token} :
    t.IsCanonical ↔ (∃ m, t = ofMark m) ∨ ∃ text : Text, text ≠ "" ∧ t = ofText text := by
  obtain ⟨kind, text⟩ := t
  cases kind with
  | mark m =>
      constructor
      · exact fun h => .inl ⟨m, h⟩
      · rintro (⟨other, h⟩ | ⟨other, -, h⟩)
        · cases h
          rfl
        · cases h
  | text =>
      constructor
      · exact fun h => .inr ⟨text, h, rfl⟩
      · rintro (⟨m, h⟩ | ⟨other, hne, h⟩)
        · cases h
        · cases h
          exact hne
  | other name =>
      constructor
      · exact False.elim
      · rintro (⟨m, h⟩ | ⟨other, -, h⟩) <;> cases h

theorem renderChars_ofMark (m : Mark) : (ofMark m).renderChars = [m.char] := by
  rw [ofMark, renderChars, Text.toList_singleton]

theorem breaks_renderChars {ts : List Token} (h : Canonical ts)
    (hhead : ∀ u ∈ ts.head?, u.kind ≠ .text) : Breaks (ts.flatMap renderChars) := by
  cases ts with
  | nil => exact breaks_nil
  | cons u rest =>
      obtain ⟨hu, -⟩ := (canonical_cons u rest).1 h
      rcases isCanonical_iff.1 hu with ⟨m, rfl⟩ | ⟨text, -, rfl⟩
      · rw [List.flatMap_cons, renderChars_ofMark, List.singleton_append]
        exact breaks_char m.char m rfl _
      · exact absurd rfl (hhead _ rfl)

/-- Canonical tokens are cut out of their spelling as they were. -/
theorem cut_renderChars {ts : List Token} (h : Canonical ts) :
    cut [] (ts.flatMap renderChars) = ts := by
  induction ts with
  | nil => rfl
  | cons t rest ih =>
      obtain ⟨ht, hnext, hrest⟩ := (canonical_cons t rest).1 h
      rw [List.flatMap_cons]
      rcases isCanonical_iff.1 ht with ⟨m, rfl⟩ | ⟨text, hne, rfl⟩
      · rw [renderChars_ofMark, List.singleton_append, cut_nil_char m.char m rfl, ih hrest]
      · have hbreaks := breaks_renderChars hrest (hnext rfl)
        have htext : (ofText text).renderChars = escapeChars text.toList := rfl
        rw [htext, cut_text text hbreaks, textTokens_of_ne hne, ih hrest, List.singleton_append]

end Token

theorem canonical_tokenize (source : Text) : Token.Canonical (tokenize source) :=
  Token.canonical_cut [] source.toList

theorem tokenize_render {ts : List Token} (h : Token.Canonical ts) :
    tokenize (Token.render ts) = ts := by
  rw [tokenize, Token.render, Text.toList_ofList, Token.cut_renderChars h]

/-- What a source is cut into, whatever it is, is a canonical list: every token is one of the
eight marks with its own character, or some text, and no two texts touch. And the canonical lists
are those that are cut out of their own spelling. -/
theorem tokenize_exactly_canonical :
    (∀ ts, (∃ source, tokenize source = ts) ↔ Token.Canonical ts) ∧
      ∀ ts, tokenize (Token.render ts) = ts ↔ Token.Canonical ts := by
  constructor
  · refine fun ts => ⟨?_, fun h => ⟨Token.render ts, tokenize_render h⟩⟩
    rintro ⟨source, rfl⟩
    exact canonical_tokenize source
  · refine fun ts => ⟨fun h => ?_, tokenize_render⟩
    have hcanonical := canonical_tokenize (Token.render ts)
    rwa [h] at hcanonical

end TextGrammar
