import TextGrammar.Json.Text
import TextGrammar.Proofs.Text.Pairs

/-!
# Reading written texts back

A text in JSON is read back as the text it was written for, with every high surrogate and low one
directly behind it joined (`readQuoted_written`). Each code point is written as one unit or as two,
which are read as code points of their own (`readPoints_jsonPoint`); joining these undoes the
splitting, and joins the pairs that the text itself held.

What is written is printable ASCII throughout (`isPrintableAscii_of_mem_jsonText`).
-/

namespace TextGrammar

/-! ## What a character is written as -/

def IsPrintableAscii (c : Char) : Prop := 0x20 ≤ c.toNat ∧ c.toNat < 0x7f

instance (c : Char) : Decidable (IsPrintableAscii c) := inferInstanceAs (Decidable (_ ∧ _))

/-- A code point is written by a backslash and a sign, as itself, or by its units. -/
theorem jsonPoint_cases (c : CodePoint) :
    (∃ sign d, jsonPoint c = ['\\', sign] ∧ escapedChar? sign = some d ∧ c = .char d ∧
      IsPrintableAscii sign ∧ d.toNat < 0x7f) ∨
      (∃ d, c = .char d ∧ jsonPoint c = [d] ∧ IsPrintableAscii d ∧ d ≠ '\"' ∧ d ≠ '\\') ∨
        jsonPoint c = c.units.flatMap unitEscape := by
  unfold jsonPoint
  split
  · next h => exact .inl ⟨'\"', '\"', rfl, rfl, h, by decide⟩
  next hquote =>
  split
  · next h => exact .inl ⟨'\\', '\\', rfl, rfl, h, by decide⟩
  next hslash =>
  split
  · next h => exact .inl ⟨'n', '\n', rfl, rfl, h, by decide⟩
  split
  · next h => exact .inl ⟨'r', '\r', rfl, rfl, h, by decide⟩
  split
  · next h => exact .inl ⟨'t', '\t', rfl, rfl, h, by decide⟩
  split
  · next h => exact .inl ⟨'b', '\x08', rfl, rfl, h, by decide⟩
  split
  · next h => exact .inl ⟨'f', '\x0c', rfl, rfl, h, by decide⟩
  split
  · next h =>
      rw [Bool.and_eq_true, decide_eq_true_eq, decide_eq_true_eq] at h
      cases c with
      | char d =>
          rw [CodePoint.toNat_char, Char.ofNat_toNat]
          exact .inr (.inl ⟨d, rfl, rfl, h, fun hd => hquote (hd ▸ rfl),
            fun hd => hslash (hd ▸ rfl)⟩)
      | surrogate offset =>
          have hlt : 0xd800 + offset.val < 0x7f := h.2
          omega
  · exact .inr (.inr rfl)

theorem readPoints_sign (start : Nat) {sign c : Char} (h : escapedChar? sign = some c)
    (rest : List Char) :
    readPoints start ('\\' :: sign :: rest) =
      (readPoints start rest).map fun r => (.char c :: r.1, r.2) := by
  have hu : sign ≠ 'u' := by
    rintro rfl
    cases h
  rw [readPoints, h]
  · rintro _ _ _ _ _ rfl
    exact absurd rfl hu
  · exact hu

theorem readPoints_plain (start : Nat) {c : Char} (hplain : IsPrintableAscii c)
    (hquote : c ≠ '\"') (hslash : c ≠ '\\') (rest : List Char) :
    readPoints start (c :: rest) = (readPoints start rest).map fun r => (.char c :: r.1, r.2) := by
  rw [readPoints, if_neg (Nat.not_lt.2 hplain.1)]
  · exact hquote
  · rintro _ _ _ _ _ rfl
    exact absurd rfl hslash
  · rintro _ rfl
    exact absurd rfl hslash
  · rintro _ _ rfl
    exact absurd rfl hslash
  · rintro rfl
    exact absurd rfl hslash

/-! ## Numeric escapes -/

theorem hexValue?_digitChar {d : Nat} (h : d < 16) : hexValue? (Nat.digitChar d) = some d :=
  (by decide : ∀ d < 16, hexValue? (Nat.digitChar d) = some d) d h

/-- The last digit stands for the remainder, and the digits before it for the quotient. -/
theorem hexPadded_succ {width : Nat} (hwidth : 0 < width) (n : Nat) :
    hexPadded (width + 1) n = hexPadded width (n / 16) ++ [Nat.digitChar (n % 16)] := by
  by_cases h : n < 16
  · have hzeros : hexPadded width 0 = List.replicate width '0' := by
      obtain ⟨w, rfl⟩ := Nat.exists_eq_succ_of_ne_zero (Nat.ne_of_gt hwidth)
      rw [hexPadded, Nat.toDigits_of_lt_base (by decide), List.replicate_succ']
      rfl
    rw [Nat.div_eq_of_lt h, Nat.mod_eq_of_lt h, hzeros, hexPadded, Nat.toDigits_of_lt_base h]
    rfl
  · have hdigits : Nat.toDigits 16 n = Nat.toDigits 16 (n / 16) ++ [Nat.digitChar (n % 16)] :=
      Nat.toDigits_of_base_le (by decide) (Nat.le_of_not_lt h)
    simp [hexPadded, hdigits]

theorem hexPadded_one {n : Nat} (h : n < 16) : hexPadded 1 n = [Nat.digitChar n] := by
  rw [hexPadded, Nat.toDigits_of_lt_base h]
  rfl

theorem unitEscape_eq {unit : Nat} (h : unit < 0x10000) :
    unitEscape unit =
      ['\\', 'u', Nat.digitChar (unit / 16 / 16 / 16), Nat.digitChar (unit / 16 / 16 % 16),
        Nat.digitChar (unit / 16 % 16), Nat.digitChar (unit % 16)] := by
  rw [unitEscape, hexPadded_succ (by decide), hexPadded_succ (by decide),
    hexPadded_succ (by decide), hexPadded_one (by omega)]
  rfl

/-- A numeric escape is read as its unit. It may not be the last thing there is. -/
theorem readPoints_unitEscape (start : Nat) {unit : Nat} (h : unit < 0x10000) {rest : List Char}
    (hrest : rest ≠ []) :
    readPoints start (unitEscape unit ++ rest) =
      (readPoints start rest).map fun r => (.ofNat unit :: r.1, r.2) := by
  have hunit : hexUnit? (Nat.digitChar (unit / 16 / 16 / 16)) (Nat.digitChar (unit / 16 / 16 % 16))
      (Nat.digitChar (unit / 16 % 16)) (Nat.digitChar (unit % 16)) = some unit := by
    unfold hexUnit?
    rw [hexValue?_digitChar (by omega), hexValue?_digitChar (by omega),
      hexValue?_digitChar (by omega), hexValue?_digitChar (by omega)]
    simp only [Option.some.injEq]
    omega
  have hmore : rest.isEmpty = false := List.isEmpty_eq_false_iff.2 hrest
  rw [unitEscape_eq h]
  simp only [List.cons_append, List.nil_append, readPoints, hunit, hmore]

/-! ## Texts -/

theorem readPoints_units (start : Nat) {units : List Nat} (hunits : ∀ unit ∈ units, unit < 0x10000)
    {rest : List Char} (hrest : rest ≠ []) :
    readPoints start (units.flatMap unitEscape ++ rest) =
      (readPoints start rest).map fun r => (units.map .ofNat ++ r.1, r.2) := by
  induction units with
  | nil =>
      rw [List.flatMap_nil, List.nil_append]
      cases readPoints start rest <;> rfl
  | cons unit units ih =>
      rw [List.flatMap_cons, List.append_assoc, readPoints_unitEscape start
        (hunits unit (List.mem_cons_self ..)) (by simp [hrest]),
        ih fun u hu => hunits u (List.mem_cons_of_mem _ hu)]
      cases readPoints start rest <;> rfl

theorem readPoints_jsonPoint (start : Nat) (c : CodePoint) {rest : List Char} (hrest : rest ≠ []) :
    readPoints start (jsonPoint c ++ rest) =
      (readPoints start rest).map fun r => (c.split ++ r.1, r.2) := by
  rcases jsonPoint_cases c with ⟨sign, d, hwritten, hsign, rfl, -, hlt⟩ |
    ⟨d, rfl, hwritten, hplain, hquote, hslash⟩ | hwritten
  · have hbasic : (CodePoint.char d).split = [.char d] :=
      CodePoint.split_of_lt (Nat.lt_trans hlt (by decide))
    rw [hwritten, hbasic]
    exact readPoints_sign start hsign rest
  · have hbasic : (CodePoint.char d).split = [.char d] :=
      CodePoint.split_of_lt (Nat.lt_trans hplain.2 (by decide))
    rw [hwritten, hbasic]
    exact readPoints_plain start hplain hquote hslash rest
  · rw [hwritten]
    exact readPoints_units start (fun _ => CodePoint.lt_of_mem_units) hrest

theorem readPoints_flatMap_jsonPoint (start : Nat) (cs : List CodePoint) (rest : List Char) :
    readPoints start (cs.flatMap jsonPoint ++ '\"' :: rest) =
      .ok (cs.flatMap CodePoint.split, rest) := by
  induction cs with
  | nil => rfl
  | cons c cs ih =>
      rw [List.flatMap_cons, List.append_assoc, readPoints_jsonPoint start c (by simp), ih]
      rfl

/-- Behind its opening quote, a written text is read as the text with its pairs joined. -/
theorem readQuoted_written (start : Nat) (text : Text) (rest : List Char) :
    readQuoted start (text.toList.flatMap jsonPoint ++ '\"' :: rest) =
      .ok (text.joinPairs, rest) := by
  rw [readQuoted, readPoints_flatMap_jsonPoint]
  exact congrArg (fun cs => Except.ok (Text.ofList cs, rest))
    (CodePoint.joinPairs_flatMap_split text.toList)

/-! ## Pairs -/

/-- Beyond the printable ASCII set a code point is written by its units. -/
theorem jsonPoint_of_le {c : CodePoint} (h : 0x7f ≤ c.toNat) :
    jsonPoint c = c.units.flatMap unitEscape := by
  rcases jsonPoint_cases c with ⟨_, d, -, -, rfl, -, hlt⟩ | ⟨d, rfl, -, hplain, -⟩ | hwritten
  · exact absurd (Nat.lt_of_lt_of_le hlt h) (Nat.lt_irrefl _)
  · exact absurd (Nat.lt_of_lt_of_le hplain.2 h) (Nat.lt_irrefl _)
  · exact hwritten

/-- A pair of surrogates is written like the code point that it makes. -/
theorem jsonPoint_ofPair {c d : CodePoint} (h : (c.isHigh && d.isLow) = true) :
    jsonPoint (.ofPair c d) = jsonPoint c ++ jsonPoint d := by
  have hbeyond := CodePoint.le_toNat_ofPair h
  simp only [CodePoint.isHigh, CodePoint.isLow, Bool.and_eq_true, decide_eq_true_eq] at h
  have hcode : (CodePoint.ofPair c d).toNat =
      0x10000 + (c.toNat - 0xd800) * 0x400 + (d.toNat - 0xdc00) :=
    CodePoint.toNat_ofNat (by omega)
  have hunits : (CodePoint.ofPair c d).units = [c.toNat, d.toNat] := by
    rw [CodePoint.units, if_neg (Nat.not_lt.2 hbeyond), hcode]
    simp only [List.cons.injEq, and_true]
    omega
  have hc : c.units = [c.toNat] := if_pos (by omega)
  have hd : d.units = [d.toNat] := if_pos (by omega)
  rw [jsonPoint_of_le (by omega), jsonPoint_of_le (by omega), jsonPoint_of_le (by omega), hunits,
    hc, hd, List.flatMap_cons, List.flatMap_singleton, List.flatMap_singleton]

theorem flatMap_jsonPoint_joinPairs (cs : List CodePoint) :
    (CodePoint.joinPairs cs).flatMap jsonPoint = cs.flatMap jsonPoint := by
  fun_induction CodePoint.joinPairs cs with
  | case1 c d rest hpair ih =>
      rw [List.flatMap_cons, List.flatMap_cons, List.flatMap_cons, ih, jsonPoint_ofPair hpair,
        List.append_assoc]
  | case2 c d rest hpair ih => rw [List.flatMap_cons, List.flatMap_cons, ih]
  | case3 cs hcs => rfl

/-- A text is written as it is with its pairs joined. -/
theorem jsonText_joinPairs (text : Text) : jsonText text.joinPairs = jsonText text :=
  congrArg (fun cs => '\"' :: (cs ++ ['\"'])) (flatMap_jsonPoint_joinPairs text.toList)

/-! ## The characters of written texts -/

theorem isPrintableAscii_of_all {cs : List Char} (h : cs.all (IsPrintableAscii ·) = true) {c : Char}
    (hc : c ∈ cs) : IsPrintableAscii c :=
  of_decide_eq_true (List.all_eq_true.1 h c hc)

theorem ne_newline_of_isPrintableAscii {c : Char} (h : IsPrintableAscii c) : c ≠ '\n' := by
  rintro rfl
  exact absurd h (by decide)

theorem isPrintableAscii_digitChar {d : Nat} (h : d < 16) :
    IsPrintableAscii (Nat.digitChar d) :=
  (by decide : ∀ d < 16, IsPrintableAscii (Nat.digitChar d)) d h

theorem isPrintableAscii_of_mem_unitEscape {unit : Nat} (h : unit < 0x10000) {c : Char}
    (hc : c ∈ unitEscape unit) : IsPrintableAscii c := by
  rw [unitEscape_eq h] at hc
  simp only [List.mem_cons, List.not_mem_nil, or_false] at hc
  rcases hc with rfl | rfl | rfl | rfl | rfl | rfl
  · decide
  · decide
  all_goals exact isPrintableAscii_digitChar (by omega)

theorem isPrintableAscii_of_mem_jsonPoint {c : CodePoint} {d : Char} (h : d ∈ jsonPoint c) :
    IsPrintableAscii d := by
  rcases jsonPoint_cases c with ⟨sign, _, hwritten, -, -, hsign, -⟩ | ⟨d, -, hwritten, hplain, -⟩ |
    hwritten
  · rw [hwritten] at h
    simp only [List.mem_cons, List.not_mem_nil, or_false] at h
    rcases h with rfl | rfl
    · decide
    · exact hsign
  · rw [hwritten, List.mem_singleton] at h
    exact h ▸ hplain
  · rw [hwritten] at h
    obtain ⟨unit, hunit, hd⟩ := List.mem_flatMap.1 h
    exact isPrintableAscii_of_mem_unitEscape (CodePoint.lt_of_mem_units hunit) hd

theorem isPrintableAscii_of_mem_jsonText {text : Text} {c : Char} (h : c ∈ jsonText text) :
    IsPrintableAscii c := by
  simp only [jsonText, List.mem_cons, List.mem_append, List.mem_flatMap, List.not_mem_nil,
    or_false] at h
  rcases h with rfl | ⟨d, -, hd⟩ | rfl
  · decide
  · exact isPrintableAscii_of_mem_jsonPoint hd
  · decide

end TextGrammar
