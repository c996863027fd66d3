import TextGrammar.Json.Reading
import TextGrammar.Proofs.Json.Text
import TextGrammar.Proofs.Text.Numeral

/-!
# Reading records back

A record is a table whose items hold no other values: texts, whole numbers, truth values and the
null value. Written on one line, it is read back with its entries in their order and the surrogate
pairs of its texts joined (`readJson_writeJson_record`), and it is printable ASCII, so that it is
one line (`newline_notMem_jsonChars_record`).

Reading goes from the left, so each part is shown to be read off the front of whatever follows.
Only a number asks something of what follows it: that it does not go on with the number
(`EndsNumber`).
-/

namespace TextGrammar

/-! ## Numbers -/

/-- Whether what follows a number does not go on with it. -/
def EndsNumber (rest : List Char) : Prop :=
  ∀ c ∈ rest.head?, c.isDigit = false ∧ c ≠ '.' ∧ c ≠ 'e' ∧ c ≠ 'E'

theorem EndsNumber.cons {c : Char} (h : c.isDigit = false ∧ c ≠ '.' ∧ c ≠ 'e' ∧ c ≠ 'E')
    (rest : List Char) : EndsNumber (c :: rest) := by
  intro d hd
  rw [List.head?_cons, Option.mem_some_iff] at hd
  exact hd ▸ h

theorem spanDigits_append {digits rest : List Char} (hdigits : ∀ c ∈ digits, c.isDigit = true)
    (hrest : EndsNumber rest) : spanDigits (digits ++ rest) = (digits, rest) := by
  have htake : rest.takeWhile (·.isDigit) = [] ∧ rest.dropWhile (·.isDigit) = rest := by
    cases rest with
    | nil => exact ⟨rfl, rfl⟩
    | cons c rest => simp [(hrest c rfl).1]
  rw [spanDigits, List.takeWhile_append_of_pos hdigits, List.dropWhile_append_of_pos hdigits,
    htake.1, htake.2, List.append_nil]

theorem head?_toDigits_ne_zero {n : Nat} (h : 0 < n) :
    (Nat.toDigits 10 n).head? ≠ some '0' := by
  induction n using Nat.strongRecOn with
  | ind n ih =>
      by_cases hsmall : n < 10
      · rw [Nat.toDigits_of_lt_base hsmall]
        exact (by decide : ∀ d < 10, 0 < d → [Nat.digitChar d].head? ≠ some '0') n hsmall h
      · have hfirst := ih (n / 10) (by omega) (by omega)
        rw [Nat.toDigits_of_base_le (by decide) (Nat.le_of_not_lt hsmall)]
        cases hdigits : Nat.toDigits 10 (n / 10) with
        | nil => exact absurd hdigits Nat.toDigits_ne_nil
        | cons c digits =>
            rw [hdigits] at hfirst
            exact hfirst

theorem splitWhole_toString (n : Nat) {rest : List Char} (hrest : EndsNumber rest) :
    splitWhole ((toString n).toList ++ rest) = ((toString n).toList, rest) := by
  have hspan := spanDigits_append (fun c hc => isDigit_of_mem_toString (n := n) hc) hrest
  rcases Nat.eq_zero_or_pos n with rfl | hpos
  · rfl
  · have hhead := head?_toDigits_ne_zero hpos
    rw [← Nat.toList_repr, ← Nat.toString_eq_repr] at hhead
    unfold splitWhole
    split
    · next heq =>
        cases hdigits : (toString n).toList with
        | nil => exact absurd hdigits (toList_toString_ne_nil n)
        | cons c digits =>
            rw [hdigits, List.cons_append] at heq
            rw [hdigits, (List.cons.inj heq).1] at hhead
            exact absurd rfl hhead
    · exact hspan

theorem splitFraction_of_endsNumber {rest : List Char} (h : EndsNumber rest) :
    splitFraction rest = ([], rest) := by
  unfold splitFraction
  split
  · next c rest => exact absurd rfl (h '.' rfl).2.1
  · rfl

theorem splitExponent_of_endsNumber {rest : List Char} (h : EndsNumber rest) :
    splitExponent rest = ([], rest) := by
  cases rest with
  | nil => rfl
  | cons c rest =>
      obtain ⟨-, -, hlower, hupper⟩ := h c rfl
      simp [splitExponent, hlower, hupper]

theorem readNumber_digits {negative : Bool} {cs rest : List Char} {n : Nat}
    (hminus : splitMinus cs = (negative, (toString n).toList ++ rest)) (hrest : EndsNumber rest) :
    readNumber none cs = .ok (.int (if negative then -(n : Int) else n), rest) := by
  have hne : (toString n).toList.isEmpty = false :=
    List.isEmpty_eq_false_iff.2 (toList_toString_ne_nil n)
  have hwhole : wholeNumber none negative (toString n).toList =
      .ok (.int (if negative then -(n : Int) else n)) := by
    rw [wholeNumber, digitsValue_toString]
    rfl
  simp only [readNumber, hminus, splitWhole_toString n hrest, hne,
    splitFraction_of_endsNumber hrest, splitExponent_of_endsNumber hrest, hwhole]
  rfl

theorem splitMinus_of_isDigit {cs : List Char} (h : ∀ c ∈ cs.head?, c.isDigit = true) :
    splitMinus cs = (false, cs) := by
  unfold splitMinus
  split
  · next rest => exact absurd (h '-' rfl) (by decide)
  · rfl

theorem readWord?_eq_none {cs : List Char} {c : Char} (hmem : c ∈ cs.take 2)
    (hdigit : c.isDigit = true) : readWord? cs = none := by
  have hwords : ∀ w ∈ jsonWords, 2 ≤ w.1.toList.length ∧ w.1.toList.any (·.isDigit) = false := by
    decide
  rw [readWord?, List.findSome?_eq_none_iff]
  intro w hw
  obtain ⟨hlength, hnone⟩ := hwords w hw
  refine if_neg fun hprefix => ?_
  obtain ⟨rest, rfl⟩ := List.isPrefixOf_iff_prefix.1 hprefix
  rw [List.take_append_of_le_length hlength] at hmem
  exact List.any_eq_false.1 hnone c (List.mem_of_mem_take hmem) hdigit

theorem exists_toList_toString (n : Nat) :
    ∃ c digits, (toString n).toList = c :: digits ∧ c.isDigit = true := by
  cases h : (toString n).toList with
  | nil => exact absurd h (toList_toString_ne_nil n)
  | cons c digits => exact ⟨c, digits, rfl, isDigit_of_mem_toString (n := n) (h ▸ by simp)⟩

theorem toList_toString_negSucc (m : Nat) :
    (toString (Int.negSucc m)).toList = '-' :: (toString (m + 1)).toList :=
  String.toList_append

theorem readScalar_int (n : Int) {rest : List Char} (hrest : EndsNumber rest) :
    readScalar none ((toString n).toList ++ rest) = .ok (.int n, rest) := by
  cases n with
  | ofNat m =>
      obtain ⟨c, digits, hdigits, hc⟩ := exists_toList_toString m
      have hword : readWord? ((toString m).toList ++ rest) = none := by
        rw [hdigits]
        exact readWord?_eq_none (by simp) hc
      have hminus : splitMinus ((toString m).toList ++ rest) =
          (false, (toString m).toList ++ rest) := by
        rw [hdigits]
        exact splitMinus_of_isDigit (by simp [hc])
      have hread := readNumber_digits hminus hrest
      rw [readScalar, show toString (Int.ofNat m) = toString m from rfl, hword]
      exact hread
  | negSucc m =>
      obtain ⟨c, digits, hdigits, hc⟩ := exists_toList_toString (m + 1)
      have hword : readWord? ('-' :: ((toString (m + 1)).toList ++ rest)) = none := by
        rw [hdigits]
        exact readWord?_eq_none (by simp) hc
      have hminus : splitMinus ('-' :: ((toString (m + 1)).toList ++ rest)) =
          (true, (toString (m + 1)).toList ++ rest) := rfl
      have hread := readNumber_digits hminus hrest
      rw [readScalar, toList_toString_negSucc, List.cons_append, hword]
      exact hread

/-! ## Items of records -/

def Value.IsAtom : Value → Prop
  | .text _ => True
  | .int _ => True
  | .bool _ => True
  | .null => True
  | _ => False

def Value.joinPairs : Value → Value
  | .text t => .text t.joinPairs
  | v => v

theorem readValue_scalar (limit : Option Nat) (n : Nat) {c : Char} (cs : List Char)
    (hquote : c ≠ '\"') (hbrace : c ≠ '\x7b') (hbracket : c ≠ '[') :
    readValue limit (n + 1) (c :: cs) = readScalar limit (c :: cs) := by
  unfold readValue
  split
  · next heq => exact absurd (List.cons.inj heq).1 hquote
  · next heq => exact absurd (List.cons.inj heq).1 hbrace
  · next heq => exact absurd (List.cons.inj heq).1 hbracket
  · rfl

theorem exists_toList_toString_int (n : Int) :
    ∃ c cs, (toString n).toList = c :: cs ∧ (c.isDigit = true ∨ c = '-') := by
  cases n with
  | ofNat m =>
      obtain ⟨c, digits, hdigits, hc⟩ := exists_toList_toString m
      exact ⟨c, digits, hdigits, .inl hc⟩
  | negSucc m => exact ⟨'-', _, toList_toString_negSucc m, .inr rfl⟩

theorem exists_jsonScalar {v : Value} (h : v.IsAtom) :
    ∃ c cs, jsonScalar v = c :: cs ∧ isJsonBlank c = false := by
  cases v with
  | text t => exact ⟨_, _, rfl, rfl⟩
  | int n =>
      obtain ⟨c, cs, hcs, hc⟩ := exists_toList_toString_int n
      refine ⟨c, cs, hcs, ?_⟩
      rw [isJsonBlank]
      simp only [Bool.or_eq_false_iff, decide_eq_false_iff_not]
      refine ⟨⟨⟨?_, ?_⟩, ?_⟩, ?_⟩
      all_goals
        rintro rfl
        exact absurd hc (by decide)
  | bool b => cases b <;> exact ⟨_, _, rfl, rfl⟩
  | null => exact ⟨_, _, rfl, rfl⟩
  | _ => cases h

theorem readValue_jsonScalar (n : Nat) {v : Value} (h : v.IsAtom) {rest : List Char}
    (hrest : EndsNumber rest) :
    readValue none (n + 1) (jsonScalar v ++ rest) = .ok (v.joinPairs, rest) := by
  cases v with
  | text t =>
      have hread := readQuoted_written (jsonText t ++ rest).length t rest
      rw [jsonScalar, jsonText, List.cons_append, List.append_assoc, List.singleton_append] at *
      rw [readValue, hread]
      rfl
  | int n =>
      obtain ⟨c, cs, hcs, hc⟩ := exists_toList_toString_int n
      have hread := readScalar_int n hrest
      rw [jsonScalar, hcs, List.cons_append] at *
      rw [readValue_scalar none _ _ ?_ ?_ ?_, hread]
      · rfl
      all_goals
        rintro rfl
        exact absurd hc (by decide)
  | bool b => cases b <;> rfl
  | null => rfl
  | _ => cases h

/-! ## Entries -/

theorem skipBlanks_cons {c : Char} (h : isJsonBlank c = false) (rest : List Char) :
    skipBlanks (c :: rest) = c :: rest := by
  simp [skipBlanks, h]

theorem jsonChars_of_isAtom {v : Value} (h : v.IsAtom) : jsonChars v = jsonScalar v := by
  cases v with
  | text t => rfl
  | int n => rfl
  | bool b => rfl
  | null => rfl
  | _ => cases h

theorem readName_written (name : Text) {v : Value} (h : v.IsAtom) (rest : List Char) :
    readName (jsonText name ++ [':', ' '] ++ jsonScalar v ++ rest) =
      .ok (name.joinPairs, jsonScalar v ++ rest) := by
  obtain ⟨c, cs, hcs, hc⟩ := exists_jsonScalar h
  have hread := readQuoted_written
    (jsonText name ++ [':', ' '] ++ jsonScalar v ++ rest).length name
    (':' :: ' ' :: (jsonScalar v ++ rest))
  have hblanks : skipBlanks (' ' :: (jsonScalar v ++ rest)) = jsonScalar v ++ rest := by
    rw [hcs, List.cons_append]
    exact skipBlanks_cons hc (cs ++ rest)
  simp only [jsonText, List.cons_append, List.append_assoc, List.nil_append] at *
  simp only [readName, hread]
  rw [skipBlanks_cons (by decide)]
  exact congrArg (fun cs => Except.ok (name.joinPairs, cs)) hblanks

theorem readEntries_last (n : Nat) (name : Text) {v : Value} (h : v.IsAtom)
    (rest : List Char) :
    readEntries none (n + 2) (jsonText name ++ [':', ' '] ++ jsonScalar v ++ '\x7d' :: rest) =
      .ok ([(name.joinPairs, v.joinPairs)], rest) := by
  have hitem := readValue_jsonScalar n h (EndsNumber.cons (c := '\x7d') (by decide) rest)
  rw [readEntries, readName_written name h]
  simp only [hitem]
  rw [skipBlanks_cons (by decide)]
  rfl

theorem readEntries_more (n : Nat) (name : Text) {v : Value} (h : v.IsAtom) {c : Char}
    (hc : isJsonBlank c = false) (rest : List Char) :
    readEntries none (n + 2)
        (jsonText name ++ [':', ' '] ++ jsonScalar v ++ ',' :: ' ' :: c :: rest) =
      (readEntries none (n + 1) (c :: rest)).map fun r =>
        ((name.joinPairs, v.joinPairs) :: r.1, r.2) := by
  have hitem := readValue_jsonScalar n h
    (EndsNumber.cons (c := ',') (by decide) (' ' :: c :: rest))
  have hblanks : skipBlanks (' ' :: c :: rest) = c :: rest := skipBlanks_cons hc rest
  rw [readEntries, readName_written name h]
  simp only [hitem]
  rw [skipBlanks_cons (by decide)]
  simp only [hblanks]

def joinEntries (es : List (Text × Value)) : List (Text × Value) :=
  es.map fun e => (e.1.joinPairs, e.2.joinPairs)

theorem readEntries_written {es : List (Text × Value)} (hne : es ≠ [])
    (hatom : ∀ e ∈ es, e.2.IsAtom) {n : Nat} (hn : es.length < n) (rest : List Char) :
    readEntries none n (separated [',', ' '] (jsonEntries es) ++ '\x7d' :: rest) =
      .ok (joinEntries es, rest) := by
  induction es generalizing n with
  | nil => exact absurd rfl hne
  | cons e es ih =>
      obtain ⟨name, v⟩ := e
      have hv : v.IsAtom := hatom (name, v) (List.mem_cons_self ..)
      obtain ⟨n, rfl⟩ : ∃ k, n = k + 2 := ⟨n - 2, by rw [List.length_cons] at hn; omega⟩
      cases es with
      | nil =>
          rw [jsonEntries, jsonEntries, separated, jsonChars_of_isAtom hv]
          exact readEntries_last n name hv rest
      | cons e' es =>
          have hmore := ih (by simp) (fun e he => hatom e (List.mem_cons_of_mem _ he))
            (Nat.lt_of_succ_lt_succ hn)
          obtain ⟨more, hwritten⟩ : ∃ more,
              separated [',', ' '] (jsonEntries (e' :: es)) ++ '\x7d' :: rest = '\"' :: more := by
            cases es <;> exact ⟨_, rfl⟩
          have hsplit : separated [',', ' '] (jsonEntries ((name, v) :: e' :: es)) ++
              '\x7d' :: rest = jsonText name ++ [':', ' '] ++ jsonScalar v ++
                ',' :: ' ' :: '\"' :: more := by
            rw [← hwritten, ← jsonChars_of_isAtom hv]
            simp [jsonEntries, separated]
          rw [hwritten] at hmore
          rw [hsplit, readEntries_more n name hv (by decide), hmore]
          rfl

/-! ## Records -/

theorem length_le_length_separated (separator : List Char) {items : List (List Char)}
    (h : ∀ item ∈ items, 0 < item.length) :
    items.length ≤ (separated separator items).length := by
  induction items with
  | nil => exact Nat.zero_le _
  | cons item items ih =>
      have hitem := h item (List.mem_cons_self ..)
      have hrest := ih fun i hi => h i (List.mem_cons_of_mem _ hi)
      cases items with
      | nil => exact hitem
      | cons next items =>
          simp only [separated, List.length_append, List.length_cons] at hrest ⊢
          omega

theorem jsonEntries_eq_map (es : List (Text × Value)) :
    jsonEntries es = es.map fun e => jsonText e.1 ++ [':', ' '] ++ jsonChars e.2 := by
  induction es with
  | nil => rfl
  | cons e es ih => rw [jsonEntries, ih, List.map_cons]

theorem length_le_length_separated_jsonEntries (es : List (Text × Value)) :
    es.length ≤ (separated [',', ' '] (jsonEntries es)).length := by
  have hpos : ∀ item ∈ jsonEntries es, 0 < item.length := by
    intro item hitem
    rw [jsonEntries_eq_map] at hitem
    obtain ⟨e, -, rfl⟩ := List.mem_map.1 hitem
    exact Nat.succ_pos _
  have hle := length_le_length_separated [',', ' '] hpos
  rwa [jsonEntries_eq_map, List.length_map, ← jsonEntries_eq_map] at hle

theorem readValue_table (limit : Option Nat) (n : Nat) (more : List Char) :
    readValue limit (n + 1) ('\x7b' :: '\"' :: more) =
      (readEntries limit n ('\"' :: more)).map fun r => (.table r.1, r.2) := by
  rw [readValue, skipBlanks_cons (by decide)]
  rfl

/-- A written record is read back. -/
theorem readJson_writeJson_record {es : List (Text × Value)} (hatom : ∀ e ∈ es, e.2.IsAtom) :
    readJson none (writeJson (.table es)) = .ok (.table (joinEntries es)) := by
  have hvalue : readValue none (2 * (jsonChars (.table es)).length + 2) (jsonChars (.table es)) =
      .ok (.table (joinEntries es), []) := by
    cases es with
    | nil => rfl
    | cons e es =>
        have hlength := length_le_length_separated_jsonEntries (e :: es)
        have hfuel : (e :: es).length < 2 * (jsonChars (.table (e :: es))).length + 1 := by
          simp only [jsonChars, List.length_cons, List.length_append] at hlength ⊢
          omega
        have hread := readEntries_written (List.cons_ne_nil e es) hatom hfuel []
        obtain ⟨more, hmore⟩ : ∃ more,
            separated [',', ' '] (jsonEntries (e :: es)) ++ ['\x7d'] = '\"' :: more := by
          cases es <;> exact ⟨_, rfl⟩
        have hwritten : jsonChars (.table (e :: es)) = '\x7b' :: '\"' :: more := by
          rw [jsonChars, hmore]
        rw [hmore] at hread
        rw [hwritten] at hread ⊢
        rw [readValue_table, hread]
        rfl
  have hwhole : readWhole none (jsonChars (.table es)) = .ok (.table (joinEntries es)) := by
    have hblanks : skipBlanks (jsonChars (.table es)) = jsonChars (.table es) :=
      skipBlanks_cons (by decide) _
    rw [readWhole, if_neg (by simp [jsonChars]), hblanks, hvalue]
    rfl
  rw [readJson, writeJson, String.toList_ofList, hwhole]
  rfl

theorem jsonChars_joinEntries {es : List (Text × Value)} (hatom : ∀ e ∈ es, e.2.IsAtom) :
    jsonChars (.table (joinEntries es)) = jsonChars (.table es) := by
  have hentry : ∀ e ∈ es, jsonText e.1.joinPairs ++ [':', ' '] ++ jsonChars e.2.joinPairs =
      jsonText e.1 ++ [':', ' '] ++ jsonChars e.2 := by
    rintro ⟨name, v⟩ he
    have hv : v.IsAtom := hatom _ he
    rw [jsonText_joinPairs]
    cases v with
    | text t => exact congrArg (jsonText name ++ [':', ' '] ++ ·) (jsonText_joinPairs t)
    | _ => rfl
  rw [jsonChars, jsonChars, jsonEntries_eq_map, jsonEntries_eq_map, joinEntries, List.map_map]
  exact congrArg (fun items => '\x7b' :: (separated [',', ' '] items ++ ['\x7d']))
    (List.map_congr_left hentry)

/-! ## The characters of records -/

theorem isPrintableAscii_of_isDigit {c : Char} (h : c.isDigit = true) : IsPrintableAscii c := by
  have hbounds := (isDigit_iff_toNat c).1 h
  constructor <;> omega

theorem isPrintableAscii_of_mem_toString {n : Int} {c : Char} (h : c ∈ (toString n).toList) :
    IsPrintableAscii c := by
  cases n with
  | ofNat m => exact isPrintableAscii_of_isDigit (isDigit_of_mem_toString (n := m) h)
  | negSucc m =>
      rw [toList_toString_negSucc, List.mem_cons] at h
      rcases h with rfl | h
      · decide
      · exact isPrintableAscii_of_isDigit (isDigit_of_mem_toString h)

theorem isPrintableAscii_of_mem_jsonScalar {v : Value} (h : v.IsAtom) {c : Char}
    (hc : c ∈ jsonScalar v) : IsPrintableAscii c := by
  cases v with
  | text t => exact isPrintableAscii_of_mem_jsonText hc
  | int n => exact isPrintableAscii_of_mem_toString hc
  | bool b => cases b <;> exact isPrintableAscii_of_all (by decide) hc
  | null => exact isPrintableAscii_of_all (by decide) hc
  | _ => cases h

theorem mem_separated {separator : List Char} {items : List (List Char)} {c : Char}
    (h : c ∈ separated separator items) : c ∈ separator ∨ ∃ item ∈ items, c ∈ item := by
  induction items with
  | nil => cases h
  | cons item items ih =>
      cases items with
      | nil => exact .inr ⟨item, by simp, h⟩
      | cons next items =>
          simp only [separated, List.mem_append] at h
          rcases h with (h | h) | h
          · exact .inr ⟨item, by simp, h⟩
          · exact .inl h
          · rcases ih h with h | ⟨item', hitem', h⟩
            · exact .inl h
            · exact .inr ⟨item', List.mem_cons_of_mem _ hitem', h⟩

theorem isPrintableAscii_of_mem_jsonChars_record {es : List (Text × Value)}
    (hatom : ∀ e ∈ es, e.2.IsAtom) {c : Char} (h : c ∈ jsonChars (.table es)) :
    IsPrintableAscii c := by
  simp only [jsonChars, List.mem_cons, List.mem_append, List.not_mem_nil, or_false] at h
  rcases h with rfl | h | rfl
  · decide
  · rcases mem_separated h with h | ⟨item, hitem, h⟩
    · exact isPrintableAscii_of_all (by decide) h
    · rw [jsonEntries_eq_map] at hitem
      obtain ⟨e, he, rfl⟩ := List.mem_map.1 hitem
      rw [jsonChars_of_isAtom (hatom e he)] at h
      simp only [List.mem_append] at h
      rcases h with (h | h) | h
      · exact isPrintableAscii_of_mem_jsonText h
      · exact isPrintableAscii_of_all (by decide) h
      · exact isPrintableAscii_of_mem_jsonScalar (hatom e he) h
  · decide

theorem newline_notMem_jsonChars_record {es : List (Text × Value)}
    (hatom : ∀ e ∈ es, e.2.IsAtom) : '\n' ∉ jsonChars (.table es) :=
  fun h => ne_newline_of_isPrintableAscii (isPrintableAscii_of_mem_jsonChars_record hatom h) rfl

end TextGrammar
