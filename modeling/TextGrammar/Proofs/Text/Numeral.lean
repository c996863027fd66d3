import Mathlib.Data.List.TakeWhile
import TextGrammar.Number.Power
import TextGrammar.Text.Numeral

/-!
# Numbers written in decimal

The decimal spelling of a natural number is a text of digits that reading takes back to the
number (`readInt_toString`). The only bound is the one that reading sets itself, on the number
of digits, so that every number that is read is below it (`readInt_lt`).
-/

namespace TextGrammar

theorem isDigit_of_mem_toString {n : Nat} {c : Char} (h : c ∈ (toString n).toList) :
    c.isDigit = true := by
  rw [Nat.toString_eq_repr, Nat.toList_repr] at h
  exact Nat.isDigit_of_mem_toDigits (by decide) (by decide) h

theorem toList_toString_ne_nil (n : Nat) : (toString n).toList ≠ [] := by
  rw [Nat.toString_eq_repr, Nat.toList_repr]
  exact Nat.toDigits_ne_nil

theorem length_toList_toString_le {n k : Nat} (hk : 0 < k) (h : n < tenTo k) :
    (toString n).toList.length ≤ k := by
  rw [Nat.toString_eq_repr, Nat.toList_repr]
  exact (Nat.length_toDigits_le_iff (by decide) hk).2 h

theorem digitsValue_toString (n : Nat) : digitsValue (toString n).toList = n := by
  rw [Nat.toString_eq_repr, Nat.toList_repr]
  exact Nat.ofDigitChars_ten_toDigits

theorem isDigit_iff_toNat (c : Char) : c.isDigit = true ↔ 48 ≤ c.toNat ∧ c.toNat ≤ 57 := by
  simp only [Char.isDigit, Bool.and_eq_true, decide_eq_true_eq, ge_iff_le, UInt32.le_iff_toNat_le]
  rfl

theorem isAsciiBlank_of_isDigit {c : Char} (h : c.isDigit = true) : isAsciiBlank c = false := by
  have hbounds := (isDigit_iff_toNat c).1 h
  have hspace : c ≠ ' ' := by
    rintro rfl
    exact absurd h (by decide)
  simp only [isAsciiBlank, hspace, decide_false, Bool.false_or, Bool.and_eq_false_iff,
    decide_eq_false_iff_not]
  omega

/-- An ASCII digit is the digit of its own value. -/
theorem isDigitChar_of_isDigit {c : Char} (h : c.isDigit = true) :
    isDigitChar (.char c) = true := by
  have hbounds := (isDigit_iff_toNat c).1 h
  have hzero : (decide (48 ≤ c.toNat) && decide (c.toNat < 48 + 10)) = true := by
    simp only [Bool.and_eq_true, decide_eq_true_eq]
    omega
  have hfind : decimalZeros.find? (fun z => z ≤ c.toNat && c.toNat < z + 10) = some 48 :=
    List.find?_cons_of_pos hzero
  have hvalue : decimalValue? (.char c) = some (c.toNat - 48) := by
    rw [decimalValue?, CodePoint.toNat_char, hfind]
    rfl
  exact isDigitChar_of_decimalValue? hvalue

theorem isDigitText_toString (n : Nat) : isDigitText (toString n) = true := by
  have hall : ((toString n).toList.map CodePoint.char).all isDigitChar = true := by
    rw [List.all_map, List.all_eq_true]
    exact fun c hc => isDigitChar_of_isDigit (isDigit_of_mem_toString hc)
  have hne : ((toString n).toList.map CodePoint.char).isEmpty = false := by
    rw [List.isEmpty_eq_false_iff, ne_eq, List.map_eq_nil_iff]
    exact toList_toString_ne_nil n
  rw [isDigitText, Text.toList_ofString, hne, hall]
  rfl

theorem map_numeralChar_of_isDigit {cs : List Char} (h : ∀ c ∈ cs, c.isDigit = true) :
    (cs.map CodePoint.char).map numeralChar = cs := by
  rw [List.map_map]
  refine List.map_congr_left (fun c hc => ?_) |>.trans (List.map_id cs)
  have := (isDigit_iff_toNat c).1 (h c hc)
  exact if_pos (by omega)

theorem splitSign_of_isDigit {cs : List Char} (h : ∀ c ∈ cs, c.isDigit = true) :
    splitSign cs = (false, cs) := by
  cases cs with
  | nil => rfl
  | cons c rest =>
      have hc := h c (by simp)
      have hplus : c ≠ '+' := by
        rintro rfl
        exact absurd hc (by decide)
      have hminus : c ≠ '-' := by
        rintro rfl
        exact absurd hc (by decide)
      unfold splitSign
      split
      · next heq => exact absurd (List.cons.inj heq).1 hplus
      · next heq => exact absurd (List.cons.inj heq).1 hminus
      · rfl

theorem wellGrouped_of_isDigit {before : Char} {cs : List Char} (hb : before ≠ '_')
    (h : ∀ c ∈ cs, c.isDigit = true) : wellGrouped before cs = true := by
  induction cs generalizing before with
  | nil => simp [wellGrouped, hb]
  | cons c rest ih =>
      have hc := h c (by simp)
      have hne : c ≠ '_' := by
        rintro rfl
        exact absurd hc (by decide)
      have hrest := ih hne fun d hd => h d (List.mem_cons_of_mem c hd)
      simp [wellGrouped, hne, hb, hrest]

/-- Reading takes digits for the number they write, unless they are too many or none. -/
theorem readInt_of_isDigit {s : String} (h : ∀ c ∈ s.toList, c.isDigit = true)
    (hne : s.toList ≠ []) (hlen : s.toList.length ≤ maxDigits) :
    readInt s = .ok (digitsValue s.toList : Int) := by
  have hblank : s.toList.dropWhile isAsciiBlank = s.toList := by
    rw [List.dropWhile_eq_self_iff]
    intro hl
    simp [isAsciiBlank_of_isDigit (h _ (List.getElem_mem hl))]
  have hpart : ∀ c ∈ s.toList, (c.isDigit || decide (c = '_')) = true := by
    intro c hc
    rw [h c hc, Bool.true_or]
  have htake : s.toList.takeWhile (fun c => c.isDigit || decide (c = '_')) = s.toList :=
    List.takeWhile_eq_self_iff.2 hpart
  have hdrop : s.toList.dropWhile (fun c => c.isDigit || decide (c = '_')) = [] :=
    List.dropWhile_eq_nil_iff.2 hpart
  have hfilter : s.toList.filter (·.isDigit) = s.toList := List.filter_eq_self.2 h
  have hempty : s.toList.isEmpty = false := by
    rw [List.isEmpty_eq_false_iff]
    exact hne
  unfold readInt
  rw [Text.toList_ofString, map_numeralChar_of_isDigit h, hblank, splitSign_of_isDigit h]
  simp only [htake, hdrop, hfilter, hempty]
  rw [if_neg (by simp [wellGrouped_of_isDigit (by decide : ' ' ≠ '_') h]),
    if_neg (by omega), if_neg (by simp), if_neg (by simp)]

/-- Reading undoes writing in decimal, up to the number of digits that reading allows. -/
theorem readInt_toString {n : Nat} (h : n < tenTo maxDigits) :
    readInt (toString n) = .ok (n : Int) := by
  have hread := readInt_of_isDigit (fun _ hc => isDigit_of_mem_toString hc)
    (toList_toString_ne_nil n) (length_toList_toString_le (by decide) h)
  rw [hread, digitsValue_toString]

theorem digitsValue_lt {cs : List Char} (h : ∀ c ∈ cs, c.isDigit = true) :
    digitsValue cs < tenTo cs.length := by
  -- digits behind a number `n` never reach `n + 1` with as many zeros
  have hfold : ∀ n : Nat,
      cs.foldl (fun n c => 10 * n + (c.toNat - 48)) n < (n + 1) * tenTo cs.length := by
    induction cs with
    | nil => simp
    | cons c rest ih =>
        intro n
        rw [List.forall_mem_cons] at h
        have hc := (isDigit_iff_toNat c).1 h.1
        have hstep : 10 * n + (c.toNat - 48) + 1 ≤ 10 * (n + 1) := by omega
        calc (c :: rest).foldl (fun n c => 10 * n + (c.toNat - 48)) n
            < (10 * n + (c.toNat - 48) + 1) * tenTo rest.length := ih h.2 _
          _ ≤ 10 * (n + 1) * tenTo rest.length := Nat.mul_le_mul_right _ hstep
          _ = (n + 1) * tenTo (c :: rest).length := by
              rw [List.length_cons, tenTo_succ, Nat.mul_comm 10, Nat.mul_assoc, Nat.mul_comm 10]
  simpa [digitsValue] using hfold 0

theorem readInt_lt {text : Text} {n : Int} (h : readInt text = .ok n) :
    n < tenTo maxDigits := by
  unfold readInt at h
  rcases hsign : splitSign ((text.toList.map numeralChar).dropWhile isAsciiBlank) with
    ⟨negative, cs⟩
  have hall : ∀ c ∈ (cs.takeWhile fun c => c.isDigit || decide (c = '_')).filter (·.isDigit),
      c.isDigit = true := fun c hc => (List.mem_filter.1 hc).2
  simp only [hsign] at h
  split at h
  · cases h
  · split at h
    · cases h
    · next hlength =>
        split at h
        · cases h
        · cases h
          have hlt := (digitsValue_lt hall).trans_le (tenTo_mono (Nat.le_of_not_lt hlength))
          have hpos := tenTo_pos maxDigits
          split <;> omega

end TextGrammar
