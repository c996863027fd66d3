/-!
# Code points

A text is a sequence of code points. Nearly all of them are characters; the others are the
surrogates, U+D800 to U+DFFF, by which UTF-16 writes a character beyond U+FFFF as a pair of a high
and a low one. A surrogate may stand in a text by itself, and a high one may stand in front of a low
one without being one character with it.

A set of code points is written as a list of ranges, both ends included.
-/

namespace TextGrammar

/-- A code point: a character, or a surrogate, by its distance from U+D800. -/
inductive CodePoint where
  | char (c : Char)
  | surrogate (offset : Fin 0x800)
deriving DecidableEq, Repr

namespace CodePoint

instance : Coe Char CodePoint := ⟨char⟩

instance : Inhabited CodePoint := ⟨' '⟩

def char? : CodePoint → Option Char
  | char c => some c
  | surrogate _ => none

def isSurrogate : CodePoint → Bool
  | char _ => false
  | surrogate _ => true

def toNat : CodePoint → Nat
  | char c => c.toNat
  | surrogate offset => 0xd800 + offset

theorem toNat_char (c : Char) : (char c).toNat = c.toNat := rfl

def ofNat (n : Nat) : CodePoint :=
  if h : 0xd800 ≤ n ∧ n < 0xe000 then surrogate ⟨n - 0xd800, by omega⟩ else char (Char.ofNat n)

theorem toNat_lt (c : CodePoint) : c.toNat < 0x110000 := by
  cases c with
  | char c =>
      have hvalid : c.toNat < 0xd800 ∨ 0xdfff < c.toNat ∧ c.toNat < 0x110000 := c.valid
      rw [toNat_char]
      omega
  | surrogate offset =>
      have hoffset := offset.isLt
      simp only [toNat]
      omega

@[simp] theorem ofNat_toNat (c : CodePoint) : ofNat c.toNat = c := by
  cases c with
  | char c =>
      have hvalid : c.toNat < 0xd800 ∨ 0xdfff < c.toNat ∧ c.toNat < 0x110000 := c.valid
      rw [toNat_char, ofNat, dif_neg (by omega), Char.ofNat_toNat]
  | surrogate offset =>
      have hrange : 0xd800 ≤ 0xd800 + offset.val ∧ 0xd800 + offset.val < 0xe000 := by omega
      simp [toNat, ofNat, hrange]

theorem toNat_injective {c d : CodePoint} (h : c.toNat = d.toNat) : c = d := by
  rw [← ofNat_toNat c, h, ofNat_toNat]

theorem toNat_ofNat {n : Nat} (h : n < 0x110000) : (ofNat n).toNat = n := by
  unfold ofNat
  split
  · next hrange => simp only [toNat]; omega
  · next hrange =>
      have hvalid : n.isValidChar := by
        unfold Nat.isValidChar
        omega
      rw [toNat_char, Char.ofNat, dif_pos hvalid]
      exact UInt32.toNat_ofNatLT ..

def inRanges (ranges : List (Nat × Nat)) (c : CodePoint) : Bool :=
  ranges.any fun r => r.1 ≤ c.toNat && c.toNat ≤ r.2

theorem inRanges_iff {ranges : List (Nat × Nat)} {c : CodePoint} :
    inRanges ranges c = true ↔ ∃ r ∈ ranges, r.1 ≤ c.toNat ∧ c.toNat ≤ r.2 := by
  simp [inRanges]

end CodePoint

end TextGrammar
