import TextGrammar.Text.CodePoint

/-!
# Texts

A text is a sequence of code points. A string literal stands for the text of its characters
(`Text.ofString`). Texts are compared by their code points, one after the other.
-/

namespace TextGrammar

/-- A sequence of code points. -/
@[ext]
structure Text where
  /-- The text of code points. -/
  ofList ::
  /-- The code points of a text. -/
  toList : List CodePoint
deriving DecidableEq, Repr

namespace Text

def ofString (s : String) : Text := ofList (s.toList.map .char)

instance : Coe String Text := ⟨ofString⟩

instance : Inhabited Text := ⟨""⟩

instance : Append Text := ⟨fun a b => ofList (a.toList ++ b.toList)⟩

def singleton (c : CodePoint) : Text := ofList [c]

def isEmpty (t : Text) : Bool := t.toList.isEmpty

def length (t : Text) : Nat := t.toList.length

/-- The string of a text; a text that holds a surrogate has none. -/
def string? (t : Text) : Option String :=
  (t.toList.mapM CodePoint.char?).map String.ofList

def join (ts : List Text) : Text := ofList (ts.flatMap toList)

def intercalate (separator : Text) (ts : List Text) : Text :=
  ofList (separator.toList.intercalate (ts.map toList))

@[simp] theorem toList_ofList (cs : List CodePoint) : (ofList cs).toList = cs := rfl

@[simp] theorem ofList_toList (t : Text) : ofList t.toList = t := rfl

@[simp] theorem toList_append (a b : Text) : (a ++ b).toList = a.toList ++ b.toList := rfl

@[simp] theorem toList_ofString (s : String) : (ofString s).toList = s.toList.map .char := rfl

@[simp] theorem ofList_nil : ofList [] = "" := rfl

@[simp] theorem toList_singleton (c : CodePoint) : (singleton c).toList = [c] := rfl

theorem toList_empty : ("" : Text).toList = [] := rfl

@[simp] theorem toList_eq_nil_iff {t : Text} : t.toList = [] ↔ t = "" := by
  rw [Text.ext_iff, toList_empty]

@[simp] theorem ofList_eq_empty_iff {cs : List CodePoint} : ofList cs = "" ↔ cs = [] := by
  rw [← toList_eq_nil_iff, toList_ofList]

theorem singleton_ne_empty (c : CodePoint) : singleton c ≠ "" := by
  rw [Ne, ← toList_eq_nil_iff, toList_singleton]
  exact List.cons_ne_nil c []

@[simp] theorem append_empty (t : Text) : t ++ "" = t := Text.ext (List.append_nil _)

@[simp] theorem empty_append (t : Text) : "" ++ t = t := rfl

theorem append_assoc (a b c : Text) : a ++ b ++ c = a ++ (b ++ c) :=
  Text.ext (List.append_assoc ..)

@[simp] theorem append_eq_empty_iff {a b : Text} : a ++ b = "" ↔ a = "" ∧ b = "" := by
  rw [← toList_eq_nil_iff, toList_append, List.append_eq_nil_iff, toList_eq_nil_iff,
    toList_eq_nil_iff]

@[simp] theorem append_right_inj {a b c : Text} : a ++ b = a ++ c ↔ b = c := by
  simp [Text.ext_iff]

@[simp] theorem append_left_inj {a b c : Text} : b ++ a = c ++ a ↔ b = c := by
  simp [Text.ext_iff]

@[simp] theorem isEmpty_iff {t : Text} : t.isEmpty = true ↔ t = "" := by
  simp [isEmpty]

@[simp] theorem ofString_inj {s s' : String} : ofString s = ofString s' ↔ s = s' := by
  simp [Text.ext_iff, ofString, List.map_inj_right, String.ext_iff]

@[simp] theorem join_nil : join [] = "" := rfl

@[simp] theorem join_cons (t : Text) (ts : List Text) : join (t :: ts) = t ++ join ts := rfl

@[simp] theorem join_append (ts us : List Text) : join (ts ++ us) = join ts ++ join us := by
  simp [Text.ext_iff, join]

/-! ## Order -/

instance : LT Text := ⟨fun a b => a.toList.map CodePoint.toNat < b.toList.map CodePoint.toNat⟩

instance : LE Text := ⟨fun a b => ¬b < a⟩

instance (a b : Text) : Decidable (a < b) :=
  inferInstanceAs (Decidable (a.toList.map CodePoint.toNat < b.toList.map CodePoint.toNat))

instance (a b : Text) : Decidable (a ≤ b) := inferInstanceAs (Decidable (¬b < a))

theorem not_le {a b : Text} : ¬a ≤ b ↔ b < a := Decidable.not_not

theorem le_total (a b : Text) : a ≤ b ∨ b ≤ a := by
  rw [Decidable.or_iff_not_imp_left, not_le]
  exact fun hba => List.lt_asymm hba

theorem le_trans {a b c : Text} (hab : a ≤ b) (hbc : b ≤ c) : a ≤ c := fun hca =>
  hab (List.lt_of_le_of_lt hbc hca)

theorem le_antisymm {a b : Text} (hab : a ≤ b) (hba : b ≤ a) : a = b := by
  have hpoints : a.toList.map CodePoint.toNat = b.toList.map CodePoint.toNat :=
    Std.Trichotomous.trichotomous (r := fun (xs ys : List Nat) => xs < ys) _ _ hba hab
  exact Text.ext ((List.map_inj_right fun _ _ => CodePoint.toNat_injective).1 hpoints)

end Text

end TextGrammar
