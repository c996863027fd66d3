import TextGrammar.CommandLine.Book
import TextGrammar.Proofs.Text.Pairs

/-!
# Names read from JSON

A text that is read from JSON has its surrogate pairs joined, and so have the names of a table and
of a rule book (`CommandLine.joined_of_readBook`): what they are written as again is read as the
same names.
-/

namespace TextGrammar

theorem joined_of_readQuoted {start : Nat} {cs rest : List Char} {text : Text}
    (h : readQuoted start cs = .ok (text, rest)) : text.Joined := by
  unfold readQuoted at h
  cases hpoints : readPoints start cs with
  | error stop =>
      rw [hpoints] at h
      cases h
  | ok r =>
      rw [hpoints] at h
      cases h
      exact Text.joined_joinPairs (.ofList r.1)

theorem joined_of_readName {cs rest : List Char} {name : Text}
    (h : readName cs = .ok (name, rest)) : name.Joined := by
  unfold readName at h
  split at h
  · split at h
    · cases h
    · next hquoted =>
        split at h
        · cases h
          exact joined_of_readQuoted hquoted
        · cases h
  · cases h

theorem joined_of_readEntries {limit : Option Nat} {n : Nat} {cs rest : List Char}
    {es : List (Text × Value)} (h : readEntries limit n cs = .ok (es, rest)) :
    ∀ e ∈ es, e.1.Joined := by
  induction n generalizing cs rest es with
  | zero =>
      rw [readEntries] at h
      cases h
  | succ n ih =>
      rw [readEntries] at h
      split at h
      · cases h
      next name _ hname =>
      split at h
      · cases h
      split at h
      · cases h
        rw [List.forall_mem_singleton]
        exact joined_of_readName hname
      · next more _ =>
          cases hmore : readEntries limit n (skipBlanks more) with
          | error stop =>
              rw [hmore] at h
              cases h
          | ok r =>
              rw [hmore] at h
              cases h
              exact List.forall_mem_cons.2 ⟨joined_of_readName hname, ih hmore⟩
      · cases h

theorem readScalar_ne_table {limit : Option Nat} {cs rest : List Char} {es : List (Text × Value)} :
    readScalar limit cs ≠ .ok (.table es, rest) := by
  intro h
  unfold readScalar at h
  split at h
  · next hword =>
      obtain rfl := Except.ok.inj h
      obtain ⟨w, hw, hr⟩ := List.exists_of_findSome?_eq_some hword
      simp only [jsonWords, List.mem_cons, List.not_mem_nil, or_false] at hw
      split at hr
      · rcases hw with rfl | rfl | rfl | rfl | rfl | rfl <;> cases hr
      · cases hr
  · simp only [readNumber] at h
    split at h
    · cases h
    split at h
    · obtain ⟨v, hwhole, hv⟩ := exists_of_map_eq_ok h
      obtain rfl := (Prod.mk.inj hv).1
      unfold wholeNumber at hwhole
      split at hwhole <;> cases hwhole
    · split at h <;> cases h

theorem joined_of_readValue {limit : Option Nat} {n : Nat} {cs rest : List Char}
    {es : List (Text × Value)} (h : readValue limit n cs = .ok (.table es, rest)) :
    ∀ e ∈ es, e.1.Joined := by
  cases n with
  | zero =>
      rw [readValue] at h
      cases h
  | succ n =>
      unfold readValue at h
      split at h
      · obtain ⟨r, -, hr⟩ := exists_of_map_eq_ok h
        cases hr
      · split at h
        · cases h
          exact nofun
        · obtain ⟨r, hentries, hr⟩ := exists_of_map_eq_ok h
          cases hr
          exact joined_of_readEntries hentries
      · split at h
        · cases h
        · obtain ⟨r, -, hr⟩ := exists_of_map_eq_ok h
          cases hr
      · exact absurd h readScalar_ne_table

theorem joined_of_readJson {limit : Option Nat} {text : String} {es : List (Text × Value)}
    (h : readJson limit text = .ok (.table es)) : ∀ e ∈ es, e.1.Joined := by
  unfold readJson readWhole at h
  split at h
  · cases h
  split at h
  · cases h
  next hvalue =>
  split at h
  · cases h
    exact joined_of_readValue hvalue
  · cases h

/-- The names of a rule book have their surrogate pairs joined. -/
theorem CommandLine.joined_of_readBook {text : String} {book : List (Text × Definition)}
    (h : readBook text = .ok book) : ∀ name ∈ book.map Prod.fst, name.Joined := by
  unfold readBook at h
  split at h
  · cases h
  · next entries hread =>
      obtain rfl := Except.ok.inj h
      rw [List.map_map, List.forall_mem_map]
      exact joined_of_readJson hread
  · cases h

end TextGrammar
