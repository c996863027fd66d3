import TextGrammar.Text.Basic

/-!
# Lexicons

A lexicon is a finite table from names to entries which remembers the order in which the
names arrived. Writing under a known name replaces the entry where it stands; a new name
goes to the end. Rule books, tag frames, modifier tables and counters are lexicons, and
wherever an order shows in an answer it is the order of the entries here.

The main statements say what writing does to look-up (`get?_put_self`, `get?_put_of_ne`)
and to the list of names (`names_put_of_mem`, `names_put_of_not_mem`).
-/

namespace TextGrammar

/-- A table from names to entries, in order of arrival, each name once. -/
@[ext]
structure Lexicon (α : Type) where
  entries : List (Text × α)
  nodup_names : (entries.map Prod.fst).Nodup

namespace Lexicon

variable {α : Type}

/-- Writes an entry under a name: in place where the name is known, else at the end. -/
def putEntry (name : Text) (entry : α) : List (Text × α) → List (Text × α)
  | [] => [(name, entry)]
  | e :: rest => if e.1 = name then (name, entry) :: rest else e :: putEntry name entry rest

theorem map_fst_putEntry_of_mem {name : Text} (entry : α) {es : List (Text × α)}
    (h : name ∈ es.map Prod.fst) :
    (putEntry name entry es).map Prod.fst = es.map Prod.fst := by
  induction es with
  | nil => simp at h
  | cons e rest ih =>
      by_cases he : e.1 = name
      · simp [putEntry, he]
      · have hrest : name ∈ rest.map Prod.fst := by
          simpa [List.mem_cons, Ne.symm he] using h
        simp only [putEntry, he, if_false, List.map_cons, ih hrest]

theorem putEntry_of_not_mem {name : Text} (entry : α) {es : List (Text × α)}
    (h : name ∉ es.map Prod.fst) : putEntry name entry es = es ++ [(name, entry)] := by
  induction es with
  | nil => rfl
  | cons e rest ih =>
      simp only [List.map_cons, List.mem_cons, not_or] at h
      simp [putEntry, Ne.symm h.1, ih h.2]

theorem nodup_putEntry (name : Text) (entry : α) {es : List (Text × α)}
    (h : (es.map Prod.fst).Nodup) : ((putEntry name entry es).map Prod.fst).Nodup := by
  by_cases hm : name ∈ es.map Prod.fst
  · rwa [map_fst_putEntry_of_mem entry hm]
  · rw [putEntry_of_not_mem entry hm, List.map_append, List.nodup_append]
    refine ⟨h, by simp, ?_⟩
    intro a ha b hb
    simp only [List.map_cons, List.map_nil, List.mem_singleton] at hb
    rintro rfl
    exact hm (hb ▸ ha)

def empty : Lexicon α := ⟨[], by simp⟩

instance : Inhabited (Lexicon α) := ⟨empty⟩

def names (l : Lexicon α) : List Text := l.entries.map Prod.fst

def get? (l : Lexicon α) (name : Text) : Option α := l.entries.lookup name

def contains (l : Lexicon α) (name : Text) : Bool := (l.get? name).isSome

def size (l : Lexicon α) : Nat := l.entries.length

/-- Writes an entry under a name; a known name keeps its place. -/
def put (l : Lexicon α) (name : Text) (entry : α) : Lexicon α :=
  ⟨putEntry name entry l.entries, nodup_putEntry name entry l.nodup_names⟩

def putAll (l : Lexicon α) (pairs : List (Text × α)) : Lexicon α :=
  pairs.foldl (fun l p => l.put p.1 p.2) l

/-- The lexicon of a list of pairs; a repeated name keeps its first place and its last entry. -/
def ofList (pairs : List (Text × α)) : Lexicon α := empty.putAll pairs

@[simp] theorem entries_empty : (empty : Lexicon α).entries = [] := rfl

@[simp] theorem names_empty : (empty : Lexicon α).names = [] := rfl

@[simp] theorem get?_empty (name : Text) : (empty : Lexicon α).get? name = none := rfl

@[simp] theorem putAll_nil (l : Lexicon α) : l.putAll [] = l := rfl

@[simp] theorem putAll_cons (l : Lexicon α) (p : Text × α) (pairs : List (Text × α)) :
    l.putAll (p :: pairs) = (l.put p.1 p.2).putAll pairs := rfl

theorem lookup_putEntry_self (name : Text) (entry : α) (es : List (Text × α)) :
    (putEntry name entry es).lookup name = some entry := by
  induction es with
  | nil => simp [putEntry]
  | cons e rest ih =>
      obtain ⟨key, old⟩ := e
      by_cases he : key = name
      · simp [putEntry, he]
      · have hne : (name == key) = false := beq_eq_false_iff_ne.2 (Ne.symm he)
        simp [putEntry, he, List.lookup_cons, hne, ih]

theorem lookup_putEntry_of_ne {name other : Text} (entry : α) (h : other ≠ name)
    (es : List (Text × α)) : (putEntry name entry es).lookup other = es.lookup other := by
  induction es with
  | nil => simp [putEntry, List.lookup_cons, beq_eq_false_iff_ne.2 h]
  | cons e rest ih =>
      obtain ⟨key, old⟩ := e
      by_cases he : key = name
      · simp [putEntry, he, List.lookup_cons, beq_eq_false_iff_ne.2 h]
      · simp [putEntry, he, List.lookup_cons, ih]

@[simp] theorem get?_put_self (l : Lexicon α) (name : Text) (entry : α) :
    (l.put name entry).get? name = some entry :=
  lookup_putEntry_self name entry l.entries

theorem get?_put_of_ne (l : Lexicon α) {name other : Text} (entry : α) (h : other ≠ name) :
    (l.put name entry).get? other = l.get? other :=
  lookup_putEntry_of_ne entry h l.entries

theorem get?_put (l : Lexicon α) (name other : Text) (entry : α) :
    (l.put name entry).get? other = if other = name then some entry else l.get? other := by
  split
  · next h => rw [h, get?_put_self]
  · next h => exact get?_put_of_ne l entry h

/-- What is so of all entries, and of a new one, is so of all when it has been written. -/
theorem forall_get?_put {P : α → Prop} {l : Lexicon α}
    (h : ∀ name entry, l.get? name = some entry → P entry) {entry : α} (hentry : P entry)
    (name other : Text) (found : α) (hfound : (l.put name entry).get? other = some found) :
    P found := by
  rw [get?_put] at hfound
  split at hfound
  · cases hfound
    exact hentry
  · exact h other found hfound

theorem names_put_of_mem (l : Lexicon α) {name : Text} (entry : α) (h : name ∈ l.names) :
    (l.put name entry).names = l.names :=
  map_fst_putEntry_of_mem entry h

theorem names_put_of_not_mem (l : Lexicon α) {name : Text} (entry : α) (h : name ∉ l.names) :
    (l.put name entry).names = l.names ++ [name] := by
  simp [names, put, putEntry_of_not_mem entry h]

theorem mem_names_iff (l : Lexicon α) (name : Text) :
    name ∈ l.names ↔ (l.get? name).isSome := by
  simp only [names, get?]
  induction l.entries with
  | nil => simp
  | cons e rest ih =>
      obtain ⟨key, old⟩ := e
      by_cases he : name = key
      · simp [he]
      · have hne : (name == key) = false := beq_eq_false_iff_ne.2 he
        simp [List.lookup_cons, hne, he, ← ih]

theorem lookup_eq_some_iff {name : Text} {entry : α} {es : List (Text × α)}
    (h : (es.map Prod.fst).Nodup) : es.lookup name = some entry ↔ (name, entry) ∈ es := by
  induction es with
  | nil => simp
  | cons e rest ih =>
      obtain ⟨key, old⟩ := e
      rw [List.map_cons, List.nodup_cons] at h
      by_cases hname : name = key
      · subst hname
        have hrest : (name, entry) ∉ rest := fun hmem =>
          h.1 (List.mem_map.2 ⟨(name, entry), hmem, rfl⟩)
        simp [hrest, eq_comm]
      · have hne : (name == key) = false := beq_eq_false_iff_ne.2 hname
        simp [List.lookup_cons, hne, hname, ih h.2]

theorem get?_eq_some_iff (l : Lexicon α) {name : Text} {entry : α} :
    l.get? name = some entry ↔ (name, entry) ∈ l.entries :=
  lookup_eq_some_iff l.nodup_names

theorem putEntry_of_lookup {name : Text} {entry : α} {es : List (Text × α)}
    (h : es.lookup name = some entry) : putEntry name entry es = es := by
  induction es with
  | nil => cases h
  | cons e rest ih =>
      obtain ⟨key, old⟩ := e
      by_cases hkey : key = name
      · subst hkey
        rw [List.lookup_cons, beq_self_eq_true] at h
        cases h
        simp [putEntry]
      · rw [List.lookup_cons, beq_eq_false_iff_ne.2 (Ne.symm hkey)] at h
        simp [putEntry, hkey, ih h]

theorem put_of_get? {l : Lexicon α} {name : Text} {entry : α} (h : l.get? name = some entry) :
    l.put name entry = l :=
  Lexicon.ext (putEntry_of_lookup h)

theorem contains_iff (l : Lexicon α) (name : Text) :
    l.contains name = true ↔ name ∈ l.names := by
  rw [mem_names_iff, contains]

/-- Pairs under new names, no two of them under one, go to the end as they are. -/
theorem entries_putAll {l : Lexicon α} {pairs : List (Text × α)}
    (hnodup : (pairs.map Prod.fst).Nodup) (hnew : ∀ name ∈ pairs.map Prod.fst, name ∉ l.names) :
    (l.putAll pairs).entries = l.entries ++ pairs := by
  induction pairs generalizing l with
  | nil => rw [putAll_nil, List.append_nil]
  | cons p rest ih =>
      rw [List.map_cons, List.nodup_cons] at hnodup
      have hp : p.1 ∉ l.names := hnew p.1 (List.mem_cons_self ..)
      have hrest : ∀ name ∈ rest.map Prod.fst, name ∉ (l.put p.1 p.2).names := by
        intro name hname
        rw [names_put_of_not_mem l p.2 hp, List.mem_append, List.mem_singleton]
        rintro (hold | rfl)
        · exact hnew name (List.mem_cons_of_mem _ hname) hold
        · exact hnodup.1 hname
      have hput : (l.put p.1 p.2).entries = l.entries ++ [p] :=
        putEntry_of_not_mem p.2 hp
      rw [putAll_cons, ih hnodup.2 hrest, hput, List.append_assoc, List.singleton_append]

theorem eq_or_mem_of_mem_putEntry {name : Text} {entry : α} {e : Text × α} {es : List (Text × α)}
    (h : e ∈ putEntry name entry es) : e = (name, entry) ∨ e ∈ es := by
  by_cases hmem : name ∈ es.map Prod.fst
  · induction es with
    | nil => cases hmem
    | cons first rest ih =>
        unfold putEntry at h
        split at h
        · exact (List.mem_cons.1 h).imp_right fun hrest => List.mem_cons_of_mem _ hrest
        · next hne =>
            rcases List.mem_cons.1 h with rfl | hrest
            · exact .inr (List.mem_cons_self ..)
            · have hknown : name ∈ rest.map Prod.fst :=
                (List.mem_cons.1 hmem).resolve_left (Ne.symm hne)
              exact (ih hrest hknown).imp_right fun hold => List.mem_cons_of_mem _ hold
  · rw [putEntry_of_not_mem entry hmem, List.mem_append, List.mem_singleton] at h
    exact h.symm

theorem mem_of_mem_entries_putAll {l : Lexicon α} {e : Text × α} {pairs : List (Text × α)}
    (h : e ∈ (l.putAll pairs).entries) : e ∈ l.entries ∨ e ∈ pairs := by
  induction pairs generalizing l with
  | nil => exact .inl h
  | cons p pairs ih =>
      rcases ih h with hput | hrest
      · rcases eq_or_mem_of_mem_putEntry hput with rfl | hold
        · exact .inr (List.mem_cons_self ..)
        · exact .inl hold
      · exact .inr (List.mem_cons_of_mem _ hrest)

theorem mem_of_mem_entries_ofList {e : Text × α} {pairs : List (Text × α)}
    (h : e ∈ (ofList pairs).entries) : e ∈ pairs :=
  (mem_of_mem_entries_putAll h).resolve_left List.not_mem_nil

@[simp] theorem ofList_entries (l : Lexicon α) : ofList l.entries = l := by
  have hnew : ∀ name ∈ l.entries.map Prod.fst, name ∉ (empty : Lexicon α).names := by simp
  exact Lexicon.ext (entries_putAll l.nodup_names hnew)

theorem putEntry_putEntry_self (name : Text) (old new : α) (es : List (Text × α)) :
    putEntry name new (putEntry name old es) = putEntry name new es := by
  induction es with
  | nil => simp [putEntry]
  | cons e rest ih =>
      by_cases he : e.1 = name
      · simp [putEntry, he]
      · simp [putEntry, he, ih]

/-- Where a name is known, it does not matter whether it or another one is written first. -/
theorem putEntry_comm {name other : Text} (entry entry' : α) (hne : other ≠ name)
    {es : List (Text × α)} (h : name ∈ es.map Prod.fst) :
    putEntry name entry (putEntry other entry' es) =
      putEntry other entry' (putEntry name entry es) := by
  induction es with
  | nil => simp at h
  | cons e rest ih =>
      by_cases he : e.1 = name
      · simp [putEntry, he, Ne.symm hne]
      · have hrest : name ∈ rest.map Prod.fst := by
          simpa [List.mem_cons, Ne.symm he] using h
        by_cases hother : e.1 = other
        · simp [putEntry, hother, hne]
        · simp [putEntry, he, hother, ih hrest]

theorem put_put_self (l : Lexicon α) (name : Text) (old new : α) :
    (l.put name old).put name new = l.put name new :=
  Lexicon.ext (putEntry_putEntry_self name old new l.entries)

theorem put_putAll_of_not_mem {l : Lexicon α} {name : Text} (entry : α)
    (hknown : name ∈ l.names) {pairs : List (Text × α)} (h : name ∉ pairs.map Prod.fst) :
    (l.putAll pairs).put name entry = (l.put name entry).putAll pairs := by
  induction pairs generalizing l with
  | nil => rfl
  | cons p rest ih =>
      rw [List.map_cons, List.mem_cons, not_or] at h
      have hcomm : (l.put p.1 p.2).put name entry = (l.put name entry).put p.1 p.2 :=
        Lexicon.ext (putEntry_comm entry p.2 (Ne.symm h.1) hknown)
      have hknown' : name ∈ (l.put p.1 p.2).names := by
        rw [mem_names_iff, get?_put_of_ne l p.2 h.1, ← mem_names_iff]
        exact hknown
      rw [putAll_cons, ih hknown' h.2, hcomm, putAll_cons]

/-- A name may be written among the pairs, as it would be into a lexicon of them, or after all of
them. -/
theorem putAll_putEntry (l : Lexicon α) (name : Text) (entry : α) {pairs : List (Text × α)}
    (hnodup : (pairs.map Prod.fst).Nodup) :
    l.putAll (putEntry name entry pairs) = (l.putAll pairs).put name entry := by
  induction pairs generalizing l with
  | nil => rfl
  | cons p rest ih =>
      rw [List.map_cons, List.nodup_cons] at hnodup
      by_cases hp : p.1 = name
      · subst hp
        have hknown : p.1 ∈ (l.put p.1 p.2).names := by
          rw [mem_names_iff, get?_put_self]
          rfl
        have hhere : putEntry p.1 entry (p :: rest) = (p.1, entry) :: rest := by simp [putEntry]
        rw [hhere, putAll_cons, putAll_cons, put_putAll_of_not_mem entry hknown hnodup.1,
          put_put_self]
      · have hlater : putEntry name entry (p :: rest) = p :: putEntry name entry rest := by
          simp [putEntry, hp]
        rw [hlater, putAll_cons, putAll_cons, ih (l.put p.1 p.2) hnodup.2]

theorem get?_putAll (l : Lexicon α) (name : Text) {pairs : List (Text × α)}
    (hnodup : (pairs.map Prod.fst).Nodup) :
    (l.putAll pairs).get? name = (pairs.lookup name).or (l.get? name) := by
  induction pairs generalizing l with
  | nil => rfl
  | cons p rest ih =>
      obtain ⟨key, entry⟩ := p
      rw [List.map_cons, List.nodup_cons] at hnodup
      rw [putAll_cons, ih (l.put key entry) hnodup.2, List.lookup_cons]
      by_cases hname : name = key
      · subst hname
        have hrest : rest.lookup name = none := by
          rw [List.lookup_eq_none_iff]
          intro q hq
          exact bne_iff_ne.2 fun heq => hnodup.1 (List.mem_map.2 ⟨q, hq, heq.symm⟩)
        simp [hrest]
      · rw [get?_put_of_ne l entry hname, beq_eq_false_iff_ne.2 hname]

theorem mem_names_put (l : Lexicon α) (name other : Text) (entry : α) :
    other ∈ (l.put name entry).names ↔ other = name ∨ other ∈ l.names := by
  rw [mem_names_iff, mem_names_iff, get?_put]
  split <;> simp_all

end Lexicon

end TextGrammar
