import TextGrammar.Tag.Environment
import TextGrammar.Tag.Store

/-!
# Nested tables as copies

A scoped store keeps for each scope what was bound in it, and finds a name by going outwards. An
environment keeps for each scope a complete table, a copy of the one around it with what was bound
since. The store unfolds to the environment (`Unfolds`): at each scope, merging the tables from
there outwards gives the complete table, with the names in the same order. Every operation keeps
this, for all scopes at once, so that after any operations the store shows what the environment
does (`store_shows_environment`).
-/

namespace TextGrammar

/-- What changes the bindings of a store or an environment. -/
inductive TagOperation where
  | bind (name : Text) (value : Option Text)
  | enterScope
  | exitScope
  | removeAll

namespace TagOperation

def onStore (s : TagStore) : TagOperation → TagStore
  | bind name value => s.bind name value
  | enterScope => s.enterScope
  | exitScope => s.exitScope
  | removeAll => s.removeAll

def onEnvironment (e : Environment) : TagOperation → Environment
  | bind name value => e.bind name value
  | enterScope => e.enterScope
  | exitScope => e.exitScope
  | removeAll => e.removeAll

end TagOperation

namespace TagStore

/-! ## Merged tables -/

@[simp] theorem merge_cons (table : TagTable) (outer : List TagTable) :
    merge (table :: outer) = (merge outer).putAll table.entries := rfl

theorem merge_put (table : TagTable) (outer : List TagTable) (name : Text)
    (value : Option Text) :
    merge (table.put name value :: outer) = (merge (table :: outer)).put name value :=
  Lexicon.putAll_putEntry (merge outer) name value table.nodup_names

/-- Going outwards finds what the merged table has. -/
theorem lookupIn_eq_getD_merge (name : Text) (tables : List TagTable) :
    lookupIn name tables = ((merge tables).get? name).getD none := by
  induction tables with
  | nil => rfl
  | cons table outer ih =>
      rw [merge_cons, Lexicon.get?_putAll _ _ table.nodup_names, lookupIn, ih]
      change (table.get? name).getD _ = ((table.get? name).or _).getD none
      cases table.get? name with
      | none => rfl
      | some value => rfl

def complete : List TagTable → List TagTable
  | [] => []
  | table :: outer => merge (table :: outer) :: complete outer

end TagStore

open TagStore

/-! ## A store and its environment -/

/-- The complete table of each scope of a store is the one that the environment has there. -/
inductive Unfolds : TagStore → Environment → Prop
  | intro (inner : TagTable) (outer : List TagTable) :
      Unfolds (.nested inner outer) ⟨merge (inner :: outer), complete outer⟩

namespace Unfolds

variable {s : TagStore} {e : Environment}

theorem empty : Unfolds (.empty .nested) .empty := .intro .empty []

theorem bind (h : Unfolds s e) (name : Text) (value : Option Text) :
    Unfolds (s.bind name value) (e.bind name value) := by
  obtain ⟨inner, outer⟩ := h
  have hmerge := merge_put inner outer name value
  rw [Environment.bind, ← hmerge]
  exact .intro (inner.put name value) outer

theorem enterScope (h : Unfolds s e) : Unfolds s.enterScope e.enterScope := by
  obtain ⟨inner, outer⟩ := h
  exact .intro .empty (inner :: outer)

theorem exitScope (h : Unfolds s e) : Unfolds s.exitScope e.exitScope := by
  obtain ⟨inner, outer⟩ := h
  cases outer with
  | nil => exact .intro inner []
  | cons table rest => exact .intro table rest

theorem removeAll (h : Unfolds s e) : Unfolds s.removeAll e.removeAll := by
  obtain ⟨inner, outer⟩ := h
  exact .intro .empty []

theorem step (h : Unfolds s e) (operation : TagOperation) :
    Unfolds (operation.onStore s) (operation.onEnvironment e) := by
  cases operation with
  | bind name value => exact h.bind name value
  | enterScope => exact h.enterScope
  | exitScope => exact h.exitScope
  | removeAll => exact h.removeAll

theorem run (h : Unfolds s e) (operations : List TagOperation) :
    Unfolds (operations.foldl TagOperation.onStore s)
      (operations.foldl TagOperation.onEnvironment e) := by
  induction operations generalizing s e with
  | nil => exact h
  | cons operation rest ih => exact ih (h.step operation)

theorem snapshot_eq (h : Unfolds s e) : s.snapshot = e.top := by
  obtain ⟨inner, outer⟩ := h
  rfl

theorem lookup_eq (h : Unfolds s e) (name : Text) : s.lookup name = e.lookup name := by
  obtain ⟨inner, outer⟩ := h
  exact lookupIn_eq_getD_merge name (inner :: outer)

end Unfolds

namespace Environment

def Present (e : Environment) : Prop :=
  ∀ table ∈ e.top :: e.below, ∀ name, table.get? name ≠ some none

variable {e : Environment}

theorem present_empty : empty.Present := by
  intro table htable name
  rw [List.mem_singleton.1 htable]
  exact nofun

theorem Present.step (h : e.Present) {operation : TagOperation}
    (hoperation : ∀ name, operation ≠ .bind name none) :
    (operation.onEnvironment e).Present := by
  cases operation with
  | bind name value =>
      intro table htable other
      rcases List.mem_cons.1 htable with rfl | hbelow
      · change (e.top.put name value).get? other ≠ some none
        rw [Lexicon.get?_put]
        split
        · rintro ⟨⟩
          exact hoperation name rfl
        · exact h e.top (List.mem_cons_self ..) other
      · exact h table (List.mem_cons_of_mem _ hbelow) other
  | enterScope =>
      intro table htable
      rcases List.mem_cons.1 htable with rfl | hbelow
      · exact h e.top (List.mem_cons_self ..)
      · exact h table hbelow
  | exitScope =>
      obtain ⟨top, below⟩ := e
      cases below with
      | nil => exact h
      | cons table rest => exact fun other hother => h other (List.mem_cons_of_mem _ hother)
  | removeAll => exact present_empty

theorem Present.run (h : e.Present) {operations : List TagOperation}
    (hoperations : ∀ name, .bind name none ∉ operations) :
    (operations.foldl TagOperation.onEnvironment e).Present := by
  induction operations generalizing e with
  | nil => exact h
  | cons operation rest ih =>
      have hfirst : ∀ name, operation ≠ .bind name none := fun name heq =>
        hoperations name (heq ▸ List.mem_cons_self ..)
      exact ih (h.step hfirst) fun name hname => hoperations name (List.mem_cons_of_mem _ hname)

/-- Where no text is missing, a name has a value as soon as it is bound. -/
theorem Present.isSome_lookup (h : e.Present) (name : Text) :
    (e.lookup name).isSome = e.top.contains name := by
  have hname := h e.top (List.mem_cons_self ..) name
  unfold lookup Lexicon.contains
  cases hget : e.top.get? name with
  | none => rfl
  | some value =>
      cases value with
      | none => exact absurd hget hname
      | some text => rfl

end Environment

/-- A scoped store shows what copying environments do. After any operations on an empty store, in
whatever order names were hidden and bound again and with however many scopes left in vain, looking
a name up, asking for it, and counting and listing the visible bindings give what the innermost
complete table says. So looking up agrees with listing. A name that is bound to a missing text has
no value; where there is none, asking for a name says whether the table has it. -/
theorem store_shows_environment (operations : List TagOperation) (name : Text) :
    let s := operations.foldl TagOperation.onStore (.empty .nested)
    let e := operations.foldl TagOperation.onEnvironment .empty
    s.lookup name = e.lookup name ∧
      s.contains name = (e.lookup name).isSome ∧
      ((∀ other, .bind other none ∉ operations) → s.contains name = e.top.contains name) ∧
      s.size = e.size ∧ s.snapshot = e.top ∧
      s.lookup name = (s.snapshot.get? name).getD none := by
  intro s e
  have hunfolds : Unfolds s e := Unfolds.empty.run operations
  have hlookup := hunfolds.lookup_eq name
  have hcontains : s.contains name = (e.lookup name).isSome := by
    rw [TagStore.contains, hlookup]
  refine ⟨hlookup, hcontains, fun htexts => ?_, ?_, hunfolds.snapshot_eq, ?_⟩
  · rw [hcontains, (Environment.present_empty.run htexts).isSome_lookup name]
  · rw [TagStore.size, hunfolds.snapshot_eq, Environment.size]
  · rw [hlookup, hunfolds.snapshot_eq, Environment.lookup]

/-- A name is bound outside, hidden, bound again inside, and seen as it was after the scope; one
scope too many is left. -/
theorem store_shows_environment_hidden :
    let operations : List TagOperation := [.bind "a" (some "1"), .enterScope, .bind "b" (some "2"),
      .bind "a" (some "3"), .bind "a" (some "4"), .enterScope, .exitScope, .exitScope, .exitScope]
    let s := operations.foldl TagOperation.onStore (.empty .nested)
    let e := operations.foldl TagOperation.onEnvironment .empty
    s.lookup "a" = some "1" ∧ e.lookup "a" = some "1" ∧
      (∀ other : Text, .bind other none ∉ operations) ∧ s.contains "b" = false := by
  intro operations s e
  have htexts : ∀ other : Text, .bind other none ∉ operations := by simp [operations]
  have ha := (store_shows_environment operations "a").1
  have hb := (store_shows_environment operations "b").2.2.1 htexts
  have hvalue : e.lookup "a" = some "1" := rfl
  exact ⟨ha.trans hvalue, hvalue, htexts, hb.trans rfl⟩

end TextGrammar
