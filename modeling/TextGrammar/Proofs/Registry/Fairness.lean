import Mathlib.Data.List.Nodup
import TextGrammar.Evaluation
import TextGrammar.Proofs.Registry.Selection
import TextGrammar.Random.Twister

/-!
# Shuffled selection is fair

A shuffled selector goes through all indices, in one order after another. What it has shown is a
number of whole rounds and a part of one more, and what is still to come in its pass makes this part
a round (`InRounds`). A pick takes the next index of the round or, where none is left, begins
another one, and nothing else that happens changes what has been shown or is to come: neither the
requests that are refused, nor others who draw from the same source.

From the rounds alone it follows how often an index has been shown (`InRounds.count_eq`), and that
each stretch of picks as long as a round, beginning where one begins, is a round
(`InRounds.block_perm`).
-/

namespace TextGrammar

/-! ## Rounds -/

/-- Numbers have been shown in rounds of all indices below `n`; of the last round a part has been
shown and the rest has not. -/
structure InRounds (n : Nat) (shown part rest : List Nat) : Prop where
  last : (part ++ rest).Perm (List.range n)
  before : ∃ rounds : List (List Nat), (∀ round ∈ rounds, round.Perm (List.range n)) ∧
    shown = rounds.flatten ++ part ∧ (part = [] → rounds = [])

theorem length_flatten_rounds {n : Nat} {rounds : List (List Nat)}
    (h : ∀ round ∈ rounds, round.Perm (List.range n)) :
    rounds.flatten.length = rounds.length * n := by
  induction rounds with
  | nil => simp
  | cons round rest ih =>
      rw [List.forall_mem_cons] at h
      rw [List.flatten_cons, List.length_append, ih h.2, h.1.length_eq, List.length_range,
        List.length_cons, Nat.succ_mul, Nat.add_comm]

theorem count_flatten_rounds {n i : Nat} (hi : i < n) {rounds : List (List Nat)}
    (h : ∀ round ∈ rounds, round.Perm (List.range n)) :
    rounds.flatten.count i = rounds.length := by
  induction rounds with
  | nil => rfl
  | cons round rest ih =>
      rw [List.forall_mem_cons] at h
      have hround : round.count i = 1 := by
        rw [h.1.count_eq]
        exact List.nodup_iff_count_eq_one.1 List.nodup_range i (List.mem_range.2 hi)
      rw [List.flatten_cons, List.count_append, hround, ih h.2, List.length_cons, Nat.add_comm]

namespace InRounds

variable {n : Nat} {shown part rest : List Nat}

theorem start {order : List Nat} (h : order.Perm (List.range n)) : InRounds n [] [] order :=
  ⟨h, [], by simp, rfl, fun _ => rfl⟩

theorem next {i : Nat} (h : InRounds n shown part (i :: rest)) :
    InRounds n (shown ++ [i]) (part ++ [i]) rest := by
  obtain ⟨rounds, hrounds, rfl, -⟩ := h.before
  refine ⟨?_, rounds, hrounds, List.append_assoc .., fun hnil => ?_⟩
  · rw [List.append_assoc]
    exact h.last
  · exact absurd hnil (List.append_ne_nil_of_right_ne_nil part (List.cons_ne_nil i []))

/-- A round has come to its end, and another one begins. -/
theorem again {i : Nat} (h : InRounds n shown part []) (horder : (i :: rest).Perm part) :
    InRounds n (shown ++ [i]) [i] rest := by
  obtain ⟨rounds, hrounds, rfl, -⟩ := h.before
  have hpart : part.Perm (List.range n) := by
    have hlast := h.last
    rwa [List.append_nil] at hlast
  refine ⟨horder.trans hpart, rounds ++ [part], ?_, by simp, fun hnil => by cases hnil⟩
  rw [List.forall_mem_append, List.forall_mem_singleton]
  exact ⟨hrounds, hpart⟩

theorem length_part (h : InRounds n shown part rest) : part.length + rest.length = n := by
  have hlength := h.last.length_eq
  rwa [List.length_append, List.length_range] at hlength

/-- Between two indices the numbers of times that they have been shown differ by one at most: it is
the number of rounds, rounded down or up. -/
theorem count_eq (h : InRounds n shown part rest) {i : Nat} (hi : i < n) :
    shown.count i = shown.length / n ∨ shown.count i = (shown.length + n - 1) / n := by
  have hpart := h.length_part
  obtain ⟨rounds, hrounds, rfl, -⟩ := h.before
  have hlength : (rounds.flatten ++ part).length = rounds.length * n + part.length := by
    rw [List.length_append, length_flatten_rounds hrounds]
  rw [List.count_append, count_flatten_rounds hi hrounds, hlength]
  by_cases hmem : i ∈ part
  · right
    have hnodup : part.Nodup := List.Nodup.of_append_left (h.last.nodup_iff.2 List.nodup_range)
    have hone : part.count i = 1 := List.nodup_iff_count_eq_one.1 hnodup i hmem
    have hpos : 0 < part.length := List.length_pos_of_mem hmem
    rw [hone, Nat.div_eq_of_lt_le]
    all_goals simp only [Nat.add_mul]
    all_goals omega
  · left
    have hrest : i ∈ rest :=
      (List.mem_append.1 (h.last.mem_iff.2 (List.mem_range.2 hi))).resolve_left hmem
    have hpos : 0 < rest.length := List.length_pos_of_mem hrest
    rw [List.count_eq_zero_of_not_mem hmem, Nat.div_eq_of_lt_le]
    all_goals simp only [Nat.add_mul]
    all_goals omega

/-- Each stretch of the length of a round that begins with a round is one. -/
theorem block_perm (h : InRounds n shown part rest) (hn : 0 < n) {k : Nat}
    (hk : (k + 1) * n ≤ shown.length) : ((shown.drop (k * n)).take n).Perm (List.range n) := by
  have hpart := h.length_part
  obtain ⟨hlast, rounds, hrounds, rfl, -⟩ := h
  induction rounds generalizing k with
  | nil =>
      -- There is only the last round, and nothing of it is left.
      rw [List.flatten_nil, List.nil_append] at hk ⊢
      have hzero : k = 0 := by
        refine Nat.eq_zero_of_not_pos fun hpos => ?_
        have htwo : 2 * n ≤ (k + 1) * n := Nat.mul_le_mul_right n (by omega)
        omega
      subst hzero
      obtain rfl : rest = [] := List.eq_nil_of_length_eq_zero (by omega)
      rw [Nat.zero_mul, List.drop_zero, List.take_of_length_le (by omega)]
      rwa [List.append_nil] at hlast
  | cons round rounds ih =>
      rw [List.forall_mem_cons] at hrounds
      have hround : round.length = n := by rw [hrounds.1.length_eq, List.length_range]
      rw [List.flatten_cons, List.append_assoc] at hk ⊢
      cases k with
      | zero =>
          rw [Nat.zero_mul, List.drop_zero, List.take_left' hround]
          exact hrounds.1
      | succ k =>
          rw [List.length_append, hround, Nat.succ_mul, Nat.add_comm] at hk
          rw [Nat.succ_mul, Nat.add_comm, ← List.drop_drop, List.drop_left' hround]
          exact ih hrounds.2 (Nat.le_of_add_le_add_left hk)

/-- What has been shown since the last round began is its part. -/
theorem drop_eq (h : InRounds n shown part rest) :
    shown.drop ((shown.length - 1) / n * n) = part := by
  have hpart := h.length_part
  obtain ⟨rounds, hrounds, rfl, hfirst⟩ := h.before
  have hlength := length_flatten_rounds hrounds
  by_cases hnil : part = []
  · simp [hnil, hfirst hnil]
  · have hpos : 0 < part.length := List.length_pos_iff.2 hnil
    have hwhole : ((rounds.flatten ++ part).length - 1) / n = rounds.length := by
      rw [List.length_append, hlength]
      refine Nat.div_eq_of_lt_le (by omega) ?_
      rw [Nat.succ_mul]
      omega
    rw [hwhole, List.drop_left' hlength]

end InRounds

/-! ## A selector in use -/

/-- What happens around a shuffled selector: it is asked to choose among so many candidates, or
others use the source of randomness that it draws from. -/
inductive Turn (γ : Type) where
  | ask (count : Int)
  | others (use : γ → γ)

variable {γ : Type} [RandomSource γ]

namespace Shuffled

/-- The indices that a selector shows along a history, and the selector and the shared source at its
end. After a refused request both are what they were. -/
def run (s : Shuffled γ) (shared : γ) : List (Turn γ) → List Nat × Shuffled γ × γ
  | [] => ([], s, shared)
  | .ask count :: history =>
      match s.pick count shared with
      | .ok (i, s, shared) => (i :: (s.run shared history).1, (s.run shared history).2)
      | .error _ => s.run shared history
  | .others use :: history => run { s with own := s.own.map use } (use shared) history

variable {s t : Shuffled γ} {shared shared' : γ} {count : Int} {i n : Nat}

theorem create_eq_ok {own : Option γ} {made : Shuffled γ × γ}
    (hmade : create n own shared = .ok made) : made = start n own shared := by
  unfold create at hmade
  split at hmade
  · cases hmade
  · split at hmade
    · cases hmade
    · split at hmade
      · cases hmade
      · exact (Except.ok.inj hmade).symm

theorem pick_of_ne (hcount : count ≠ s.count) :
    s.pick count shared = .error (.wrongCount s.count count) := if_pos hcount

theorem pick_eq_ok (h : s.pick count shared = .ok (i, t, shared')) :
    (s.upcoming = i :: t.upcoming ∧ t.past = s.past ++ [i]) ∨
      (s.upcoming = [] ∧ (i :: t.upcoming).Perm s.past ∧ t.past = [i]) := by
  unfold pick at h
  split at h
  · cases h
  · cases hupcoming : s.upcoming with
    | cons j rest =>
        simp only [refill, hupcoming] at h
        cases h
        exact .inl ⟨rfl, rfl⟩
    | nil =>
        have hperm := drawFrom_fst (List.Perm · s.past) (RandomSource.shuffle_perm s.past) s.own
          shared
        simp only [refill, hupcoming] at h
        split at h
        · cases h
        · next j rest horder =>
            cases h
            exact .inr ⟨rfl, horder ▸ hperm, rfl⟩

theorem inRounds_start (n : Nat) (own : Option γ) (shared : γ) :
    InRounds n [] (start n own shared).1.past (start n own shared).1.upcoming :=
  .start (covers_start n own shared)

theorem inRounds_pick {shown : List Nat} (h : InRounds n shown s.past s.upcoming)
    (hpick : s.pick count shared = .ok (i, t, shared')) :
    InRounds n (shown ++ [i]) t.past t.upcoming := by
  rcases pick_eq_ok hpick with ⟨hupcoming, hpast⟩ | ⟨hupcoming, horder, hpast⟩
  · rw [hupcoming] at h
    rw [hpast]
    exact h.next
  · rw [hupcoming] at h
    rw [hpast]
    exact h.again horder

/-- Whatever happens, the selector goes on in rounds. -/
theorem inRounds_run {shown : List Nat} (h : InRounds n shown s.past s.upcoming) (shared : γ)
    (history : List (Turn γ)) :
    InRounds n (shown ++ (s.run shared history).1) (s.run shared history).2.1.past
      (s.run shared history).2.1.upcoming := by
  induction history generalizing s shared shown with
  | nil =>
      rw [run, List.append_nil]
      exact h
  | cons turn history ih =>
      cases turn with
      | others use => exact ih (s := { s with own := s.own.map use }) h (use shared)
      | ask count =>
          unfold run
          cases hpick : s.pick count shared with
          | error fault => exact ih h shared
          | ok answer =>
              obtain ⟨i, t, shared'⟩ := answer
              have hrest := ih (inRounds_pick h hpick) shared'
              rw [List.append_assoc] at hrest
              exact hrest

/-- The indices to come are shown next, in their order, before any others. -/
theorem take_run (s : Shuffled γ) (shared : γ) (history : List (Turn γ)) :
    (s.run shared history).1.take s.upcoming.length =
      s.upcoming.take (s.run shared history).1.length := by
  induction history generalizing s shared with
  | nil => simp [run]
  | cons turn history ih =>
      cases turn with
      | others use => exact ih { s with own := s.own.map use } (use shared)
      | ask count =>
          unfold run
          cases hpick : s.pick count shared with
          | error fault => exact ih s shared
          | ok answer =>
              obtain ⟨i, t, shared'⟩ := answer
              rcases pick_eq_ok hpick with ⟨hupcoming, -⟩ | ⟨hupcoming, -⟩
              · simp [hupcoming, ih t shared']
              · simp [hupcoming]

end Shuffled

/-- A rule whose selector refuses stops the work, and the session is as it was. -/
theorem selectCandidate_of_wrongCount {name : Text} {rule : Rule γ} {state : Shuffled γ}
    (hselector : rule.selector = .shuffled state)
    (hcount : rule.candidates.length ≠ state.count) (s : Session γ) :
    selectCandidate name rule s =
      .error (.wrongCount state.count rule.candidates.length) s := by
  have hne : (rule.candidates.length : Int) ≠ state.count := fun heq =>
    hcount (Int.ofNat_inj.1 heq)
  have hselect : rule.select s.random =
      .error (.wrongCount state.count rule.candidates.length) := by
    rw [Rule.select, hselector, Selector.pick, Shuffled.pick_of_ne hne]
    rfl
  rw [selectCandidate, hselect]

/-- A shuffled selector, from its start, is fair over runs of any length, whatever the source of
randomness does, whoever else draws from it, and whatever requests are refused in between. At any
moment each index has been shown as often as there have been rounds of `n` picks, rounded down or
up; each round was an order of all indices; the indices remaining are those that are missing in the
current pass, and they are shown next, in their order. A request for `n` candidates is answered. One
for another number is refused with a fault of value and changes nothing: what comes after it comes
as it would have, and the session in which a rule has such a selector stays the same. -/
theorem shuffled_fair {n : Nat} (hn : 0 < n) (own : Option γ) (shared : γ)
    (history : List (Turn γ)) :
    let made := Shuffled.start n own shared
    let shown := (made.1.run made.2 history).1
    let s := (made.1.run made.2 history).2.1
    let g := (made.1.run made.2 history).2.2
    (∀ other, Shuffled.create n own shared = .ok other → other = made) ∧
      (∀ i < n, shown.count i = shown.length / n ∨
        shown.count i = (shown.length + n - 1) / n) ∧
      (∀ k, (k + 1) * n ≤ shown.length →
        ((shown.drop (k * n)).take n).Perm (List.range n)) ∧
      (shown.drop ((shown.length - 1) / n * n) ++ s.remaining).Perm (List.range n) ∧
      (∀ more, (s.run g more).1.take s.remaining.length =
        s.remaining.take (s.run g more).1.length) ∧
      (∃ i t g', s.pick n g = .ok (i, t, g')) ∧
      ∀ count : Int, count ≠ n →
        s.pick count g = .error (.wrongCount n count) ∧
          (Fault.wrongCount n count).kind = .value ∧
          (∀ more, s.run g (.ask count :: more) = s.run g more) ∧
          ∀ (name : Text) (rule : Rule γ) (session : Session γ), rule.selector = .shuffled s →
            rule.candidates.length = count →
              selectCandidate name rule session = .error (.wrongCount n count) session := by
  intro made shown s g
  have hrounds : InRounds n shown s.past s.upcoming := by
    have hrun := Shuffled.inRounds_run (Shuffled.inRounds_start n own shared)
      (Shuffled.start n own shared).2 history
    rwa [List.nil_append] at hrun
  have hcovers : s.Covers n := hrounds.last
  refine ⟨fun _ => Shuffled.create_eq_ok, fun i hi => hrounds.count_eq hi,
    fun k hk => hrounds.block_perm hn hk, ?_, fun more => s.take_run g more, ?_,
    fun count hcount => ?_⟩
  · rw [hrounds.drop_eq]
    exact hrounds.last
  · obtain ⟨i, t, g', hpick, -, -⟩ := hcovers.pick hn g
    exact ⟨i, t, g', hpick⟩
  · have hrefused : s.pick count g = .error (.wrongCount n count) := by
      have hne : count ≠ s.count := by rwa [hcovers.count]
      rw [Shuffled.pick_of_ne hne, hcovers.count]
    refine ⟨hrefused, rfl, fun more => ?_, fun name rule session hselector hlength => ?_⟩
    · rw [Shuffled.run, hrefused]
    · have hlength' : rule.candidates.length ≠ s.count := by
        rw [hcovers.count]
        exact fun heq => hcount (hlength ▸ congrArg Nat.cast heq)
      rw [selectCandidate_of_wrongCount hselector hlength' session, hcovers.count, hlength]

/-- Three candidates are shown four times, with a request for four of them and another draw from the
source in between: the first candidate of the second pass has been shown twice. -/
theorem shuffled_fair_three :
    let made := Shuffled.start 3 none (⟨#[], 0⟩ : Twister)
    let history : List (Turn Twister) := [.ask 3, .ask 4, .ask 3,
      .others (fun g => (RandomSource.below 7 g).2), .ask 3, .ask 4, .ask 3]
    let shown := (made.1.run made.2 history).1
    0 < 3 ∧ Shuffled.create 3 none ⟨#[], 0⟩ = .ok made ∧ shown = [1, 2, 0, 2] ∧
      (∀ i < 3, shown.count i = 1 ∨ shown.count i = 2) ∧
      (shown.take 3).Perm (List.range 3) := by
  intro made history shown
  have hshown : shown = [1, 2, 0, 2] := by decide +kernel
  obtain ⟨-, hcount, hround, -⟩ := shuffled_fair (by decide : 0 < 3) none ⟨#[], 0⟩ history
  have hlength : shown.length = 4 := congrArg List.length hshown
  refine ⟨by decide, rfl, hshown, fun i hi => ?_, hround 0 ?_⟩
  · have hi' := hcount i hi
    change shown.count i = shown.length / 3 ∨ shown.count i = (shown.length + 3 - 1) / 3 at hi'
    rwa [hlength] at hi'
  · change (0 + 1) * 3 ≤ shown.length
    omega

end TextGrammar
