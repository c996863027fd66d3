import Mathlib.Algebra.GroupWithZero.Nat
import Mathlib.Data.List.Induction
import TextGrammar.Proofs.Analysis.Findings
import TextGrammar.Proofs.Engine.Service
import TextGrammar.Proofs.Evaluation.Moments
import TextGrammar.Random.Twister

/-!
# The log and the counts

Each event is logged, and counted under its rule, and a reset drops the log and the counts. Though
an evaluation may be cut off at any point, or have its log dropped by a script while it goes on,
the counts are at every moment of a run the tally of the log as it is then (`Session.Tallied`):
every rule that has an event is counted, in the order of the first events, as often as it has
events.
-/

namespace TextGrammar

def tally (rules : List Text) : RuleCounts :=
  rules.foldl (fun counts rule => counts.add rule 1) .empty

def RuleCounts.total (counts : RuleCounts) : Nat := (counts.entries.map Prod.snd).sum

theorem tally_concat (rules : List Text) (rule : Text) :
    tally (rules ++ [rule]) = (tally rules).add rule 1 := by
  rw [tally, tally, List.foldl_append, List.foldl_cons, List.foldl_nil]

theorem get?_tally (rules : List Text) (rule : Text) :
    (tally rules).get? rule = if rule ∈ rules then some (rules.count rule) else none := by
  induction rules using List.reverseRecOn with
  | nil => rfl
  | append_singleton before last ih =>
      rw [tally_concat, RuleCounts.add, Lexicon.get?_put]
      by_cases h : rule = last
      · subst h
        rw [ih]
        by_cases hmem : rule ∈ before
        · simp [hmem]
        · simp [hmem, List.count_eq_zero_of_not_mem hmem]
      · simp [ih, h, Ne.symm h]

theorem distinct_go_concat (seen names : List Text) (name : Text) :
    distinct.go seen (names ++ [name]) =
      if name ∈ seen ∨ name ∈ names then distinct.go seen names
      else distinct.go seen names ++ [name] := by
  induction names generalizing seen with
  | nil =>
      by_cases h : name ∈ seen
      · simp [distinct.go, h]
      · simp [distinct.go, h]
  | cons first rest ih =>
      by_cases h : first ∈ seen
      · have hor : (name ∈ seen ∨ name ∈ first :: rest) ↔ name ∈ seen ∨ name ∈ rest := by
          rw [List.mem_cons]
          constructor
          · rintro (hseen | rfl | hrest)
            · exact .inl hseen
            · exact .inl h
            · exact .inr hrest
          · exact Or.imp_right .inr
        simp only [List.cons_append, distinct.go, List.contains_iff_mem.2 h, if_true, ih, hor]
      · have hor : (name ∈ first :: seen ∨ name ∈ rest) ↔ name ∈ seen ∨ name ∈ first :: rest := by
          rw [List.mem_cons, List.mem_cons, or_left_comm, or_assoc]
        have hnew : seen.contains first = false := by simpa using h
        simp only [List.cons_append, distinct.go, hnew, Bool.false_eq_true, if_false, ih, hor]
        by_cases hname : name ∈ seen ∨ name ∈ first :: rest
        · rw [if_pos hname, if_pos hname]
        · rw [if_neg hname, if_neg hname]

theorem distinct_concat (names : List Text) (name : Text) :
    distinct (names ++ [name]) =
      if name ∈ names then distinct names else distinct names ++ [name] := by
  rw [distinct, distinct_go_concat]
  simp [distinct]

theorem names_tally (rules : List Text) : (tally rules).names = distinct rules := by
  induction rules using List.reverseRecOn with
  | nil => rfl
  | append_singleton before last ih =>
      rw [tally_concat, distinct_concat, RuleCounts.add]
      by_cases h : last ∈ before
      · rw [if_pos h, ← ih]
        apply Lexicon.names_put_of_mem
        rwa [ih, mem_distinct_iff]
      · rw [if_neg h, ← ih]
        apply Lexicon.names_put_of_not_mem
        rwa [ih, mem_distinct_iff]

theorem sum_putEntry (name : Text) (n : Nat) (es : List (Text × Nat)) :
    ((Lexicon.putEntry name n es).map Prod.snd).sum + (es.lookup name).getD 0 =
      (es.map Prod.snd).sum + n := by
  induction es with
  | nil => simp [Lexicon.putEntry]
  | cons e rest ih =>
      obtain ⟨key, old⟩ := e
      by_cases h : key = name
      · subst h
        simp [Lexicon.putEntry]
        omega
      · have hne : (name == key) = false := beq_eq_false_iff_ne.2 (Ne.symm h)
        simp only [Lexicon.putEntry, h, if_false, List.map_cons, List.sum_cons, List.lookup_cons,
          hne]
        omega

theorem total_add (counts : RuleCounts) (rule : Text) (n : Nat) :
    (counts.add rule n).total = counts.total + n := by
  have h := sum_putEntry rule ((counts.get? rule).getD 0 + n) counts.entries
  change _ + (counts.get? rule).getD 0 = _ at h
  simp only [RuleCounts.total, RuleCounts.add, Lexicon.put]
  omega

theorem total_tally (rules : List Text) : (tally rules).total = rules.length := by
  induction rules using List.reverseRecOn with
  | nil => rfl
  | append_singleton before last ih =>
      rw [tally_concat, total_add, ih, List.length_append, List.length_singleton]

/-! ## The tally along a run -/

variable {γ : Type}

namespace Session

def loggedRules (s : Session γ) : List Text := s.events.toList.map Event.rule

def Tallied (s : Session γ) : Prop := s.counts = tally s.loggedRules

theorem Tallied.record {s : Session γ} (h : s.Tallied) (e : Event) : (s.record e).Tallied := by
  have hlog : (s.record e).loggedRules = s.loggedRules ++ [e.rule] := by
    simp [Session.record, loggedRules]
  have hcounts : (s.record e).counts = s.counts.add e.rule 1 := rfl
  rw [Tallied, hlog, tally_concat, hcounts, h]

theorem tallied_reset (s : Session γ) : s.reset.Tallied := rfl

theorem tallied_start (policy : TaggingPolicy) (context : Context) (random : γ) :
    (start policy context random).Tallied := rfl

end Session

variable [RandomSource γ]

theorem enduring_tallied :
    Enduring (γ := γ) (fun _ _ => True) fun s t => s.Tallied → t.Tallied where
  refl _ h := h
  trans hst htu h := htu (hst h)
  frame _ h := h
  scope h := h
  bind _ _ _ h := h
  record _ e h := h.record e
  unresolved _ _ h := h
  trace _ _ _ h := h
  journal _ _ h := h
  notices _ _ h := h
  select _ _ h := h
  define _ _ h := h
  reset s _ _ := s.tallied_reset
  selector _ _ h := h
  tracers _ _ h := h

/-- What the counts of a session say about its log: a rule is counted exactly if it has an event,
and as often as it has events; the rules stand in the order of their first events; and all counts
together are the number of events. -/
structure Session.LogCounted (s : Session γ) : Prop where
  count {rule : Text} {n : Nat} : s.counts.get? rule = some n →
    n = s.loggedRules.count rule
  key {rule : Text} : rule ∈ s.counts.names ↔ ∃ e ∈ s.events, e.rule = rule
  order : s.counts.names = distinct s.loggedRules
  total : s.counts.total = s.events.size

omit [RandomSource γ] in
theorem Session.Tallied.logCounted {s : Session γ} (h : s.Tallied) : s.LogCounted where
  count {rule n} hget := by
    rw [h, get?_tally] at hget
    split at hget
    · exact (Option.some.inj hget).symm
    · cases hget
  key {rule} := by
    rw [h, names_tally, mem_distinct_iff, loggedRules, List.mem_map]
    simp only [Array.mem_toList_iff]
  order := by rw [h, names_tally]
  total := by rw [h, total_tally, loggedRules, List.length_map, Array.length_toList]

namespace Engine

/-- The moment at which an expansion begins. -/
def expanding (e : Engine γ) (origin : Origin) (reset : Bool) : Moment γ :=
  ⟨nestingLevels e.session.context.maxDepth, .expand origin reset, e.session⟩

/-- An expansion leaves what its moments end with. -/
theorem session_expandFrom_eq_leaves (e : Engine γ) (origin : Origin) (reset : Bool) :
    (e.expandFrom origin reset).2.session = (e.expanding origin reset).leaves e.extensions := by
  rw [session_expandFrom, Work.after, expand_eq_expandWith]
  rfl

end Engine

/-- The log and the counts never drift apart, whatever modifiers and hooks ask for. Between requests
the counts are those of the log, and the statistics tell as many events as all counts together. An
expansion leaves what its first moment does; and so it is at every moment that this one comes to,
and in every session that one of its activities leaves, be it with an answer or with a fault. -/
theorem log_counted {book : List (Value × Definition)} {options : Options} {random : γ}
    {e : Engine γ} (he : e.Reached book options random) :
    e.session.LogCounted ∧ e.stats.events = e.stats.counts.total ∧ ∀ origin reset,
      (e.expandFrom origin reset).2.session = (e.expanding origin reset).leaves e.extensions ∧
      ∀ m, (e.expanding origin reset).Reaches e.extensions m →
        m.session.LogCounted ∧ (m.leaves e.extensions).LogCounted := by
  obtain ⟨context, -, hstart⟩ := enduring_tallied.reached he
  have hsession : e.session.Tallied := hstart (Session.tallied_start _ context random)
  refine ⟨hsession.logCounted, hsession.logCounted.total.symm, fun origin reset =>
    ⟨e.session_expandFrom_eq_leaves origin reset, fun m hm => ?_⟩⟩
  have hmoment : m.session.Tallied :=
    hm.keeps enduring_tallied.toSteady (fun _ _ h => h) (fun _ h => h) hsession
  have hleft : (m.leaves e.extensions).Tallied :=
    m.keeps_leaves enduring_tallied.toSteady hmoment
  exact ⟨hmoment.logCounted, hleft.logCounted⟩

/-- A modifier drops the log of the expansion that it is called from, which then goes on. -/
theorem log_counted_resetting :
    let again : Modifier := .ofText fun _ =>
      .ask (.expand (.text "#s#") true) fun answer => .done (some answer)
    let requests : List (Request Twister) :=
      [.install .modifier "again" again, .expand (.text "#r##r.again##r#") true]
    ∃ e : Engine Twister,
      Engine.create [(.text "r", .ofTexts ["x"]), (.text "s", .ofTexts ["y"])] .standard ⟨#[], 0⟩ =
        .ok e ∧
      (e.serveAll requests).session.loggedRules = (["s", "r"] : List Text) ∧
      (e.serveAll requests).session.LogCounted ∧
      ∀ m, ((e.serveAll requests).expanding (.text "#r.again#") false).Reaches
        (e.serveAll requests).extensions m → m.session.LogCounted := by
  intro again requests
  obtain ⟨e, he, hlog⟩ : ∃ e : Engine Twister,
      Engine.create [(.text "r", .ofTexts ["x"]), (.text "s", .ofTexts ["y"])] .standard ⟨#[], 0⟩ =
          .ok e ∧
        decide ((e.serveAll requests).session.loggedRules = (["s", "r"] : List Text)) = true :=
    Engine.exists_of_create (by decide +kernel)
  have hcounted := log_counted ⟨e, requests, he, rfl⟩
  exact ⟨e, he, of_decide_eq_true hlog, hcounted.1, fun m hm => ((hcounted.2.2 _ _).2 m hm).1⟩

end TextGrammar
