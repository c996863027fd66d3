import Mathlib.Algebra.Order.BigOperators.Group.Finset
import Mathlib.Algebra.Ring.GeomSum
import TextGrammar.Markup.Nesting
import TextGrammar.Proofs.Evaluation.Confined
import TextGrammar.Proofs.Evaluation.Lockstep
import TextGrammar.Proofs.Event.PostOrder

/-!
# How far an evaluation goes

Neither the nodes nor the rules get fewer along an evaluation: a rule may come back to itself. What
gets fewer are the frames that are left. Each reference takes one, and what a rule leads to is
evaluated in that frame; so levels of evaluation that are more than the frames left are never used
up.
What evaluates the nodes beneath them may be anything, as it is never asked (`evaluateUpon_eq`).

The frames also bound the log. A reference is logged once, and leads to no more references than the
candidate of its rule has, with one frame less for each of them (`expansions`). References in
actions and in values of assignments stand even deeper, and are counted among those of their own
sequence.
-/

namespace TextGrammar

open Work

variable {γ α β : Type}

section Levels

variable [RandomSource γ]

/-! ## Levels that are never reached -/

/-- So many levels of evaluation, where something else evaluates the nodes beneath them. -/
def evaluateUpon (x : Extensions) (deeper : List Node → Work γ Text) :
    Nat → List Node → Work γ Text
  | 0 => deeper
  | levels + 1 => evaluateWith x (evaluateUpon x deeper levels)

theorem evaluateUpon_add (x : Extensions) (deeper : List Node → Work γ Text) (m n : Nat) :
    evaluateUpon x deeper (m + n) = evaluateUpon x (evaluateUpon x deeper n) m := by
  induction m with
  | zero => rw [Nat.zero_add, evaluateUpon]
  | succ m ih => rw [Nat.succ_add, evaluateUpon, ih, evaluateUpon]

/-- Beneath the levels of an evaluation there is nothing but a fault. -/
theorem evaluateUpon_stop (x : Extensions) (levels : Nat) :
    evaluateUpon x (fun _ => stop .tooNested) levels = evaluateAt (γ := γ) x levels := by
  induction levels with
  | zero => rfl
  | succ levels ih => rw [evaluateUpon, ih]; rfl

/-- The sessions are the same, with more levels left than frames. -/
inductive SameRoom (levels : Nat) : Session γ → Session γ → Prop
  | intro (s : Session γ) : s.context.maxDepth < s.context.depth + levels → SameRoom levels s s

omit [RandomSource γ] in
theorem SameRoom.map {levels : Nat} {s t : Session γ} (h : SameRoom levels s t)
    (f : Session γ → Session γ) (hcontext : (f s).context = s.context) :
    SameRoom levels (f s) (f t) := by
  obtain ⟨hroom⟩ := h
  refine .intro (f s) ?_
  rwa [hcontext]

theorem parallel_sameRoom : Parallel (γ := γ) (fun _ => True) SameRoom (fun _ => False) where
  depth h := by
    cases h
    rfl
  enter {k frame} s t c h henter := by
    obtain ⟨hroom⟩ := h
    have hdepth : c.depth = s.context.depth + 1 := Context.depth_of_enter henter
    have hmax : c.maxDepth = s.context.maxDepth := (Context.enter_eq_ok_iff.1 henter).1
    have hle := s.context.depth_le
    exact ⟨c, henter, .intro _ (by simp only; omega)⟩
  full s t o h hfull := by
    cases h
    exact .inr hfull
  leave {k} s t h := by
    obtain ⟨hroom⟩ := h
    have hle := s.context.depth_le
    refine .intro _ ?_
    simp only [Context.maxDepth_leave, Context.depth_leave]
    omega
  enterScope s t h := h.map (fun s => { s with tags := s.tags.enterScope }) rfl
  exitScope s t h := h.map (fun s => { s with tags := s.tags.exitScope }) rfl
  bind {k a s t} text _ h := h.map (·.bind a.name (some text)) rfl
  lookup name h := by
    cases h
    rfl
  missing {k s t name} h hmissing := by
    refine ⟨?_, h.map (·.recordUnresolved name) rfl⟩
    cases h
    exact hmissing
  rule {k s t name rule} h hrule := by
    have hput (rule : Rule γ) (random : γ) :=
      h.map (fun s => { s with rules := s.rules.put name rule, random := random }) rfl
    obtain rfl : t = s := by
      cases h
      rfl
    exact ⟨rule, hrule, endAlike_selectCandidate rfl h (fun _ rule random _ => hput rule random) _⟩
  candidate _ _ _ _ _ := trivial
  record e h := h.map (·.record e) rfl
  trace s t tracer e h := h.map (·.trace tracer e) rfl
  note s t entry h := h.map (fun s => { s with journal := s.journal.push entry }) rfl

omit [RandomSource γ] in
theorem SameRoom.journal_eq (levels : Nat) (s t : Session γ) (h : SameRoom levels s t) :
    t.journal = s.journal := by
  cases h
  rfl

theorem follows_evaluateUpon {x : Extensions} (hx : x.Detached)
    (deeper deeper' : List Node → Work γ Text) (levels : Nat) :
    LevelsFollow (fun _ => True) SameRoom (fun _ => False) levels
      (evaluateUpon x deeper levels) (evaluateUpon x deeper' levels) := by
  induction levels with
  | zero =>
      -- With no levels left there is no such session: frames are never more than the maximal depth.
      rintro k hk nodes - s _ ⟨hroom⟩
      obtain rfl : k = 0 := Nat.le_zero.1 hk
      exact absurd s.context.depth_le (Nat.not_le_of_gt hroom)
  | succ levels ih =>
      intro k hk nodes hfits
      have hlockstep := (parallel_sameRoom (γ := γ)).lockstep_of_detached hx
        (.inr SameRoom.journal_eq)
      exact (hlockstep.follows_sequenceParts ih nodes hfits k hk).bind fun parts =>
        follows_ofExcept (join parts)

/-- What is beneath more levels than there are frames left does not matter. -/
theorem evaluateUpon_eq {x : Extensions} (hx : x.Detached)
    (deeper deeper' : List Node → Work γ Text) {levels : Nat} {s : Session γ}
    (hroom : s.context.maxDepth < s.context.depth + levels) (nodes : List Node) :
    evaluateUpon x deeper levels nodes s = evaluateUpon x deeper' levels nodes s := by
  have hfollows := follows_evaluateUpon hx deeper deeper' levels levels (Nat.le_refl _) nodes
    (fun _ _ => trivial) s s (.intro s hroom)
  rcases hfollows.inv with ⟨text, u, v, hu, hv, ⟨-⟩⟩ | ⟨fault, u, v, hu, hv, ⟨-⟩⟩ |
    ⟨_, _, _, hcut⟩
  · rw [hu, hv]
  · rw [hu, hv]
  · exact hcut.elim

/-- With more levels than frames left an evaluation comes to its end by itself. -/
theorem evaluateUpon_eq_evaluate {x : Extensions} (hx : x.Detached)
    (deeper : List Node → Work γ Text) {levels : Nat} {s : Session γ}
    (hroom : s.context.maxDepth - s.context.depth < levels) (nodes : List Node) :
    evaluateUpon x deeper levels nodes s = evaluate x nodes s := by
  have henough := lt_nestingLevels s.context.maxDepth
  obtain ⟨more, hmore⟩ := Nat.exists_eq_add_of_le (Nat.succ_le_of_lt hroom)
  obtain ⟨more', hmore'⟩ := Nat.exists_eq_add_of_le
    (show s.context.maxDepth - s.context.depth + 1 ≤ nestingLevels s.context.maxDepth by omega)
  unfold evaluate
  rw [← evaluateUpon_stop, hmore, hmore', evaluateUpon_add, evaluateUpon_add]
  exact evaluateUpon_eq hx _ _ (by omega) nodes

end Levels

/-! ## What a log can grow by -/

/-- The expansions that a reference can lead to, if so many frames are left and no candidate has
more than `b` references. -/
def expansions (b room : Nat) : Nat := ∑ i ∈ Finset.range room, b ^ i

theorem expansions_succ (b room : Nat) : expansions b (room + 1) = b * expansions b room + 1 :=
  geom_sum_succ

theorem expansions_le_succ (b room : Nat) : expansions b room ≤ expansions b (room + 1) := by
  rw [expansions, expansions, Finset.sum_range_succ]
  exact Nat.le_add_right _ _

/-- The rules have the candidates of a book, the context is the one there was before, and so many
events have been logged at most. -/
structure Logged (book : RuleBook γ) (bound : Nat) (s t : Session γ) : Prop where
  candidates : SameCandidates book t
  context : t.context = s.context
  size : t.events.size ≤ s.events.size + bound

namespace Logged

variable {book : RuleBook γ} {bound bound' : Nat} {s t u : Session γ}

theorem refl (hs : SameCandidates book s) (bound : Nat) : Logged book bound s s :=
  ⟨hs, rfl, Nat.le_add_right _ _⟩

theorem mono (h : Logged book bound s t) (hle : bound ≤ bound') : Logged book bound' s t :=
  ⟨h.candidates, h.context, Nat.le_trans h.size (Nat.add_le_add_left hle _)⟩

theorem trans (hst : Logged book bound s t) (htu : Logged book bound' t u) :
    Logged book (bound + bound') s u := by
  refine ⟨htu.candidates, htu.context.trans hst.context, ?_⟩
  have hs := hst.size
  have ht := htu.size
  omega

theorem after_bind {m : Work γ α} {f : α → Work γ β} (hm : Logged book bound s (m.after s))
    (hf : ∀ a t, m s = .ok a t → Logged book bound s t → Logged book bound' t ((f a).after t)) :
    Logged book (bound + bound') s ((m >>= f).after s) := by
  cases hend : m s with
  | ok a t =>
      rw [after_of_ok hend] at hm
      rw [after_bind_of_ok hend]
      exact hm.trans (hf a t hend hm)
  | error fault t =>
      rw [after_of_error hend] at hm
      rw [after_of_error (bind_of_error hend)]
      exact hm.mono (Nat.le_add_right _ _)

end Logged

/-- From a session with the candidates of a book and with so many frames left, a computation logs no
more than a number of events. -/
def Work.LogsAtMost (book : RuleBook γ) (room bound : Nat) (m : Work γ α) : Prop :=
  ∀ s, SameCandidates book s → s.context.maxDepth ≤ s.context.depth + room →
    Logged book bound s (m.after s)

namespace Work

variable {book : RuleBook γ} {room bound bound' : Nat} {m : Work γ α}

theorem LogsAtMost.mono (h : LogsAtMost book room bound m) (hle : bound ≤ bound') :
    LogsAtMost book room bound' m :=
  fun s hs hroom => (h s hs hroom).mono hle

theorem logsAtMost_pure (a : α) : LogsAtMost book room 0 (pure a) := fun _ hs _ => .refl hs 0

theorem logsAtMost_stop (fault : Fault) : LogsAtMost book room 0 (stop fault : Work γ α) :=
  fun _ hs _ => .refl hs 0

theorem logsAtMost_ofExcept (r : Except Fault α) :
    LogsAtMost book room 0 (ofExcept r : Work γ α) := by
  cases r with
  | ok a => exact logsAtMost_pure a
  | error fault => exact logsAtMost_stop fault

theorem LogsAtMost.bind {f : α → Work γ β} (hm : LogsAtMost book room bound m)
    (hf : ∀ a, LogsAtMost book room bound' (f a)) :
    LogsAtMost book room (bound + bound') (m >>= f) := by
  intro s hs hroom
  refine (hm s hs hroom).after_bind fun a t _ ht => ?_
  refine hf a t ht.candidates ?_
  rwa [ht.context]

/-- Inside of a frame there is a frame less; where none is left, nothing is done. -/
theorem LogsAtMost.inFrame (h : ∀ left, room = left + 1 → LogsAtMost book left bound m)
    (frame : Frame) : LogsAtMost book room bound (inFrame frame m) := by
  intro s hs hroom
  cases henter : s.context.enter frame with
  | error o =>
      rw [after_inFrame_of_error henter]
      exact .refl hs bound
  | ok context =>
      rw [after_inFrame henter]
      have hdepth : context.depth = s.context.depth + 1 := Context.depth_of_enter henter
      have hmax : context.maxDepth = s.context.maxDepth := (Context.enter_eq_ok_iff.1 henter).1
      have hle := context.depth_le
      obtain ⟨left, rfl⟩ : ∃ left, room = left + 1 := ⟨room - 1, by omega⟩
      obtain ⟨hcandidates, hcontext, hsize⟩ :=
        h left rfl { s with context := context } hs (by simp only; omega)
      refine ⟨hcandidates, ?_, hsize⟩
      rw [hcontext]
      exact Context.leave_of_enter henter

theorem LogsAtMost.inScope (h : LogsAtMost book room bound m) :
    LogsAtMost book room bound (inScope m) := by
  intro s hs hroom
  rw [after_inScope]
  obtain ⟨hcandidates, hcontext, hsize⟩ := h { s with tags := s.tags.enterScope } hs hroom
  exact ⟨hcandidates, hcontext, hsize⟩

end Work

section Level

variable [RandomSource γ] {x : Extensions} {book : RuleBook γ} {b room : Nat}
  {inner : List Node → Work γ Text}

theorem logged_selectCandidate {name : Text} {rule : Rule γ} {s : Session γ}
    (hs : SameCandidates book s) (hrule : s.rules.get? name = some rule) :
    Logged book 0 s ((selectCandidate name rule).after s) := by
  unfold after selectCandidate
  cases hselect : rule.select s.random with
  | error fault => exact .refl hs 0
  | ok answer =>
      obtain ⟨picked, rule', random⟩ := answer
      have hcandidates := (lasting_sameCandidates (fun _ => True) book).select hrule hselect hs
      cases picked with
      | none => exact ⟨hcandidates, rfl, Nat.le_refl _⟩
      | some choice => exact ⟨hcandidates, rfl, Nat.le_refl _⟩

variable (hx : x.Detached)

include hx

theorem logsAtMost_applyModifiers (text : Option Text) (calls : List ModifierCall) :
    LogsAtMost book room 0 (applyModifiers x inner text calls) := by
  intro s hs _
  obtain ⟨journal, hafter⟩ := hx.after_applyModifiers inner text calls s
  rw [hafter]
  exact ⟨hs, rfl, Nat.le_refl _⟩

theorem logsAtMost_complete (name : Text) (index : Index) (text : Text) :
    LogsAtMost book room 1 (complete x inner name index text) := by
  intro s hs _
  obtain ⟨tracers, journal, hafter⟩ := hx.after_complete inner name index text s
  rw [hafter]
  exact ⟨hs, rfl, Nat.le_of_eq (Array.size_push _)⟩

variable (hb : ∀ c, book.HasCandidate c → Node.referenceCount c.nodes ≤ b)
  (hinner : ∀ nodes room,
    LogsAtMost book room (Node.referenceCount nodes * expansions b room) (inner nodes))

include hb hinner

/-- A rule is logged once, and its candidate has no more references than any. -/
theorem logsAtMost_resolve (name : Text) (room : Nat) :
    LogsAtMost book room (expansions b (room + 1)) (resolve x inner name) := by
  intro s hs hroom
  unfold after resolve
  by_cases hname : name = ""
  · rw [if_pos hname]
    exact .refl hs _
  · rw [if_neg hname]
    cases s.tags.lookup name with
    | some value => exact .refl hs _
    | none =>
        cases hrule : s.rules.get? name with
        | none => exact ⟨hs, rfl, Nat.le_add_right _ _⟩
        | some rule =>
            have hexpand : Logged book (0 + (b * expansions b room + (1 + 0))) s
                ((expandRule x inner name rule).after s) := by
              refine (logged_selectCandidate hs hrule).after_bind fun choice t hselect ht => ?_
              have hcandidate := hb choice.2
                (hs.hasCandidate hrule (mem_candidates_of_selectCandidate hselect))
              have hrest : LogsAtMost book room (b * expansions b room + (1 + 0)) (do
                  let text ← inner choice.2.nodes
                  complete x inner name choice.1 text
                  pure text) :=
                ((hinner choice.2.nodes room).mono (Nat.mul_le_mul_right _ hcandidate)).bind
                  fun text => (logsAtMost_complete hx name choice.1 text).bind fun _ =>
                    logsAtMost_pure text
              exact hrest t ht.candidates (ht.context ▸ hroom)
            rw [expansions_succ]
            exact hexpand.mono (by omega)

omit hx hb hinner

mutual

theorem logsAtMost_nodeParts (hx : x.Detached)
    (hb : ∀ c, book.HasCandidate c → Node.referenceCount c.nodes ≤ b) (hinner : ∀ nodes room,
      LogsAtMost book room (Node.referenceCount nodes * expansions b room) (inner nodes)) :
    (n : Node) → (room : Nat) →
    LogsAtMost book room (n.walk.countP Node.isReference * expansions b room)
      (nodeParts x inner n)
  | .text t, _ => (logsAtMost_pure [some t]).mono (Nat.zero_le _)
  | .reference name modifiers actions, room => by
      -- The actions and the name are evaluated inside the frame.
      have hbody (left : Nat) (hleft : room = left + 1) : LogsAtMost book left
          ((Node.walk (.reference name modifiers actions)).countP Node.isReference *
            expansions b room)
          (inScope do
            assignAll x inner actions
            resolve x inner name) := by
        have hactions := (logsAtMost_assignAll hx hb hinner actions left).mono
          (Nat.mul_le_mul_left _ (expansions_le_succ b left))
        refine ((hactions.bind fun _ =>
          logsAtMost_resolve hx hb hinner name left).inScope).mono (Nat.le_of_eq ?_)
        rw [Node.walk, List.countP_cons_of_pos rfl, Nat.succ_mul, hleft]
      unfold nodeParts
      exact (LogsAtMost.inFrame hbody ⟨.rule, name⟩).bind fun text =>
        (logsAtMost_applyModifiers hx (some text) modifiers).bind fun text =>
          logsAtMost_pure [text]
  | .assign a, room => by
      rw [Node.walk, List.countP_cons_of_neg Bool.false_ne_true]
      exact (logsAtMost_assign hx hb hinner a room).bind fun _ => logsAtMost_pure []
  | .weight _, _ => (logsAtMost_pure []).mono (Nat.zero_le _)
  | .stray shown, _ => (logsAtMost_stop (.strayNode shown)).mono (Nat.zero_le _)

theorem logsAtMost_assign (hx : x.Detached)
    (hb : ∀ c, book.HasCandidate c → Node.referenceCount c.nodes ≤ b) (hinner : ∀ nodes room,
      LogsAtMost book room (Node.referenceCount nodes * expansions b room) (inner nodes)) :
    (a : Assignment) → (room : Nat) →
    LogsAtMost book room (a.walkValue.countP Node.isReference * expansions b room)
      (assign x inner a)
  | ⟨name, value⟩, room => by
      have hvalue (left : Nat) (hleft : room = left + 1) : LogsAtMost book left
          ((Node.walkAll value).countP Node.isReference * expansions b room)
          (do
            let parts ← sequenceParts x inner value
            Work.ofExcept (join parts)) := by
        rw [hleft]
        exact ((logsAtMost_sequenceParts hx hb hinner value left).mono
          (Nat.mul_le_mul_left _ (expansions_le_succ b left))).bind fun parts =>
            logsAtMost_ofExcept (join parts)
      unfold assign
      have hbind (text : Text) :
          LogsAtMost book room 0 (Work.change (·.bind name (some text)) : Work γ Unit) :=
        fun s hs _ => ⟨hs, rfl, Nat.le_refl _⟩
      exact (LogsAtMost.inFrame hvalue ⟨.tag, name⟩).bind hbind

theorem logsAtMost_assignAll (hx : x.Detached)
    (hb : ∀ c, book.HasCandidate c → Node.referenceCount c.nodes ≤ b) (hinner : ∀ nodes room,
      LogsAtMost book room (Node.referenceCount nodes * expansions b room) (inner nodes)) :
    (actions : List Assignment) → (room : Nat) →
    LogsAtMost book room
      ((Assignment.walkAll actions).countP Node.isReference * expansions b room)
      (assignAll x inner actions)
  | [], _ => (logsAtMost_pure ()).mono (Nat.zero_le _)
  | a :: rest, room => by
      rw [Assignment.walkAll_cons, List.countP_cons_of_neg Bool.false_ne_true, List.countP_append,
        Nat.add_mul]
      exact (logsAtMost_assign hx hb hinner a room).bind fun _ =>
        logsAtMost_assignAll hx hb hinner rest room

theorem logsAtMost_sequenceParts (hx : x.Detached)
    (hb : ∀ c, book.HasCandidate c → Node.referenceCount c.nodes ≤ b) (hinner : ∀ nodes room,
      LogsAtMost book room (Node.referenceCount nodes * expansions b room) (inner nodes)) :
    (nodes : List Node) → (room : Nat) →
    LogsAtMost book room ((Node.walkAll nodes).countP Node.isReference * expansions b room)
      (sequenceParts x inner nodes)
  | [], _ => (logsAtMost_pure []).mono (Nat.zero_le _)
  | n :: rest, room => by
      rw [Node.walkAll_cons, List.countP_append, Nat.add_mul]
      exact (logsAtMost_nodeParts hx hb hinner n room).bind fun parts =>
        (logsAtMost_sequenceParts hx hb hinner rest room).bind fun more =>
          logsAtMost_pure (parts ++ more)

end

end Level

variable [RandomSource γ]

theorem logsAtMost_evaluateAt {x : Extensions} (hx : x.Detached) {book : RuleBook γ} {b : Nat}
    (hb : ∀ c, book.HasCandidate c → Node.referenceCount c.nodes ≤ b) (levels : Nat)
    (nodes : List Node) (room : Nat) :
    LogsAtMost book room (Node.referenceCount nodes * expansions b room)
      (evaluateAt x levels nodes) := by
  induction levels generalizing nodes room with
  | zero => exact (logsAtMost_stop .tooNested).mono (Nat.zero_le _)
  | succ levels ih =>
      rw [Node.referenceCount, ← List.countP_eq_length_filter]
      exact (logsAtMost_sequenceParts hx hb ih nodes room).bind fun parts =>
        logsAtMost_ofExcept (join parts)

/-- An evaluation ends on every rule book, however its rules refer to each other, whatever the
selectors choose, and under either policy. It recurses into no more levels than there are frames
left and one more: what evaluates the nodes beneath these does not matter. And whether it succeeds
or fails, it logs no more events than a geometric sum for each of its references, if `b` bounds the
references of a candidate: each of them may be expanded, and lead to `b` others in each of the
frames left. -/
theorem evaluate_extent {x : Extensions} (hx : x.Detached) (nodes : List Node) (s : Session γ)
    {b : Nat} (hb : ∀ c, s.rules.HasCandidate c → Node.referenceCount c.nodes ≤ b) :
    (∀ (deeper : List Node → Work γ Text) (levels : Nat),
      s.context.maxDepth - s.context.depth < levels →
        evaluateUpon x deeper levels nodes s = evaluate x nodes s) ∧
      ∃ logged, ((evaluate x nodes).after s).events.toList = s.events.toList ++ logged ∧
        logged.length ≤ Node.referenceCount nodes *
          ∑ i ∈ Finset.range (s.context.maxDepth - s.context.depth), b ^ i := by
  refine ⟨fun deeper levels hroom => evaluateUpon_eq_evaluate hx deeper hroom nodes, ?_⟩
  let levels := nestingLevels s.context.maxDepth
  have hle := s.context.depth_le
  obtain ⟨-, logged, hlogged, -⟩ := keeps_evaluateAt_logsDeeper hx levels nodes s
  have hsize := (logsAtMost_evaluateAt hx hb levels nodes
    (s.context.maxDepth - s.context.depth) s (.refl s) (by omega)).size
  refine ⟨logged, hlogged, ?_⟩
  rw [← Array.length_toList, ← Array.length_toList, hlogged, List.length_append] at hsize
  exact Nat.le_of_add_le_add_left hsize

/-- Two references in each candidate, and a rule for each of three frames: as many events are logged
as there can be. -/
theorem evaluate_extent_reached : ∃ (e : Engine Twister) (logged : List Event),
    Engine.create [(.text "a", .ofTexts ["#b##b#"]), (.text "b", .ofTexts ["#c##c#"]),
        (.text "c", .ofTexts ["x"])] ⟨.nested, false, some 3⟩ ⟨#[], 0⟩ = .ok e ∧
      e.extensions.Detached ∧
      (∀ c, e.session.rules.HasCandidate c → Node.referenceCount c.nodes ≤ 2) ∧
      evaluateUpon e.extensions (fun _ => pure "unread") 4 [.reference "a" [] []] e.session =
        evaluate e.extensions [.reference "a" [] []] e.session ∧
      ((evaluate e.extensions [.reference "a" [] []]).after e.session).events.toList = logged ∧
      logged.length = 7 ∧ 7 ≤ Node.referenceCount [.reference "a" [] []] *
        ∑ i ∈ Finset.range 3, 2 ^ i := by
  obtain ⟨e, hcreate, hcheck⟩ : ∃ e : Engine Twister,
      Engine.create [(.text "a", .ofTexts ["#b##b#"]), (.text "b", .ofTexts ["#c##c#"]),
          (.text "c", .ofTexts ["x"])] ⟨.nested, false, some 3⟩ ⟨#[], 0⟩ = .ok e ∧
        (decide (e.session.context = ⟨3, []⟩) && decide (e.session.events = #[]) &&
          (e.session.rules.entries.all fun entry =>
            decide (∀ c ∈ entry.2.candidates, Node.referenceCount c.nodes ≤ 2)) &&
          decide (((evaluate e.extensions [.reference "a" [] []]).after
            e.session).events.toList.length = 7)) = true :=
    Engine.exists_of_create (by decide +kernel)
  simp only [Bool.and_eq_true, decide_eq_true_eq, List.all_eq_true] at hcheck
  obtain ⟨⟨⟨hcontext, hevents⟩, hentries⟩, hlength⟩ := hcheck
  have hx : e.extensions.Detached := Engine.extensions_of_create hcreate ▸ Extensions.obey_none
  have hb : ∀ c, e.session.rules.HasCandidate c → Node.referenceCount c.nodes ≤ 2 := by
    rintro c ⟨name, rule, hrule, hc⟩
    exact hentries _ ((Lexicon.get?_eq_some_iff _).1 hrule) c hc
  obtain ⟨hlevels, logged, hlogged, hbound⟩ :=
    evaluate_extent hx [.reference "a" [] []] e.session hb
  rw [hcontext] at hlevels hbound
  rw [hevents] at hlogged
  rw [hlogged] at hlength
  refine ⟨e, logged, hcreate, hx, hb, hlevels _ 4 (by decide), hlogged, hlength, ?_⟩
  exact hlength ▸ hbound

end TextGrammar
