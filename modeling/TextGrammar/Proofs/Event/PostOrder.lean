import TextGrammar.Proofs.Engine.Service
import TextGrammar.Proofs.Evaluation.Detached
import TextGrammar.Proofs.Evaluation.Resolution
import TextGrammar.Random.Twister

/-!
# The order of the log

A rule that has been expanded is logged with the depth of the context at that moment, which is the
depth of its own frame: all frames inside it have been left. So the log of a reference is a
post-order of what it expands. At the end stands the event of its own rule, one frame deeper than
the reference; before it come those of its candidate, at least two frames deeper, and before these
those of its actions, which are evaluated in one frame more.

An assignment opens a frame and logs nothing, so that the depths have gaps: what is known of a
sequence is a lower bound (`LogsDeeper`), which each frame around it raises by one
(`Work.keeps_inFrame_logsDeeper`).
-/

namespace TextGrammar

open Work

variable {γ α : Type}

/-- An event was logged in so many frames at least, and at most. -/
def Event.Between (low high : Nat) (e : Event) : Prop := (low : Int) ≤ e.depth ∧ e.depth ≤ high

theorem Event.Between.mono {low low' high : Nat} {e : Event} (h : e.Between low high)
    (hle : low' ≤ low) : e.Between low' high :=
  ⟨Int.le_trans (Int.ofNat_le.2 hle) h.1, h.2⟩

/-- The context is the one there was before, and what has been logged was logged at least so many
frames inside it. -/
structure LogsDeeper (k : Nat) (s t : Session γ) : Prop where
  context : t.context = s.context
  events : ∃ logged, t.events.toList = s.events.toList ++ logged ∧
    ∀ e ∈ logged, e.Between (s.context.depth + k) s.context.maxDepth

namespace LogsDeeper

variable {k k' : Nat} {s t u : Session γ}

theorem of_eq (hcontext : t.context = s.context) (hevents : t.events = s.events) :
    LogsDeeper k s t :=
  ⟨hcontext, [], by rw [hevents, List.append_nil], by simp⟩

theorem trans (hst : LogsDeeper k s t) (htu : LogsDeeper k t u) : LogsDeeper k s u := by
  obtain ⟨hcontext, logged, hlogged, hdeeper⟩ := hst
  obtain ⟨hcontext', more, hmore, hdeeper'⟩ := htu
  rw [hcontext] at hdeeper'
  refine ⟨hcontext'.trans hcontext, logged ++ more, ?_,
    List.forall_mem_append.2 ⟨hdeeper, hdeeper'⟩⟩
  rw [hmore, hlogged, List.append_assoc]

theorem mono (h : LogsDeeper k s t) (hle : k' ≤ k) : LogsDeeper k' s t := by
  obtain ⟨hcontext, logged, hlogged, hdeeper⟩ := h
  exact ⟨hcontext, logged, hlogged, fun e he =>
    (hdeeper e he).mono (Nat.add_le_add_left hle _)⟩

/-- What was logged inside a frame is one frame deeper outside of it. -/
theorem frame {frame : Frame} {context : Context} (henter : s.context.enter frame = .ok context)
    (h : LogsDeeper k { s with context := context } t) :
    LogsDeeper (k + 1) s { t with context := t.context.leave } := by
  obtain ⟨hcontext, logged, hlogged, hdeeper⟩ := h
  have hdepth : context.depth = s.context.depth + 1 := Context.depth_of_enter henter
  have hmax : context.maxDepth = s.context.maxDepth := (Context.enter_eq_ok_iff.1 henter).1
  refine ⟨?_, logged, hlogged, fun e he => ?_⟩
  · rw [hcontext]
    exact Context.leave_of_enter henter
  · have hbetween := hdeeper e he
    simp only [hdepth, hmax] at hbetween
    exact hbetween.mono (by omega)

end LogsDeeper

variable [RandomSource γ]

theorem passing_logsDeeper (k : Nat) : Passing (LogsDeeper (γ := γ) k) where
  refl _ := .of_eq rfl rfl
  trans := LogsDeeper.trans
  frame henter h := (h.frame henter).mono (Nat.le_succ k)
  scope h := ⟨h.context, h.events⟩
  bind _ _ _ := .of_eq rfl rfl
  unresolved _ _ := .of_eq rfl rfl
  select _ _ := .of_eq rfl rfl

omit [RandomSource γ] in
theorem Work.keeps_inFrame_logsDeeper {k : Nat} {body : Work γ α}
    (h : Keeps (LogsDeeper k) body) (frame : Frame) :
    Keeps (LogsDeeper (k + 1)) (inFrame frame body) := by
  intro s
  cases henter : s.context.enter frame with
  | error o =>
      rw [after_inFrame_of_error henter]
      exact .of_eq rfl rfl
  | ok context =>
      rw [after_inFrame henter]
      exact (h _).frame henter

section Level

variable {x : Extensions} {inner : List Node → Work γ Text}

theorem keeps_assign_logsDeeper {k : Nat} {a : Assignment}
    (hvalue : Keeps (LogsDeeper k) (sequenceParts x inner a.value)) :
    Keeps (LogsDeeper (k + 1)) (assign x inner a) := by
  obtain ⟨name, value⟩ := a
  unfold assign
  refine (passing_logsDeeper (k + 1)).keeps_bind ?_ fun text s => .of_eq rfl rfl
  exact keeps_inFrame_logsDeeper ((passing_logsDeeper k).keeps_bind hvalue fun parts =>
    (passing_logsDeeper k).keeps_ofExcept (join parts)) ⟨.tag, name⟩

variable (hx : x.Detached)

include hx

/-- An expansion is logged with the depth of the context in which it ends. -/
theorem keptByExtensions_logsDeeper (inner : List Node → Work γ Text) :
    KeptByExtensions x inner (LogsDeeper 0) := by
  refine hx.keptByExtensions (fun _ _ => .of_eq rfl rfl)
    (fun _ s name index text _ _ _ _ => ?_) inner
  refine ⟨rfl, [_], Array.toList_push, fun e he => ?_⟩
  rw [List.mem_singleton.1 he]
  exact ⟨Int.le_refl _, Int.ofNat_le.2 s.context.depth_le⟩

variable (hinner : ∀ nodes, Keeps (LogsDeeper 0) (inner nodes))

include hinner

/-- Whatever a node logs is logged inside of a frame that the node has opened. -/
theorem keeps_nodeParts_logsDeeper (n : Node) : Keeps (LogsDeeper 1) (nodeParts x inner n) := by
  have hpassing := passing_logsDeeper (γ := γ)
  have hkept := keptByExtensions_logsDeeper hx inner
  cases n with
  | text _ => exact (hpassing 1).keeps_pure _
  | weight _ => exact (hpassing 1).keeps_pure []
  | stray shown => exact (hpassing 1).keeps_stop (.strayNode shown)
  | assign a =>
      have hvalue := (hpassing 0).keeps_sequenceParts hinner hkept a.value
      exact (hpassing 1).keeps_bind (keeps_assign_logsDeeper hvalue) fun _ =>
        (hpassing 1).keeps_pure []
  | reference name modifiers actions =>
      have hbody : Keeps (LogsDeeper 0) (inScope do
          assignAll x inner actions
          resolve x inner name) :=
        (hpassing 0).keeps_inScope <|
          (hpassing 0).keeps_bind ((hpassing 0).keeps_assignAll hinner hkept actions) fun _ =>
            (hpassing 0).keeps_resolve hinner hkept name
      unfold nodeParts
      refine (hpassing 1).keeps_bind (keeps_inFrame_logsDeeper hbody ⟨.rule, name⟩) fun text => ?_
      refine (hpassing 1).keeps_bind (fun s => ?_) fun value => (hpassing 1).keeps_pure [value]
      obtain ⟨journal, hafter⟩ := hx.after_applyModifiers inner (some text) modifiers s
      rw [hafter]
      exact .of_eq rfl rfl

theorem keeps_sequenceParts_logsDeeper (nodes : List Node) :
    Keeps (LogsDeeper 1) (sequenceParts x inner nodes) := by
  have hpassing := passing_logsDeeper (γ := γ) 1
  induction nodes with
  | nil => exact hpassing.keeps_pure []
  | cons n rest ih =>
      exact hpassing.keeps_bind (keeps_nodeParts_logsDeeper hx hinner n) fun parts =>
        hpassing.keeps_bind ih fun more => hpassing.keeps_pure (parts ++ more)

/-- The value of an assignment is evaluated in a frame around its own nodes. -/
theorem keeps_assignAll_logsDeeper (actions : List Assignment) :
    Keeps (LogsDeeper 2) (assignAll x inner actions) := by
  have hpassing := passing_logsDeeper (γ := γ) 2
  induction actions with
  | nil => exact hpassing.keeps_pure ()
  | cons a rest ih =>
      exact hpassing.keeps_bind
        (keeps_assign_logsDeeper (keeps_sequenceParts_logsDeeper hx hinner a.value)) fun _ => ih

end Level

theorem keeps_evaluateAt_logsDeeper {x : Extensions} (hx : x.Detached) (levels : Nat)
    (nodes : List Node) : Keeps (LogsDeeper 1) (evaluateAt x levels nodes : Work γ Text) := by
  have hpassing := passing_logsDeeper (γ := γ) 1
  induction levels generalizing nodes with
  | zero => exact hpassing.keeps_stop .tooNested
  | succ levels ih =>
      have hinner (nodes : List Node) : Keeps (LogsDeeper 0) (evaluateAt (γ := γ) x levels nodes) :=
        fun s => (ih nodes s).mono (Nat.zero_le 1)
      exact hpassing.keeps_bind (keeps_sequenceParts_logsDeeper hx hinner nodes) fun parts =>
        hpassing.keeps_ofExcept (join parts)

/-! ## A reference -/

section Level

variable {x : Extensions} {inner : List Node → Work γ Text} {name : Text} {s t : Session γ}

/-- The actions of a reference are carried out in its frame, and their values in another one. -/
theorem OpensReference.log_assignAll (hx : x.Detached)
    (hinner : ∀ nodes, Keeps (LogsDeeper 0) (inner nodes)) {actions : List Assignment}
    {u : Session γ} (hopens : OpensReference x inner [] name s t)
    (hactions : assignAll x inner actions t = .ok () u) :
    u.context.depth = s.context.depth + 1 ∧ u.context.maxDepth = s.context.maxDepth ∧
      ∃ logged, u.events.toList = s.events.toList ++ logged ∧
        ∀ e ∈ logged, e.Between (s.context.depth + 3) s.context.maxDepth := by
  obtain ⟨parts, s', context, hbefore, henter, rfl⟩ := hopens
  cases hbefore
  obtain ⟨hcontext, logged, hlogged, hdeeper⟩ :=
    (keeps_assignAll_logsDeeper hx hinner actions).of_ok hactions
  have hdepth : context.depth = s.context.depth + 1 := Context.depth_of_enter henter
  have hmax : context.maxDepth = s.context.maxDepth := (Context.enter_eq_ok_iff.1 henter).1
  simp only [hdepth, hmax] at hdeeper
  exact ⟨hcontext ▸ hdepth, hcontext ▸ hmax, logged, hlogged, hdeeper⟩

theorem events_resolve_of_no_rule
    (hname : name = "" ∨ (s.tags.lookup name).isSome = true ∨ s.rules.get? name = none)
    {text : Text} (h : resolve x inner name s = .ok text t) : t.events = s.events := by
  by_cases hempty : name = ""
  · rw [resolve, if_pos hempty] at h
    cases h
    rfl
  · cases htag : s.tags.lookup name with
    | some value =>
        rw [resolve_of_tag hempty htag] at h
        cases h
        rfl
    | none =>
        have hrule : s.rules.get? name = none := by simpa [hempty, htag] using hname
        rw [resolve_of_missing hempty htag hrule] at h
        cases h
        rfl

/-- A rule that is expanded is logged at last, after what its candidate has logged. -/
theorem log_expandRule (hx : x.Detached) (hinner : ∀ nodes, Keeps (LogsDeeper 1) (inner nodes))
    {rule : Rule γ} {text : Text} (h : expandRule x inner name rule s = .ok text t) :
    ∃ logged index c u v, selectCandidate name rule s = .ok (index, c) u ∧
      inner c.nodes u = .ok text v ∧
      t.events.toList = s.events.toList ++ (logged ++ [⟨name, index, s.context.depth, text⟩]) ∧
      ∀ e ∈ logged, e.Between (s.context.depth + 1) s.context.maxDepth := by
  unfold expandRule at h
  obtain ⟨⟨index, c⟩, u, hselect, hrest⟩ := exists_of_bind_eq_ok h
  obtain ⟨text', v, hcandidate, hrest⟩ := exists_of_bind_eq_ok hrest
  obtain ⟨_, w, hcomplete, hpure⟩ := exists_of_bind_eq_ok hrest
  cases hpure
  -- Choosing a candidate neither logs anything nor changes the context.
  obtain ⟨rule', random, -, rfl⟩ := exists_of_selectCandidate_eq_ok hselect
  obtain ⟨hcontext, logged, hlogged, hdeeper⟩ := (hinner c.nodes).of_ok hcandidate
  obtain ⟨tracers, journal, hafter⟩ := hx.after_complete inner name index text v
  rw [after_of_ok hcomplete] at hafter
  refine ⟨logged, index, c, _, v, hselect, hcandidate, ?_, hdeeper⟩
  rw [hafter, ← List.append_assoc, ← hlogged]
  have hdepth : v.context.depth = s.context.depth := by rw [hcontext]
  rw [← hdepth]
  exact Array.toList_push

end Level

/-- The log is a post-order of what is expanded. A reference that succeeds has opened its frame and
scope and carried out its actions. If its name then stands for a rule, the rule is logged at last,
one frame deeper than the reference, with the index of the candidate it has chosen and the text that
this one has evaluated to, whatever the modifiers make of it; all else was logged at least two
frames deeper. If the name is empty, a tag or unknown, all was logged at least three frames deeper.
A reference that fails has logged only what is at least one frame deeper, and nothing is ever logged
deeper than the context may become. -/
theorem log_in_postOrder {x : Extensions} (hx : x.Detached) (levels : Nat) (name : Text)
    (modifiers : List ModifierCall) (actions : List Assignment) (s : Session γ) :
    let inner := evaluateAt (γ := γ) x levels
    let d := s.context.depth
    let limit := s.context.maxDepth
    (∀ parts t, nodeParts x inner (.reference name modifiers actions) s = .ok parts t →
      ∃ opened u logged, OpensReference x inner [] name s opened ∧
        assignAll x inner actions opened = .ok () u ∧
        t.events.toList = s.events.toList ++ logged ∧
        (∀ e ∈ logged, e.Between (d + 1) limit) ∧
        (∀ rule, name ≠ "" → u.tags.lookup name = none → u.rules.get? name = some rule →
          ∃ before index c text v w, selectCandidate name rule u = .ok (index, c) v ∧
            inner c.nodes v = .ok text w ∧
            logged = before ++ [⟨name, index, d + 1, text⟩] ∧
            ∀ e ∈ before, e.Between (d + 2) limit) ∧
        (name = "" ∨ (u.tags.lookup name).isSome = true ∨ u.rules.get? name = none →
          ∀ e ∈ logged, e.Between (d + 3) limit)) ∧
      ∀ fault t, nodeParts x inner (.reference name modifiers actions) s = .error fault t →
        ∃ logged, t.events.toList = s.events.toList ++ logged ∧
          ∀ e ∈ logged, e.Between (d + 1) limit := by
  intro inner d limit
  have hone (nodes : List Node) : Keeps (LogsDeeper 1) (inner nodes) :=
    keeps_evaluateAt_logsDeeper hx levels nodes
  have hinner (nodes : List Node) : Keeps (LogsDeeper 0) (inner nodes) := fun s =>
    (hone nodes s).mono (Nat.zero_le 1)
  have hnode := keeps_nodeParts_logsDeeper hx hinner (.reference name modifiers actions)
  refine ⟨fun parts t h => ?_, fun fault t h => (hnode.of_error h).events⟩
  obtain ⟨opened, u, v, text, value, hopens, hactions, hresolve, hmodifiers, -⟩ :=
    exists_of_reference_eq_ok h
  obtain ⟨hdepth, hmax, done, hdone, hdeeper⟩ := hopens.log_assignAll hx hinner hactions
  have hevents : t.events = v.events := by
    obtain ⟨journal, hafter⟩ := hx.after_applyModifiers inner (some text) modifiers
      { v with context := v.context.leave, tags := v.tags.exitScope }
    rw [after_of_ok hmodifiers] at hafter
    rw [hafter]
  obtain ⟨logged, hlogged, hall⟩ := (hnode.of_ok h).events
  refine ⟨opened, u, logged, hopens, hactions, hlogged, hall, ?_, ?_⟩
  · intro rule hname htag hrule
    rw [resolve_of_rule hname htag hrule] at hresolve
    obtain ⟨before, index, c, v', w, hselect, hcandidate, hlog, hbefore⟩ :=
      log_expandRule hx hone hresolve
    rw [hdepth] at hlog
    rw [hdepth, hmax] at hbefore
    refine ⟨done ++ before, index, c, text, v', w, hselect, hcandidate, ?_,
      List.forall_mem_append.2 ⟨fun e he => (hdeeper e he).mono (Nat.le_succ _), hbefore⟩⟩
    rw [hevents, hlog, hdone, List.append_assoc, List.append_cancel_left_eq] at hlogged
    rw [← hlogged, List.append_assoc]
    rfl
  · intro hno
    have hlog : t.events = u.events := hevents.trans (events_resolve_of_no_rule hno hresolve)
    rw [hlog, hdone, List.append_cancel_left_eq] at hlogged
    exact hlogged ▸ hdeeper

/-- A rule with an assignment in its candidate is expanded after an action: both assignments leave a
gap of one frame in the depths. -/
theorem log_in_postOrder_gaps : ∃ (e : Engine Twister) (t : Session Twister) (before : List Event),
    Engine.create [(.text "a", .ofTexts ["[t:#b#]#t##b#"]), (.text "b", .ofTexts ["x"])]
        ⟨.nested, false, some 4⟩ ⟨#[], 0⟩ = .ok e ∧
      nodeParts e.extensions (evaluateAt e.extensions 3)
        (.reference "a" [] [⟨"u", [.reference "b" [] []]⟩]) e.session = .ok [some ("xx" : Text)] t ∧
      t.events.toList = before ++ [⟨"a", .number 0, 1, "xx"⟩] ∧
      before.map Event.depth = [3, 3, 2] ∧ ∀ e ∈ before, e.Between 2 4 := by
  let log : List Event := [⟨"b", .number 0, 3, "x"⟩, ⟨"b", .number 0, 3, "x"⟩,
    ⟨"b", .number 0, 2, "x"⟩, ⟨"a", .number 0, 1, "xx"⟩]
  obtain ⟨e, hcreate, hcheck⟩ : ∃ e : Engine Twister,
      Engine.create [(.text "a", .ofTexts ["[t:#b#]#t##b#"]), (.text "b", .ofTexts ["x"])]
          ⟨.nested, false, some 4⟩ ⟨#[], 0⟩ = .ok e ∧
        (decide (e.session.context = ⟨4, []⟩) && decide (e.session.events = #[]) &&
          match nodeParts e.extensions (evaluateAt e.extensions 3)
              (.reference "a" [] [⟨"u", [.reference "b" [] []]⟩]) e.session with
          | .ok parts t => decide (parts = [some ("xx" : Text)]) && decide (t.events.toList = log)
          | .error _ _ => false) = true :=
    Engine.exists_of_create (by decide +kernel)
  simp only [Bool.and_eq_true, decide_eq_true_eq] at hcheck
  obtain ⟨⟨hcontext, hevents⟩, hcheck⟩ := hcheck
  have hx : e.extensions.Detached := Engine.extensions_of_create hcreate ▸ Extensions.obey_none
  cases hend : nodeParts e.extensions (evaluateAt e.extensions 3)
      (.reference "a" [] [⟨"u", [.reference "b" [] []]⟩]) e.session with
  | error fault t =>
      rw [hend] at hcheck
      cases hcheck
  | ok parts t =>
      simp only [hend, Bool.and_eq_true, decide_eq_true_eq] at hcheck
      obtain ⟨rfl, hlog⟩ := hcheck
      obtain ⟨opened, u, logged, -, -, hlogged, -, hrule, hno⟩ :=
        (log_in_postOrder hx 3 "a" [] [⟨"u", [.reference "b" [] []]⟩] e.session).1 _ t hend
      rw [hcontext] at hrule hno
      obtain rfl : log = logged := by rw [← hlog, hlogged, hevents]; rfl
      -- The event at a depth of one can only be that of a rule.
      have hexpanded : ¬(("a" : Text) = "" ∨ (u.tags.lookup "a").isSome = true ∨
          u.rules.get? "a" = none) :=
        fun h => absurd (hno h ⟨"a", .number 0, 1, "xx"⟩ (by simp [log])).1 (by decide)
      simp only [not_or, Bool.not_eq_true, Option.isSome_eq_false_iff, Option.isNone_iff_eq_none]
        at hexpanded
      obtain ⟨hname, htag, hsome⟩ := hexpanded
      obtain ⟨rule, hget⟩ := Option.ne_none_iff_exists'.1 hsome
      obtain ⟨before, index, c, text, v, w, -, -, hsplit, hbefore⟩ := hrule rule hname htag hget
      obtain rfl : log.take 3 = before := List.append_inj_left' hsplit rfl
      exact ⟨e, t, log.take 3, hcreate, hend, hlog, rfl, hbefore⟩

end TextGrammar
