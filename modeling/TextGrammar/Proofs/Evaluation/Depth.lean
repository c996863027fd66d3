import TextGrammar.Markup.Nesting
import TextGrammar.Proofs.Engine.Service
import TextGrammar.Proofs.Evaluation.Confined
import TextGrammar.Proofs.Registry.Selection
import TextGrammar.Random.Twister

/-!
# How deep an evaluation gets

Give each rule of a book a number of frames that is enough for the evaluation of any of its
candidates, where a reference takes one frame more than the rule it names has been given; no rule
may come back to itself then. The frames that nodes need can be read off them, `Node.nestingAll`,
and an evaluation that begins with so many left never overflows the context (`evaluate_shallow`),
whichever candidates are chosen and whatever tags stand in for rules.

The bound is carried along by a triple that counts the frames left (`Work.Within`). It is an
induction on the nodes inside one level, and on the levels across candidates, each of which needs no
more than its rule has been given.
-/

namespace TextGrammar

open Work

variable {γ α β : Type}

def Fault.Shallow (fault : Fault) : Prop := fault.kind ≠ .stackOverflow

/-- The frames that a name needs, if each rule needs what it has been given. -/
def RuleBook.need (book : RuleBook γ) (given : Text → Nat) (name : Text) : Nat :=
  if book.contains name then given name else 0

/-- Each rule has been given the frames that its candidates need. -/
def RuleBook.Provided (book : RuleBook γ) (given : Text → Nat) : Prop :=
  ∀ name rule, book.get? name = some rule → ∀ c ∈ rule.candidates,
    Node.nestingAll (book.need given) c.nodes ≤ given name

theorem RuleBook.need_of_get? {book : RuleBook γ} {name : Text} {rule : Rule γ}
    (h : book.get? name = some rule) (given : Text → Nat) :
    book.need given name = given name := by
  simp [need, Lexicon.contains, h]

namespace Selector

def FailsOnly (E : Fault → Prop) : Selector γ → Prop
  | .custom state => ∀ asked count fault, state.answer asked count = .error fault → E fault
  | _ => True

theorem failsOnly_of_not_isGiven {E : Fault → Prop} {σ : Selector γ} (h : σ.isGiven = false) :
    σ.FailsOnly E := by
  cases σ with
  | custom state => cases h
  | _ => trivial

variable [RandomSource γ] {σ τ : Selector γ} {count : Int} {shared shared' : γ}

theorem FailsOnly.of_pick {E : Fault → Prop} (h : σ.FailsOnly E) {pick : Pick}
    (hpick : σ.pick count shared = .ok (pick, τ, shared')) : τ.FailsOnly E := by
  cases σ with
  | first =>
      cases hpick
      exact h
  | shuffled _ | weighted _ | custom _ =>
      obtain ⟨answer, -, hanswer⟩ := exists_of_map_eq_ok hpick
      cases hanswer
      exact h

theorem shallow_of_pick {fault : Fault} (h : σ.FailsOnly Fault.Shallow)
    (hpick : σ.pick count shared = .error fault) : fault.Shallow := by
  cases σ with
  | first => cases hpick
  | shuffled state =>
      have hstate := eq_error_of_map_eq_error hpick
      unfold Shuffled.pick at hstate
      split at hstate
      · cases hstate
        exact nofun
      · simp only at hstate
        split at hstate
        · cases hstate
          exact nofun
        · cases hstate
  | weighted state =>
      have hstate := eq_error_of_map_eq_error hpick
      unfold Weighted.pick at hstate
      split at hstate
      · cases hstate
      · split at hstate
        · cases hstate
          exact nofun
        · cases hstate
  | custom state => exact h _ _ fault (eq_error_of_map_eq_error hpick)

end Selector

def SelectorsFailOnly (E : Fault → Prop) (s : Session γ) : Prop :=
  ∀ name rule, s.rules.get? name = some rule → rule.selector.FailsOnly E

theorem lasting_selectorsFailOnly [RandomSource γ] (fits : Node → Prop) (E : Fault → Prop) :
    Lasting fits (SelectorsFailOnly (γ := γ) E) := by
  refine lasting_of_each_rule fun h hselect => ?_
  obtain ⟨answer, hpick, hanswer⟩ := exists_of_map_eq_ok hselect
  cases hanswer
  exact h.of_pick hpick

namespace Work

/-- A computation, begun in a session with a property and with so many frames left, lands with the
same property and context. -/
def Within (J : Session γ → Prop) (need : Nat) (E : Fault → Prop) (m : Work γ α) : Prop :=
  ∀ s, J s → s.context.depth + need ≤ s.context.maxDepth →
    Lands J s.context (fun _ => True) E (m s)

variable {J : Session γ → Prop} {need need' : Nat} {E : Fault → Prop} {m : Work γ α}

theorem Within.mono (h : Within J need E m) (hle : need ≤ need') : Within J need' E m :=
  fun s hs hroom => h s hs (Nat.le_trans (Nat.add_le_add_left hle _) hroom)

theorem within_pure (a : α) : Within J need E (pure a) := fun _ hs _ => ⟨hs, rfl, trivial⟩

theorem within_stop {fault : Fault} (h : E fault) : Within J need E (stop fault : Work γ α) :=
  fun _ hs _ => ⟨hs, rfl, h⟩

theorem Within.bind {f : α → Work γ β} (hm : Within J need E m)
    (hf : ∀ a, Within J need E (f a)) : Within J need E (m >>= f) := by
  intro s hs hroom
  refine (hm s hs hroom).bind fun a t ht hcontext _ => ?_
  rw [← hcontext] at hroom ⊢
  exact hf a t ht hroom

theorem Within.inScope (h : Within J need E m)
    (henter : ∀ s, J s → J { s with tags := s.tags.enterScope })
    (hexit : ∀ s, J s → J { s with tags := s.tags.exitScope }) :
    Within J need E (inScope m) :=
  fun s hs hroom => Lands.inScope (h _ (henter s hs) hroom) hexit

/-- With one frame more than is needed inside it, a frame is never refused. -/
theorem Within.inFrame (h : Within J need E m) (hJ : ∀ s c, J s → J { s with context := c })
    (frame : Frame) : Within J (1 + need) E (inFrame frame m) := by
  intro s hs hroom
  refine Lands.inFrame hs hJ (fun o hfull => ?_) fun c henter => ?_
  · have hdepth := (Context.enter_eq_error_iff.1 hfull).1
    omega
  · have hdepth : c.depth = s.context.depth + 1 := Context.depth_of_enter henter
    have hmax : c.maxDepth = s.context.maxDepth := (Context.enter_eq_ok_iff.1 henter).1
    have hleft : c.depth + need ≤ c.maxDepth := by omega
    exact h { s with context := c } (hJ s c hs) hleft

end Work

/-- The rules of a session are those of a book, and its selectors overflow nothing. -/
def Kept (book : RuleBook γ) (s : Session γ) : Prop :=
  SameCandidates book s ∧ SelectorsFailOnly Fault.Shallow s

theorem within_join {book : RuleBook γ} (parts : List (Option Text)) {need : Nat} :
    Within (Kept book) need Fault.Shallow (Work.ofExcept (join parts)) := by
  cases hend : join parts with
  | ok text => exact within_pure text
  | error fault =>
      refine within_stop (allowed_of_joinFrom (E := Fault.Shallow) ?_ hend)
      intro part _ _ place
      exact nofun

section Level

variable [RandomSource γ] {x : Extensions} {book : RuleBook γ} {given : Text → Nat}
  {inner : List Node → Work γ Text}

theorem lasting_kept (book : RuleBook γ) : Lasting (fun _ => True) (Kept book) :=
  (lasting_sameCandidates _ book).and (lasting_selectorsFailOnly _ Fault.Shallow)

variable (hx : x.Detached) (hfails : x.FailOnly Fault.Shallow)

include hx hfails

theorem lands_complete_of_kept (name : Text) (index : Index) (text : Text) {s : Session γ}
    (hs : Kept book s) :
    Lands (Kept book) s.context (fun _ => True) Fault.Shallow
      (complete x inner name index text s) :=
  (lasting_kept book).lands_callHooks hx.hooks hfails.hooks _ ((lasting_kept book).record s _ hs)

/-- Modifiers are applied outside of all frames, and take none. -/
theorem within_applyModifiers (text : Option Text) (calls : List ModifierCall) {need : Nat} :
    Within (Kept book) need Fault.Shallow (applyModifiers x inner text calls) :=
  fun _ hs _ => (lasting_kept book).lands_applyModifiers hx hfails (fun _ => nofun) text calls hs

variable (hgiven : book.Provided given)
  (hinner : ∀ nodes,
    Within (Kept book) (Node.nestingAll (book.need given) nodes) Fault.Shallow (inner nodes))

include hgiven hinner

theorem within_resolve (name : Text) :
    Within (Kept book) (book.need given name) Fault.Shallow (resolve x inner name) := by
  intro s hs hroom
  unfold resolve
  by_cases hname : name = ""
  · rw [if_pos hname]
    exact ⟨hs, rfl, trivial⟩
  · rw [if_neg hname]
    cases s.tags.lookup name with
    | some value => exact ⟨hs, rfl, trivial⟩
    | none =>
        cases hrule : s.rules.get? name with
        | none => exact ⟨hs, rfl, trivial⟩
        | some rule =>
            refine ((lasting_kept book).lands_selectCandidate hs hrule ?_ ?_).bind
              fun choice t ht hcontext hmem => ?_
            · intro fault hselect
              exact Selector.shallow_of_pick (hs.2 name rule hrule)
                (eq_error_of_map_eq_error hselect)
            · intro _ _ _
              exact nofun
            · -- The candidate needs no more than its rule has been given.
              obtain ⟨rule', hrule', hcandidates⟩ := hs.1.exists_rule hrule
              have hcandidate : Node.nestingAll (book.need given) choice.2.nodes ≤
                  book.need given name := by
                rw [RuleBook.need_of_get? hrule' given]
                exact hgiven name rule' hrule' choice.2 (hcandidates ▸ hmem)
              rw [← hcontext] at hroom ⊢
              refine ((hinner choice.2.nodes).mono hcandidate t ht hroom).bind
                fun text u hu hcontext' _ => ?_
              rw [← hcontext']
              exact (lands_complete_of_kept hx hfails name choice.1 text hu).bind
                fun _ v hv hsame _ => ⟨hv, hsame, trivial⟩

omit hx hfails hgiven hinner

mutual

theorem within_nodeParts (hx : x.Detached) (hfails : x.FailOnly Fault.Shallow)
    (hgiven : book.Provided given) (hinner : ∀ nodes,
      Within (Kept book) (Node.nestingAll (book.need given) nodes) Fault.Shallow (inner nodes)) :
    (n : Node) →
    Within (Kept book) (n.nesting (book.need given)) Fault.Shallow (nodeParts x inner n)
  | .text t => within_pure [some t]
  | .reference name modifiers actions => by
      have hactions := (within_assignAll hx hfails hgiven hinner actions).mono
        (Nat.le_max_left _ (book.need given name))
      have hname := (within_resolve hx hfails hgiven hinner name).mono
        (Nat.le_max_right (Assignment.nestingAll (book.need given) actions) _)
      have hbody := (hactions.bind fun _ => hname).inScope (lasting_kept book).enterScope
        (lasting_kept book).exitScope
      unfold nodeParts
      refine (hbody.inFrame (lasting_kept book).context ⟨.rule, name⟩).bind fun text => ?_
      exact (within_applyModifiers hx hfails (some text) modifiers).bind fun text =>
        within_pure [text]
  | .assign a => (within_assign hx hfails hgiven hinner a).bind fun _ => within_pure []
  | .weight _ => within_pure []
  | .stray _ => within_stop nofun

theorem within_assign (hx : x.Detached) (hfails : x.FailOnly Fault.Shallow)
    (hgiven : book.Provided given) (hinner : ∀ nodes,
      Within (Kept book) (Node.nestingAll (book.need given) nodes) Fault.Shallow (inner nodes)) :
    (a : Assignment) →
    Within (Kept book) (a.nesting (book.need given)) Fault.Shallow (assign x inner a)
  | ⟨name, value⟩ => by
      have hvalue := (within_sequenceParts hx hfails hgiven hinner value).bind fun parts =>
        within_join parts
      unfold assign
      refine (hvalue.inFrame (lasting_kept book).context ⟨.tag, name⟩).bind fun text s hs _ => ?_
      exact ⟨(lasting_kept book).bind (a := ⟨name, value⟩) s text trivial hs, rfl, trivial⟩

theorem within_assignAll (hx : x.Detached) (hfails : x.FailOnly Fault.Shallow)
    (hgiven : book.Provided given) (hinner : ∀ nodes,
      Within (Kept book) (Node.nestingAll (book.need given) nodes) Fault.Shallow (inner nodes)) :
    (actions : List Assignment) →
    Within (Kept book) (Assignment.nestingAll (book.need given) actions) Fault.Shallow
      (assignAll x inner actions)
  | [] => within_pure ()
  | a :: rest =>
      ((within_assign hx hfails hgiven hinner a).mono (Nat.le_max_left _ _)).bind fun _ =>
        (within_assignAll hx hfails hgiven hinner rest).mono (Nat.le_max_right _ _)

theorem within_sequenceParts (hx : x.Detached) (hfails : x.FailOnly Fault.Shallow)
    (hgiven : book.Provided given) (hinner : ∀ nodes,
      Within (Kept book) (Node.nestingAll (book.need given) nodes) Fault.Shallow (inner nodes)) :
    (nodes : List Node) →
    Within (Kept book) (Node.nestingAll (book.need given) nodes) Fault.Shallow
      (sequenceParts x inner nodes)
  | [] => within_pure []
  | n :: rest => by
      have hfirst := within_nodeParts hx hfails hgiven hinner n
      have hrest := within_sequenceParts hx hfails hgiven hinner rest
      exact (hfirst.mono (Nat.le_max_left _ _)).bind fun parts =>
        (hrest.mono (Nat.le_max_right _ _)).bind fun more => within_pure (parts ++ more)

end

end Level

variable [RandomSource γ] {x : Extensions} {book : RuleBook γ} {given : Text → Nat}

theorem within_evaluateAt (hx : x.Detached) (hfails : x.FailOnly Fault.Shallow)
    (hgiven : book.Provided given) (levels : Nat) (nodes : List Node) :
    Within (Kept book) (Node.nestingAll (book.need given) nodes) Fault.Shallow
      (evaluateAt x levels nodes) := by
  induction levels generalizing nodes with
  | zero => exact within_stop nofun
  | succ levels ih =>
      exact (within_sequenceParts hx hfails hgiven ih nodes).bind fun parts => within_join parts

/-- A book whose rules have been given the frames that their candidates need never overflows a
context with the room for it, whichever candidates are chosen and whatever tags are bound. Modifiers
and hooks are those that ask nothing of the engine; they and the users' selectors may fail, but not
with an overflow of their own. -/
theorem evaluate_shallow (hx : x.Detached) (hfails : x.FailOnly Fault.Shallow) {s : Session γ}
    (hselectors : SelectorsFailOnly Fault.Shallow s) (hgiven : s.rules.Provided given)
    (nodes : List Node)
    (hroom : s.context.depth + Node.nestingAll (s.rules.need given) nodes ≤ s.context.maxDepth)
    {fault : Fault} {t : Session γ} (hend : evaluate x nodes s = .error fault t) :
    fault.kind ≠ .stackOverflow := by
  have hlands := within_evaluateAt hx hfails hgiven (nestingLevels s.context.maxDepth) nodes s
    ⟨.refl s, hselectors⟩ hroom
  unfold evaluate at hend
  rw [hend] at hlands
  exact hlands.2.2

/-- Four frames are given and four are open at the deepest point; afterwards a modifier is
missing. -/
theorem evaluate_shallow_exact : ∃ (e : Engine Twister) (t : Session Twister),
    Engine.create [(.text "top", .ofTexts ["[t:#middle#]#t#"]),
        (.text "middle", .ofTexts ["#bottom#"]), (.text "bottom", .ofTexts ["x"])]
        ⟨.nested, false, some 4⟩ ⟨#[], 0⟩ = .ok e ∧
      evaluate e.extensions [.reference "top" [⟨"absent", []⟩] []] e.session =
        .error (.unknownModifier "absent") t ∧
      (Fault.unknownModifier "absent").kind ≠ .stackOverflow := by
  let given : Text → Nat := fun name =>
    if name = "top" then 3 else if name = "middle" then 1 else 0
  obtain ⟨e, hcreate, hcheck⟩ : ∃ e : Engine Twister,
      Engine.create [(.text "top", .ofTexts ["[t:#middle#]#t#"]),
          (.text "middle", .ofTexts ["#bottom#"]), (.text "bottom", .ofTexts ["x"])]
          ⟨.nested, false, some 4⟩ ⟨#[], 0⟩ = .ok e ∧
        (decide (e.session.context.depth + Node.nestingAll (e.session.rules.need given)
            [.reference "top" [⟨"absent", []⟩] []] ≤ e.session.context.maxDepth) &&
          (e.session.rules.entries.all fun entry => !entry.2.selector.isGiven &&
            decide (∀ c ∈ entry.2.candidates,
              Node.nestingAll (e.session.rules.need given) c.nodes ≤ given entry.1)) &&
          match evaluate e.extensions [.reference "top" [⟨"absent", []⟩] []] e.session with
          | .ok _ _ => false
          | .error fault _ => decide (fault = .unknownModifier "absent")) = true :=
    Engine.exists_of_create (by decide +kernel)
  simp only [Bool.and_eq_true, decide_eq_true_eq, List.all_eq_true, Bool.not_eq_true'] at hcheck
  obtain ⟨⟨hroom, hentries⟩, hanswer⟩ := hcheck
  have hx : e.extensions = .none := Engine.extensions_of_create hcreate
  have hselectors : SelectorsFailOnly Fault.Shallow e.session := fun name rule hrule =>
    Selector.failsOnly_of_not_isGiven (hentries _ ((Lexicon.get?_eq_some_iff _).1 hrule)).1
  have hgiven : e.session.rules.Provided given := fun name rule hrule =>
    (hentries _ ((Lexicon.get?_eq_some_iff _).1 hrule)).2
  cases hend : evaluate e.extensions [.reference "top" [⟨"absent", []⟩] []] e.session with
  | ok text t =>
      rw [hend] at hanswer
      cases hanswer
  | error fault t =>
      obtain rfl : fault = .unknownModifier "absent" := by simpa [hend] using hanswer
      exact ⟨e, t, hcreate, hend, evaluate_shallow (hx ▸ Extensions.obey_none)
        (hx ▸ Extensions.obey_none) hselectors hgiven _ hroom hend⟩

end TextGrammar
