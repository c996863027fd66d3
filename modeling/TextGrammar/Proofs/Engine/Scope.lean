import TextGrammar.Markup.Nesting
import TextGrammar.Proofs.Engine.Service
import TextGrammar.Proofs.Evaluation.Detached
import TextGrammar.Random.Twister

/-!
# How far bindings reach

Under the scoped policy a reference works in a table of its own that is dropped with it. So an
evaluation leaves the tables around the innermost one as they are (`OuterKept`), whatever rules
it expands, and in the innermost one it binds the tags that its nodes assign outside of any
reference (`Node.outerTags`) and no others. It has bound them all when it succeeds, and some
of them when it fails.

The first statement is carried along an evaluation as a steady relation, since a rule that is
expanded binds what its candidate assigns. The second is an induction on the nodes alone: what a
reference does inside its scope is covered by the first, and modifiers that ask nothing of the
engine leave the tags alone.
-/

namespace TextGrammar

variable {γ α β : Type}

/-! ## Tables that differ at some names -/

namespace TagTable

/-- A table becomes another that differs from it at some names at most. -/
def AgreeOff (names : List Text) (before after : TagTable) : Prop :=
  ∀ name, name ∉ names → after.get? name = before.get? name

def BindsAll (names : List Text) (table : TagTable) : Prop :=
  ∀ name ∈ names, ∃ text, table.get? name = some (some text)

variable {names more : List Text} {a b c : TagTable}

theorem agreeOff_refl (names : List Text) (a : TagTable) : AgreeOff names a a :=
  fun _ _ => rfl

theorem AgreeOff.trans (hab : AgreeOff names a b) (hbc : AgreeOff more b c) :
    AgreeOff (names ++ more) a c := by
  intro name hname
  rw [List.mem_append, not_or] at hname
  rw [hbc name hname.2, hab name hname.1]

theorem BindsAll.append (hb : BindsAll names b) (hbc : AgreeOff more b c)
    (hc : BindsAll more c) : BindsAll (names ++ more) c := by
  intro name hname
  by_cases hmore : name ∈ more
  · exact hc name hmore
  · rw [hbc name hmore]
    exact hb name ((List.mem_append.1 hname).resolve_right hmore)

theorem agreeOff_put (a : TagTable) (name : Text) (value : Option Text) :
    AgreeOff [name] a (a.put name value) :=
  fun _ hother => Lexicon.get?_put_of_ne a value fun h => hother (List.mem_singleton.2 h)

theorem bindsAll_put (a : TagTable) (name text : Text) :
    BindsAll [name] (a.put name (some text)) := by
  intro other hother
  rw [List.mem_singleton.1 hother]
  exact ⟨text, Lexicon.get?_put_self a name (some text)⟩

theorem mem_names_of_agreeOff (h : AgreeOff names .empty a) {name : Text}
    (hname : name ∈ a.names) : name ∈ names := by
  refine Decidable.by_contra fun hoff => ?_
  rw [Lexicon.mem_names_iff, h name hoff] at hname
  cases hname

theorem BindsAll.mem_names (h : BindsAll names a) {name : Text} (hname : name ∈ names) :
    name ∈ a.names := by
  obtain ⟨text, htext⟩ := h name hname
  rw [Lexicon.mem_names_iff, htext]
  rfl

end TagTable

open TagTable

/-! ## Tables around the innermost one -/

/-- The tables around the innermost one are kept. -/
def OuterKept (s t : Session γ) : Prop :=
  ∀ inner outer, s.tags = .nested inner outer → ∃ inner', t.tags = .nested inner' outer

theorem outerKept_of_eq {s t : Session γ} (h : t.tags = s.tags) : OuterKept s t :=
  fun inner _ hs => ⟨inner, h.trans hs⟩

theorem steady_outerKept [RandomSource γ] :
    Steady False (fun _ _ => True) (OuterKept (γ := γ)) where
  refl _ := outerKept_of_eq rfl
  trans hst htu := by
    intro inner outer hs
    obtain ⟨inner', ht⟩ := hst inner outer hs
    exact htu inner' outer ht
  frame _ h := h
  scope {s t} h := by
    intro inner outer hs
    obtain ⟨dropped, ht⟩ := h .empty (inner :: outer) (by rw [hs]; rfl)
    exact ⟨inner, by rw [ht]; rfl⟩
  bind s name value := by
    intro inner outer hs
    refine ⟨inner.put name value, ?_⟩
    rw [Session.bind, hs]
    rfl
  record _ _ := outerKept_of_eq rfl
  unresolved _ _ := outerKept_of_eq rfl
  trace _ _ _ := outerKept_of_eq rfl
  journal _ _ := outerKept_of_eq rfl
  notices _ _ := outerKept_of_eq rfl
  select _ _ := outerKept_of_eq rfl
  define _ _ := outerKept_of_eq rfl
  selector _ _ := outerKept_of_eq rfl
  reset _ := False.elim

/-! ## Work that writes tags -/

namespace Work

/-- Under the scoped policy the work changes the innermost table at the given names only, and
if it succeeds it has bound all of them to texts. -/
def Writes (names : List Text) (m : Work γ α) : Prop :=
  ∀ s inner outer, s.tags = .nested inner outer →
    ∃ inner', (m.after s).tags = .nested inner' outer ∧ AgreeOff names inner inner' ∧
      ∀ a t, m s = .ok a t → BindsAll names inner'

theorem writes_nil {m : Work γ α}
    (h : ∀ s inner outer, s.tags = .nested inner outer → (m.after s).tags = s.tags) :
    Writes [] m := by
  intro s inner outer hs
  refine ⟨inner, (h s inner outer hs).trans hs, agreeOff_refl [] inner, ?_⟩
  intro _ _ _ name hname
  cases hname

theorem writes_pure (a : α) : Writes [] (pure a : Work γ α) := writes_nil fun _ _ _ _ => rfl

theorem writes_stop (names : List Text) (fault : Fault) :
    Writes names (stop fault : Work γ α) :=
  fun _ inner _ hs => ⟨inner, hs, agreeOff_refl names inner, fun _ _ h => nomatch h⟩

theorem writes_ofExcept (r : Except Fault α) : Writes [] (Work.ofExcept r : Work γ α) := by
  cases r with
  | ok a => exact writes_pure a
  | error fault => exact writes_stop [] fault

theorem writes_change_bind (name text : Text) :
    Writes [name] (change (·.bind name (some text)) : Work γ Unit) := by
  intro s inner outer hs
  refine ⟨inner.put name (some text), ?_, agreeOff_put inner name (some text), fun _ _ _ =>
    bindsAll_put inner name text⟩
  rw [after, change_apply]
  change s.tags.bind name (some text) = _
  rw [hs]
  rfl

theorem Writes.bind {names more : List Text} {m : Work γ α} {f : α → Work γ β}
    (hm : Writes names m) (hf : ∀ a, Writes more (f a)) : Writes (names ++ more) (m >>= f) := by
  intro s inner outer hs
  obtain ⟨inner', htags, hagree, hbinds⟩ := hm s inner outer hs
  cases h : m s with
  | error fault t =>
      have hbind : (m >>= f) s = .error fault t := bind_of_error h
      refine ⟨inner', ?_, hagree.trans (agreeOff_refl more inner'), ?_⟩
      · rw [after_of_error hbind, ← after_of_error h]
        exact htags
      · intro a u hok
        rw [hbind] at hok
        cases hok
  | ok a t =>
      have hbind : (m >>= f) s = f a t := bind_of_ok h
      obtain ⟨inner'', htags', hagree', hbinds'⟩ := hf a t inner' outer (after_of_ok h ▸ htags)
      refine ⟨inner'', ?_, hagree.trans hagree', ?_⟩
      · rw [after, hbind]
        exact htags'
      · intro b u hok
        rw [hbind] at hok
        exact (hbinds a t h).append hagree' (hbinds' b u hok)

theorem Writes.inFrame {names : List Text} {body : Work γ α} (h : Writes names body)
    (frame : Frame) : Writes names (inFrame frame body) := by
  intro s inner outer hs
  cases henter : s.context.enter frame with
  | error o =>
      refine ⟨inner, ?_, agreeOff_refl names inner, fun a t hok => ?_⟩
      · rw [after_inFrame_of_error henter]
        exact hs
      · rw [Work.inFrame, henter] at hok
        cases hok
  | ok context =>
      obtain ⟨inner', htags, hagree, hbinds⟩ := h { s with context := context } inner outer hs
      refine ⟨inner', ?_, hagree, fun a t hok => ?_⟩
      · rw [after_inFrame henter]
        exact htags
      · cases hbody : body { s with context := context } with
        | ok b u => exact hbinds b u hbody
        | error fault u =>
            simp only [Work.inFrame, henter, hbody] at hok
            cases hok

theorem Writes.of_mem_iff {names more : List Text} {m : Work γ α} (h : Writes names m)
    (hmem : ∀ name, name ∈ names ↔ name ∈ more) : Writes more m := by
  intro s inner outer hs
  obtain ⟨inner', htags, hagree, hbinds⟩ := h s inner outer hs
  refine ⟨inner', htags, fun name hname => hagree name (mt (hmem name).1 hname), ?_⟩
  intro a t hok name hname
  exact hbinds a t hok name ((hmem name).2 hname)

/-- A scope is left with all that was bound in it. -/
theorem writes_inScope {body : Work γ α} (h : Keeps OuterKept body) :
    Writes [] (inScope body) := by
  refine writes_nil fun s inner outer hs => ?_
  have henter : s.tags.enterScope = .nested .empty (inner :: outer) := by rw [hs]; rfl
  obtain ⟨dropped, htags⟩ := h { s with tags := s.tags.enterScope } .empty (inner :: outer) henter
  rw [after_inScope]
  simp only [htags]
  rw [TagStore.exitScope, hs]

end Work

/-! ## Along an evaluation -/

section Level

variable [RandomSource γ] {x : Extensions} {inner : List Node → Work γ Text}

theorem writes_applyModifiers (hx : x.Detached) (text : Option Text)
    (calls : List ModifierCall) : Work.Writes [] (applyModifiers x inner text calls) := by
  refine Work.writes_nil fun s _ _ _ => ?_
  obtain ⟨journal, hafter⟩ := hx.after_applyModifiers inner text calls s
  rw [hafter]

mutual

theorem writes_nodeParts (hx : x.Detached)
    (hinner : ∀ nodes, Work.Keeps OuterKept (inner nodes)) :
    (n : Node) → Work.Writes n.outerTagsOf (nodeParts x inner n)
  | .text t => Work.writes_pure [some t]
  | .reference name modifiers actions => by
      have hbody : Work.Keeps OuterKept (do
          assignAll x inner actions
          resolve x inner name) :=
        steady_outerKept.keeps_bind
          (steady_outerKept.keeps_assignAll hinner hx.resetless.ask_allowed actions)
          fun _ => steady_outerKept.keeps_resolve hinner hx.resetless.ask_allowed name
      have hresolve := (Work.writes_inScope hbody).inFrame ⟨.rule, name⟩
      unfold nodeParts
      exact hresolve.bind fun text =>
        (writes_applyModifiers hx (some text) modifiers).bind fun text => Work.writes_pure [text]
  | .assign a => by
      have hassign := (writes_assign hx hinner a).bind fun _ =>
        Work.writes_pure ([] : List (Option Text))
      rwa [List.append_nil] at hassign
  | .weight _ => Work.writes_pure []
  | .stray shown => Work.writes_stop [] (.strayNode shown)

theorem writes_assign (hx : x.Detached)
    (hinner : ∀ nodes, Work.Keeps OuterKept (inner nodes)) :
    (a : Assignment) → Work.Writes a.outerTags (assign x inner a)
  | ⟨name, value⟩ => by
      have hvalue := ((writes_sequenceParts hx hinner value).bind fun parts =>
        Work.writes_ofExcept (join parts)).inFrame ⟨.tag, name⟩
      have hbind := hvalue.bind fun text => Work.writes_change_bind name text
      refine hbind.of_mem_iff fun other => ?_
      simp [Assignment.outerTags, or_comm]

theorem writes_sequenceParts (hx : x.Detached)
    (hinner : ∀ nodes, Work.Keeps OuterKept (inner nodes)) :
    (nodes : List Node) →
    Work.Writes (Node.outerTags nodes) (sequenceParts x inner nodes)
  | [] => Work.writes_pure []
  | n :: rest => by
      have hrest := (writes_nodeParts hx hinner n).bind fun parts =>
        (writes_sequenceParts hx hinner rest).bind fun more => Work.writes_pure (parts ++ more)
      rwa [List.append_nil] at hrest

end

theorem writes_evaluateWith (hx : x.Detached)
    (hinner : ∀ nodes, Work.Keeps OuterKept (inner nodes)) (nodes : List Node) :
    Work.Writes (Node.outerTags nodes) (evaluateWith x inner nodes) := by
  have hjoin := (writes_sequenceParts hx hinner nodes).bind fun parts =>
    Work.writes_ofExcept (join parts)
  rwa [List.append_nil] at hjoin

end Level

theorem writes_evaluateAt [RandomSource γ] {x : Extensions} (hx : x.Detached) (levels : Nat)
    (nodes : List Node) :
    Work.Writes (Node.outerTags nodes) (evaluateAt x levels nodes : Work γ Text) := by
  cases levels with
  | zero => exact Work.writes_stop _ .tooNested
  | succ levels =>
      exact writes_evaluateWith hx
        (steady_outerKept.keeps_evaluateAt hx.resetless.ask_allowed levels) nodes

theorem writes_checkNesting : Work.Writes [] (checkNesting : Work γ Unit) := by
  refine Work.writes_nil fun s _ _ _ => ?_
  unfold Work.after checkNesting
  cases raisedNesting? standingNesting s.context.maxDepth <;> rfl

theorem writes_evaluate [RandomSource γ] {x : Extensions} (hx : x.Detached)
    (nodes : List Node) : Work.Writes (Node.outerTags nodes) (evaluate x nodes : Work γ Text) :=
  fun s => writes_evaluateAt hx (nestingLevels s.context.maxDepth) nodes s

theorem writes_readAndEvaluate [RandomSource γ] {x : Extensions} (hx : x.Detached)
    {text : Text} {nodes : List Node} (h : parseText text false = .ok nodes) :
    Work.Writes (Node.outerTags nodes)
      (readAndEvaluate (evaluate x) (.text text) : Work γ Text) := by
  rw [readAndEvaluate_text _ h]
  exact writes_checkNesting.bind fun _ => writes_evaluate hx nodes

/-! ## After an expansion -/

namespace Engine

variable [RandomSource γ] {e : Engine γ} {text : Text}

/-- After an expansion with a reset under the scoped policy there is one table, which is what the
visible tags are. -/
theorem tags_expand (hx : e.extensions.Detached) {nodes : List Node}
    (hnodes : parseText text false = .ok nodes) {inner : TagTable} {outer : List TagTable}
    (hscoped : e.session.tags = .nested inner outer) :
    AgreeOff (Node.outerTags nodes) .empty (e.expand text true).2.tags ∧
      ∀ answer t, e.outcome (.text text) true = .ok answer t →
        BindsAll (Node.outerTags nodes) (e.expand text true).2.tags := by
  have hreset : e.session.reset.tags = .nested .empty [] := by
    rw [Session.reset, hscoped]
    rfl
  obtain ⟨inner', htags, hagree, hbinds⟩ :=
    writes_readAndEvaluate hx hnodes e.session.reset .empty [] hreset
  have hafter : (e.expand text true).2.tags = inner' := by
    rw [← TagStore.snapshot_nested_nil inner', ← htags, expand, tags]
    cases h : e.outcome (.text text) true with
    | ok answer t =>
        have hend : readAndEvaluate (evaluate e.extensions) (.text text) e.session.reset =
            .ok answer t := h
        rw [expandFrom_of_ok h, Work.after_of_ok hend]
    | error fault t =>
        have hend : readAndEvaluate (evaluate e.extensions) (.text text) e.session.reset =
            .error fault t := h
        rw [expandFrom_of_error h, Work.after_of_error hend]
        rfl
  rw [hafter]
  exact ⟨hagree, hbinds⟩

theorem outcome_of_malformed {fault : ReadFault}
    (hmalformed : parseText text false = .error fault) :
    e.outcome (.text text) true = .error (.ofRead fault) e.session.reset := by
  rw [outcome, readAndEvaluate_of_malformed _ hmalformed]
  rfl

theorem tags_expand_of_malformed {fault : ReadFault}
    (hmalformed : parseText text false = .error fault) {inner : TagTable} {outer : List TagTable}
    (hscoped : e.session.tags = .nested inner outer) :
    (e.expand text true).2.tags = .empty := by
  rw [expand, expandFrom_of_error (outcome_of_malformed hmalformed), tags]
  change e.session.tags.removeAll.snapshot = .empty
  rw [hscoped]
  exact TagStore.snapshot_nested_nil .empty

end Engine

/-- Under the scoped policy no tag leaks out of a reference. An evaluation keeps the tables around
the innermost one, however it ends, and changes the innermost one only at the tags that its nodes
assign outside of references; if it succeeds it has bound these. So the tags after an expansion
with a reset are those of its text if it succeeds, and some of them if it fails. -/
theorem tags_stay_in_scope [RandomSource γ] (x : Extensions) (hx : x.Detached) :
    (∀ (nodes : List Node) (s : Session γ) (inner : TagTable) (outer : List TagTable),
      s.tags = .nested inner outer →
        ∃ inner', ((evaluate x nodes).after s).tags = .nested inner' outer ∧
          AgreeOff (Node.outerTags nodes) inner inner' ∧
            ∀ answer t, evaluate x nodes s = .ok answer t →
              BindsAll (Node.outerTags nodes) inner') ∧
      ∀ (e : Engine γ) (inner : TagTable) (outer : List TagTable) (text : Text),
        e.extensions = x → e.session.tags = .nested inner outer →
          (∀ answer t, e.outcome (.text text) true = .ok answer t →
            (e.expand text true).1 = answer ∧ ∃ nodes, parseText text false = .ok nodes ∧
              ∀ name, name ∈ (e.expand text true).2.tags.names ↔ name ∈ Node.outerTags nodes) ∧
          ∀ fault t, e.outcome (.text text) true = .error fault t →
            (e.expand text true).1 = faultText fault ∧
              ∀ name ∈ (e.expand text true).2.tags.names, ∃ nodes,
                parseText text false = .ok nodes ∧ name ∈ Node.outerTags nodes := by
  refine ⟨fun nodes s inner outer hs => writes_evaluate hx nodes s inner outer hs, ?_⟩
  intro e inner outer text hextensions hscoped
  subst hextensions
  cases hread : parseText text false with
  | error fault =>
      have htags := Engine.tags_expand_of_malformed hread hscoped
      refine ⟨fun answer t h => ?_, fun fault' t h => ⟨?_, ?_⟩⟩
      · rw [Engine.outcome_of_malformed hread] at h
        cases h
      · rw [Engine.expand, Engine.expandFrom_of_error h]
      · intro name hname
        rw [htags] at hname
        cases hname
  | ok nodes =>
      obtain ⟨hagree, hbinds⟩ := Engine.tags_expand hx hread hscoped
      refine ⟨fun answer t h => ⟨?_, nodes, rfl, fun name => ⟨?_, ?_⟩⟩,
        fun fault t h => ⟨?_, fun name hname => ⟨nodes, rfl, ?_⟩⟩⟩
      · rw [Engine.expand, Engine.expandFrom_of_ok h]
      · exact mem_names_of_agreeOff hagree
      · exact (hbinds answer t h).mem_names
      · rw [Engine.expand, Engine.expandFrom_of_error h]
      · exact mem_names_of_agreeOff hagree hname

/-- A tag that a rule binds inside of the reference to it is not seen afterwards. -/
theorem tags_stay_in_scope_hidden : ∃ e : Engine Twister,
    Engine.create [(.text "hidden", .ofTexts ["[in:x]y"])] ⟨.nested, false, none⟩ ⟨#[], 0⟩ =
        .ok e ∧
      e.extensions.Detached ∧ e.session.tags = .nested .empty [] ∧
      (e.expand "[out:#hidden#]" true).1 = "" ∧
      ∀ name, name ∈ (e.expand "[out:#hidden#]" true).2.tags.names ↔ name = "out" := by
  obtain ⟨e, hcreate, hx, htags, hok⟩ : ∃ e : Engine Twister,
      Engine.create [(.text "hidden", .ofTexts ["[in:x]y"])] ⟨.nested, false, none⟩ ⟨#[], 0⟩ =
          .ok e ∧
        e.extensions = .none ∧ e.session.tags = .nested .empty [] ∧
          (match e.outcome (.text "[out:#hidden#]") true with
            | .ok answer _ => decide (answer = "")
            | .error _ _ => false) = true :=
    ⟨_, rfl, rfl, rfl, by decide +kernel⟩
  have hdetached : e.extensions.Detached := hx ▸ Extensions.obey_none
  refine ⟨e, hcreate, hdetached, htags, ?_⟩
  cases h : e.outcome (.text "[out:#hidden#]") true with
  | error fault t =>
      rw [h] at hok
      cases hok
  | ok answer t =>
      rw [h] at hok
      cases of_decide_eq_true hok
      obtain ⟨hanswer, nodes, hnodes, hnames⟩ :=
        ((tags_stay_in_scope e.extensions hdetached).2 e .empty [] "[out:#hidden#]" rfl
          htags).1 _ _ h
      have hread : parseText "[out:#hidden#]" false =
          .ok [.assign ⟨"out", [.reference "hidden" [] []]⟩] := rfl
      rw [hread] at hnodes
      cases hnodes
      refine ⟨hanswer, fun name => ?_⟩
      rw [hnames]
      exact List.mem_singleton

end TextGrammar
