import TextGrammar.Markup.Descent
import TextGrammar.Proofs.Markup.Steps

/-!
# Reading within the tokens

`descend` never asks for a token at a place that has none. What stands at a place is told by the
steps of `State`: a state stands at a place if the tokens from there on take it to the answer that
reading all of them gives (`State.StandsAt`). Each function of the descent has one statement
(`Descent.Goes`): from a place where the state it goes on from stands, it returns at a place where
the state it goes on to stands, or it stops at the fault that is the answer. So every token that it
takes without a look at it is one that a function called before has left there for it.

The levels are never used up. A function hands one level less to what it calls, but it has taken a
token before, so that there always remain more levels than tokens.
-/

namespace TextGrammar

namespace Reading

/-- The cursor that has asked for each place before its own, in turn. -/
def Cursor.reached (k : Nat) : Cursor := ⟨k, List.range k⟩

namespace Descent

variable {α β : Type} {ts : List Token} {t : Token} {k j : Nat}

/-- What comes of going on from a place that has been reached. -/
def runAt (d : Descent α) (k : Nat) : Outcome α := d.run.run (.reached k)

theorem runAt_bind_of_ok {d : Descent α} {a : α} (h : d.runAt k = some (.ok a, .reached j))
    (f : α → Descent β) : (d >>= f).runAt k = (f a).runAt j := by
  rw [runAt] at h
  rw [runAt, ExceptT.run_bind, StateT.run_bind, h]
  rfl

theorem runAt_bind_of_error {d : Descent α} {stop : Stop}
    (h : d.runAt k = some (.error stop, .reached j)) (f : α → Descent β) :
    (d >>= f).runAt k = some (.error stop, .reached j) := by
  rw [runAt] at h
  rw [runAt, ExceptT.run_bind, StateT.run_bind, h]
  rfl

theorem run_next (cursor : Cursor) :
    (next ts).run.run cursor = match ts[cursor.place]? with
      | none => some (.error (.beyond cursor.place), ⟨cursor.place, cursor.asked ++ [cursor.place]⟩)
      | some t => some (.ok t, ⟨cursor.place + 1, cursor.asked ++ [cursor.place]⟩) := by
  change ExceptT.run (m := StateT Cursor Option) (match ts[cursor.place]? with
    | none => _
    | some t => _) _ = _
  cases ts[cursor.place]? <;> rfl

example : (next []).run.run ⟨0, []⟩ = some (.error (.beyond 0), ⟨0, [0]⟩) := rfl

theorem runAt_next (ht : ts[k]? = some t) : (next ts).runAt k = some (.ok t, .reached (k + 1)) := by
  rw [runAt, run_next, Cursor.reached, ht, Cursor.reached, List.range_succ]

end Descent

def OpenSequence.isNested : OpenSequence → Bool
  | .top _ => false
  | .value .. => true

/-- The nodes of a sequence so far, newest first. -/
def OpenSequence.nodes : OpenSequence → List Node
  | .top nodes => nodes
  | .value _ nodes _ => nodes

open Descent

section Places

variable (ts : List Token) (answer : Except MarkupFault (List Node))

/-- At a place, the tokens from there on take a state to the answer. -/
structure State.StandsAt (st : State) (k : Nat) : Prop where
  le : k ≤ ts.length
  read : st.run (ts.drop k) >>= State.finish = answer

/-- At a place in a reference, the tokens from there on take it to the answer, behind its name or
behind a modifier. A name has been ended, by a hash or a dot. -/
inductive OpenReference.ChainsAt (r : OpenReference) (k : Nat) : Prop
  | name {t : Token} : r.modifiers = [] → ts[k]? = some t →
      t.kind = .mark .hash ∨ t.kind = .mark .dot → (State.inName r).StandsAt ts answer k →
        r.ChainsAt k
  | modifier : r.modifiers ≠ [] → (State.afterArguments r).StandsAt ts answer k → r.ChainsAt k

/-- At a place, a sequence ends with the nodes that have been read: a nested one before the bracket
that closes it, and one that nothing stands around with the tokens. -/
def OpenSequence.ClosesAt (s : OpenSequence) (nodes : List Node) (k : Nat) : Prop :=
  match s with
  | .top _ => k = ts.length ∧ answer = .ok nodes
  | .value name _ home => (home.accept ⟨name, nodes⟩).StandsAt ts answer (k + 1)

def NotAt (kind : TokenKind) (k : Nat) : Prop := ∀ t, ts[k]? = some t → t.kind ≠ kind

/-- From a place, a descent returns what a condition allows, at this place or a later one; or it
stops within the tokens at the fault that is the answer. -/
inductive Descent.Goes {α : Type} (d : Descent α) (k : Nat) (Q : α → Nat → Prop) : Prop
  | returns {a : α} {j : Nat} : d.runAt k = some (.ok a, .reached j) → k ≤ j → Q a j → Goes d k Q
  | stops {fault : MarkupFault} {j : Nat} :
      d.runAt k = some (.error (.malformed fault), .reached j) → j ≤ ts.length →
        answer = .error fault → Goes d k Q

/-- With levels enough for the tokens that are left, sequences are read to their ends. -/
def Descent.ReadsSequences (levels : Nat) : Prop :=
  ∀ ⦃s k⦄, ts.length < k + levels → (State.inSequence s).StandsAt ts answer k →
    Descent.Goes ts answer (Descent.sequence ts levels s.isNested s.nodes) k
      (s.ClosesAt ts answer)

/-- With levels enough for the tokens that are left, actions are read up to a token that begins
none. -/
def Descent.ReadsActions (levels : Nat) : Prop :=
  ∀ ⦃done s k⦄, ts.length < k + levels → (State.atReference done s).StandsAt ts answer k →
    Descent.Goes ts answer (Descent.actions ts levels done) k fun before j =>
      (State.atReference before s).StandsAt ts answer j ∧ NotAt ts (.mark .openBracket) j

variable {ts answer} {α β : Type} {t : Token} {st after other : State} {k : Nat}

namespace State.StandsAt

theorem step (h : st.StandsAt ts answer k) (ht : ts[k]? = some t) (hstep : st.step t = .ok after) :
    after.StandsAt ts answer (k + 1) := by
  obtain ⟨hlt, rfl⟩ := List.getElem?_eq_some_iff.1 ht
  have hread := h.read
  rw [List.drop_eq_getElem_cons hlt, State.run_cons, hstep] at hread
  exact ⟨hlt, hread⟩

theorem fault {fault : MarkupFault} (h : st.StandsAt ts answer k) (ht : ts[k]? = some t)
    (hstep : st.step t = .error fault) : answer = .error fault := by
  obtain ⟨hlt, rfl⟩ := List.getElem?_eq_some_iff.1 ht
  have hread := h.read
  rw [List.drop_eq_getElem_cons hlt, State.run_cons, hstep] at hread
  exact hread.symm

theorem finish (h : st.StandsAt ts answer k) (ht : ts[k]? = none) : answer = st.finish := by
  have hread := h.read
  rw [List.drop_eq_nil_of_le (List.getElem?_eq_none_iff.1 ht), State.run_nil] at hread
  exact hread.symm

theorem of_alike (h : st.StandsAt ts answer k)
    (hstep : ∀ t, ts[k]? = some t → st.step t = other.step t) (hfinish : st.finish = other.finish) :
    other.StandsAt ts answer k := by
  refine ⟨h.le, ?_⟩
  rw [← h.read]
  cases ht : ts[k]? with
  | none =>
      rw [List.drop_eq_nil_of_le (List.getElem?_eq_none_iff.1 ht)]
      exact hfinish.symm
  | some t =>
      have halike := hstep t ht
      obtain ⟨hlt, rfl⟩ := List.getElem?_eq_some_iff.1 ht
      rw [List.drop_eq_getElem_cons hlt, State.run_cons, State.run_cons, halike]

end State.StandsAt

namespace OpenSequence

@[simp] theorem isNested_addNode (s : OpenSequence) (n : Node) :
    (s.addNode n).isNested = s.isNested := by
  cases s <;> rfl

@[simp] theorem isNested_addText (s : OpenSequence) (text : Text) :
    (s.addText text).isNested = s.isNested := by
  cases s <;> rfl

@[simp] theorem nodes_addNode (s : OpenSequence) (n : Node) :
    (s.addNode n).nodes = n :: s.nodes := by
  cases s <;> rfl

@[simp] theorem nodes_addText (s : OpenSequence) (text : Text) :
    (s.addText text).nodes = Reading.addText text s.nodes := by
  cases s <;> rfl

@[simp] theorem closesAt_addNode (s : OpenSequence) (n : Node) :
    (s.addNode n).ClosesAt ts answer = s.ClosesAt ts answer := by
  cases s <;> rfl

@[simp] theorem closesAt_addText (s : OpenSequence) (text : Text) :
    (s.addText text).ClosesAt ts answer = s.ClosesAt ts answer := by
  cases s <;> rfl

end OpenSequence

namespace OpenReference.ChainsAt

variable {r : OpenReference}

theorem le (h : r.ChainsAt ts answer k) : k ≤ ts.length := by
  cases h with
  | name _ _ _ h => exact h.le
  | modifier _ h => exact h.le

theorem dot (h : r.ChainsAt ts answer k) (ht : ts[k]? = some t) (hdot : t.kind = .mark .dot) :
    (State.atModifier r).StandsAt ts answer (k + 1) := by
  cases h with
  | name _ _ _ h => exact h.step ht (by simp [State.step, OpenReference.stepName, hdot])
  | modifier _ h => exact h.step ht (by simp [State.step, OpenReference.stepChain, hdot])

end OpenReference.ChainsAt

namespace Descent

variable {Q : α → Nat → Prop} {R : β → Nat → Prop}

theorem goes_pure {a : α} (h : Q a k) : Goes ts answer (pure a) k Q :=
  .returns rfl (Nat.le_refl k) h

theorem goes_refuse {fault : MarkupFault} (hk : k ≤ ts.length) (h : answer = .error fault) :
    Goes ts answer (refuse fault : Descent α) k Q :=
  .stops rfl hk h

theorem Goes.bind {d : Descent α} {f : α → Descent β} (h : Goes ts answer d k Q)
    (hf : ∀ a j, k ≤ j → Q a j → Goes ts answer (f a) j R) : Goes ts answer (d >>= f) k R := by
  cases h with
  | returns hrun hkj hQ =>
      cases hf _ _ hkj hQ with
      | returns hnext hle hR =>
          exact .returns ((runAt_bind_of_ok hrun f).trans hnext) (Nat.le_trans hkj hle) hR
      | stops hnext hle hfault => exact .stops ((runAt_bind_of_ok hrun f).trans hnext) hle hfault
  | stops hrun hle hfault => exact .stops (runAt_bind_of_error hrun f) hle hfault

theorem goes_peek {f : Option Token → Descent β} (h : Goes ts answer (f ts[k]?) k R) :
    Goes ts answer (peek ts >>= f) k R := by
  cases h with
  | returns hrun hle hR => exact .returns hrun hle hR
  | stops hrun hle hfault => exact .stops hrun hle hfault

theorem goes_isAt {kind : TokenKind} {f : Bool → Descent β}
    (hyes : ∀ t, ts[k]? = some t → t.kind = kind → Goes ts answer (f true) k R)
    (hno : NotAt ts kind k → Goes ts answer (f false) k R) :
    Goes ts answer (isAt ts kind >>= f) k R := by
  have hf : Goes ts answer (f (ts[k]?.any fun t => t.kind = kind)) k R := by
    cases hat : ts[k]?.any fun t => t.kind = kind with
    | true =>
        obtain ⟨t, ht, hkind⟩ := (Option.any_eq_true _ _).1 hat
        exact hyes t ht (of_decide_eq_true hkind)
    | false =>
        refine hno fun t ht => ?_
        rw [ht] at hat
        exact of_decide_eq_false hat
  rw [isAt, bind_assoc]
  refine goes_peek ?_
  rwa [pure_bind]

theorem goes_next {f : Token → Descent β} (ht : ts[k]? = some t)
    (h : Goes ts answer (f t) (k + 1) R) : Goes ts answer (next ts >>= f) k R := by
  have hnext : Goes ts answer (next ts) k fun u j => u = t ∧ j = k + 1 :=
    .returns (runAt_next ht) (Nat.le_succ k) ⟨rfl, rfl⟩
  refine hnext.bind fun u j _ hu => ?_
  obtain ⟨rfl, rfl⟩ := hu
  exact h

/-! ## Inside a reference -/

theorem goes_arguments {modifier : Text} {r : OpenReference} {levels : Nat}
    {done current : List Text} (hlevels : ts.length < k + levels)
    (h : (State.inArguments modifier done current r).StandsAt ts answer k) :
    Goes ts answer (arguments ts modifier levels done current) k fun call j =>
      (State.afterArguments (r.addModifier call)).StandsAt ts answer j := by
  induction levels generalizing k done current with
  | zero => exact absurd h.le (Nat.not_le.2 hlevels)
  | succ levels ih =>
      rw [arguments]
      refine goes_peek ?_
      cases ht : ts[k]? with
      | none => exact goes_refuse h.le (h.finish ht)
      | some t =>
          refine goes_next ht ?_
          have hlevels' : ts.length < k + 1 + levels := by omega
          split
          · next hkind => exact goes_pure (h.step ht (by simp [State.step, hkind]))
          · next hkind => exact ih hlevels' (h.step ht (by simp [State.step, hkind]))
          · next hclose hcomma => exact ih hlevels' (h.step ht (by simp [State.step]))

theorem goes_call {modifier : Text} {r : OpenReference} {levels : Nat}
    (hlevels : ts.length < k + levels)
    (h : (State.afterModifierName modifier r).StandsAt ts answer k) :
    Goes ts answer (call ts levels modifier) k fun call j =>
      (State.afterArguments (r.addModifier call)).StandsAt ts answer j := by
  refine goes_isAt (fun t ht hopen => ?_) fun hno => ?_
  · rw [if_pos rfl]
    exact goes_next ht (goes_arguments (by omega) (h.step ht (by simp [State.step, hopen])))
  · rw [if_neg Bool.false_ne_true]
    -- no token is taken, but the modifier is complete
    exact goes_pure (h.of_alike
      (fun t ht => State.step_afterModifierName_of_ne modifier r (hno t ht)) rfl)

theorem goes_modifier {r : OpenReference} {levels : Nat} (hlevels : ts.length < k + levels)
    (h : (State.atModifier r).StandsAt ts answer k) :
    Goes ts answer (modifier ts levels) k fun call j =>
      (State.afterArguments (r.addModifier call)).StandsAt ts answer j := by
  refine goes_peek ?_
  cases ht : ts[k]? with
  | none => exact goes_refuse h.le (h.finish ht)
  | some t =>
      dsimp only
      split
      · next hname =>
          refine goes_next ht (goes_call (by omega) (h.step ht ?_))
          simp [State.step, hname]
      · next hname =>
          refine goes_refuse h.le (h.fault ht ?_)
          simp only [State.step]
          grind

theorem goes_chain {r : OpenReference} {levels : Nat} (hlevels : ts.length < k + levels)
    (h : r.ChainsAt ts answer k) :
    Goes ts answer (chain ts levels r.modifiers) k fun modifiers j =>
      OpenReference.ChainsAt ts answer { r with modifiers } j ∧ NotAt ts (.mark .dot) j := by
  induction levels generalizing k r with
  | zero => exact absurd h.le (Nat.not_le.2 hlevels)
  | succ levels ih =>
      rw [chain]
      refine goes_isAt (fun t ht hdot => ?_) fun hno => ?_
      · rw [if_pos rfl]
        have hat := h.dot ht hdot
        refine goes_next ht ((goes_modifier (by omega) hat).bind fun call j hj hcall => ?_)
        exact ih (r := r.addModifier call) (by omega)
          (.modifier (by simp [OpenReference.addModifier]) hcall)
      · rw [if_neg Bool.false_ne_true]
        exact goes_pure ⟨h, hno⟩

theorem goes_referenceName {r : OpenReference} {levels : Nat} (hlevels : ts.length < k + levels)
    (h : (State.inName r).StandsAt ts answer k) (hmodifiers : r.modifiers = []) :
    Goes ts answer (referenceName ts levels r.name) k fun name j =>
      OpenReference.ChainsAt ts answer { r with name } j := by
  induction levels generalizing k r with
  | zero => exact absurd h.le (Nat.not_le.2 hlevels)
  | succ levels ih =>
      rw [referenceName]
      refine goes_peek ?_
      cases ht : ts[k]? with
      | none => exact goes_refuse h.le (h.finish ht)
      | some t =>
          dsimp only
          split
          · next hhash => exact goes_pure (.name hmodifiers ht (.inl hhash) h)
          · next hdot => exact goes_pure (.name hmodifiers ht (.inr hdot) h)
          · next htext =>
              have hname : (State.inName { r with name := r.name ++ t.text }).StandsAt ts answer
                  (k + 1) := h.step ht (by simp [State.step, OpenReference.stepName, htext])
              exact goes_next ht (ih (by omega) hname hmodifiers)
          · next hhash hdot htext =>
              refine goes_refuse h.le (h.fault ht ?_)
              simp [State.step, OpenReference.stepName]

/-- A hash, or any token behind a modifier, closes the reference. -/
theorem goes_endReference {r : OpenReference} (h : r.ChainsAt ts answer k)
    (hdot : NotAt ts (.mark .dot) k) :
    Goes ts answer (endReference ts r.actions r.name r.modifiers) k fun n j =>
      (State.inSequence (r.sequence.addNode n)).StandsAt ts answer j := by
  refine goes_peek ?_
  cases h with
  | @name t hmodifiers ht hkind h =>
      -- behind a name only a hash is left, and only here can the reference be empty
      have hhash : t.kind = .mark .hash := hkind.resolve_right (hdot t ht)
      rw [if_neg (by simp [ht])]
      refine goes_next ht ?_
      have hstep : (State.inName r).step t =
          if r.name = "" ∧ r.actions.isEmpty then .error .emptyReference else .ok r.close := by
        simp [State.step, OpenReference.stepName, hhash]
      split
      · next hempty =>
          refine goes_refuse ?_ (h.fault ht ?_)
          · exact (List.getElem?_eq_some_iff.1 ht).1
          · rw [hstep, if_pos (by simp [hempty])]
      · next hempty =>
          refine goes_pure (h.step ht ?_)
          rw [hstep, if_neg (by simpa [hmodifiers] using hempty)]
          rfl
  | modifier hmodifiers h =>
      split
      · next hnone => exact goes_refuse h.le (h.finish (Option.isNone_iff_eq_none.1 hnone))
      · next hsome =>
          obtain ⟨t, ht⟩ := Option.ne_none_iff_exists'.1 (mt Option.isNone_iff_eq_none.2 hsome)
          refine goes_next ht ?_
          rw [if_neg fun hempty => hmodifiers hempty.2.1]
          refine goes_pure (h.step ht ?_)
          rw [State.step, r.stepChain_of_ne (hdot t ht)]
          rfl

theorem goes_reference {s : OpenSequence} {before : Descent (List Assignment)} {levels : Nat}
    (hlevels : ts.length < k + levels)
    (hbefore : Goes ts answer before k fun actions j =>
      (State.atReference actions s).StandsAt ts answer j ∧ NotAt ts (.mark .openBracket) j) :
    Goes ts answer (reference ts levels before) k fun n j =>
      (State.inSequence (s.addNode n)).StandsAt ts answer j := by
  refine hbefore.bind fun actions j hj hactions => ?_
  have hname : (State.inName ⟨actions, "", [], s⟩).StandsAt ts answer j :=
    hactions.1.of_alike
      (fun t ht => State.step_atReference_of_ne actions s (hactions.2 t ht)) rfl
  refine (goes_referenceName (by omega) hname rfl).bind fun name i hi hchain => ?_
  refine (goes_chain (by omega) hchain).bind fun modifiers _ _ hend => ?_
  exact goes_endReference hend.1 hend.2

/-! ## Inside an assignment -/

theorem goes_tagName {name : Text} {home : Home} {levels : Nat}
    (hlevels : ts.length < k + levels) (h : (State.inTagName name home).StandsAt ts answer k) :
    Goes ts answer (tagName ts levels name) k fun name j =>
      (State.inTagName name home).StandsAt ts answer j ∧
        ∃ t, ts[j]? = some t ∧ t.kind = .mark .colon := by
  induction levels generalizing k name with
  | zero => exact absurd h.le (Nat.not_le.2 hlevels)
  | succ levels ih =>
      rw [tagName]
      refine goes_isAt (fun t ht hcolon => ?_) fun hno => ?_
      · rw [if_pos rfl]
        exact goes_pure ⟨h, t, ht, hcolon⟩
      · rw [if_neg Bool.false_ne_true]
        refine goes_peek ?_
        cases ht : ts[k]? with
        | none => exact goes_refuse h.le (h.finish ht)
        | some t =>
            -- what is no colon the step takes by its later cases
            have hcolon := hno t ht
            dsimp only
            split
            · next hclose => exact goes_refuse h.le (h.fault ht (by simp [State.step, hclose]))
            · next htext =>
                exact goes_next ht (ih (by omega) (h.step ht (by simp [State.step, htext])))
            · next hclose htext =>
                exact goes_refuse h.le (h.fault ht (by simp [State.step]))

/-- The bracket behind the value is taken by the assignment. -/
theorem goes_assignment {home : Home} {value : Descent (List Node)} {levels : Nat}
    (hlevels : ts.length < k + levels) (h : (State.inTagName "" home).StandsAt ts answer k)
    (hvalue : ∀ name j, k < j → (State.inSequence (.value name [] home)).StandsAt ts answer j →
      Goes ts answer value j (OpenSequence.ClosesAt ts answer (.value name [] home))) :
    Goes ts answer (assignment ts levels value) k fun a j =>
      (home.accept a).StandsAt ts answer j := by
  refine (goes_tagName hlevels h).bind fun name j hj hname => ?_
  obtain ⟨hname, t, ht, hcolon⟩ := hname
  refine goes_next ht ?_
  split
  · next hempty =>
      refine goes_refuse (List.getElem?_eq_some_iff.1 ht).1 (hname.fault ht ?_)
      simp [State.step, hcolon, hempty]
  · next hne =>
      have hopen : (State.inSequence (.value (strip name) [] home)).StandsAt ts answer (j + 1) :=
        hname.step ht (by simp [State.step, hcolon, hne])
      refine (hvalue _ _ (by omega) hopen).bind fun nodes i _ hclose => ?_
      -- a nested sequence only ends where a bracket closes it
      obtain ⟨u, hu⟩ : ∃ u, ts[i]? = some u := ⟨_, List.getElem?_eq_getElem hclose.le⟩
      exact goes_next hu (goes_pure hclose)

/-! ## Sequences -/

theorem ReadsSequences.goes_assignment {home : Home} {levels : Nat}
    (hsequences : ReadsSequences ts answer levels) (hlevels : ts.length < k + levels)
    (h : (State.inTagName "" home).StandsAt ts answer k) :
    Goes ts answer (assignment ts levels (Descent.sequence ts levels true [])) k fun a j =>
      (home.accept a).StandsAt ts answer j :=
  Descent.goes_assignment hlevels h fun _ _ _ hvalue => hsequences (by omega) hvalue

theorem ReadsSequences.goes_addNode {s : OpenSequence} {n : Node} {levels : Nat}
    (hsequences : ReadsSequences ts answer levels) (hlevels : ts.length < k + levels)
    (h : (State.inSequence (s.addNode n)).StandsAt ts answer k) :
    Goes ts answer (Descent.sequence ts levels s.isNested (n :: s.nodes)) k
      (s.ClosesAt ts answer) := by
  simpa using hsequences hlevels h

theorem ReadsSequences.succ {levels : Nat} (hsequences : ReadsSequences ts answer levels)
    (hactions : ReadsActions ts answer levels) : ReadsSequences ts answer (levels + 1) := by
  intro s k hlevels h
  rw [Descent.sequence]
  refine goes_peek ?_
  cases ht : ts[k]? with
  | none =>
      have hend : k = ts.length := Nat.le_antisymm h.le (List.getElem?_eq_none_iff.1 ht)
      have hfinish := h.finish ht
      cases s with
      | top nodes => exact goes_pure ⟨hend, hfinish⟩
      | value name nodes home => exact goes_refuse h.le hfinish
  | some t =>
      dsimp only
      split
      · next hclose =>
          cases s with
          | top nodes => exact goes_refuse h.le (h.fault ht (by simp [State.step, hclose]))
          | value name nodes home =>
              exact goes_pure (h.step ht (by simp [State.step, hclose, OpenSequence.nodes]))
      · next hhash =>
          have hat : (State.atReference [] s).StandsAt ts answer (k + 1) :=
            h.step ht (by simp [State.step, hhash])
          have hbefore := hactions (by omega) hat
          refine goes_next ht ((goes_reference (by omega) hbefore).bind fun n j hj hn => ?_)
          exact hsequences.goes_addNode (by omega) hn
      · next hopen =>
          have hin : (State.inTagName "" (.node s)).StandsAt ts answer (k + 1) :=
            h.step ht (by simp [State.step, hopen])
          refine goes_next ht ((hsequences.goes_assignment (by omega) hin).bind fun a j hj ha => ?_)
          exact hsequences.goes_addNode (by omega) ha
      · next hclose hhash hopen =>
          have hadd : (State.inSequence (s.addText t.text)).StandsAt ts answer (k + 1) :=
            h.step ht (by simp [State.step])
          have hrest := hsequences (by omega) hadd
          exact goes_next ht (by simpa using hrest)

theorem ReadsActions.succ {levels : Nat} (hactions : ReadsActions ts answer levels)
    (hsequences : ReadsSequences ts answer levels) : ReadsActions ts answer (levels + 1) := by
  intro done s k hlevels h
  rw [actions]
  refine goes_isAt (fun t ht hopen => ?_) fun hno => ?_
  · rw [if_pos rfl]
    have hin : (State.inTagName "" (.action done s)).StandsAt ts answer (k + 1) :=
      h.step ht (by simp [State.step, hopen])
    refine goes_next ht ((hsequences.goes_assignment (by omega) hin).bind fun a j hj ha => ?_)
    exact hactions (by omega) ha
  · rw [if_neg Bool.false_ne_true]
    exact goes_pure ⟨h, hno⟩

theorem reads (levels : Nat) :
    ReadsSequences ts answer levels ∧ ReadsActions ts answer levels := by
  -- sequences and actions call each other, both with a level less
  induction levels with
  | zero =>
      exact ⟨fun _ _ hlevels h => absurd h.le (Nat.not_le.2 hlevels),
        fun _ _ _ hlevels h => absurd h.le (Nat.not_le.2 hlevels)⟩
  | succ levels ih => exact ⟨ih.1.succ ih.2, ih.2.succ ih.1⟩

end Descent

end Places

end Reading

open Reading

/-- With more levels than tokens, reading by descent asks for the places of the tokens in turn, each
once and none beyond them. It gives the nodes that `parse` gives, and then it has asked for all of
them; or it stops where the tokens are malformed, at the fault that `parse` gives. -/
theorem descend_within_tokens (ts : List Token) (levels : Nat) (h : ts.length < levels) :
    (∃ nodes, descend levels ts = some (.ok nodes, ⟨ts.length, List.range ts.length⟩) ∧
      parse ts false = .ok nodes) ∨
    ∃ fault place, place ≤ ts.length ∧
      descend levels ts = some (.error (.malformed fault), ⟨place, List.range place⟩) ∧
      parse ts false = .error (.malformed fault) := by
  have hinitial : State.initial.StandsAt ts (readNodes ts) 0 := ⟨Nat.zero_le _, rfl⟩
  cases (Descent.reads levels).1 (s := .top []) (k := 0) (by omega) hinitial with
  | @returns nodes place hrun _ hclose =>
      obtain ⟨rfl, hread⟩ := hclose
      exact .inl ⟨nodes, hrun, by simp [parse, hread]⟩
  | @stops fault place hrun hle hfault =>
      exact .inr ⟨fault, place, hle, hrun, by simp [parse, hfault]⟩

/-- A token of no kind that cutting gives closes the reference behind its modifier. -/
theorem descend_within_tokens_handmade :
    ∃ nodes, descend 6 [.ofMark .hash, ⟨.text, ""⟩, .ofMark .dot, .ofText "s", ⟨.other "odd", ""⟩] =
        some (.ok nodes, ⟨5, [0, 1, 2, 3, 4]⟩) ∧
      parse [.ofMark .hash, ⟨.text, ""⟩, .ofMark .dot, .ofText "s", ⟨.other "odd", ""⟩] false =
        .ok nodes := by
  rcases descend_within_tokens
      [.ofMark .hash, ⟨.text, ""⟩, .ofMark .dot, .ofText "s", ⟨.other "odd", ""⟩] 6 (by decide) with
    h | ⟨fault, place, -, h, -⟩
  · exact h
  · cases h

end TextGrammar
