import TextGrammar.Proofs.Engine.Balance
import TextGrammar.Proofs.Markup.Joining

/-!
# Evaluating in pieces

The text of a sequence is the text of its first nodes followed by the text of the others, evaluated
from the session that the first have left. The parts of both are joined at the end of each piece
instead of once at the end of all; that makes no difference as long as no part is missing, and none
is where modifiers turn texts into texts (`Extensions.Textual`).

Together with `parse_append` this says that a text may be handed over piece by piece.
-/

namespace TextGrammar

variable {γ α : Type}

/-! ## Joining parts -/

theorem joinFrom_of_present {parts : List (Option Text)} (h : ∀ part ∈ parts, part.isSome = true)
    (place : Nat) : joinFrom place parts = .ok (Text.join (parts.filterMap id)) := by
  induction parts generalizing place with
  | nil => rfl
  | cons part rest ih =>
      cases part with
      | none => cases h none (List.mem_cons_self ..)
      | some text =>
          have hrest := ih (fun p hp => h p (List.mem_cons_of_mem _ hp)) (place + 1)
          simp [joinFrom, hrest]

theorem join_of_present {parts : List (Option Text)} (h : ∀ part ∈ parts, part.isSome = true) :
    join parts = .ok (Text.join (parts.filterMap id)) :=
  joinFrom_of_present h 0

open Work

variable [RandomSource γ]

section Level

variable {x : Extensions} {inner : List Node → Work γ Text}

theorem sequenceParts_append (ns ms : List Node) :
    sequenceParts x inner (ns ++ ms) = (do
      let parts ← sequenceParts x inner ns
      let more ← sequenceParts x inner ms
      pure (parts ++ more)) := by
  induction ns with
  | nil => simp [sequenceParts]
  | cons n rest ih => simp only [List.cons_append, sequenceParts, ih, bind_assoc, pure_bind,
      List.append_assoc]

/-! ## No part is missing -/

theorem Script.Answers.runScript {P : α → Prop} {script : Script α} (h : script.Answers P)
    {s t : Session γ} {a : α} (hrun : TextGrammar.runScript inner script s = .ok a t) : P a := by
  induction h generalizing s with
  | done ha =>
      cases hrun
      exact ha
  | fail => cases hrun
  | ask _ _ ih =>
      obtain ⟨answer, u, -, hnext⟩ := exists_of_bind_eq_ok hrun
      exact ih answer hnext

variable (hx : x.Textual)

include hx

theorem isSome_of_applyModifiers {text : Text} {calls : List ModifierCall} {s t : Session γ}
    {answer : Option Text}
    (h : applyModifiers x inner (some text) calls s = .ok answer t) : answer.isSome = true := by
  induction calls generalizing text s with
  | nil =>
      cases h
      rfl
  | cons call rest ih =>
      cases hm : x.modifiers.get? call.name with
      | none =>
          simp only [applyModifiers, hm] at h
          cases h
      | some m =>
          simp only [applyModifiers, hm] at h
          obtain ⟨changed, u, hrun, hrest⟩ := exists_of_bind_eq_ok h
          obtain ⟨text', rfl⟩ := Option.isSome_iff_exists.1
            ((hx call.name m hm text call.args).runScript hrun)
          exact ih hrest

theorem isSome_of_nodeParts {n : Node} {s t : Session γ} {parts : List (Option Text)}
    (h : nodeParts x inner n s = .ok parts t) : ∀ part ∈ parts, part.isSome = true := by
  cases n with
  | text text =>
      cases h
      simp
  | reference name modifiers actions =>
      unfold nodeParts at h
      obtain ⟨text, u, -, hrest⟩ := exists_of_bind_eq_ok h
      obtain ⟨answer, v, happly, hparts⟩ := exists_of_bind_eq_ok hrest
      cases hparts
      simpa using isSome_of_applyModifiers hx happly
  | assign a =>
      unfold nodeParts at h
      obtain ⟨_, u, -, hparts⟩ := exists_of_bind_eq_ok h
      cases hparts
      simp
  | weight n =>
      cases h
      simp
  | stray shown => cases h

theorem isSome_of_sequenceParts {ns : List Node} {s t : Session γ}
    {parts : List (Option Text)} (h : sequenceParts x inner ns s = .ok parts t) :
    ∀ part ∈ parts, part.isSome = true := by
  induction ns generalizing s parts with
  | nil =>
      cases h
      simp
  | cons n rest ih =>
      unfold sequenceParts at h
      obtain ⟨first, u, hfirst, htail⟩ := exists_of_bind_eq_ok h
      obtain ⟨more, v, hmore, hparts⟩ := exists_of_bind_eq_ok htail
      cases hparts
      intro part hpart
      rcases List.mem_append.1 hpart with hpart | hpart
      · exact isSome_of_nodeParts hx hfirst part hpart
      · exact ih hmore part hpart

/-! ## One piece behind the other -/

theorem evaluateWith_append (ns ms : List Node) :
    evaluateWith x inner (ns ++ ms) = (do
      let text ← evaluateWith x inner ns
      let more ← evaluateWith x inner ms
      pure (text ++ more)) := by
  funext s
  simp only [evaluateWith, sequenceParts_append, bind_assoc]
  cases hparts : sequenceParts x inner ns s with
  | error fault t => rw [bind_of_error hparts, bind_of_error hparts]
  | ok parts t =>
      have hpresent := isSome_of_sequenceParts hx hparts
      rw [bind_of_ok hparts, bind_of_ok hparts, join_of_present hpresent, ofExcept_ok, pure_bind]
      cases hmore : sequenceParts x inner ms t with
      | error fault u => rw [bind_of_error hmore, bind_of_error hmore]
      | ok more u =>
          have hpresent' := isSome_of_sequenceParts hx hmore
          have hall : ∀ part ∈ parts ++ more, part.isSome = true := fun part hpart =>
            (List.mem_append.1 hpart).elim (hpresent part) (hpresent' part)
          rw [bind_of_ok hmore, bind_of_ok hmore, pure_bind, join_of_present hall,
            join_of_present hpresent', ofExcept_ok, ofExcept_ok, pure_bind, List.filterMap_append,
            Text.join_append]

theorem evaluateWith_text_cons (text : Text) (ns : List Node) :
    evaluateWith x inner (.text text :: ns) = (do
      let more ← evaluateWith x inner ns
      pure (text ++ more)) := by
  have htext : evaluateWith x inner [.text text] = pure text := by
    simp [evaluateWith, sequenceParts, nodeParts, join, joinFrom]
  rw [← List.singleton_append, evaluateWith_append hx, htext, pure_bind]

/-- It makes no difference whether texts that touch are one node or two. -/
theorem evaluateWith_merge (ns ms : List Node) :
    evaluateWith x inner (Node.merge ns ms) = (do
      let text ← evaluateWith x inner ns
      let more ← evaluateWith x inner ms
      pure (text ++ more)) := by
  rw [← evaluateWith_append hx]
  rcases Node.merge_cases ns ms with h | ⟨before, a, b, rest, rfl, rfl, h⟩
  · rw [h]
  · rw [h, List.append_assoc, List.singleton_append, evaluateWith_append hx,
      evaluateWith_append hx]
    simp only [evaluateWith_text_cons hx, bind_assoc, pure_bind, Text.append_assoc]

end Level

variable {x : Extensions}

theorem evaluateAt_merge (hx : x.Textual) (levels : Nat) (ns ms : List Node) :
    evaluateAt (γ := γ) x levels (Node.merge ns ms) = (do
      let text ← evaluateAt x levels ns
      let more ← evaluateAt x levels ms
      pure (text ++ more)) := by
  cases levels with
  | zero => rfl
  | succ levels => exact evaluateWith_merge hx ns ms

theorem evaluate_merge (hx : x.Textual) (ns ms : List Node) :
    evaluate (γ := γ) x (Node.merge ns ms) = (do
      let text ← evaluate x ns
      let more ← evaluate x ms
      pure (text ++ more)) := by
  funext s
  have hkeeps : Keeps (NoDeeper (γ := γ)) (evaluateAt x (nestingLevels s.context.maxDepth) ns) :=
    enduring_noDeeper.keeps_evaluateAt x.ask_allowed_true _ ns
  rw [evaluate, evaluateAt_merge hx]
  cases hns : evaluateAt x (nestingLevels s.context.maxDepth) ns s with
  | error fault t => rw [bind_of_error hns, bind_of_error (m := evaluate x ns) hns]
  | ok text t =>
      rw [bind_of_ok hns, bind_of_ok (m := evaluate x ns) hns, ← (hkeeps.of_ok hns).maxDepth]
      cases hms : evaluateAt x (nestingLevels t.context.maxDepth) ms t with
      | error fault u => rw [bind_of_error hms, bind_of_error (m := evaluate x ms) hms]
      | ok more u => rw [bind_of_ok hms, bind_of_ok (m := evaluate x ms) hms]

/-- Reading and evaluating go piece by piece. Behind tokens that are read as nodes any others are
read as they are alone, with the same fault or with nodes that join the first; and where modifiers
turn texts into texts, whatever else they ask for, the nodes so joined are evaluated like the first
and then the others: with the same text, the same fault and the same session, on every level. -/
theorem pieces_compose {ts : List Token} {ns : List Node} (h : parse ts false = .ok ns) :
    (∀ us, parse (ts ++ us) false = (parse us false).map (Node.merge ns)) ∧
      ∀ x : Extensions, x.Textual → ∀ ms,
        (evaluate (γ := γ) x (Node.merge ns ms) = (do
          let text ← evaluate x ns
          let more ← evaluate x ms
          pure (text ++ more))) ∧
        ∀ levels, evaluateAt (γ := γ) x levels (Node.merge ns ms) = (do
          let text ← evaluateAt x levels ns
          let more ← evaluateAt x levels ms
          pure (text ++ more)) :=
  ⟨parse_append h, fun _ hx ms => ⟨evaluate_merge hx ns ms, fun levels =>
    evaluateAt_merge hx levels ns ms⟩⟩

/-- A modifier drops all that is bound and recorded while the first piece is evaluated. -/
theorem pieces_compose_resetting :
    let again : Modifier := fun text _ =>
      .ask (.expand (.text "#r#") true) fun (answer : Text) => .done (text.map (· ++ answer))
    let x : Extensions := ⟨.ofList [("again", again)], []⟩
    let ns : List Node := [.reference "r" [⟨"again", []⟩] [], .text "a"]
    x.Textual ∧ parse (tokenize "#r.again#a") false = .ok ns ∧
      parse (tokenize "#r.again#a" ++ tokenize "b#r#") false =
        .ok [.reference "r" [⟨"again", []⟩] [], .text "ab", .reference "r" [] []] ∧
      ∀ ms, evaluate (γ := Twister) x (Node.merge ns ms) = (do
        let text ← evaluate x ns
        let more ← evaluate x ms
        pure (text ++ more)) := by
  intro again x ns
  have hx : x.Textual := by
    intro name m hm text args
    have hagain : m = again := by
      have hget : (if name = "again" then some again else none) = some m :=
        (Lexicon.get?_put .empty "again" name again).symm.trans hm
      split at hget
      · exact (Option.some.inj hget).symm
      · cases hget
    subst hagain
    exact .ask trivial fun answer => .done rfl
  have hread : parse (tokenize "#r.again#a") false = .ok ns := rfl
  have hcompose := pieces_compose (γ := Twister) hread
  exact ⟨hx, hread, hcompose.1 (tokenize "b#r#"), fun ms => (hcompose.2 x hx ms).1⟩

end TextGrammar
