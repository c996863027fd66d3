import TextGrammar.Proofs.Engine.Balance
import TextGrammar.Proofs.Evaluation.Lockstep

/-!
# A greater maximal depth

The maximal depth of the context does nothing but cut evaluations off. An evaluation that is not cut
off by it never sees the limit, and so takes the same steps under a greater one. This is a lockstep
of two evaluations (`parallel_widened`): the frames are the same in both, so what one of them may
enter, the other may enter too, unless the lesser limit is reached, and that is an overflow.

The evaluation under the greater limit also has more levels. The other one still does not run out of
its own first, since its frames are never fewer than the levels it has used up.
-/

namespace TextGrammar

open Work

variable {γ : Type}

/-- Two sessions differ only in the maximal depth, of which the second has no less, and the first
has more levels left beneath than frames. -/
inductive Widened (levels : Nat) : Session γ → Session γ → Prop
  | intro (s : Session γ) (wide : Context) : wide.frames = s.context.frames →
      s.context.maxDepth ≤ wide.maxDepth → s.context.maxDepth < s.context.depth + levels →
        Widened levels s { s with context := wide }

/-- Whatever else both do alike keeps two sessions apart in the maximal depth only. -/
theorem Widened.imp {levels : Nat} {s t : Session γ} (h : Widened levels s t)
    (f : Session γ → Session γ) (hcontext : (f s).context = s.context)
    (hf : ∀ wide, f { s with context := wide } = { f s with context := wide }) :
    Widened levels (f s) (f t) := by
  obtain ⟨wide, hframes, hmax, hroom⟩ := h
  rw [hf wide]
  refine .intro (f s) wide ?_ ?_ ?_
  all_goals rwa [hcontext]

theorem Widened.not_zero {s t : Session γ} (h : Widened 0 s t) : False := by
  obtain ⟨wide, -, -, hroom⟩ := h
  exact absurd s.context.depth_le (Nat.not_le_of_gt hroom)

theorem nestingLevels_mono {m n : Nat} (h : m ≤ n) : nestingLevels m ≤ nestingLevels n := by
  unfold nestingLevels neededNesting
  omega

variable [RandomSource γ]

theorem parallel_widened : Parallel (γ := γ) (fun _ => True) Widened
    (fun fault => fault.kind = .stackOverflow) where
  depth h := by
    obtain ⟨wide, hframes, -, -⟩ := h
    exact congrArg List.length hframes
  enter {k frame} s t c h henter := by
    obtain ⟨wide, hframes, hmax, hroom⟩ := h
    have hdepth : wide.depth = s.context.depth := congrArg List.length hframes
    have hentered := Context.enter_eq_ok_iff.1 henter
    have hbelow := Context.depth_of_enter henter
    have hc := c.depth_le
    rw [hbelow, hentered.1] at hc
    obtain ⟨d, hd⟩ := wide.exists_enter (by omega) frame
    have hwide := Context.enter_eq_ok_iff.1 hd
    refine ⟨d, hd, .intro { s with context := c } d ?_ ?_ ?_⟩
    · exact (hwide.2.trans (congrArg _ hframes)).trans hentered.2.symm
    · change c.maxDepth ≤ d.maxDepth
      rw [hentered.1, hwide.1]
      exact hmax
    · change c.maxDepth < c.depth + (k - 1)
      rw [hentered.1, hbelow]
      omega
  full s t o _ _ := .inl rfl
  leave {k} s t h := by
    obtain ⟨wide, hframes, hmax, hroom⟩ := h
    have hdepth := s.context.depth_le
    refine .intro { s with context := s.context.leave } wide.leave ?_ hmax ?_
    · exact congrArg List.tail hframes
    · change s.context.leave.maxDepth < s.context.leave.depth + k
      rw [Context.maxDepth_leave, Context.depth_leave]
      omega
  enterScope s t h := h.imp (fun s => { s with tags := s.tags.enterScope }) rfl fun _ => rfl
  exitScope s t h := h.imp (fun s => { s with tags := s.tags.exitScope }) rfl fun _ => rfl
  bind {k a s t} text _ h := h.imp (·.bind a.name (some text)) rfl fun _ => rfl
  lookup name h := by
    cases h
    rfl
  missing {k s t name} h hmissing := by
    refine ⟨?_, h.imp (·.recordUnresolved name) rfl fun _ => rfl⟩
    cases h
    exact hmissing
  rule {k s t name rule} h hrule := by
    have hput (rule : Rule γ) (random : γ) :=
      h.imp (fun s => { s with rules := s.rules.put name rule, random := random }) rfl
        fun _ => rfl
    have hsame : t.rules = s.rules ∧ t.random = s.random := by
      cases h
      exact ⟨rfl, rfl⟩
    exact ⟨rule, hsame.1 ▸ hrule, endAlike_selectCandidate hsame.2 h
      (fun _ rule random _ => hput rule random) _⟩
  candidate _ _ _ _ _ := trivial
  record e h := h.imp (·.record e) rfl fun _ => rfl
  trace s t tracer e h := h.imp (·.trace tracer e) rfl fun _ => rfl
  note s t entry h := h.imp (fun s => { s with journal := s.journal.push entry }) rfl fun _ => rfl

omit [RandomSource γ] in
theorem Widened.journal_eq (levels : Nat) (s t : Session γ) (h : Widened levels s t) :
    t.journal = s.journal := by
  cases h
  rfl

/-- Raising the maximal depth changes no evaluation but those that it cut off. Where an evaluation
does not end with an overflow of the context, it ends the same way under a greater maximal depth:
with the same text or the same fault, and with the session that it leaves otherwise. So it is for
all modifiers and hooks that ask nothing of the engine, and for all selectors. -/
theorem evaluate_widened {x : Extensions} (hx : x.Detached) (nodes : List Node) (s : Session γ)
    (wide : Context) (hframes : wide.frames = s.context.frames)
    (hmax : s.context.maxDepth ≤ wide.maxDepth)
    (hend : ∀ fault t, evaluate x nodes s = .error fault t → fault.kind ≠ .stackOverflow) :
    evaluate x nodes { s with context := wide } =
      match evaluate x nodes s with
      | .ok text t => .ok text { t with context := wide }
      | .error fault t => .error fault { t with context := wide } := by
  obtain ⟨more, hmore⟩ := Nat.exists_eq_add_of_le (nestingLevels_mono hmax)
  have hroom : s.context.maxDepth < s.context.depth + nestingLevels s.context.maxDepth :=
    Nat.lt_of_lt_of_le (lt_nestingLevels _) (Nat.le_add_left _ _)
  have hfollows : EndAlike (Widened (nestingLevels s.context.maxDepth))
      (fun fault => fault.kind = .stackOverflow) (evaluate x nodes s)
      (evaluate x nodes { s with context := wide }) := by
    unfold evaluate
    simp only [hmore]
    exact (parallel_widened.lockstep_of_detached hx (.inr Widened.journal_eq)).follows_evaluateAt
      (.inr fun s t h => h.not_zero) (nestingLevels s.context.maxDepth) _ (Nat.le_refl _) nodes
      (fun _ _ => trivial) s _ (.intro s wide hframes hmax hroom)
  have hcontext : ((evaluate x nodes).after { s with context := wide }).context = wide :=
    (steady_sameDepth.keeps_evaluate hx.resetless.ask_allowed nodes
      { s with context := wide }).context
  rcases hfollows.inv with ⟨text, u, v, hs, ht, huv⟩ | ⟨fault, u, v, hs, ht, huv⟩ |
    ⟨fault, u, hs, hcut⟩
  · rw [after_of_ok ht] at hcontext
    obtain ⟨wide', -, -, -⟩ := huv
    obtain rfl : wide' = wide := hcontext
    rw [ht, hs]
  · rw [after_of_error ht] at hcontext
    obtain ⟨wide', -, -, -⟩ := huv
    obtain rfl : wide' = wide := hcontext
    rw [ht, hs]
  · exact absurd hcut (hend fault u hs)

/-- Three frames are open at the deepest point, and three is the lesser of the maximal depths. -/
theorem evaluate_widened_exact : ∃ e : Engine Twister,
    Engine.create [(.text "outer", .ofTexts ["[t:#inner#]#t#!"]), (.text "inner", .ofTexts ["x"])]
        ⟨.nested, false, some 3⟩ ⟨#[], 0⟩ = .ok e ∧
      ∃ t, evaluate e.extensions [.reference "outer" [] []] e.session = .ok "x!" t ∧
        evaluate e.extensions [.reference "outer" [] []] { e.session with context := ⟨9, []⟩ } =
          .ok "x!" { t with context := ⟨9, []⟩ } := by
  obtain ⟨e, hcreate, hcheck⟩ : ∃ e : Engine Twister,
      Engine.create
          [(.text "outer", .ofTexts ["[t:#inner#]#t#!"]), (.text "inner", .ofTexts ["x"])]
          ⟨.nested, false, some 3⟩ ⟨#[], 0⟩ = .ok e ∧
        (decide (e.session.context.frames = []) && decide (e.session.context.maxDepth = 3) &&
          match evaluate e.extensions [.reference "outer" [] []] e.session with
          | .ok text _ => decide (text = "x!")
          | .error _ _ => false) = true :=
    Engine.exists_of_create (by decide +kernel)
  simp only [Bool.and_eq_true, decide_eq_true_eq] at hcheck
  obtain ⟨⟨hframes, hmax⟩, hanswer⟩ := hcheck
  have hx : e.extensions.Detached := Engine.extensions_of_create hcreate ▸
    Extensions.obey_none
  cases hend : evaluate e.extensions [.reference "outer" [] []] e.session with
  | error fault t =>
      rw [hend] at hanswer
      cases hanswer
  | ok text t =>
      obtain rfl : text = "x!" := by simpa [hend] using hanswer
      have hwide := evaluate_widened hx [.reference "outer" [] []] e.session ⟨9, []⟩
        hframes.symm (by simp [hmax]) (by simp [hend])
      rw [hend] at hwide
      exact ⟨e, hcreate, t, hend, hwide⟩

end TextGrammar
