import TextGrammar.Engine
import TextGrammar.Proofs.Evaluation.Lockstep

/-!
# Two registrations side by side

Registration reads two things of a session, the rules it has and the source of randomness, and
changes nothing but these and the notices. So a relation of two sessions that agree on what is read
is kept by registering the same definitions in both, as long as it bears what is changed
(`RegistersAlike`), and a rule book is read into both alike (`RegistersAlike.follows_readBook`).
Definitions of which the same is left count as the same.
-/

namespace TextGrammar

open Work

variable {γ : Type}

/-- Related sessions agree on what registration reads, and stay related along what it changes. -/
structure RegistersAlike (R : Session γ → Session γ → Prop) : Prop where
  rules {s t : Session γ} : R s t → t.rules = s.rules
  random {s t : Session γ} : R s t → t.random = s.random
  notices {s t : Session γ} (here there : Array Notice) : R s t →
    R { s with notices := here } { t with notices := there }
  put {s t : Session γ} (rules : RuleBook γ) (random : γ) : R s t →
    R { s with rules := rules, random := random } { t with rules := rules, random := random }

namespace RegistersAlike

variable [RandomSource γ] {R : Session γ → Session γ → Prop} {cut : Fault → Prop}
  {d d' : Definition}

theorem follows_defineRule (hR : RegistersAlike R) {name : Text}
    (h : ∀ shared : γ, (Rule.build name d' shared).2 = (Rule.build name d shared).2) :
    Follows R cut (defineRule name d) (defineRule name d') := by
  intro s t hst
  have hbuild := h s.random
  rcases hhere : Rule.build name d s.random with ⟨reported, result⟩
  rcases hthere : Rule.build name d' s.random with ⟨reported', result'⟩
  rw [hhere, hthere] at hbuild
  obtain rfl : result' = result := hbuild
  unfold defineRule
  rw [hR.random hst, hhere, hthere]
  rcases result' with fault | (_ | ⟨rule, random⟩)
  · exact .error fault (hR.notices _ _ hst)
  · exact .ok false (hR.notices _ _ hst)
  · simp only [hR.rules hst]
    exact .ok true (hR.put _ _ (hR.notices _ _ hst))

theorem follows_addRule (hR : RegistersAlike R)
    (h : ∀ name, ∀ shared : γ, (Rule.build name d' shared).2 = (Rule.build name d shared).2)
    (name : Value) : Follows R cut (addRule name d) (addRule name d') := by
  intro s t hst
  unfold addRule
  cases ruleName name with
  | error fault => exact .ok false (hR.notices _ _ hst)
  | ok n =>
      apply hR.follows_defineRule (h n)
      rw [hR.rules hst]
      split
      · exact hR.notices _ _ hst
      · exact hst

theorem follows_addRules (hR : RegistersAlike R) (book : List (Value × Definition)) :
    Follows R cut (addRules book) (addRules book) := by
  induction book with
  | nil => exact follows_pure ()
  | cons entry rest ih => exact (hR.follows_addRule (fun _ _ => rfl) entry.1).bind fun _ => ih

theorem follows_readBook (hR : RegistersAlike R) {book book' : List (Value × Definition)}
    (h : Follows R cut (addRules book) (addRules book')) {options options' : Options}
    (hanalysis : options'.analysis = options.analysis) :
    Follows R cut (readBook book options) (readBook book' options') := by
  have hready (findings : List Finding) : Follows R cut
      (Work.change (fun s => s.report (.ready s.rules.size options.policy)) >>= fun _ =>
        pure findings)
      (Work.change (fun s => s.report (.ready s.rules.size options'.policy)) >>= fun _ =>
        pure findings) :=
    (follows_change fun s t hst => hR.notices _ _ hst).bind fun _ => follows_pure findings
  have hfindings : Follows R cut reportFindings reportFindings := by
    intro s t hst
    unfold reportFindings
    rw [hR.rules hst]
    exact .ok _ (hR.notices _ _ hst)
  apply h.bind
  intro done
  rw [hanalysis]
  cases options.analysis with
  | true => exact hfindings.bind hready
  | false => exact (follows_pure []).bind hready

end RegistersAlike

end TextGrammar
