import TextGrammar.Proofs.Engine.Service
import TextGrammar.Proofs.Registry.Selection
import TextGrammar.Random.Twister

/-!
# Registered rules

A rule changes while an engine is in use in three ways only: it is built anew under its name, it
chooses, or it is given another selector. A property of rules that bears these (`Lawful`) holds
of all rules of an engine at any time, whatever its modifiers and hooks register meanwhile
(`Lawful.created`).

So it is with the shape of a rule (`Rule.Registered`): its name is one that a rule may have, it has
a candidate, and each candidate is what was read of its text but for the weight. And so it is
with what is known of its selector, which was inferred unless a definition brought it along or a
request gave it, of a program or of a script; as long as it was inferred, the rule never fails to
choose.
-/

namespace TextGrammar

variable {γ : Type} [RandomSource γ]

namespace Rule

/-- A rule as it stands in a registry under its name. -/
structure Registered (name : Text) (rule : Rule γ) : Prop where
  name : ruleName (.text name) = .ok name
  candidates_ne : rule.candidates ≠ []
  /-- A candidate is what its text is read as, without the weight at the end. -/
  read : ∀ c ∈ rule.candidates, ∃ weight : Option Nat,
    parseText c.text true = .ok (c.nodes ++ (weight.map Node.weight).toList)
  weightless : ∀ c ∈ rule.candidates, ∀ n ∈ Node.walkAll c.nodes, n.weight? = none

omit [RandomSource γ] in
theorem Registered.of_candidates {name : Text} {rule rule' : Rule γ} (h : rule.Registered name)
    (hcandidates : rule'.candidates = rule.candidates) : rule'.Registered name where
  name := h.name
  candidates_ne := hcandidates ▸ h.candidates_ne
  read := hcandidates ▸ h.read
  weightless := hcandidates ▸ h.weightless

theorem registered_of_build {name : Text} {d : Definition} {shared shared' : γ}
    {notices : List Notice} {rule : Rule γ} (hname : isRuleName name = true)
    (h : Rule.build name d shared = (notices, .ok (some (rule, shared')))) :
    rule.Registered name := by
  obtain ⟨texts, read, -, hread, hne, hcandidates, -⟩ := Rule.build_eq_ok_some h
  have hsplit : ∀ c ∈ rule.candidates, ∃ source : Candidate, source.IsRead ∧
      source.withoutWeight = c := by
    intro c hc
    rw [hcandidates, hread] at hc
    obtain ⟨source, hsource, rfl⟩ := List.mem_map.1 hc
    obtain ⟨text, -, htext⟩ := List.mem_filterMap.1 hsource
    exact ⟨source, Candidate.isRead_of_candidateOfText? htext, rfl⟩
  refine ⟨ruleName_text_eq_ok_iff.2 ⟨hname, rfl⟩, ?_, fun c hc => ?_, fun c hc n hn => ?_⟩
  · rw [hcandidates]
    simpa using hne
  · obtain ⟨source, hsource, rfl⟩ := hsplit c hc
    refine ⟨source.weight?, ?_⟩
    rw [← hsource.split.1, Candidate.text_withoutWeight]
    exact hsource
  · obtain ⟨source, hsource, rfl⟩ := hsplit c hc
    exact (hsource.split.2.1 n hn).weight?_eq_none

end Rule

/-- A property of rules, by their names, that a new rule has and that choosing and certain new
selectors do not end. -/
structure Lawful (given : Text → Selector γ → Prop) (P : Text → Rule γ → Prop) : Prop where
  built {name : Text} {d : Definition} {shared shared' : γ} {notices : List Notice}
    {rule : Rule γ} : isRuleName name = true →
      Rule.build name d shared = (notices, .ok (some (rule, shared'))) → P name rule
  selected {name : Text} {rule rule' : Rule γ} {shared shared' : γ}
    {picked : Option (Index × Candidate)} : P name rule →
      rule.select shared = .ok (picked, rule', shared') → P name rule'
  given {name : Text} {rule : Rule γ} {selector : Selector γ} : P name rule →
    given name selector → P name { rule with selector := selector }

omit [RandomSource γ] in
def RuleHas (P : Text → Rule γ → Prop) (name : Text) (s : Session γ) : Prop :=
  ∀ rule, s.rules.get? name = some rule → P name rule

namespace Lawful

variable {given : Text → Selector γ → Prop} {P : Text → Rule γ → Prop}

omit [RandomSource γ] in
theorem ruleHas_put {s t : Session γ} {name other : Text} {rule : Rule γ}
    (ht : t.rules = s.rules.put name rule) (hs : RuleHas P other s)
    (hrule : other = name → P name rule) : RuleHas P other t := by
  intro found hfound
  rw [ht, Lexicon.get?_put] at hfound
  split at hfound
  · next hname =>
      cases hfound
      exact hname ▸ hrule hname
  · exact hs found hfound

/-- Each name keeps the property, whatever its rule has become. -/
theorem enduring (hP : Lawful given P) :
    Enduring given fun s t : Session γ => ∀ name, RuleHas P name s → RuleHas P name t where
  refl _ _ := id
  trans hst htu name h := htu name (hst name h)
  frame _ h := h
  scope h := h
  bind _ _ _ _ := id
  record _ _ _ := id
  unresolved _ _ _ := id
  trace _ _ _ _ := id
  journal _ _ _ := id
  notices _ _ _ := id
  select hrule hselect _ h := ruleHas_put rfl h fun hname => by
    subst hname
    exact hP.selected (h _ hrule) hselect
  define hname hbuild _ h := ruleHas_put rfl h fun _ => hP.built hname hbuild
  reset _ _ _ := id
  selector hrule hgiven _ h := ruleHas_put rfl h fun hname => by
    subst hname
    exact hP.given (h _ hrule) hgiven
  tracers _ _ _ := id

theorem made (hP : Lawful given P) {book : List (Value × Definition)} {options : Options}
    {random : γ} {e : Engine γ} (he : Engine.create book options random = .ok e) (name : Text) :
    RuleHas P name e.session := by
  obtain ⟨context, -, hstart⟩ := hP.enduring.create he
  exact hstart name fun rule h => nomatch h

theorem created (hP : Lawful given P) {book : List (Value × Definition)} {options : Options}
    {random : γ} {made : Engine γ} (hmade : Engine.create book options random = .ok made)
    {requests : List (Request γ)}
    (hbrings : ∀ request ∈ requests, request.Brings (Script.Allowed True given))
    (hgiven : ∀ name σ, .setSelector name σ ∈ requests → given name σ) (name : Text) :
    RuleHas P name (made.serveAll requests).session := by
  have hx : made.extensions.Ask (Script.Allowed True given) :=
    Engine.extensions_of_create hmade ▸ Extensions.obey_none
  exact hP.enduring.serveAll hx hbrings hgiven name (hP.made hmade name)

end Lawful

theorem lawful_registered :
    Lawful (fun _ _ => True) fun name (rule : Rule γ) => rule.Registered name where
  built := Rule.registered_of_build
  selected h hselect := h.of_candidates (Rule.select_eq_ok hselect).1
  given h _ := h.of_candidates rfl

/-- Where the selector of a rule comes from. -/
theorem lawful_selector (given : Text → Selector γ → Prop) :
    Lawful given fun name rule => rule.Inferred ∨ rule.Directed (given name) where
  built {name d shared shared' notices rule} _ hbuild := by
    cases hselector : d.selector with
    | none => exact .inl (.built hselector hbuild)
    | some custom => exact .inr (.built hselector hbuild)
  selected h hselect := h.imp (.selected · hselect) (.selected · hselect)
  given _ hgiven := .inr (.given _ hgiven)

/-- Whatever an engine is asked, and whatever its modifiers and hooks ask of it in turn, each of its
rules has a proper name and at least one candidate, and each candidate is what its text is read as
without the weight at the end, with no weight left anywhere. The selector of a rule was inferred, or
a definition brought it along, or a request gave it to the rule, or a modifier or hook did, if they
may ask for that; an inferred one stays until there is such a request or such a definition, and
always chooses an index in range with its candidate. -/
theorem registry_sound {book : List (Value × Definition)} {options : Options} {random : γ}
    {made : Engine γ} (hmade : Engine.create book options random = .ok made)
    {asks : Script.Request → Prop} {requests : List (Request γ)}
    (hasks : ∀ request ∈ requests, request.Brings asks) {name : Text} {rule : Rule γ}
    (hrule : (made.serveAll requests).session.rules.get? name = some rule) :
    rule.Registered name ∧
      (rule.Inferred ∨ rule.Directed fun σ => .setSelector name σ ∈ requests ∨
        ∃ custom, σ = .custom custom ∧ asks (.setSelector name custom)) ∧
        (rule.Inferred →
          (∀ shared : γ, ∃ (i : Nat) (c : Candidate) (rule' : Rule γ) (shared' : γ),
            rule.select shared = .ok (some (.number i, c), rule', shared') ∧
              rule.candidates[i]? = some c) ∧
          ∀ (more : List (Request γ)) (later : Rule γ), (∀ request ∈ more, request.Brings asks) →
            (∀ σ, .setSelector name σ ∉ more) → (∀ custom, ¬asks (.setSelector name custom)) →
              ((made.serveAll requests).serveAll more).session.rules.get? name = some later →
                later.Inferred ∨ later.Directed fun _ => False) := by
  refine ⟨?_, ?_, fun hinferred => ⟨fun shared => hinferred.select shared, ?_⟩⟩
  · exact lawful_registered.created hmade
      (fun request _ => request.brings_of_forall Script.allowed_true) (fun _ _ _ => trivial) name
      rule hrule
  · have hallowed : ∀ request, asks request → Script.Allowed True
        (fun name (σ : Selector γ) => .setSelector name σ ∈ requests ∨
          ∃ custom, σ = .custom custom ∧ asks (.setSelector name custom)) request :=
      Script.allowed_of_selectors fun other custom h => .inr ⟨custom, rfl, h⟩
    exact (lawful_selector _).created hmade
      (fun request hrequest => (hasks request hrequest).mono hallowed) (fun _ _ h => .inl h) name
      rule hrule
  · -- The later requests give selectors to other rules only.
    intro more later hmore hgives hforbidden hlater
    have hgiven : ∀ other (σ : Selector γ), .setSelector other σ ∈ more → other ≠ name :=
      fun other σ h heq => hgives σ (heq ▸ h)
    have hasked : ∀ request, asks request →
        Script.Allowed True (fun other (_ : Selector γ) => other ≠ name) request :=
      Script.allowed_of_selectors fun other custom h heq => hforbidden custom (heq ▸ h)
    have hx : made.extensions.Ask asks := Engine.extensions_of_create hmade ▸ Extensions.obey_none
    have hkept := (lawful_selector fun other (_ : Selector γ) => other ≠ name).enduring.serveAll
      ((hx.serveAll hasks).mono hasked fun _ => id)
      (fun request hrequest => (hmore request hrequest).mono hasked) hgiven
    have hstart : RuleHas (fun other (rule : Rule γ) => rule.Inferred ∨
        rule.Directed fun _ => other ≠ name) name (made.serveAll requests).session := by
      intro found hfound
      rw [hrule] at hfound
      cases hfound
      exact .inl hinferred
    simpa using hkept name hstart later hlater

/-- A modifier registers a rule while an expansion is in progress; one of its texts is malformed. -/
theorem registry_sound_registering :
    ∃ (made : Engine Twister) (requests : List (Request Twister)) (rule : Rule Twister),
      Engine.create [(.text "r", .ofTexts ["x"])] .standard ⟨#[], 0⟩ = .ok made ∧
        requests = [
          .install .modifier "grow" (.ofText fun text =>
            .ask (.addRule (.text "s") (.ofTexts ["p,2", "#", "q"])) fun _ => .done text),
          .expand (.text "#r.grow#") true] ∧
        (made.serveAll requests).session.rules.get? "s" = some rule ∧
        rule.candidates.map Candidate.text = (["p,2", "q"] : List Text) ∧ rule.Registered "s" ∧
          ∀ shared : Twister, ∃ (i : Nat) (c : Candidate) (rule' : Rule Twister)
            (shared' : Twister), rule.select shared = .ok (some (.number i, c), rule', shared') ∧
              rule.candidates[i]? = some c := by
  obtain ⟨made, requests, hmade, hrequests, hfound⟩ :
      ∃ (made : Engine Twister) (requests : List (Request Twister)),
        Engine.create [(.text "r", .ofTexts ["x"])] .standard ⟨#[], 0⟩ = .ok made ∧
          requests = [
            .install .modifier "grow" (.ofText fun text =>
              .ask (.addRule (.text "s") (.ofTexts ["p,2", "#", "q"])) fun _ => .done text),
            .expand (.text "#r.grow#") true] ∧
          ((made.serveAll requests).session.rules.get? "s").any (fun rule =>
            decide (rule.candidates.map Candidate.text = (["p,2", "q"] : List Text)) &&
              !rule.selector.isGiven) :=
    ⟨_, _, rfl, rfl, by decide +kernel⟩
  have hasks : ∀ request ∈ requests,
      request.Brings fun asked => ∀ rule selector, asked ≠ .setSelector rule selector := by
    rw [hrequests]
    intro request hrequest
    rcases List.mem_cons.1 hrequest with rfl | hrequest
    · exact fun text args => .ask nofun fun _ => .done trivial
    · exact List.mem_singleton.1 hrequest ▸ trivial
  cases hrule : (made.serveAll requests).session.rules.get? "s" with
  | none =>
      rw [hrule] at hfound
      cases hfound
  | some rule =>
      obtain ⟨hregistered, hselector, hinferred⟩ := registry_sound hmade hasks hrule
      simp only [hrule, Option.any_some, Bool.and_eq_true, decide_eq_true_eq,
        Bool.not_eq_true'] at hfound
      have hhere := hselector.resolve_right fun hdirected => by
        have hgiven := hdirected.isGiven (by
          rintro σ (hmem | ⟨custom, -, hasked⟩)
          · simp [hrequests] at hmem
          · exact hasked _ _ rfl)
        rw [hfound.2] at hgiven
        cases hgiven
      exact ⟨made, requests, rule, hmade, hrequests, hrule, hfound.1, hregistered,
        (hinferred hhere).1⟩

end TextGrammar
