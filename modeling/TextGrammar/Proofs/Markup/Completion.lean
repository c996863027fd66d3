import TextGrammar.Markup.Grammar

/-!
# What completes a construct

The languages of the tokens that complete a construct of the grammar which has begun, one for
each place inside a construct. What is left of such a language behind its first token is another
of them, or one followed by another; the statements `…_cons_iff` say which. So the words of the
grammar can be told token by token, from left to right.
-/

namespace TextGrammar

namespace Grammar

/-- A word of one language followed by a word of another. -/
def Then (first second : List Token → Prop) (ts : List Token) : Prop :=
  ∃ us vs, ts = us ++ vs ∧ first us ∧ second vs

/-- A closing bracket followed by a word of a language. -/
def Closed (next : List Token → Prop) : List Token → Prop
  | [] => False
  | t :: rest => t.kind = .mark .closeBracket ∧ next rest

section Then

variable {first second next : List Token → Prop}

theorem then_nil_iff : Then first next [] ↔ first [] ∧ next [] := by
  constructor
  · intro hw
    rcases hw with ⟨us, vs, h, hus, hvs⟩
    obtain ⟨rfl, rfl⟩ := List.append_eq_nil_iff.1 h.symm
    exact ⟨hus, hvs⟩
  · intro hw
    rcases hw with ⟨hfirst, hnext⟩
    exact ⟨[], [], rfl, hfirst, hnext⟩

theorem then_cons_iff {t : Token} {ts : List Token} :
    Then first next (t :: ts) ↔
      (first [] ∧ next (t :: ts)) ∨ Then (fun us => first (t :: us)) next ts := by
  constructor
  · intro hw
    rcases hw with ⟨us, vs, h, hus, hvs⟩
    cases us with
    | nil => exact .inl ⟨hus, (List.nil_append vs ▸ h) ▸ hvs⟩
    | cons u us =>
        obtain ⟨rfl, rfl⟩ := List.cons.inj h
        exact .inr ⟨us, vs, rfl, hus, hvs⟩
  · intro hw
    rcases hw with ⟨hfirst, hnext⟩ | ⟨us, vs, rfl, hus, hvs⟩
    · exact ⟨[], t :: ts, rfl, hfirst, hnext⟩
    · exact ⟨t :: us, vs, rfl, hus, hvs⟩

theorem then_assoc : Then (Then first second) next = Then first (Then second next) := by
  funext ts
  apply propext
  constructor
  · intro hw
    rcases hw with ⟨_, ws, rfl, ⟨us, vs, rfl, hus, hvs⟩, hws⟩
    exact ⟨us, vs ++ ws, List.append_assoc us vs ws, hus, vs, ws, rfl, hvs, hws⟩
  · intro hw
    rcases hw with ⟨us, _, rfl, hus, vs, ws, rfl, hvs, hws⟩
    exact ⟨us ++ vs, ws, (List.append_assoc us vs ws).symm, ⟨us, vs, rfl, hus, hvs⟩, hws⟩

theorem then_closed : Then (Closed first) next = Closed (Then first next) := by
  funext ts
  apply propext
  constructor
  · intro hw
    rcases hw with ⟨us, vs, rfl, hus, hvs⟩
    cases us with
    | nil => exact hus.elim
    | cons u us => exact ⟨hus.1, us, vs, rfl, hus.2, hvs⟩
  · intro h
    cases ts with
    | nil => exact h.elim
    | cons t ts =>
        obtain ⟨ht, us, vs, rfl, hus, hvs⟩ := h
        exact ⟨t :: us, vs, rfl, ⟨ht, hus⟩, hvs⟩

theorem then_or_iff {ts : List Token} :
    Then (fun us => first us ∨ second us) next ts ↔ Then first next ts ∨ Then second next ts := by
  constructor
  · intro hw
    rcases hw with ⟨us, vs, rfl, hus | hus, hvs⟩
    · exact .inl ⟨us, vs, rfl, hus, hvs⟩
    · exact .inr ⟨us, vs, rfl, hus, hvs⟩
  · intro hw
    rcases hw with ⟨us, vs, rfl, hus, hvs⟩ | ⟨us, vs, rfl, hus, hvs⟩
    · exact ⟨us, vs, rfl, .inl hus, hvs⟩
    · exact ⟨us, vs, rfl, .inr hus, hvs⟩

theorem then_and_iff {p : Prop} {ts : List Token} :
    Then (fun us => p ∧ first us) next ts ↔ p ∧ Then first next ts := by
  constructor
  · intro hw
    rcases hw with ⟨us, vs, rfl, ⟨hp, hus⟩, hvs⟩
    exact ⟨hp, us, vs, rfl, hus, hvs⟩
  · intro hw
    rcases hw with ⟨hp, us, vs, rfl, hus, hvs⟩
    exact ⟨us, vs, rfl, ⟨hp, hus⟩, hvs⟩

theorem then_eq_nil_iff {ts : List Token} : Then (fun us => us = []) next ts ↔ next ts := by
  constructor
  · intro hw
    rcases hw with ⟨_, vs, rfl, rfl, hvs⟩
    exact hvs
  · exact fun h => ⟨[], ts, rfl, rfl, h⟩

end Then

section Languages

variable (closes : Token → Prop)

/-! ## What completes a construct that has begun

Each definition is the language of the tokens that are still to come, and the lemma behind it
says what is left of that language behind its first token. -/

/-- Behind a modifier: the rest of the chain, or the token that ends it. -/
def AfterModifier (called : Bool) (ts : List Token) : Prop :=
  IsChain closes ts ∨ ∃ last, ts = [last] ∧ last.kind ≠ .mark .dot ∧
    (called = false → last.kind ≠ .mark .openParen) ∧ closes last

/-- Behind a dot: a modifier, and what comes behind it. -/
def AfterDot (ts : List Token) : Prop :=
  ∃ m called rest, ts = m ++ rest ∧ IsModifier m called ∧ AfterModifier closes called rest

/-- Inside the arguments of a modifier: those that are left, and what comes behind them. -/
def InArguments (ts : List Token) : Prop :=
  ∃ args closing rest, ts = args ++ closing :: rest ∧
    (∀ a ∈ args, a.kind ≠ .mark .closeParen) ∧ closing.kind = .mark .closeParen ∧
    AfterModifier closes true rest

/-- Behind the name of a modifier: its arguments, or what comes behind a modifier. -/
def AfterModifierName : List Token → Prop
  | [] => False
  | t :: rest =>
      if t.kind = .mark .openParen then InArguments closes rest
      else AfterModifier closes false (t :: rest)

/-- In the name of a reference: the rest of the name, and a hash or a chain behind it. `part`
says whether the reference has a part already. -/
def InName (part : Prop) (ts : List Token) : Prop :=
  ∃ names rest, ts = names ++ rest ∧ AreTexts names ∧
    (IsChain closes rest ∨
      ∃ last, rest = [last] ∧ (part ∨ textOf names ≠ "") ∧ last.kind = .mark .hash)

/-- Where actions of a reference may come: the actions, and what comes behind them. -/
def InReference (part : Prop) (ts : List Token) : Prop :=
  ∃ actions rest, ts = actions ++ rest ∧ AreActions closes actions ∧
    InName closes (part ∨ actions ≠ []) rest

/-- In the name of an assignment, of which `name` is there: the rest of it, and the value. -/
def InTagName (name : Text) (ts : List Token) : Prop :=
  ∃ names colon value, ts = names ++ colon :: value ∧ AreTexts names ∧
    strip (name ++ textOf names) ≠ "" ∧ colon.kind = .mark .colon ∧ IsSequence closes value

theorem isReference_eq : IsReference closes = InReference closes False := by
  funext ts
  apply propext
  constructor
  · intro h
    cases h with
    | @bare actions names last hactions hnames hpart hlast =>
        refine ⟨actions, names ++ [last], rfl, hactions, names, [last], rfl, hnames, .inr ?_⟩
        exact ⟨last, rfl, by simpa using hpart, hlast⟩
    | @chained actions names chain hactions hnames hchain =>
        exact ⟨actions, names ++ chain, rfl, hactions, names, chain, rfl, hnames, .inl hchain⟩
  · intro hw
    rcases hw with ⟨actions, _, rfl, hactions, names, rest, rfl, hnames, hchain |
        ⟨last, rfl, hpart, hlast⟩⟩
    · exact .chained hactions hnames hchain
    · exact .bare hactions hnames (by simpa using hpart) hlast

theorem isAssignment_eq : IsAssignment closes = InTagName closes "" := by
  funext ts
  apply propext
  constructor
  · intro h
    cases h with
    | @mk names value colon hnames hname hcolon hvalue =>
        exact ⟨names, colon, value, rfl, hnames, by simpa using hname, hcolon, hvalue⟩
  · intro hw
    rcases hw with ⟨names, colon, value, rfl, hnames, hname, hcolon, hvalue⟩
    exact .mk hnames (by simpa using hname) hcolon hvalue

theorem textOf_cons (t : Token) (ts : List Token) : textOf (t :: ts) = t.text ++ textOf ts := by
  simp [textOf]

theorem not_afterModifier_nil (called : Bool) : ¬AfterModifier closes called [] := by
  intro hw
  rcases hw with h | ⟨last, h, _⟩
  · cases h
  · cases h

theorem isChain_cons_iff (t : Token) (us : List Token) :
    IsChain closes (t :: us) ↔ t.kind = .mark .dot ∧ AfterDot closes us := by
  constructor
  · intro h
    cases h with
    | @last _ last m called hdot hm hlast hopen hcloses =>
        exact ⟨hdot, m, called, [last], rfl, hm, .inr ⟨last, rfl, hlast, hopen, hcloses⟩⟩
    | @more _ m rest called hdot hm hrest => exact ⟨hdot, m, called, rest, rfl, hm, .inl hrest⟩
  · intro hw
    rcases hw with ⟨hdot, m, called, rest, rfl, hm, hrest | ⟨last, rfl, hlast, hopen, hcloses⟩⟩
    · exact .more hdot hm hrest
    · exact .last hdot hm hlast hopen hcloses

theorem afterModifier_cons_iff (called : Bool) (t : Token) (us : List Token) :
    AfterModifier closes called (t :: us) ↔
      if t.kind = .mark .dot then AfterDot closes us
      else (called = false → t.kind ≠ .mark .openParen) ∧ closes t ∧ us = [] := by
  rw [AfterModifier, isChain_cons_iff]
  split
  · next hdot =>
      constructor
      · intro hw
        rcases hw with ⟨_, h⟩ | ⟨last, h, hlast, _⟩
        · exact h
        · exact absurd ((List.cons.inj h).1 ▸ hdot) hlast
      · exact fun h => .inl ⟨hdot, h⟩
  · next hdot =>
      constructor
      · intro hw
        rcases hw with ⟨h, _⟩ | ⟨last, h, _, hopen, hcloses⟩
        · exact absurd h hdot
        · obtain ⟨rfl, rfl⟩ := List.cons.inj h
          exact ⟨hopen, hcloses, rfl⟩
      · intro hw
        rcases hw with ⟨hopen, hcloses, rfl⟩
        exact .inr ⟨t, rfl, hdot, hopen, hcloses⟩

theorem not_afterDot_nil : ¬AfterDot closes [] := by
  intro hw
  rcases hw with ⟨m, called, rest, h, hm, _⟩
  obtain ⟨rfl, _⟩ := List.append_eq_nil_iff.1 h.symm
  cases hm

theorem afterDot_cons_iff (t : Token) (us : List Token) :
    AfterDot closes (t :: us) ↔
      t.kind = .text ∧ strip t.text ≠ "" ∧ AfterModifierName closes us := by
  constructor
  · intro hw
    rcases hw with ⟨m, called, rest, h, hm, hrest⟩
    cases hm with
    | bare ht hname =>
        obtain ⟨rfl, rfl⟩ := List.cons.inj h
        refine ⟨ht, hname, ?_⟩
        cases us with
        | nil => exact absurd hrest (not_afterModifier_nil closes false)
        | cons u us =>
            have hopen : u.kind ≠ .mark .openParen := by
              intro hu
              rw [afterModifier_cons_iff, hu] at hrest
              exact hrest.1 rfl rfl
            rw [AfterModifierName, if_neg hopen]
            exact hrest
    | @call _ opening closing args ht hname hopening hargs hclosing =>
        obtain ⟨rfl, rfl⟩ := List.cons.inj h
        refine ⟨ht, hname, (if_pos hopening).mpr ?_⟩
        exact ⟨args, closing, rest, by simp, hargs, hclosing, hrest⟩
  · intro hw
    rcases hw with ⟨ht, hname, h⟩
    cases us with
    | nil => exact h.elim
    | cons u us =>
        rw [AfterModifierName] at h
        split at h
        · next hopen =>
            obtain ⟨args, closing, rest, rfl, hargs, hclosing, hrest⟩ := h
            exact ⟨t :: u :: (args ++ [closing]), true, rest, by simp,
              .call ht hname hopen hargs hclosing, hrest⟩
        · exact ⟨[t], false, u :: us, rfl, .bare ht hname, h⟩

theorem not_inArguments_nil : ¬InArguments closes [] := by
  intro hw
  rcases hw with ⟨args, closing, rest, h, _⟩
  exact absurd h.symm (by simp)

theorem inArguments_cons_iff (t : Token) (us : List Token) :
    InArguments closes (t :: us) ↔
      if t.kind = .mark .closeParen then AfterModifier closes true us
      else InArguments closes us := by
  split
  · next ht =>
      constructor
      · intro hw
        rcases hw with ⟨args, closing, rest, h, hargs, _, hrest⟩
        cases args with
        | nil =>
            obtain ⟨rfl, rfl⟩ := List.cons.inj h
            exact hrest
        | cons a args =>
            obtain ⟨rfl, _⟩ := List.cons.inj h
            exact absurd ht (hargs t (by simp))
      · exact fun h => ⟨[], t, us, rfl, by simp, ht, h⟩
  · next ht =>
      constructor
      · intro hw
        rcases hw with ⟨args, closing, rest, h, hargs, hclosing, hrest⟩
        cases args with
        | nil =>
            obtain ⟨rfl, rfl⟩ := List.cons.inj h
            exact absurd hclosing ht
        | cons a args =>
            obtain ⟨rfl, rfl⟩ := List.cons.inj h
            exact ⟨args, closing, rest, rfl, fun b hb => hargs b (by simp [hb]), hclosing, hrest⟩
      · intro hw
        rcases hw with ⟨args, closing, rest, rfl, hargs, hclosing, hrest⟩
        refine ⟨t :: args, closing, rest, rfl, ?_, hclosing, hrest⟩
        intro a ha
        rcases List.mem_cons.1 ha with rfl | ha
        · exact ht
        · exact hargs a ha

theorem not_inName_nil (part : Prop) : ¬InName closes part [] := by
  intro hw
  rcases hw with ⟨names, rest, h, _, hrest⟩
  obtain ⟨_, rfl⟩ := List.append_eq_nil_iff.1 h.symm
  rcases hrest with h | ⟨last, h, _⟩
  · cases h
  · cases h

theorem inName_cons_iff (part : Prop) (t : Token) (us : List Token) :
    InName closes part (t :: us) ↔
      (t.kind = .mark .hash ∧ part ∧ us = []) ∨ (t.kind = .mark .dot ∧ AfterDot closes us) ∨
        (t.kind = .text ∧ InName closes (part ∨ t.text ≠ "") us) := by
  constructor
  · intro hw
    rcases hw with ⟨names, rest, h, hnames, hrest⟩
    cases names with
    | nil =>
        rcases (show rest = t :: us from h.symm) with rfl
        rcases hrest with hchain | ⟨last, h, hpart, hlast⟩
        · exact .inr (.inl ((isChain_cons_iff closes t us).1 hchain))
        · obtain ⟨rfl, rfl⟩ := List.cons.inj h
          exact .inl ⟨hlast, by simpa [textOf] using hpart, rfl⟩
    | cons name names =>
        obtain ⟨rfl, rfl⟩ := List.cons.inj h
        have htail : AreTexts names := fun n hn => hnames n (List.mem_cons_of_mem t hn)
        refine .inr (.inr ⟨hnames t (by simp), names, rest, rfl, htail, hrest.imp_right ?_⟩)
        intro hw
        rcases hw with ⟨last, hlast, hpart, hhash⟩
        rw [textOf_cons] at hpart
        refine ⟨last, hlast, ?_, hhash⟩
        by_cases ht : t.text = ""
        · simpa [ht] using hpart
        · exact .inl (.inr ht)
  · intro hw
    rcases hw with ⟨ht, hpart, rfl⟩ | ⟨ht, h⟩ | ⟨ht, names, rest, rfl, hnames, hrest⟩
    · exact ⟨[], [t], rfl, by simp [AreTexts], .inr ⟨t, rfl, .inl hpart, ht⟩⟩
    · exact ⟨[], t :: us, rfl, by simp [AreTexts],
        .inl ((isChain_cons_iff closes t us).2 ⟨ht, h⟩)⟩
    · refine ⟨t :: names, rest, rfl, ?_, hrest.imp_right ?_⟩
      · intro n hn
        rcases List.mem_cons.1 hn with rfl | hn
        · exact ht
        · exact hnames n hn
      · intro hw
        rcases hw with ⟨last, hlast, hpart, hhash⟩
        refine ⟨last, hlast, ?_, hhash⟩
        rw [textOf_cons]
        rcases hpart with (hpart | htext) | hname
        · exact .inl hpart
        · exact .inr fun h => htext (Text.append_eq_empty_iff.1 h).1
        · exact .inr fun h => hname (Text.append_eq_empty_iff.1 h).2

theorem not_inReference_nil (part : Prop) : ¬InReference closes part [] := by
  intro hw
  rcases hw with ⟨actions, rest, h, _, hrest⟩
  obtain ⟨_, rfl⟩ := List.append_eq_nil_iff.1 h.symm
  exact not_inName_nil closes _ hrest

theorem inReference_iff (part : Prop) (us : List Token) :
    InReference closes part us ↔ InName closes part us ∨
      ∃ actions rest, us = actions ++ rest ∧ actions ≠ [] ∧ AreActions closes actions ∧
        InName closes True rest := by
  constructor
  · intro hw
    rcases hw with ⟨actions, rest, h, hactions, hrest⟩
    by_cases hempty : actions = []
    · rw [hempty, List.nil_append] at h
      rw [h]
      exact .inl (by simpa [hempty] using hrest)
    · exact .inr ⟨actions, rest, h, hempty, hactions, by simpa [hempty] using hrest⟩
  · intro hw
    rcases hw with h | ⟨actions, rest, h, hne, hactions, hrest⟩
    · exact ⟨[], us, rfl, .nil, by simpa using h⟩
    · exact ⟨actions, rest, h, hactions, by simpa [hne] using hrest⟩

theorem inReference_cons_iff (part : Prop) (t : Token) (us : List Token) :
    InReference closes part (t :: us) ↔
      if t.kind = .mark .openBracket
      then Then (IsAssignment closes) (Closed (InReference closes True)) us
      else InName closes part (t :: us) := by
  rw [inReference_iff]
  split
  · next ht =>
      constructor
      · intro hw
        rcases hw with h | ⟨actions, rest, h, hne, hactions, hrest⟩
        · rw [inName_cons_iff, ht] at h
          simp at h
        · cases hactions with
          | nil => exact absurd rfl hne
          | @cons opening closing a as hopening ha hclosing has =>
              obtain ⟨rfl, rfl⟩ := List.cons.inj h
              refine ⟨a, closing :: (as ++ rest), by simp, ha, hclosing, as, rest, rfl, has, ?_⟩
              simpa using hrest
      · intro hw
        rcases hw with ⟨a, _ | ⟨closing, tail⟩, rfl, ha, h⟩
        · exact h.elim
        · obtain ⟨hclosing, as, rest, rfl, has, hrest⟩ := h
          exact .inr ⟨t :: (a ++ closing :: as), rest, by simp, by simp,
            .cons ht ha hclosing has, by simpa using hrest⟩
  · next ht =>
      constructor
      · intro hw
        rcases hw with h | ⟨actions, rest, h, hne, hactions, hrest⟩
        · exact h
        · cases hactions with
          | nil => exact absurd rfl hne
          | cons hopening =>
              obtain ⟨rfl, _⟩ := List.cons.inj h
              exact absurd hopening ht
      · exact .inl

theorem not_inTagName_nil (name : Text) : ¬InTagName closes name [] := by
  intro hw
  rcases hw with ⟨names, colon, value, h, _⟩
  exact absurd h.symm (by simp)

theorem inTagName_cons_iff (name : Text) (t : Token) (us : List Token) :
    InTagName closes name (t :: us) ↔
      (t.kind = .mark .colon ∧ strip name ≠ "" ∧ IsSequence closes us) ∨
        (t.kind = .text ∧ InTagName closes (name ++ t.text) us) := by
  constructor
  · intro hw
    rcases hw with ⟨names, colon, value, h, hnames, hname, hcolon, hvalue⟩
    cases names with
    | nil =>
        obtain ⟨rfl, rfl⟩ := List.cons.inj h
        exact .inl ⟨hcolon, by simpa [textOf] using hname, hvalue⟩
    | cons n names =>
        obtain ⟨rfl, rfl⟩ := List.cons.inj h
        rw [textOf_cons, ← Text.append_assoc] at hname
        have htail : AreTexts names := fun n hn => hnames n (List.mem_cons_of_mem t hn)
        exact .inr ⟨hnames t (by simp), names, colon, value, rfl, htail, hname, hcolon, hvalue⟩
  · intro hw
    rcases hw with ⟨ht, hname, hvalue⟩ |
        ⟨ht, names, colon, value, rfl, hnames, hname, hcolon, hvalue⟩
    · exact ⟨[], t, us, rfl, by simp [AreTexts], by simpa [textOf] using hname, ht, hvalue⟩
    · refine ⟨t :: names, colon, value, rfl, ?_, ?_, hcolon, hvalue⟩
      · intro n hn
        rcases List.mem_cons.1 hn with rfl | hn
        · exact ht
        · exact hnames n hn
      · rwa [textOf_cons, ← Text.append_assoc]

theorem isSequence_cons_iff (t : Token) (us : List Token) :
    IsSequence closes (t :: us) ↔
      (IsPlain t ∧ IsSequence closes us) ∨
        (t.kind = .mark .hash ∧ Then (IsReference closes) (IsSequence closes) us) ∨
        (t.kind = .mark .openBracket ∧
          Then (IsAssignment closes) (Closed (IsSequence closes)) us) := by
  constructor
  · intro h
    cases h with
    | plain ht hrest => exact .inl ⟨ht, hrest⟩
    | @reference hash r rest hhash hr hrest => exact .inr (.inl ⟨hhash, r, rest, rfl, hr, hrest⟩)
    | @assignment opening closing a rest hopening ha hclosing hrest =>
        exact .inr (.inr ⟨hopening, a, closing :: rest, rfl, ha, hclosing, hrest⟩)
  · intro hw
    rcases hw with ⟨ht, hrest⟩ | ⟨hhash, r, rest, rfl, hr, hrest⟩ | ⟨hopening, a, _ |
        ⟨closing, rest⟩, rfl, ha, h⟩
    · exact .plain ht hrest
    · exact .reference hhash hr hrest
    · exact h.elim
    · exact .assignment hopening ha h.1 h.2

end Languages

end Grammar

end TextGrammar
