import TextGrammar.Selector

/-!
# Definitions of rules

What a rule may be defined by: a value, or an object that provides the values of its candidates;
either may also choose among the candidates itself. `Definition.texts` reduces a definition to
the texts of its candidates. Only a list or tuple is split into its items; any other value is
the text of a single candidate.

The name of a rule is one run of plain text that holds neither a hash nor an opening bracket, not
even an escaped one. It is kept as it is given, with its backslashes.
-/

namespace TextGrammar

/-- Where the texts of a rule's candidates come from. -/
inductive Source where
  | value (value : Value)
  | provided (candidates : Value)

/-- A definition: its texts, and the selector it brings along. -/
structure Definition where
  source : Source
  selector : Option CustomSelector

namespace Definition

def ofValue (v : Value) : Definition := ⟨.value v, none⟩

def ofTexts (texts : List Text) : Definition := ofValue (.list (texts.map .text))

def texts (d : Definition) : Except Fault (List Text) :=
  match d.source with
  | .provided candidates =>
      match candidates.items? with
      | some items => .ok (items.map Value.asText)
      | none => .error (.notIterable candidates.kindName)
  | .value (.list items) => .ok (items.map Value.asText)
  | .value (.tuple items) => .ok (items.map Value.asText)
  | .value v => .ok [v.asText]

@[simp] theorem texts_ofTexts (ts : List Text) : (ofTexts ts).texts = .ok ts := by
  simp [ofTexts, ofValue, texts, Function.comp_def]

end Definition

def isRuleName (name : Text) : Bool :=
  isPlainName name && !name.toList.contains '#' && !name.toList.contains '['

/-- The name of a rule, or why a value cannot be one. -/
def ruleName (v : Value) : Except Fault Text :=
  match v.text? with
  | none => .error (.nameNotPlain v.asText)
  | some name =>
      if !isPlainName name then .error (.nameNotPlain name)
      else if name.toList.contains '#' || name.toList.contains '[' then
        .error (.nameHoldsMark name)
      else .ok name

theorem isRuleName_of_ruleName {v : Value} {name : Text} (h : ruleName v = .ok name) :
    isRuleName name = true := by
  unfold ruleName at h
  split at h
  · cases h
  · split at h
    · cases h
    · split at h
      · cases h
      · next hplain hmarks =>
          cases h
          simp_all [isRuleName]

theorem text?_of_ruleName {v : Value} {name : Text} (h : ruleName v = .ok name) :
    v.text? = some name := by
  unfold ruleName at h
  split at h
  · cases h
  · next text htext =>
      split at h
      · cases h
      · split at h
        · cases h
        · cases h
          exact htext

theorem ruleName_text_eq_ok_iff {name other : Text} :
    ruleName (.text name) = .ok other ↔ isRuleName name = true ∧ other = name := by
  simp only [ruleName, Value.text?, isRuleName]
  cases isPlainName name <;> cases name.toList.contains '#' <;>
    cases name.toList.contains '[' <;> simp [eq_comm]

end TextGrammar
