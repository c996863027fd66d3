import TextGrammar.Extension

/-!
# English modifiers

The modifiers for English text. Some are functions of a library for English, with its articles,
plurals and tenses: what these do is left open here, and any table of functions may stand for
them (`Base`). The others, for possession, quotes, commas and repetition, are defined below.
-/

namespace TextGrammar

namespace English

/-- The functions of a library for English, by name. Each is given a text that is not empty, and
the arguments. -/
abbrev Base := List (Text × (Text → List Text → Script (Option Text)))

/-- The functions of a library ask nothing of the engine. -/
def Base.Detached (base : Base) : Prop :=
  ∀ entry ∈ base, ∀ text args, (entry.2 text args).Detached

/-- The modifier of a function that is not given an empty or missing text. -/
def adapted (f : Text → List Text → Script (Option Text)) : Modifier := fun text args =>
  match text with
  | none => .done none
  | some t => if t.isEmpty then .done (some t) else f t args

/-- A text so many times in a row. -/
def repeated (text : Text) (n : Nat) : Except Fault Text :=
  if maxLength < n then .error .repeatOutOfRange
  else if 1 < n && maxLength / n < text.length then .error .repeatTooLong
  else if text.isEmpty then .ok text
  else if room < n * text.length then .error .outOfMemory
  else .ok (Text.ofList (List.replicate n text.toList).flatten)

def possessive : Modifier := .ofText fun text =>
  match text with
  | none => .fail .possessiveAbsent
  | some t => .done (some (t ++ (if t.toList.getLast? = some (.char 's') then "'" else "'s")))

def shownText (text : Option Text) : Text := text.getD "None"

def inQuotes : Modifier := .ofText fun text => .done (some ("\"" ++ shownText text ++ "\""))

def comma : Modifier := .ofText fun text =>
  match (text.getD "").toList.getLast? with
  | some c =>
      if ([',', '.', '?', '!'] : List CodePoint).contains c then .done text
      else .done (some (shownText text ++ ","))
  | none => .done (some (shownText text ++ ","))

def repeatText : Modifier := fun text args =>
  match args with
  | [arg] =>
      if isDigitText (strip arg) then
        match readInt arg with
        | .error fault => .fail (.numeral fault)
        | .ok n =>
            match text with
            | none => .fail .repeatAbsent
            | some t => .ofExcept ((repeated t n.toNat).map some)
      else .fail .badRepeat
  | _ => .fail .badRepeat

def own : List (Text × Modifier) :=
  [("possessive", possessive), ("inQuotes", inQuotes), ("comma", comma), ("repeat", repeatText)]

/-- The modifiers, by name. A name of both kinds keeps its place and has the modifier defined
here. -/
def modifiers (base : Base) : Lexicon Modifier :=
  .ofList (base.map (fun e => (e.1, adapted e.2)) ++ own)

end English

end TextGrammar
