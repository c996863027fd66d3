import TextGrammar.Origin
import TextGrammar.Tag.Store
import TextGrammar.Text.Numeral

/-!
# Settings of the command line

What a command line can say: the rule book to use and, by options, everything else. Some options
take a value and some are flags. A `Setting` is what an option is about, and `Settings` are the
values of all of them.

A separator in the place of an option's value leaves a blank. The setting is then given, and yet
has no value; whoever needs one finds out.
-/

namespace TextGrammar

namespace CommandLine

/-- What an option of the command line is about. -/
inductive Setting where
  | help
  | origin
  | count
  | seed
  | tagging
  | maxDepth
  | english
  | analysis
  | trace
  | dryRun
  | logLevel
deriving DecidableEq, Repr

namespace Setting

def label : Setting → Text
  | help => "-h/--help"
  | origin => "--origin"
  | count => "--count"
  | seed => "--seed"
  | tagging => "--tagging"
  | maxDepth => "--max-depth"
  | english => "--english"
  | analysis => "--analyze/--no-analyze"
  | trace => "--trace-jsonl"
  | dryRun => "--dry-run"
  | logLevel => "--log-level"

def takesValue : Setting → Bool
  | help | english | analysis | dryRun => false
  | _ => true

def spellings : List (Text × Setting) :=
  [("-h", help), ("--help", help), ("--origin", origin), ("--count", count), ("--seed", seed),
    ("--tagging", tagging), ("--max-depth", maxDepth), ("--english", english),
    ("--analyze", analysis), ("--no-analyze", analysis), ("--trace-jsonl", trace),
    ("--dry-run", dryRun), ("--log-level", logLevel)]

end Setting

/-- What an option says: a value, or a blank in the place of one. -/
inductive Given (α : Type) where
  | blank
  | value (a : α)
deriving DecidableEq, Repr

namespace Given

/-- The value that is given; a blank is the fault of whoever needs a value. -/
def orFault {α : Type} (fault : Fault) : Given α → Except Fault α
  | blank => .error fault
  | value a => .ok a

@[simp] theorem orFault_blank {α : Type} (fault : Fault) :
    (blank : Given α).orFault fault = .error fault := rfl

@[simp] theorem orFault_value {α : Type} (fault : Fault) (a : α) :
    (value a).orFault fault = .ok a := rfl

end Given

/-- The values of all settings. -/
structure Settings where
  origin : Origin
  count : Given Int
  seed : Option (Given Int)
  tagging : Given TaggingPolicy
  maxDepth : Option (Given Int)
  english : Bool
  analysis : Bool
  trace : Option Text
  dryRun : Bool
  logLevel : Given Text

namespace Settings

def standard : Settings where
  origin := .text "#origin#"
  count := .value 1
  seed := none
  tagging := .value .flat
  maxDepth := none
  english := false
  analysis := true
  trace := none
  dryRun := false
  logLevel := .value "WARNING"

end Settings

/-- What is wrong with an option. -/
inductive OptionProblem where
  | notWhole (value : Text)
  | unknownPolicy (value : Text)
  | valueMissing
  | valueIgnored (value : Text)
deriving DecidableEq, Repr

namespace OptionProblem

def words : OptionProblem → Text
  | notWhole value => "invalid int value: " ++ quoted value
  | unknownPolicy value =>
      "invalid choice: " ++ quoted value ++ " (choose from " ++
        .intercalate ", " ([TaggingPolicy.flat, .nested].map fun p => quoted p.name) ++ ")"
  | valueMissing => "expected one argument"
  | valueIgnored value => "ignored explicit argument " ++ quoted value

end OptionProblem

/-- Why a command line is refused. -/
inductive UsageFault where
  | ambiguous (word : Text) (spellings : List Text)
  | option (setting : Setting) (problem : OptionProblem)
  | rulesMissing
  | unrecognized (words : List Text)
deriving DecidableEq, Repr

namespace UsageFault

def message : UsageFault → Text
  | ambiguous word spellings =>
      "ambiguous option: " ++ word ++ " could match " ++ .intercalate ", " spellings
  | option setting problem => "argument " ++ setting.label ++ ": " ++ problem.words
  | rulesMissing => "the following arguments are required: rules"
  | unrecognized words => "unrecognized arguments: " ++ .intercalate " " words

end UsageFault

namespace Settings

def wholeOf (setting : Setting) (value : Text) : Except UsageFault Int :=
  (readInt value).mapError fun _ => .option setting (.notWhole value)

def assign (s : Settings) (setting : Setting) (value : Text) : Except UsageFault Settings :=
  match setting with
  | .origin => .ok { s with origin := .text value }
  | .count => (wholeOf setting value).map fun n => { s with count := .value n }
  | .seed => (wholeOf setting value).map fun n => { s with seed := some (.value n) }
  | .tagging =>
      match TaggingPolicy.ofName? value with
      | some p => .ok { s with tagging := .value p }
      | none => .error (.option setting (.unknownPolicy value))
  | .maxDepth => (wholeOf setting value).map fun n => { s with maxDepth := some (.value n) }
  | .trace => .ok { s with trace := some value }
  | .logLevel => .ok { s with logLevel := .value value }
  | .help | .english | .analysis | .dryRun => .ok s

/-- Leaves a blank in the place of a setting's value. A trace without a name is none. -/
def leaveBlank (s : Settings) (setting : Setting) : Settings :=
  match setting with
  | .origin => { s with origin := .blank }
  | .count => { s with count := .blank }
  | .seed => { s with seed := some .blank }
  | .tagging => { s with tagging := .blank }
  | .maxDepth => { s with maxDepth := some .blank }
  | .trace => { s with trace := none }
  | .logLevel => { s with logLevel := .blank }
  | .help | .english | .analysis | .dryRun => s

/-- Raises a flag; the spelling tells one flag from its opposite. -/
def raise (s : Settings) (setting : Setting) (spelling : Text) : Settings :=
  match setting with
  | .english => { s with english := true }
  | .analysis => { s with analysis := spelling ≠ "--no-analyze" }
  | .dryRun => { s with dryRun := true }
  | _ => s

end Settings

end CommandLine

end TextGrammar
