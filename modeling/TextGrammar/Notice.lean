import TextGrammar.Origin
import TextGrammar.Tag.Store

/-!
# Notices

What the engine reports beside its answers. A notice is kept as what happened; its level, the
channel it goes to and its wording are read off it.
-/

namespace TextGrammar

/-- How urgent a notice is, the least urgent first. -/
inductive Level where
  | debug
  | info
  | warning
  | error
deriving DecidableEq, Repr

namespace Level

/-- The rank of a level; a higher rank is more urgent. -/
def rank : Level → Nat
  | debug => 10
  | info => 20
  | warning => 30
  | error => 40

def name : Level → Text
  | debug => "DEBUG"
  | info => "INFO"
  | warning => "WARNING"
  | error => "ERROR"

end Level

/-- The part of the engine that a notice comes from. -/
inductive Channel where
  | rules
  | grammar
  | runtime
  | analysis
deriving DecidableEq, Repr

namespace Channel

def name : Channel → Text
  | rules => "parlance.rules"
  | grammar => "parlance.grammar"
  | runtime => "parlance.runtime"
  | analysis => "parlance.analysis"

end Channel

/-- The ways in which a modifier is installed. -/
inductive ModifierSort where
  | modifier
  | call
  | method
deriving DecidableEq, Repr

namespace ModifierSort

def name : ModifierSort → Text
  | modifier => "modifier"
  | call => "call"
  | method => "method"

end ModifierSort

/-- One thing that happened. -/
inductive Notice where
  /-- A candidate text of a rule is about to be read. -/
  | checking (rule text : Text)
  /-- A candidate text was dropped. -/
  | candidateDropped (rule : Text) (fault : MarkupFault) (text : Text)
  /-- No candidate of a definition was left. -/
  | nothingDefined (rule : Text)
  /-- A rule name was refused. -/
  | nameRefused (fault : Fault)
  /-- A rule is being defined again. -/
  | duplicateRule (rule : Text)
  /-- The rule book of an engine has been read. -/
  | ready (rules : Nat) (policy : TaggingPolicy)
  /-- A modifier is being replaced. -/
  | overwriting (sort : ModifierSort) (name : Text)
  /-- A selector was given for a rule that there is not. -/
  | noSuchRule (rule : Text)
  /-- An expansion was stopped by an overflow. -/
  | overflowed (origin : Origin)
  /-- An expansion was stopped by another fault. -/
  | failed (origin : Origin) (fault : Fault)
  /-- A reference names neither a rule nor a tag. -/
  | unresolved (name : Text)
  /-- Analysis found something about a rule. -/
  | finding (rule detail : Text)
deriving DecidableEq, Repr

namespace Notice

def level : Notice → Level
  | checking .. => .debug
  | ready .. => .info
  | nothingDefined _ | duplicateRule _ | overwriting .. | noSuchRule _ | unresolved _
  | finding .. => .warning
  | candidateDropped .. | nameRefused _ | overflowed _ | failed .. => .error

def channel : Notice → Channel
  | checking .. | candidateDropped .. | nothingDefined _ => .rules
  | nameRefused _ | duplicateRule _ | ready .. | overwriting .. | noSuchRule _ | overflowed _
  | failed .. => .grammar
  | unresolved _ => .runtime
  | finding .. => .analysis

def message : Notice → Text
  | checking rule text => "checking rule '" ++ rule ++ "' - " ++ text
  | candidateDropped rule fault text =>
      "rule '" ++ rule ++ "' parse error - " ++ fault.message ++ " in definition - " ++ text
  | nothingDefined rule =>
      "rule '" ++ rule ++ "' does not have any definitions, will be ignored"
  | nameRefused fault => fault.message
  | duplicateRule rule => "duplicate rule '" ++ rule ++ "', using latest definition"
  | ready rules policy =>
      "grammar ready (" ++ toString rules ++ " rules, " ++ policy.name ++ " tagging)"
  | overwriting sort name => "overwriting " ++ sort.name ++ " '" ++ name ++ "'"
  | noSuchRule rule => "rule '" ++ rule ++ "' not found to set selector"
  | overflowed origin => "stack overflow while expanding " ++ origin.shown
  | failed origin fault => "expansion of " ++ origin.shown ++ " failed: " ++ fault.message
  | unresolved name => "no rule or tag named '" ++ name ++ "'"
  | finding rule detail => "rule '" ++ rule ++ "': " ++ detail

end Notice

end TextGrammar
