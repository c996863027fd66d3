import TextGrammar.Json.Reading
import TextGrammar.Rule.Definition

/-!
# Rule books in JSON

A rule book is written as one JSON table from rule names to definitions. Its entries keep their
order, and a name may come more than once; inside a definition the last entry of a name wins.
-/

namespace TextGrammar

namespace CommandLine

/-- Why a text is no rule book. -/
inductive BookFault where
  | json (fault : JsonFault)
  | noTable
deriving DecidableEq, Repr

namespace BookFault

def message : BookFault → Text
  | json fault => fault.message
  | noTable => "rule book must be a JSON object mapping rule names to definitions"

end BookFault

def readBook (text : String) : Except BookFault (List (Text × Definition)) :=
  match readJson (some maxDigits) text with
  | .error fault => .error (.json fault)
  | .ok (.table entries) => .ok (entries.map fun e => (e.1, .ofValue e.2.collapse))
  | .ok _ => .error .noTable

end CommandLine

end TextGrammar
