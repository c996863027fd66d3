import TextGrammar.Batch

/-!
# Summaries

What a run of the command line comes to, as a value to be written: the state of the rule book,
or the answers of a batch with the counts of the rules.
-/

namespace TextGrammar

/-- The names of a book that no rule has, each once and sorted. -/
def droppedNames (book : List Text) (rules : List Text) : List Text :=
  sortedTexts (distinct (book.filter fun name => !rules.contains name))

/-- A summary. -/
inductive Summary where
  /-- The rules of a book, the names that were dropped, and what analysis found. -/
  | book (rules dropped : List Text) (findings : List Finding)
  /-- The answers of a batch, with what they were made with and the counts of the rules. -/
  | batch (origin : Origin) (policy : TaggingPolicy) (seed : Option Int)
      (answers : List Text) (counts : RuleCounts) (failures : Nat)

namespace Summary

def texts (ts : List Text) : Value := .list (ts.map .text)

def finding (f : Finding) : Value :=
  .table [("rule", .text f.rule), ("kind", .text f.kindName), ("detail", .text f.detail)]

def counts (c : RuleCounts) : Value := .table (c.entries.map fun e => (e.1, .int e.2))

def value : Summary → Value
  | book rules dropped findings =>
      .table [("rules", texts rules), ("dropped", texts dropped),
        ("findings", .list (findings.map finding))]
  | batch origin policy seed answers c failures =>
      .table [("origin", origin.value), ("tagging", .text policy.name),
        ("seed", match seed with | some n => .int n | none => .null),
        ("results", texts answers), ("rule_counts", counts c), ("errors", .int failures)]

def text (s : Summary) : String := writeJsonIndented s.value ++ "\n"

end Summary

end TextGrammar
