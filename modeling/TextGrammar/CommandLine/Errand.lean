import TextGrammar.CommandLine.Setting
import TextGrammar.Summary
import TextGrammar.Text.Utf8

/-!
# Errands

A run of the command line asks its surroundings for a file or the standard input, for a seed, or
for a file to write to, and ends with a report. An `Errand` is such a run as a value: requests
with what is done with each answer. `Errand.runIn` gives the report in surroundings that are
known in full.
-/

namespace TextGrammar

namespace CommandLine

/-- Why a file cannot be had. -/
inductive FileFault where
  /-- There is no file of this name. -/
  | missing
  /-- No file can have this name. -/
  | badName
  /-- The system refuses, by number and in words. -/
  | refused (number : Nat) (words : Text)
deriving DecidableEq, Repr

namespace FileFault

def message (path : Text) : FileFault → Text
  | missing => path
  | badName => "embedded null byte"
  | refused number words => "[Errno " ++ toString number ++ "] " ++ words ++ ": " ++ quoted path

end FileFault

/-- How a run ends. -/
inductive Ending where
  | succeeded
  | failed (message : Text)
  | misused (fault : UsageFault)
  | helped
  | unknownLevel (name : Text)
  | blankLevel
deriving DecidableEq, Repr

namespace Ending

def code : Ending → Nat
  | succeeded | helped => 0
  | failed _ | unknownLevel _ | blankLevel => 1
  | misused _ => 2

end Ending

/-- What a run comes to: how it ends, its summary, the notices that are shown, and the file of
events with its name. -/
structure Report where
  ending : Ending
  summary : Option Summary
  notices : List Notice
  events : Option (Text × String)

namespace Report

def ofEnding (ending : Ending) : Report := ⟨ending, none, [], none⟩

def noticeLine (n : Notice) : Text :=
  n.level.name ++ " " ++ n.channel.name ++ ": " ++ n.message ++ "\n"

def failureLine : Ending → Text
  | .failed message => "parlance: " ++ message ++ "\n"
  | _ => ""

def output (r : Report) : String :=
  match r.summary with
  | some s => s.text
  | none => ""

def errorOutput (r : Report) : Text :=
  Text.join (r.notices.map noticeLine) ++ failureLine r.ending

end Report

/-- A run of the command line: requests, one after the other, and at last a report. -/
inductive Errand where
  /-- Ends. -/
  | finish (report : Report)
  /-- Reads the standard input. -/
  | readInput (next : Except Utf8Fault String → Errand)
  /-- Reads a file. -/
  | readFile (path : Text) (next : Except FileFault (List UInt8) → Errand)
  /-- Opens a file for writing, which empties it. -/
  | openFile (path : Text) (next : Except FileFault Unit → Errand)
  /-- Draws a seed. -/
  | drawSeed (next : Nat → Errand)

/-- All that a run may ask for. -/
structure Surroundings where
  input : Except Utf8Fault String
  file : Text → Except FileFault (List UInt8)
  opened : Text → Except FileFault Unit
  seed : Nat

/-- The report of a run in given surroundings. -/
def Errand.runIn (s : Surroundings) : Errand → Report
  | .finish report => report
  | .readInput next => (next s.input).runIn s
  | .readFile path next => (next (s.file path)).runIn s
  | .openFile path next => (next (s.opened path)).runIn s
  | .drawSeed next => (next s.seed).runIn s

end CommandLine

end TextGrammar
