import TextGrammar.CommandLine.Program
import TextGrammar.CommandLine.Usage
import TextGrammar.Modifier.Base

/-!
# The command line program

Carries out an errand with the files, streams and randomness of the system, and writes its
report.
-/

namespace TextGrammar

namespace CommandLine

/-- The fault of a refused file. -/
def FileFault.ofError : IO.Error → FileFault
  | .noFileOrDirectory .. => .refused 2 "No such file or directory"
  | .permissionDenied .. => .refused 13 "Permission denied"
  | .inappropriateType _ code _ =>
      if code = 21 then .refused 21 "Is a directory" else .refused 20 "Not a directory"
  | fault => .refused 5 fault.toString

def FileFault.ofReading (fault : IO.Error) : FileFault :=
  match FileFault.ofError fault with
  | .refused 2 _ | .refused 20 _ => .missing
  | answer => answer

/-- The string that a text is written as where it must be one: a surrogate by its escape. -/
def shownString (text : Text) : String :=
  String.ofList <| text.toList.flatMap fun
    | .char c => [c]
    | .surrogate offset => codePointEscape (.surrogate offset)

/-- All bytes of a stream. -/
partial def readAll (stream : IO.FS.Stream) (read : ByteArray) : IO ByteArray := do
  let bytes ← stream.read 65536
  if bytes.isEmpty then pure read else readAll stream (read ++ bytes)

def textOf (bytes : ByteArray) : Except Utf8Fault String :=
  (Utf8.decode bytes.toList).map fun cs => String.ofList (unifyLineEnds cs)

def Errand.carryOut : Errand → IO Report
  | .finish report => pure report
  | .readInput next => do
      let bytes ← readAll (← IO.getStdin) .empty
      (next (textOf bytes)).carryOut
  | .readFile path next => do
      let answer ← (IO.FS.readBinFile (shownString path)).toBaseIO
      (next ((answer.map ByteArray.toList).mapError .ofReading)).carryOut
  | .openFile path next => do
      let answer ← (IO.FS.writeFile (shownString path) "").toBaseIO
      (next (answer.mapError .ofError)).carryOut
  | .drawSeed next => do
      let bytes ← IO.getRandomBytes 32
      (next (bytes.toList.foldl (fun n b => n * 256 + b.toNat) 0)).carryOut

def lastWords : Ending → Text
  | .misused fault => (usageText : Text) ++ "parlance: error: " ++ fault.message ++ "\n"
  | .unknownLevel name => "ValueError: Unknown level: " ++ quoted name ++ "\n"
  | .blankLevel => "AttributeError: 'list' object has no attribute 'upper'\n"
  | _ => ""

def Report.write (r : Report) : IO Unit := do
  if let some (path, text) := r.events then
    IO.FS.writeFile (shownString path) text
  IO.eprint (shownString (r.errorOutput ++ lastWords r.ending))
  IO.print (r.output ++ if r.ending = .helped then helpText else "")

end CommandLine

end TextGrammar

open TextGrammar TextGrammar.CommandLine in
/-- Runs the program with the words of its command line; the answer is the exit code. -/
def main (args : List String) : IO UInt32 := do
  let report ← (program English.base (args.map Text.ofString)).carryOut
  report.write
  pure (UInt32.ofNat report.ending.code)
