import TextGrammar.CommandLine.Setting

/-!
# Words of the command line

Each word of a command line is plain, or an option, or the separator `--` after which every word
is plain. An option may be written with its value attached after an equals sign, and a long one
may be shortened as long as only one spelling begins so. A word that begins with a dash but is
no option is still plain if it is a negative number or holds a space.
-/

namespace TextGrammar

namespace CommandLine

/-- A word of the command line. A value may be attached to an option, behind an equals sign or
directly behind a short option. -/
inductive Word where
  | plain (text : Text)
  | separator
  | option (spelling : Text) (setting : Setting) (attached : Option Text)
  | unknown (text : Text)
deriving DecidableEq, Repr

namespace Word

def splitEquals (cs : List CodePoint) : List CodePoint × Option Text :=
  match cs.dropWhile (· ≠ .char '=') with
  | [] => (cs, none)
  | _ :: value => (cs.takeWhile (· ≠ .char '='), some (Text.ofList value))

/-- The options that a word starting with a dash may be meant for. -/
def candidates (cs : List CodePoint) : List Word :=
  if cs[1]? = some (.char '-') then
    let (name, attached) := splitEquals cs
    (Setting.spellings.filter fun s => name.isPrefixOf s.1.toList).map fun s =>
      .option s.1 s.2 attached
  else
    Setting.spellings.filterMap fun s =>
      if s.1.toList = cs.take 2 then
        some (.option s.1 s.2 (some (Text.ofList (cs.drop 2))))
      else if cs.isPrefixOf s.1.toList then some (.option s.1 s.2 none)
      else none

/-- Whether characters are digits; a line feed may follow them. -/
def areDigits (cs : List CodePoint) : Bool :=
  let digits := if cs.getLast? = some (.char '\n') then cs.dropLast else cs
  !digits.isEmpty && digits.all fun c => (decimalValue? c).isSome

/-- Whether characters write a negative number: a dash, and digits with a point among them or
without one. -/
def isNegative : List CodePoint → Bool
  | .char '-' :: cs =>
      areDigits cs ||
        match cs.dropWhile fun c => (decimalValue? c).isSome with
        | .char '.' :: rest => areDigits rest
        | _ => false
  | _ => false

def ofDashed (text : Text) : Except UsageFault Word :=
  let cs := text.toList
  match Setting.spellings.lookup text with
  | some setting => .ok (.option text setting none)
  | none =>
      let (name, attached) := splitEquals cs
      match attached, Setting.spellings.lookup (Text.ofList name) with
      | some a, some setting => .ok (.option (Text.ofList name) setting (some a))
      | _, _ =>
          match candidates cs with
          | [w] => .ok w
          | [] =>
              if isNegative cs || cs.contains ' ' then .ok (.plain text)
              else .ok (.unknown text)
          | several => .error (.ambiguous text (several.filterMap fun w =>
              match w with
              | .option spelling _ _ => some spelling
              | _ => none))

def ofText (text : Text) : Except UsageFault Word :=
  match text.toList with
  | .char '-' :: _ :: _ => ofDashed text
  | _ => .ok (.plain text)

def ofTexts : List Text → Except UsageFault (List Word)
  | [] => .ok []
  | text :: rest =>
      if text = "--" then .ok (.separator :: rest.map .plain)
      else
        match ofText text with
        | .error fault => .error fault
        | .ok w => (ofTexts rest).map (w :: ·)

end Word

end CommandLine

end TextGrammar
