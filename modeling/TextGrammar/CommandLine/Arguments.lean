import TextGrammar.CommandLine.Word

/-!
# Arguments

The words of a command line, read from left to right. The first plain word names the rule book,
an option that takes a value takes the plain word after it, and words without a use are collected
and refused at the end. A separator is dropped where it stands beside the word that names the
rule book, and where it stands in the place of an option's value.
-/

namespace TextGrammar

namespace CommandLine

/-- What a command line says. -/
structure Arguments where
  rules : Text
  settings : Settings

/-- What has been read of a command line. -/
structure Draft where
  rules : Option Text
  settings : Settings
  unused : List Text

namespace Draft

def empty : Draft := ⟨none, .standard, []⟩

def leave (d : Draft) (words : List Text) : Draft := { d with unused := d.unused ++ words }

/-- Takes a plain word, with the separators beside it. -/
def take (d : Draft) (before : List Text) (text : Text) (behind : List Text) : Draft :=
  match d.rules with
  | none => { d with rules := some text }
  | some _ => d.leave (before ++ text :: behind)

/-- What is said in full: the rule book must be named and no word may be left. -/
def complete (d : Draft) : Except UsageFault Arguments :=
  match d.rules with
  | none => .error .rulesMissing
  | some rules =>
      if d.unused.isEmpty then .ok ⟨rules, d.settings⟩ else .error (.unrecognized d.unused)

end Draft

/-- Looks through what is attached to the short flag for help: more such flags, and nothing
else. -/
def checkCluster : List CodePoint → Except UsageFault Unit
  | [] => .ok ()
  | c :: rest =>
      if c = 'h' then checkCluster rest
      else .error (.option .help (.valueIgnored (Text.ofList (c :: rest))))

def checkAttached (spelling : Text) (setting : Setting) (attached : Text) :
    Except UsageFault Unit :=
  if spelling = "-h" && attached ≠ "" then checkCluster attached.toList
  else .error (.option setting (.valueIgnored attached))

/-- Reads the words of a command line; the answer is nothing where help is asked for. -/
def readWords (d : Draft) : List Word → Except UsageFault (Option Draft)
  | [] => .ok (some d)
  | .plain text :: .separator :: rest => readWords (d.take [] text ["--"]) rest
  | .plain text :: rest => readWords (d.take [] text []) rest
  | .separator :: .plain text :: rest => readWords (d.take ["--"] text []) rest
  | .separator :: rest => readWords (d.leave ["--"]) rest
  | .unknown text :: rest => readWords (d.leave [text]) rest
  | .option spelling setting (some attached) :: rest =>
      if setting.takesValue then
        if attached = "--" then
          readWords { d with settings := d.settings.leaveBlank setting } rest
        else
          match d.settings.assign setting attached with
          | .error fault => .error fault
          | .ok s => readWords { d with settings := s } rest
      else
        match checkAttached spelling setting attached with
        | .error fault => .error fault
        | .ok _ => .ok none
  | .option spelling setting none :: rest =>
      if setting = .help then .ok none
      else if setting.takesValue then
        match rest with
        | .plain value :: rest =>
            match d.settings.assign setting value with
            | .error fault => .error fault
            | .ok s => readWords { d with settings := s } rest
        | _ => .error (.option setting .valueMissing)
      else readWords { d with settings := d.settings.raise setting spelling } rest

/-- Reads a command line; the answer is nothing where help is asked for. -/
def readArguments (args : List Text) : Except UsageFault (Option Arguments) :=
  match Word.ofTexts args with
  | .error fault => .error fault
  | .ok words =>
      match readWords .empty words with
      | .error fault => .error fault
      | .ok none => .ok none
      | .ok (some d) => d.complete.map some

end CommandLine

end TextGrammar
