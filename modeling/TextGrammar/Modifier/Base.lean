import TextGrammar.Modifier.English
import TextGrammar.Text.Case

/-!
# A library for English

A table of functions for `English.modifiers`, for the program to run with: case, the indefinite
article, plural and past tense, and replacement. Endings are recognised in lower case only. What is
proved about the program is proved for every table, this one among them.
-/

namespace TextGrammar

namespace English

def isVowel (c : CodePoint) : Bool := ("aeiou" : Text).toList.contains c

/-- Replaces every occurrence of a text that is not empty, from left to right and without
overlaps. `skip` characters belong to an occurrence that has been replaced. -/
def replaceFrom (old new : List CodePoint) (skip : Nat) : List CodePoint → List CodePoint
  | [] => []
  | c :: rest =>
      match skip with
      | more + 1 => replaceFrom old new more rest
      | 0 =>
          if old.isPrefixOf (c :: rest) then
            new ++ replaceFrom old new (old.length - 1) rest
          else c :: replaceFrom old new 0 rest

/-- Replaces every occurrence of a text; the empty text occurs before every character and at
the end. -/
def replaceChars (old new cs : List CodePoint) : List CodePoint :=
  if old.isEmpty then new ++ cs.flatMap (fun c => c :: new) else replaceFrom old new 0 cs

/-- The plural: `es` after a hiss, `ies` for a `y` after a consonant, else `s`. -/
def plural (cs : List CodePoint) : Except Fault (List CodePoint) :=
  match cs.reverse with
  | [] => .error .missingCharacter
  | last :: before =>
      if ("shx" : Text).toList.contains last then .ok (cs ++ ("es" : Text).toList)
      else if last = 'y' then
        match before with
        | [] => .error .missingCharacter
        | c :: _ =>
            if isVowel c then .ok (cs ++ [.char 's'])
            else .ok (before.reverse ++ ("ies" : Text).toList)
      else .ok (cs ++ [.char 's'])

/-- The past tense: `d` after an `e`, `ied` for a `y` after a consonant, else `ed`. A `y` after
a vowel has none. -/
def past (cs : List CodePoint) : Except Fault (Option (List CodePoint)) :=
  match cs.reverse with
  | [] => .error .missingCharacter
  | last :: before =>
      if last = 'e' then .ok (some (cs ++ [.char 'd']))
      else if last = 'y' then
        match before with
        | [] => .error .missingCharacter
        | c :: _ =>
            if isVowel c then .ok none else .ok (some (before.reverse ++ ("ied" : Text).toList))
      else .ok (some (cs ++ ("ed" : Text).toList))

/-- The indefinite article that a text takes. Before `u`, any character and `i` it is `a`. -/
def article (cs : List CodePoint) : List CodePoint :=
  let lower := fun (c : CodePoint) => lowerChar c
  match cs with
  | first :: _ :: third :: _ =>
      if lower first = [.char 'u'] && lower third = [.char 'i'] then ['a']
      else if (lower first).all isVowel then ['a', 'n'] else ['a']
  | first :: _ => if (lower first).all isVowel then ['a', 'n'] else ['a']
  | [] => ['a']

/-- The function of a text of characters that ignores its arguments. -/
def onChars (f : List CodePoint → Except Fault (Option (List CodePoint))) (text : Text)
    (_ : List Text) : Except Fault (Option Text) :=
  (f text.toList).map fun r => r.map Text.ofList

def replace (text : Text) (args : List Text) : Except Fault (Option Text) :=
  match args with
  | old :: new :: _ => .ok (some (.ofList (replaceChars old.toList new.toList text.toList)))
  | _ => .error .missingArgument

def capitalize : List CodePoint → List CodePoint
  | [] => []
  | c :: rest => upperChar c ++ rest

def pluralFirst (cs : List CodePoint) : Except Fault (List CodePoint) :=
  (plural (cs.takeWhile (· ≠ .char ' '))).map (· ++ cs.dropWhile (· ≠ .char ' '))

def functions : List (Text × (Text → List Text → Except Fault (Option Text))) :=
  [("replace", replace),
    ("capitalizeAll", fun text _ => .ok (some (titleCase text))),
    ("capitalize", onChars fun cs => .ok (some (capitalize cs))),
    ("a", onChars fun cs => .ok (some (article cs ++ .char ' ' :: cs))),
    ("firstS", onChars fun cs => (pluralFirst cs).map some),
    ("s", onChars fun cs => (plural cs).map some),
    ("ed", onChars past),
    ("uppercase", fun text _ => .ok (some (upperCase text))),
    ("lowercase", fun text _ => .ok (some (lowerCase text)))]

def base : Base := functions.map fun e => (e.1, fun text args => .ofExcept (e.2 text args))

theorem detached_base : base.Detached := by
  intro entry hentry text args
  obtain ⟨f, -, rfl⟩ := List.mem_map.1 hentry
  exact Script.detached_ofExcept _

end English

end TextGrammar
