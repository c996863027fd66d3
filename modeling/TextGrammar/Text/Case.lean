import TextGrammar.Text.CaseTable
import TextGrammar.Text.Basic

/-!
# Upper, lower and title case

Texts in another case, by the full mappings of Unicode: a character may become several. A
capital sigma at the end of a word becomes a final sigma; it is at the end where, with the
characters that casing passes over left aside, a cased character stands before it and none
after it. In title case a character after a cased one is lowered, and every other one begins a
title.
-/

namespace TextGrammar

def mapInRanges? (ranges : List (Nat × Nat × Nat × Int)) (n : Nat) : Option Nat :=
  (ranges.find? fun (first, last, stride, _) =>
    first ≤ n && n ≤ last && (n - first) % stride = 0).map
      fun (_, _, _, offset) => ((n : Int) + offset).toNat

/-- The image of a character under full and simple mappings, if they hold it. -/
def mapCase? (sequences : List (Nat × List Nat)) (ranges : List (Nat × Nat × Nat × Int))
    (c : CodePoint) : Option (List CodePoint) :=
  match sequences.lookup c.toNat with
  | some ns => some (ns.map fun n => .char (Char.ofNat n))
  | none => (mapInRanges? ranges c.toNat).map fun n => [.char (Char.ofNat n)]

def upperChar (c : CodePoint) : List CodePoint := (mapCase? upperSequences upperRanges c).getD [c]

/-- A character in lower case, sigma apart. -/
def lowerChar (c : CodePoint) : List CodePoint := (mapCase? lowerSequences lowerRanges c).getD [c]

def titleChar (c : CodePoint) : List CodePoint :=
  (mapCase? titleSequences titleRanges c).getD (upperChar c)

def isCased (c : CodePoint) : Bool := CodePoint.inRanges casedRanges c

def isCaseIgnorable (c : CodePoint) : Bool := CodePoint.inRanges caseIgnorableRanges c

/-- Whether the first character that casing does not pass over is cased. -/
def meetsCased (cs : List CodePoint) : Bool :=
  match cs.dropWhile isCaseIgnorable with
  | [] => false
  | c :: _ => isCased c

/-- A character in lower case, between the characters before it, nearest first, and those after
it. -/
def lowerCharAt (before : List CodePoint) (c : CodePoint) (after : List CodePoint) :
    List CodePoint :=
  if c = 'Σ' then (if meetsCased before && !meetsCased after then ['ς'] else ['σ'])
  else lowerChar c

/-- Characters in lower case after those of `before`, which come nearest first. -/
def lowerChars (before : List CodePoint) : List CodePoint → List CodePoint
  | [] => []
  | c :: rest => lowerCharAt before c rest ++ lowerChars (c :: before) rest

/-- Characters in title case after those of `before`, which come nearest first. -/
def titleChars (before : List CodePoint) : List CodePoint → List CodePoint
  | [] => []
  | c :: rest =>
      (match before with
        | [] => titleChar c
        | b :: _ => if isCased b then lowerCharAt before c rest else titleChar c) ++
        titleChars (c :: before) rest

def upperCase (text : Text) : Text := Text.ofList (text.toList.flatMap upperChar)

def lowerCase (text : Text) : Text := Text.ofList (lowerChars [] text.toList)

def titleCase (text : Text) : Text := Text.ofList (titleChars [] text.toList)

end TextGrammar
