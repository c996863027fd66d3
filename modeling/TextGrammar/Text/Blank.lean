import TextGrammar.Text.Basic

/-!
# Blank characters

The blanks are the characters with the white space property and the four separators U+001C to
U+001F. Names are stripped of them at both ends; the zero-width space is no blank.
-/

namespace TextGrammar

def blankRanges : List (Nat × Nat) := [
  (9, 13), (28, 32), (133, 133), (160, 160), (5760, 5760), (8192, 8202), (8232, 8233),
  (8239, 8239), (8287, 8287), (12288, 12288)]

def isBlank (c : CodePoint) : Bool := CodePoint.inRanges blankRanges c

def stripChars (cs : List CodePoint) : List CodePoint :=
  ((cs.dropWhile isBlank).reverse.dropWhile isBlank).reverse

def strip (text : Text) : Text := Text.ofList (stripChars text.toList)

end TextGrammar
