import TextGrammar.Text.Printable

/-!
# Quoted text

A text is shown between quotes where it has to be told apart from its surroundings: inside
the text of a list, or in a message that cites its input. The quote is single unless the text
holds a single quote and no double one. The quote itself, the backslash and three controls are
escaped by a letter or sign, every other code point that is not printable by its number.
-/

namespace TextGrammar

def hexPadded (width n : Nat) : List Char :=
  let digits := Nat.toDigits 16 n
  List.replicate (width - digits.length) '0' ++ digits

/-- The escape of a code point by its number, of the least width that holds it. -/
def codePointEscape (c : CodePoint) : List Char :=
  let n := c.toNat
  if n ≤ 0xff then '\\' :: 'x' :: hexPadded 2 n
  else if n ≤ 0xffff then '\\' :: 'u' :: hexPadded 4 n
  else '\\' :: 'U' :: hexPadded 8 n

def quotedChar (quote c : CodePoint) : List CodePoint :=
  if c = quote || c = '\\' then ['\\', c]
  else if c = '\n' then ['\\', 'n']
  else if c = '\r' then ['\\', 'r']
  else if c = '\t' then ['\\', 't']
  else if isPrintable c then [c]
  else (codePointEscape c).map .char

def quoteFor (cs : List CodePoint) : CodePoint :=
  if cs.contains '\'' && !cs.contains '\"' then '\"' else '\''

def quoted (text : Text) : Text :=
  let cs := text.toList
  let quote := quoteFor cs
  Text.ofList (quote :: (cs.flatMap (quotedChar quote) ++ [quote]))

end TextGrammar
