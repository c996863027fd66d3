import TextGrammar.Text.Basic

/-!
# Surrogate pairs

UTF-16 writes a code point beyond U+FFFF as two units: a high surrogate, and a low one behind it.
Whoever reads units joins such a pair into the one code point again, also where a text held the two
surrogates by themselves.
-/

namespace TextGrammar

namespace CodePoint

def isHigh (c : CodePoint) : Bool := 0xd800 ≤ c.toNat && c.toNat < 0xdc00

def isLow (c : CodePoint) : Bool := 0xdc00 ≤ c.toNat && c.toNat < 0xe000

def units (c : CodePoint) : List Nat :=
  if c.toNat < 0x10000 then [c.toNat]
  else [0xd800 + (c.toNat - 0x10000) / 0x400, 0xdc00 + (c.toNat - 0x10000) % 0x400]

/-- The code point of a high and a low surrogate. -/
def ofPair (high low : CodePoint) : CodePoint :=
  ofNat (0x10000 + (high.toNat - 0xd800) * 0x400 + (low.toNat - 0xdc00))

/-- Joins every high surrogate and low one directly behind it. -/
def joinPairs : List CodePoint → List CodePoint
  | c :: d :: rest =>
      if c.isHigh && d.isLow then ofPair c d :: joinPairs rest else c :: joinPairs (d :: rest)
  | cs => cs

end CodePoint

def Text.joinPairs (t : Text) : Text := .ofList (CodePoint.joinPairs t.toList)

end TextGrammar
