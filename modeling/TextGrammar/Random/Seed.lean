import TextGrammar.Fault
import TextGrammar.Random.Digest
import TextGrammar.Value

/-!
# Seeds

A source of randomness is seeded by a whole number. Other values can stand for one: a truth
value counts as one or zero, a text is a number by its bytes with their digest behind them, and a
floating point number has a residue as its number.
-/

namespace TextGrammar

def residueModulus : Nat := twoTo 61 - 1

/-- A number of 64 bits that is the same for numbers that are equal. The residue of a quotient is
taken with powers of two, of which the modulus makes the 61st one; the number minus one is
never answered, and infinity has a residue of its own. -/
def Binary64.residue : Binary64 → Int
  | .nan => 0
  | .infinity negative => if negative then -314159 else 314159
  | .finite negative units =>
      let r : Int := (units * twoTo 24 % residueModulus : Nat)
      if !negative then r else if r = 1 then -2 else -r

/-- The number of a text: its bytes, and behind them their digest. -/
def seedOfText (text : Text) : Except Fault Nat :=
  match text.string? with
  | none => .error (.notEncodable text)
  | some s =>
      let bytes := s.toUTF8.toList
      .ok (Digest.ofBytes bytes * twoTo 512 + Digest.digest bytes)

def seedOfValue (v : Value) : Except Fault Int :=
  match v with
  | .int n => .ok n
  | .bool b => .ok (if b then 1 else 0)
  | .text t => (seedOfText t).map Int.ofNat
  | .float x => .ok (x.residue % twoTo 64)
  | _ => .error .badSeed

end TextGrammar
