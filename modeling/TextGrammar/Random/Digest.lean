import TextGrammar.Number.Power

/-!
# The 512-bit digest

The secure hash of 512 bits. A message is padded to whole blocks of sixteen 64-bit words; the
words of a block are stretched to eighty, and each of them stirs a chain of eight words once. The
constants are not written down but computed: they are the first 64 binary places of the square
and cube roots of the first primes.
-/

namespace TextGrammar

namespace Digest

def isPrime (n : Nat) : Bool := 2 ≤ n && (List.range n).all fun d => d < 2 || n % d ≠ 0

def primes : List Nat := (List.range 410).filter isPrime

/-- The greatest number below a power of two of which `fits` holds, where `fits` holds of zero and
below everything of which it holds. -/
def greatest (fits : Nat → Bool) (bits : Nat) : Nat :=
  (List.range bits).foldr (fun i root => if fits (root + twoTo i) then root + twoTo i else root) 0

/-- The first 64 binary places of the square root of a number below a thousand. -/
def squareRootPlaces (n : Nat) : UInt64 :=
  UInt64.ofNat (greatest (fun r => r * r ≤ n * twoTo 128) 69)

/-- The first 64 binary places of the cube root of a number below a thousand. -/
def cubeRootPlaces (n : Nat) : UInt64 :=
  UInt64.ofNat (greatest (fun r => r * r * r ≤ n * twoTo 192) 68)

def firstChain : List UInt64 := (primes.take 8).map squareRootPlaces

def roundWords : List UInt64 := primes.map cubeRootPlaces

/-- A message with a mark behind it, zeros, and its length in bits, in whole blocks. -/
def padded (message : List UInt8) : List UInt8 :=
  let zeros := (128 - (message.length + 17) % 128) % 128
  let bits := 8 * message.length
  message ++ 0x80 :: List.replicate zeros 0 ++
    (List.range 16).map fun i => UInt8.ofNat (bits / twoTo (8 * (15 - i)))

/-- The number that bytes write, the most significant first. -/
def ofBytes (bytes : List UInt8) : Nat := bytes.foldl (fun n b => n * 256 + b.toNat) 0

def ofWords (words : List UInt64) : Nat := words.foldl (fun n w => n * twoTo 64 + w.toNat) 0

/-- The pieces of `size` items that a list is cut into, without a rest that is shorter. -/
def pieces {α : Type} (size : Nat) (items : List α) : List (List α) :=
  (List.range (items.length / size)).map fun i => (items.drop (size * i)).take size

def blocks (bytes : List UInt8) : List (List UInt64) :=
  pieces 16 ((pieces 8 bytes).map fun word => UInt64.ofNat (ofBytes word))

/-- A word turned to the right. -/
def turned (w : UInt64) (n : UInt64) : UInt64 := (w >>> n) ||| (w <<< (64 - n))

/-- The words of a block, stretched to eighty. -/
def schedule (block : List UInt64) : Array UInt64 :=
  (List.range 64).foldl
    (fun (ws : Array UInt64) i =>
      let word := fun (place : Nat) => ws.getD (i + place) 0
      let early := word 1
      let late := word 14
      ws.push (word 0 + (turned early 1 ^^^ turned early 8 ^^^ (early >>> 7)) + word 9 +
        (turned late 19 ^^^ turned late 61 ^^^ (late >>> 6))))
    block.toArray

def stirChain (chain : List UInt64) (word : UInt64) : List UInt64 :=
  match chain with
  | [a, b, c, d, e, f, g, h] =>
      let one := h + (turned e 14 ^^^ turned e 18 ^^^ turned e 41) +
        ((e &&& f) ^^^ ((~~~ e) &&& g)) + word
      let two := (turned a 28 ^^^ turned a 34 ^^^ turned a 39) +
        ((a &&& b) ^^^ (a &&& c) ^^^ (b &&& c))
      [one + two, a, b, c, d + one, e, f, g]
  | _ => chain

def takeBlock (chain : List UInt64) (block : List UInt64) : List UInt64 :=
  let words := List.zipWith (· + ·) roundWords (schedule block).toList
  List.zipWith (· + ·) chain (words.foldl stirChain chain)

def digest (message : List UInt8) : Nat :=
  ofWords ((blocks (padded message)).foldl takeBlock firstChain)

end Digest

end TextGrammar
