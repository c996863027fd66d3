import TextGrammar.Random.Source

/-!
# The Mersenne twister

A generator of 32-bit words with a state of 624 words, seeded from a whole number. From the
words come bits of any count, numbers below a bound by drawing until one is small enough, and
random orders by the usual exchange of each place with one at or before it, last place first.
-/

namespace TextGrammar

/-- The state of a Mersenne twister: its words, and how many of them have been used. -/
structure Twister where
  words : Array UInt32
  used : Nat

namespace Twister

def size : Nat := 624

/-- The distance at which words are combined. -/
def shift : Nat := 397

/-- The word at a place; a place beyond the state holds zero. -/
def word (ws : Array UInt32) (i : Nat) : UInt32 := ws.getD i 0

/-- The words that a single 32-bit word seeds. -/
def wordsOfWord (seed : UInt32) : Array UInt32 :=
  (List.range (size - 1)).foldl
    (fun (ws : Array UInt32) i =>
      let before := word ws i
      ws.push ((1812433253 : UInt32) * (before ^^^ (before >>> 30)) + UInt32.ofNat (i + 1)))
    #[seed]

/-- Stirs the place `i`: its word is combined with the word before it by `mix`. The answer
holds the next place; after the last one comes the second, and the first takes the last
word. -/
def stir (mix : UInt32 → UInt32 → UInt32) (ws : Array UInt32) (i : Nat) :
    Array UInt32 × Nat :=
  let before := word ws (i - 1)
  let ws := ws.setIfInBounds i (mix (word ws i) (before ^^^ (before >>> 30)))
  if i + 1 < size then (ws, i + 1)
  else (ws.setIfInBounds 0 (word ws (size - 1)), 1)

/-- The words that a key of 32-bit words seeds. -/
def wordsOfKey (key : Array UInt32) : Array UInt32 :=
  let first := (List.range (max size key.size)).foldl
    (fun (ws, i) k =>
      let j := k % key.size
      stir (fun w b => (w ^^^ (b * 1664525)) + key.getD j 0 + UInt32.ofNat j) ws i)
    (wordsOfWord 19650218, 1)
  let second := (List.range (size - 1)).foldl
    (fun (ws, i) _ => stir (fun w b => (w ^^^ (b * 1566083941)) - UInt32.ofNat i) ws i)
    first
  second.1.setIfInBounds 0 0x80000000

/-- The 32-bit words of a number, least significant first; zero has one word. -/
def keyWords (n : Nat) : Array UInt32 :=
  ((List.range (max 1 ((n.log2 + 32) / 32))).map fun i => UInt32.ofNat (n >>> (32 * i))).toArray

/-- The twister seeded by a whole number; the sign does not count. -/
def ofSeed (seed : Int) : Twister := ⟨wordsOfKey (keyWords seed.natAbs), size⟩

/-- The next 624 words of the sequence. -/
def regenerate (ws : Array UInt32) : Array UInt32 :=
  (List.range size).foldl
    (fun (ws : Array UInt32) i =>
      let y := (word ws i &&& 0x80000000) ||| (word ws ((i + 1) % size) &&& 0x7fffffff)
      let magic : UInt32 := if y &&& 1 = 0 then 0 else 0x9908b0df
      ws.setIfInBounds i (word ws ((i + shift) % size) ^^^ (y >>> 1) ^^^ magic))
    ws

/-- Spreads the bits of a word of the state over the word that is drawn. -/
def temper (y : UInt32) : UInt32 :=
  let y := y ^^^ (y >>> 11)
  let y := y ^^^ ((y <<< 7) &&& 0x9d2c5680)
  let y := y ^^^ ((y <<< 15) &&& 0xefc60000)
  y ^^^ (y >>> 18)

def next (g : Twister) : UInt32 × Twister :=
  let g := if g.used < size then g else ⟨regenerate g.words, 0⟩
  (temper (word g.words g.used), { g with used := g.used + 1 })

/-- Draws `count` bits as a number, a word at a time from the least significant up; the last
word gives only its upper bits. -/
def bits : Nat → Twister → Nat × Twister
  | count, g =>
      if count ≤ 32 then
        let (w, g) := g.next
        (w.toNat >>> (32 - count), g)
      else
        let (w, g) := g.next
        let (high, g) := bits (count - 32) g
        (w.toNat + high <<< 32, g)
termination_by count => count

/-- Draws numbers of as many bits as `n` has until one is below `n`; the last of `tries` is
reduced instead of drawn again. -/
def drawBelow (n : Nat) : Nat → Twister → Nat × Twister
  | 0, g =>
      let (r, g) := bits (n.log2 + 1) g
      (r % n, g)
  | tries + 1, g =>
      let (r, g) := bits (n.log2 + 1) g
      if r < n then (r, g) else drawBelow n tries g

theorem drawBelow_lt {n : Nat} (h : 0 < n) (tries : Nat) (g : Twister) :
    (drawBelow n tries g).1 < n := by
  induction tries generalizing g with
  | zero => exact Nat.mod_lt _ h
  | succ tries ih =>
      simp only [drawBelow]
      split
      · assumption
      · exact ih _

/-- How often a number is drawn again. Each try fails with a chance below one half. -/
def maxTries : Nat := 256

@[irreducible]
def below (n : Nat) (g : Twister) : Nat × Twister := drawBelow n maxTries g

theorem below_lt {n : Nat} (g : Twister) (h : 0 < n) : (below n g).1 < n := by
  rw [below]
  exact drawBelow_lt h maxTries g

/-- Exchanges the places from `i` down to the second, each with one at or before it. -/
def exchange : Nat → Array Nat → Twister → Array Nat × Twister
  | 0, a, g => (a, g)
  | i + 1, a, g =>
      let (j, g) := below (i + 2) g
      exchange i (a.swapIfInBounds (i + 1) j) g

theorem swapIfInBounds_perm (a : Array Nat) (i j : Nat) : (a.swapIfInBounds i j).Perm a := by
  unfold Array.swapIfInBounds
  split
  · split
    · exact Array.swap_perm ..
    · exact .refl a
  · exact .refl a

theorem exchange_perm (i : Nat) (a : Array Nat) (g : Twister) : (exchange i a g).1.Perm a := by
  induction i generalizing a g with
  | zero => exact .refl a
  | succ i ih =>
      rw [exchange]
      exact (ih _ _).trans (swapIfInBounds_perm ..)

def shuffle (xs : List Nat) (g : Twister) : List Nat × Twister :=
  let (a, g) := exchange (xs.length - 1) xs.toArray g
  (a.toList, g)

instance : RandomSource Twister where
  shuffle := shuffle
  below := below
  shuffle_perm xs g := by
    have h := exchange_perm (xs.length - 1) xs.toArray g
    simpa [shuffle] using h.toList
  below_lt g h := below_lt g h

end Twister

end TextGrammar
