/-!
# The twister: a seeded source of random bits

The Mersenne twister with 624 words of 32 bits. A seed is cut into words, which are mixed into
the state; the state is renewed after every 624 outputs; every output is tempered.
-/

namespace DeliTalk

/-- The words of the generator, and which of them is used next. -/
structure Twister where
  words : Array UInt32
  next : Nat
deriving Inhabited

namespace Twister

/-- The number of words of the state. -/
def size : Nat := 624

/-- A word of the state. -/
def wordAt (words : Array UInt32) (i : Nat) : UInt32 := words.getD i 0

/-- The state after a plain seed of one word. -/
def ofWord (seed : UInt32) : Array UInt32 :=
  (List.range (size - 1)).foldl
    (fun words i =>
      let prev := wordAt words i
      words.push ((1812433253 : UInt32) * (prev ^^^ (prev >>> 30)) + UInt32.ofNat (i + 1)))
    #[seed]

/-- The words of a number, the lowest first; at least one. -/
def keyOf (n : Nat) : Array UInt32 :=
  let count := max 1 ((n.log2 + 32) / 32)
  ((List.range count).map fun i => UInt32.ofNat (n >>> (32 * i))).toArray

/-- The place after a place, skipping the first one when the end is reached; there the last word
is copied to the front. -/
def advance (words : Array UInt32) (i : Nat) : Array UInt32 × Nat :=
  if i + 1 ≥ size then (words.setIfInBounds 0 (wordAt words (size - 1)), 1) else (words, i + 1)

/-- One step of mixing a key into the state. -/
def mixKey (key : Array UInt32) (s : Array UInt32 × Nat × Nat) : Array UInt32 × Nat × Nat :=
  let (words, i, j) := s
  let prev := wordAt words (i - 1)
  let mixed := wordAt words i ^^^ ((prev ^^^ (prev >>> 30)) * 1664525)
  let word := mixed + wordAt key j + UInt32.ofNat j
  let (words, i) := advance (words.setIfInBounds i word) i
  (words, i, if j + 1 ≥ key.size then 0 else j + 1)

/-- One step of mixing the state with itself. -/
def mixSelf (s : Array UInt32 × Nat) : Array UInt32 × Nat :=
  let (words, i) := s
  let prev := wordAt words (i - 1)
  let word := (wordAt words i ^^^ ((prev ^^^ (prev >>> 30)) * 1566083941)) - UInt32.ofNat i
  advance (words.setIfInBounds i word) i

/-- The generator of a seed; a negative seed counts as its absolute value. -/
def ofSeed (seed : Int) : Twister :=
  let key := keyOf seed.natAbs
  let (words, i, _) := (max size key.size).repeat (mixKey key) (ofWord 19650218, 1, 0)
  let (words, _) := (size - 1).repeat mixSelf (words, i)
  ⟨words.setIfInBounds 0 0x80000000, size⟩

/-- Renews one word of the state. -/
def renewWord (words : Array UInt32) (i : Nat) : Array UInt32 :=
  let y := (wordAt words i &&& 0x80000000) ||| (wordAt words ((i + 1) % size) &&& 0x7fffffff)
  let twist : UInt32 := if y &&& 1 = 0 then 0 else 0x9908b0df
  words.setIfInBounds i (wordAt words ((i + 397) % size) ^^^ (y >>> 1) ^^^ twist)

/-- Renews the whole state. -/
def renew (words : Array UInt32) : Array UInt32 := (List.range size).foldl renewWord words

/-- Spreads the bits of a word. -/
def temper (y : UInt32) : UInt32 :=
  let y := y ^^^ (y >>> 11)
  let y := y ^^^ ((y <<< 7) &&& 0x9d2c5680)
  let y := y ^^^ ((y <<< 15) &&& 0xefc60000)
  y ^^^ (y >>> 18)

/-- The next 32 bits. -/
def word (t : Twister) : UInt32 × Twister :=
  let t := if t.next ≥ size then ⟨renew t.words, 0⟩ else t
  (temper (wordAt t.words t.next), ⟨t.words, t.next + 1⟩)

/-- The next number below `2 ^ 53`. -/
def fraction (t : Twister) : Nat × Twister :=
  let (high, t) := t.word
  let (low, t) := t.word
  ((high >>> 5).toNat * 67108864 + (low >>> 6).toNat, t)

/-- The next number of at most 32 bits. -/
def bits (width : Nat) (t : Twister) : Nat × Twister :=
  let (w, t) := t.word
  (w.toNat >>> (32 - width), t)

end Twister

end DeliTalk
