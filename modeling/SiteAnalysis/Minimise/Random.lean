/-! # Random numbers from a seed

A stream of words is made from a key of eight words: block after block of sixteen words is
stirred in twelve rounds, and the number of the block is part of what is stirred.  The key comes
from a seed by a congruential generator.
-/

namespace SiteAnalysis.Random

/-- Rotation of a word to the left. -/
def rotateLeft (x : UInt32) (n : UInt32) : UInt32 := (x <<< n) ||| (x >>> (32 - n))

/-- Rotation of a word to the right. -/
def rotateRight (x : UInt32) (n : UInt32) : UInt32 :=
  if n = 0 then x else (x >>> n) ||| (x <<< (32 - n))

/-- Four words that are stirred together. -/
structure Quad where
  a : UInt32
  b : UInt32
  c : UInt32
  d : UInt32

/-- Stirs four words. -/
def Quad.stir (q : Quad) : Quad :=
  let a := q.a + q.b
  let d := rotateLeft (q.d ^^^ a) 16
  let c := q.c + d
  let b := rotateLeft (q.b ^^^ c) 12
  let a := a + b
  let d := rotateLeft (d ^^^ a) 8
  let c := c + d
  let b := rotateLeft (b ^^^ c) 7
  ⟨a, b, c, d⟩

/-- **A block** of sixteen words, by columns. -/
structure Block where
  c0 : Quad
  c1 : Quad
  c2 : Quad
  c3 : Quad

namespace Block

/-- Stirs every column and then every diagonal. -/
def doubleRound (s : Block) : Block :=
  let p := s.c0.stir
  let q := s.c1.stir
  let r := s.c2.stir
  let t := s.c3.stir
  let p' := Quad.stir ⟨p.a, q.b, r.c, t.d⟩
  let q' := Quad.stir ⟨q.a, r.b, t.c, p.d⟩
  let r' := Quad.stir ⟨r.a, t.b, p.c, q.d⟩
  let t' := Quad.stir ⟨t.a, p.b, q.c, r.d⟩
  ⟨⟨p'.a, t'.b, r'.c, q'.d⟩, ⟨q'.a, p'.b, t'.c, r'.d⟩, ⟨r'.a, q'.b, p'.c, t'.d⟩,
    ⟨t'.a, r'.b, q'.c, p'.d⟩⟩

/-- The words row by row. -/
def words (s : Block) : List UInt32 :=
  [s.c0.a, s.c1.a, s.c2.a, s.c3.a, s.c0.b, s.c1.b, s.c2.b, s.c3.b,
    s.c0.c, s.c1.c, s.c2.c, s.c3.c, s.c0.d, s.c1.d, s.c2.d, s.c3.d]

/-- Twelve rounds. -/
def stirred (s : Block) : Block := Nat.repeat doubleRound 6 s

/-- The words of a block after stirring, each with its first value added. -/
def output (s : Block) : List UInt32 := List.zipWith (· + ·) s.words s.stirred.words

end Block

/-- **A key** of eight words. -/
structure Key where
  k0 : UInt32
  k1 : UInt32
  k2 : UInt32
  k3 : UInt32
  k4 : UInt32
  k5 : UInt32
  k6 : UInt32
  k7 : UInt32

/-- The block of a number before it is stirred. -/
def Key.block (k : Key) (number : UInt64) : Block :=
  ⟨⟨0x61707865, k.k0, k.k4, number.toUInt32⟩, ⟨0x3320646e, k.k1, k.k5, (number >>> 32).toUInt32⟩,
    ⟨0x79622d32, k.k2, k.k6, 0⟩, ⟨0x6b206574, k.k3, k.k7, 0⟩⟩

/-- The next state of the generator of keys. -/
def nextState (state : UInt64) : UInt64 := state * 6364136223846793005 + 11634580027462260723

/-- The word that the generator of keys gives for a state. -/
def stateWord (state : UInt64) : UInt32 :=
  rotateRight (((state >>> 18) ^^^ state) >>> 27).toUInt32 (state >>> 59).toUInt32

/-- The key of a seed. -/
def Key.ofSeed (seed : UInt64) : Key :=
  let s0 := nextState seed
  let s1 := nextState s0
  let s2 := nextState s1
  let s3 := nextState s2
  let s4 := nextState s3
  let s5 := nextState s4
  let s6 := nextState s5
  let s7 := nextState s6
  ⟨stateWord s0, stateWord s1, stateWord s2, stateWord s3, stateWord s4, stateWord s5,
    stateWord s6, stateWord s7⟩

/-- **A stream of random words.** -/
structure Stream where
  key : Key
  /-- The number of the next block. -/
  next : UInt64
  /-- Words of the current block that were not taken yet. -/
  ready : List UInt32

namespace Stream

/-- The stream of a seed. -/
def ofSeed (seed : Nat) : Stream := ⟨.ofSeed seed.toUInt64, 0, []⟩

/-- **The next 64 bits**: two words, the second one above the first. -/
def draw (s : Stream) : UInt64 × Stream :=
  match s.ready with
  | low :: high :: rest => ((high.toUInt64 <<< 32) ||| low.toUInt64, { s with ready := rest })
  | _ =>
    match (s.key.block s.next).output with
    | low :: high :: rest =>
      ((high.toUInt64 <<< 32) ||| low.toUInt64, ⟨s.key, s.next + 1, rest⟩)
    | _ => (0, s)

/-- The next natural number below `2 ^ 52`. -/
def drawFraction (s : Stream) : Nat × Stream :=
  let (bits, s) := s.draw
  ((bits >>> 12).toNat, s)

end Stream

end SiteAnalysis.Random
