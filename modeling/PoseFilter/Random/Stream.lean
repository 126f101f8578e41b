/-!
# A reproducible random stream

The stream of 64-bit numbers that a seed stands for: the ChaCha block function with eight rounds,
keyed by a congruential generator that starts at the seed.  Block `c` is the cipher's block for
counter `c` and nonce 0, and gives eight numbers of two words each, low word first.

A stream is its key and the number of draws so far, so the `i`-th number of a seed is a function of
the seed and `i` alone (`RandomStream.number`).
-/

namespace PoseFilter

namespace ChaCha

/-- The sixteen words of a block. -/
abbrev Block : Type := Vector UInt32 16

/-- A word turned left by some bits. -/
@[inline]
def turn (x : UInt32) (bits : UInt32) : UInt32 := (x <<< bits) ||| (x >>> (32 - bits))

/-- The quarter round on four words of a block. -/
@[inline]
def quarter (b : Block) (i j k l : Fin 16) : Block :=
  let x₀ := b[i]
  let x₁ := b[j]
  let x₂ := b[k]
  let x₃ := b[l]
  let x₀ := x₀ + x₁
  let x₃ := turn (x₃ ^^^ x₀) 16
  let x₂ := x₂ + x₃
  let x₁ := turn (x₁ ^^^ x₂) 12
  let x₀ := x₀ + x₁
  let x₃ := turn (x₃ ^^^ x₀) 8
  let x₂ := x₂ + x₃
  let x₁ := turn (x₁ ^^^ x₂) 7
  (((b.set i x₀).set j x₁).set k x₂).set l x₃

/-- A round on the columns and one on the diagonals. -/
def doubleRound (b : Block) : Block :=
  let b := quarter b 0 4 8 12
  let b := quarter b 1 5 9 13
  let b := quarter b 2 6 10 14
  let b := quarter b 3 7 11 15
  let b := quarter b 0 5 10 15
  let b := quarter b 1 6 11 12
  let b := quarter b 2 7 8 13
  quarter b 3 4 9 14

/-- The words that open every block. -/
def constants : Vector UInt32 4 := #v[0x61707865, 0x3320646e, 0x79622d32, 0x6b206574]

/-- The block of a key and a counter, after four double rounds. -/
def block (key : Vector UInt32 8) (counter : UInt64) : Block :=
  let start : Block :=
    constants ++ key ++ #v[counter.toUInt32, (counter >>> 32).toUInt32, 0, 0]
  let mixed := doubleRound (doubleRound (doubleRound (doubleRound start)))
  Vector.ofFn fun i => mixed[i] + start[i]

end ChaCha

/-- A random stream after some draws. -/
structure RandomStream where
  key : Vector UInt32 8
  /-- How many numbers have been drawn. -/
  drawn : Nat
  deriving DecidableEq

namespace RandomStream

/-- One step of the congruential generator that stretches a seed. -/
def stretch (s : UInt64) : UInt64 := s * 6364136223846793005 + 11634580027462260723

/-- The word that a state of the congruential generator gives out. -/
def stretchWord (s : UInt64) : UInt32 :=
  let x := (((s >>> 18) ^^^ s) >>> 27).toUInt32
  let bits := (s >>> 59).toUInt32
  (x >>> bits) ||| (x <<< ((32 - bits) &&& 31))

/-- The stream of a seed, before the first draw. -/
def seeded (seed : UInt64) : RandomStream :=
  { key := Vector.ofFn fun i => stretchWord (Nat.repeat stretch (i.val + 1) seed)
    drawn := 0 }

/-- The number at a place of the stream. -/
def number (key : Vector UInt32 8) (place : Nat) : UInt64 :=
  let b := ChaCha.block key (place / 8).toUInt64
  let i := 2 * (place % 8)
  let low := b.get ⟨i, by omega⟩
  let high := b.get ⟨i + 1, by omega⟩
  low.toUInt64 ||| (high.toUInt64 <<< 32)

/-- The next number. -/
def next (s : RandomStream) : UInt64 × RandomStream :=
  (number s.key s.drawn, { s with drawn := s.drawn + 1 })

end RandomStream

end PoseFilter
