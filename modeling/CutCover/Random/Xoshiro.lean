import CutCover.Random.Words

/-!
# CutCover — the generator

The generator that seeded runs draw from: xoshiro256++, with its four words of state filled from
the seed by the splitmix64 sequence. All arithmetic wraps at 64 bits.
-/

namespace CutCover

/-- The state of the generator. -/
structure Xoshiro where
  s0 : UInt64
  s1 : UInt64
  s2 : UInt64
  s3 : UInt64
deriving DecidableEq, Repr

namespace Xoshiro

/-- Rotation to the left by `k` bits, for `0 < k < 64`. -/
def rotateLeft (w k : UInt64) : UInt64 :=
  (w <<< k) ||| (w >>> (64 - k))

/-- The next word and the state after it. -/
def next (g : Xoshiro) : UInt64 × Xoshiro :=
  let answer := rotateLeft (g.s0 + g.s3) 23 + g.s0
  let s2 := g.s2 ^^^ g.s0
  let s3 := g.s3 ^^^ g.s1
  let s1 := g.s1 ^^^ s2
  let s0 := g.s0 ^^^ s3
  (answer, ⟨s0, s1, s2 ^^^ (g.s1 <<< 17), rotateLeft s3 45⟩)

/-- The increment between terms of the seeding sequence. -/
def seedStep : UInt64 := 0x9e3779b97f4a7c15

/-- The word that the seeding sequence makes of one of its terms. -/
def mixSeed (term : UInt64) : UInt64 :=
  let z := (term ^^^ (term >>> 30)) * 0xbf58476d1ce4e5b9
  let z := (z ^^^ (z >>> 27)) * 0x94d049bb133111eb
  z ^^^ (z >>> 31)

/-- The generator started from a seed. -/
def ofSeed (seed : UInt64) : Xoshiro :=
  ⟨mixSeed (seed + seedStep), mixSeed (seed + 2 * seedStep), mixSeed (seed + 3 * seedStep),
   mixSeed (seed + 4 * seedStep)⟩

/-- No rejection loop on this generator comes anywhere near this many rounds. -/
instance : WordSource Xoshiro where
  next := next
  attempts := 0x4000000000000000

end Xoshiro

end CutCover
