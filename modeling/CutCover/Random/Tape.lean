import CutCover.Random.Xoshiro

/-!
# CutCover — tapes

A source that plays given words first and then goes on with a generator, counting the words taken.
It serves to steer a run into a chosen branch and to see how much randomness a computation uses.
-/

namespace CutCover

/-- A tape: the words on it, the generator behind them, and the count of words taken. -/
structure Tape where
  /-- Words still to be played. -/
  words : List UInt64
  generator : Xoshiro
  /-- Words taken so far. -/
  drawn : Nat
deriving DecidableEq, Repr

namespace Tape

/-- A fresh tape: the given words, then the generator started from `seed`. -/
def start (words : List UInt64) (seed : UInt64) : Tape :=
  ⟨words, .ofSeed seed, 0⟩

/-- The next word: from the tape while there are any, then from the generator. -/
def next (tape : Tape) : UInt64 × Tape :=
  match tape.words with
  | w :: rest => (w, { tape with words := rest, drawn := tape.drawn + 1 })
  | [] =>
    let (w, generator) := tape.generator.next
    (w, { tape with generator, drawn := tape.drawn + 1 })

instance : WordSource Tape where
  next := next
  attempts := WordSource.attempts Xoshiro

end Tape

end CutCover
