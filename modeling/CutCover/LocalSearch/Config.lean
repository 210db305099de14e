import CutCover.Refusal
import CutCover.Random.Xoshiro

/-!
# CutCover — local search parameters

What a caller chooses for a run of the batched local search, with the usual values, and the check
that the choice makes sense.

A run consists of independent restarts. Each draws a random population and makes rounds: the best
slot is copied into all places, the copies are perturbed by random flips, and the search is called
on them.
-/

namespace CutCover.LocalSearch

/-- The parameters of a run. -/
structure Config where
  /-- The size of the population. -/
  numSlots : Nat := 64
  numRestarts : Nat := 1
  /-- Rounds per restart, at most. -/
  numRounds : Nat := 64
  /-- Rounds without a new best before a restart ends. -/
  roundPatience : Nat := 8
  /-- Search calls per round, at most. -/
  numInner : Nat := 16
  /-- Search calls without an improved slot before a round ends. -/
  innerPatience : Nat := 1
  /-- Random flips of each slot at the start of a round. -/
  numPerturb : Nat := 16
  /-- Flip rounds per search call. -/
  numIters : Nat := 64
  /-- Nodes flipped in a flip round. -/
  numSpin : Nat := 4
  /-- The noise on the gains, relative to their spread. -/
  noiseStd : Float := 0.3
  /-- Permission to search the slots at the same time; the result does not depend on it. -/
  parallel : Bool := false
  /-- The seed of the generator; a fresh one is taken if none is given. -/
  seed : Option UInt64 := none

/-- Noise has to be finite and not negative. -/
def noiseAdmissible (noiseStd : Float) : Bool :=
  noiseStd.isFinite && !(noiseStd < 0.0 : Bool)

namespace Config

/-- The parameters that have to be positive, in the order in which they are checked. -/
def counts (config : Config) : List (CountParameter × Nat) :=
  [(.numSlots, config.numSlots), (.numRestarts, config.numRestarts),
   (.numRounds, config.numRounds), (.numInner, config.numInner), (.numSpin, config.numSpin)]

/-- The first fault of the parameters: a count of zero, then the noise. The number of nodes to
flip is compared with the graph when the search starts. -/
def validate (config : Config) : Except ConfigFault Unit :=
  match config.counts.find? fun (_, count) => count == 0 with
  | some (parameter, _) => .error (.notPositive parameter)
  | none => if noiseAdmissible config.noiseStd then .ok () else .error (.noiseStd config.noiseStd)

/-- Refuses faulty parameters. -/
def check (config : Config) : Except Refusal Unit :=
  config.validate.mapError .invalidConfig

/-- The generator of a run. `fresh` is the seed to use if the caller gave none. -/
def generator (config : Config) (fresh : UInt64) : Xoshiro :=
  .ofSeed (config.seed.getD fresh)

end Config

end CutCover.LocalSearch
