import CutCover.Refusal
import CutCover.Random.Xoshiro

/-!
# CutCover — annealing parameters

What a caller chooses for an annealing run, with the usual values, and the check that the choice
makes sense.
-/

namespace CutCover.Annealing

/-- The parameters of a run. -/
structure Config where
  /-- The temperature before the first step. -/
  initialTemperature : Float := 4.0
  /-- The number of steps; the problem's own number if none is given. -/
  numSteps : Option Nat := none
  /-- The seed of the generator; a fresh one is taken if none is given. -/
  seed : Option UInt64 := none

namespace Config

/-- The first fault of the parameters: a temperature that is negative or not finite, then a run of
no steps. -/
def validate (config : Config) : Except ConfigFault Unit :=
  if ¬config.initialTemperature.isFinite ∨ config.initialTemperature < 0.0 then
    .error (.initialTemperature config.initialTemperature)
  else if config.numSteps = some 0 then
    .error (.notPositive .numSteps)
  else .ok ()

/-- Refuses faulty parameters. -/
def check (config : Config) : Except Refusal Unit :=
  config.validate.mapError .invalidConfig

/-- The generator of a run. `fresh` is the seed to use if the caller gave none. -/
def generator (config : Config) (fresh : UInt64) : Xoshiro :=
  .ofSeed (config.seed.getD fresh)

end Config

end CutCover.Annealing
