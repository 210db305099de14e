import CutCover.Random.Normal
import CutCover.Weight

/-!
# CutCover — temperature and acceptance

The temperature falls linearly and reaches zero on the last step. A candidate that scores higher
than the current state is always accepted; one that scores lower by `delta` is accepted with
probability `exp (-delta / temperature)`, which needs a draw.

* `temperatureAt` — the schedule.
* `acceptChance`  — the probability, at a temperature kept away from zero.
* `metropolis`    — the decision.
-/

namespace CutCover.Annealing

/-- The temperature of step number `step`, counted from zero, of `numSteps`. -/
def temperatureAt (initial : Float) (step numSteps : Nat) : Float :=
  initial * (1.0 - Float.ofNat (step + 1) / Float.ofNat numSteps)

/-- Added to the temperature so that the last step does not divide by zero. -/
def temperatureOffset : Float := 1e-6

/-- The probability of accepting a candidate that scores `delta` less than the current state. -/
def acceptChance (delta temperature : Float) : Float :=
  if delta < 0.0 then 1.0 else exponential (-delta / (temperature + temperatureOffset))

/-- Whether to accept a candidate that scores `delta` less than the current state. Draws one word,
and none if the candidate scores higher. -/
def metropolis {σ : Type} [WordSource σ] {R : Type} [Weight R] (delta : R) (temperature : Float) :
    Draw σ Bool := do
  if delta < Weight.ofNat 0 then return true
  let r ← Draw.unit
  return r < acceptChance (Weight.toFloat delta) temperature

end CutCover.Annealing
