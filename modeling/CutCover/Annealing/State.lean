import CutCover.Annealing.Acceptance
import CutCover.Annealing.Config
import CutCover.Strategy

/-!
# CutCover — the annealing state

The state of an annealing run and its single step. A step proposes a move, scores the assignment
after it, and accepts or rejects that candidate; a step without a proposal accepts the unchanged
state as a candidate that gains nothing. The state keeps the score of the current assignment, a
trace of the scores accepted so far, and counts of what the steps did.

* `State.start`  — the state before the first step, after all checks on the input.
* `State.step`   — one step. The state is returned along with a refusal too: a step whose proposal
  is refused has been counted, and a step after the last changes nothing.
* `State.report` — what a run reports.
-/

namespace CutCover.Annealing

/-- What a step came to. -/
inductive Verdict where
  /-- The candidate became the current state; `improving` if it scores higher. -/
  | accepted (improving : Bool)
  | rejected
  /-- There was no proposal. -/
  | idle
deriving DecidableEq, Repr

/-- The state of a run. -/
structure State (R : Type) where
  initialTemperature : Float
  numSteps : Nat
  /-- Steps begun so far. -/
  stepsBegun : Nat
  /-- The temperature of the last step begun. -/
  temperature : Float
  current : Assignment
  score : R
  initialScore : R
  /-- The initial score, then the score at every acceptance. -/
  trace : Array R
  acceptedMoves : Nat
  improvingMoves : Nat
  idleSteps : Nat

/-- What a run reports. -/
structure Result (R : Type) where
  solution : Assignment
  score : R
  initialScore : R
  trace : Array R
  steps : Nat
  acceptedMoves : Nat
  improvingMoves : Nat
  idleSteps : Nat
  finalTemperature : Float

namespace State

variable {σ : Type} [WordSource σ] {R : Type} [Weight R]

-- ---------------------------------------------------------------------------
-- Before the first step
-- ---------------------------------------------------------------------------

/-- The state before the first step, from an assignment and the score the caller gives it. Refused
for a faulty configuration, a graph with nothing to search, an assignment of the wrong length, and
a start that the problem does not admit, in this order. -/
def start (strategy : Strategy R) (g : Graph R) (x : Assignment) (score : R) (config : Config) :
    Fallible (State R) := do
  config.check
  g.checkSearchable
  g.checkLength x.size
  strategy.checkStart g x
  return {
    initialTemperature := config.initialTemperature
    numSteps := config.numSteps.getD (strategy.usualSteps g)
    stepsBegun := 0
    temperature := config.initialTemperature
    current := x
    score
    initialScore := score
    trace := #[score]
    acceptedMoves := 0
    improvingMoves := 0
    idleSteps := 0 }

-- ---------------------------------------------------------------------------
-- Steps
-- ---------------------------------------------------------------------------

/-- All steps have been run. -/
def finished (s : State R) : Bool :=
  s.numSteps ≤ s.stepsBegun

/-- Counts a step and lowers the temperature. -/
def beginStep (s : State R) : State R :=
  { s with
    stepsBegun := s.stepsBegun + 1
    temperature := temperatureAt s.initialTemperature s.stepsBegun s.numSteps }

/-- Makes a candidate the current state. -/
def accept (s : State R) (candidate : Assignment) (score : R) (improving : Bool) : State R :=
  { s with
    current := candidate
    score
    trace := s.trace.push score
    acceptedMoves := s.acceptedMoves + 1
    improvingMoves := if improving then s.improvingMoves + 1 else s.improvingMoves }

/-- Counts a step without a proposal, and the unchanged state as accepted if it was. -/
def idle (s : State R) (accepted : Bool) : State R :=
  if accepted then
    { s with
      idleSteps := s.idleSteps + 1
      trace := s.trace.push s.score
      acceptedMoves := s.acceptedMoves + 1 }
  else { s with idleSteps := s.idleSteps + 1 }

/-- Decides on the candidate that a move leads to. -/
def consider (strategy : Strategy R) (g : Graph R) (s : State R) (move : Move) :
    Draw σ (Verdict × State R) := do
  let candidate ← move.apply s.current
  let score ← strategy.score g candidate
  let delta := s.score - score
  if ← metropolis delta s.temperature then
    let improving : Bool := delta < Weight.ofNat 0
    return (.accepted improving, s.accept candidate score improving)
  return (.rejected, s)

/-- One step. -/
def step (strategy : Strategy R) (g : Graph R) (s : State R) :
    Draw σ (Except Refusal Verdict × State R) := do
  if s.finished then
    return (.error (.noStepsLeft s.numSteps), s)
  let begun := s.beginStep
  match ← (strategy.propose g begun.current begun.numSteps).run with
  | .error refusal => return (.error refusal, begun)
  | .ok none =>
    let accepted ← metropolis (Weight.ofNat 0 : R) begun.temperature
    return (.ok .idle, begun.idle accepted)
  | .ok (some move) =>
    let (verdict, after) ← begun.consider strategy g move
    return (.ok verdict, after)

-- ---------------------------------------------------------------------------
-- After the last step
-- ---------------------------------------------------------------------------

/-- What a run that ends in this state reports. -/
def report (s : State R) : Result R where
  solution := s.current
  score := s.score
  initialScore := s.initialScore
  trace := s.trace
  steps := s.stepsBegun
  acceptedMoves := s.acceptedMoves
  improvingMoves := s.improvingMoves
  idleSteps := s.idleSteps
  finalTemperature := s.temperature

end State

end CutCover.Annealing
