import CutCover.Annealing.State

/-!
# CutCover — annealing runs

Runs all steps from a start. A refused step ends the run with its refusal.

* `runOn`       — from an assignment and its score, on a given source of words.
* `runSeeded`   — the same with the generator that the configuration asks for.
* `runUnscored` — from an assignment alone, which is scored first.
-/

namespace CutCover.Annealing

variable {σ : Type} [WordSource σ] {R : Type} [Weight R]

/-- Makes the given number of steps, up to the first that is refused. -/
def State.advance (strategy : Strategy R) (g : Graph R) :
    (steps : Nat) → State R → Attempt σ (State R)
  | 0, s => return s
  | steps + 1, s => do
    let (verdict, after) ← (s.step strategy g : Draw σ _)
    let _ ← verdict
    after.advance strategy g steps

/-- Anneals from an assignment and its score. -/
def runOn (strategy : Strategy R) (g : Graph R) (x : Assignment) (score : R) (config : Config) :
    Attempt σ (Result R) := do
  let start ← Attempt.ofFallible (State.start strategy g x score config)
  let last ← start.advance strategy g start.numSteps
  return last.report

/-- Anneals with the generator of the configuration; `fresh` is the seed if it names none. -/
def runSeeded (strategy : Strategy R) (g : Graph R) (x : Assignment) (score : R) (config : Config)
    (fresh : UInt64) : Fallible (Result R) :=
  ExceptT.mk do
    let (answer, _) ← (runOn strategy g x score config).run.run (config.generator fresh)
    return answer

/-- Scores an assignment and anneals from it. The length is checked before the score is taken. -/
def runUnscored (strategy : Strategy R) (g : Graph R) (x : Assignment) (config : Config)
    (fresh : UInt64) : Fallible (Result R) := do
  g.checkLength x.size
  let score ← strategy.score g x
  runSeeded strategy g x score config fresh

end CutCover.Annealing
