import CutCover.Assignment
import CutCover.Random.Words

/-!
# CutCover — random assignments

* `Assignment.random`     — a random label for every node.
* `Assignment.perturb`    — random flips of an assignment.
* `Assignment.perturbAll` — the same for several assignments, one after another.
-/

namespace CutCover.Assignment

variable {σ : Type} [WordSource σ]

/-- A random label for every node, node 0 first. -/
def random (numNodes : Nat) : Draw σ Assignment := do
  let labels ← Draw.replicate numNodes Draw.coin
  return labels.toArray

/-- Flips random nodes below `numNodes`, one after another. -/
def perturb (numNodes : Nat) : (flips : Nat) → Assignment → Draw σ Assignment
  | 0, x => return x
  | flips + 1, x => do
    let node ← Draw.below numNodes
    let y ← x.flip node
    perturb numNodes flips y

/-- Perturbs assignments one after another. -/
def perturbAll (numNodes flips : Nat) : List Assignment → Draw σ (List Assignment)
  | [] => return []
  | x :: rest => do
    let y ← perturb numNodes flips x
    let others ← perturbAll numNodes flips rest
    return y :: others

end CutCover.Assignment
