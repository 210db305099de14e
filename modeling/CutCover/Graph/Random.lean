import CutCover.Graph.Build
import CutCover.Random.Attempt

/-!
# CutCover — random graphs

Two families of random graphs with weights of one, the usual test instances for cut and cover
heuristics.

* `Graph.independentEdges`       — every pair of nodes is joined with the same probability,
  independently of the others.
* `Graph.preferentialAttachment` — nodes arrive one by one and attach to nodes of high degree.
-/

namespace CutCover.Graph

variable {σ : Type} [WordSource σ] {R : Type} [Weight R]

-- ---------------------------------------------------------------------------
-- Independent edges
-- ---------------------------------------------------------------------------

/-- The pairs `u < v` of nodes, in lexicographic order. -/
def nodePairs (numNodes : Nat) : List (Nat × Nat) :=
  (List.range numNodes).flatMap fun u =>
    (List.range' (u + 1) (numNodes - (u + 1))).map fun v => (u, v)

/-- Joins every pair of nodes for which its own uniform draw is below `p`. -/
def independentEdges (numNodes : Nat) (p : Float) : Attempt σ (Graph R) := do
  if ¬(0.0 ≤ p ∧ p ≤ 1.0) then
    throw (Refusal.invalidConfig (.edgeProbability p))
  let pairs := nodePairs numNodes
  let draws ← (Draw.replicate pairs.length Draw.unit : Draw σ _)
  let joined := (pairs.zip draws).filter fun (_, r) => r < p
  Attempt.ofFallible (ofEdges numNodes (joined.map fun ((u, v), _) => ⟨u, v, Weight.ofNat 1⟩))

-- ---------------------------------------------------------------------------
-- Preferential attachment
-- ---------------------------------------------------------------------------

/-- A growing graph. `ends` lists both ends of every edge, so that a node occurs in it as often as
it has edges and a uniform choice from it favours nodes of high degree. -/
structure Growth where
  pairs : Array (Nat × Nat)
  ends : Array Nat

/-- Adds one edge. -/
def Growth.join (growth : Growth) (t v : Nat) : Growth :=
  ⟨growth.pairs.push (t, v), (growth.ends.push t).push v⟩

/-- The node at a place of `ends`, if it is not among `chosen`. -/
def targetAt? (ends : Array Nat) (chosen : List Nat) (place : Nat) : Checked (Option Nat) := do
  let t ← fetch ends place
  return if t ∈ chosen then none else some t

/-- One attempt at a node to attach to that is not among `chosen`. -/
def targetTrial (ends : Array Nat) (chosen : List Nat) : Draw σ (Option Nat) := do
  let place ← Draw.below ends.size
  targetAt? ends chosen place

/-- Adds `count` distinct nodes to those already chosen. -/
def chooseTargets (ends : Array Nat) : (count : Nat) → (chosen : List Nat) → Draw σ (List Nat)
  | 0, chosen => return chosen
  | count + 1, chosen => do
    let t ← Draw.repeatUntil (targetTrial ends chosen)
    chooseTargets ends count (chosen ++ [t])

/-- Attaches the new node `v` to `count` distinct nodes. -/
def attach (count : Nat) (growth : Growth) (v : Nat) : Draw σ Growth := do
  let targets ← chooseTargets growth.ends count []
  return targets.foldl (fun grown t => grown.join t v) growth

/-- The star around node `0` with `count` other nodes. -/
def star (count : Nat) : Growth :=
  (List.range' 1 count).foldl (fun grown v => grown.join 0 v) ⟨#[], #[]⟩

/-- Starts from the star on the first `count + 1` nodes and attaches every further node to `count`
earlier ones, chosen with probability proportional to their degree. -/
def preferentialAttachment (numNodes count : Nat) : Attempt σ (Graph R) := do
  if count = 0 ∨ numNodes ≤ count then
    throw (Refusal.invalidConfig (.attachmentCount numNodes count))
  let arrivals := List.range' (count + 1) (numNodes - (count + 1))
  let grown ← (arrivals.foldlM (attach count) (star count) : Draw σ _)
  Attempt.ofFallible
    (ofEdges numNodes (grown.pairs.toList.map fun (t, v) => ⟨t, v, Weight.ofNat 1⟩))

end CutCover.Graph
