import CutCover.Graph.Cut
import CutCover.Graph.IndependentSet
import CutCover.Move.Sample
import CutCover.Problem.Kind
import CutCover.Strategy

/-!
# CutCover — the four problems

* Max-cut: split the nodes so that the edges between the sides weigh as much as possible.
* Graph partitioning: the same objective, with the sizes of the sides fixed by the moves.
* Minimum vertex cover: select few nodes so that every edge has a selected endpoint. Annealing
  never meets an uncovered edge, but local search passes through such states and has to rank them.
* Maximum independent set: select many nodes no two of which are joined, with a penalty for every
  conflict.

`Problem.strategy` gives each of them to the solvers, and `Kind.problem` is the problem of a kind
with the usual penalty.
-/

namespace CutCover

/-- A problem, with its penalty where it has one. -/
inductive Problem (R : Type) where
  | maxCut
  | graphPartitioning
  | minimumVertexCover (penalty : R)
  | maximumIndependentSet (penalty : R)
deriving DecidableEq, Repr

namespace Problem

variable {R : Type} [Weight R]

/-- The kind of a problem, its penalty left out. -/
def kind : Problem R → Kind
  | maxCut => .maxCut
  | graphPartitioning => .graphPartitioning
  | minimumVertexCover _ => .minimumVertexCover
  | maximumIndependentSet _ => .maximumIndependentSet

/-- Scores an assignment; higher is better. -/
def score (g : Graph R) (x : Assignment) : Problem R → Checked R
  | maxCut => g.cutWeight x
  | graphPartitioning => g.cutWeight x
  | minimumVertexCover penalty => g.coverScore penalty x
  | maximumIndependentSet penalty => g.independentScore penalty x

/-- Proposes a move of the kind that suits the problem. -/
def propose {σ : Type} [WordSource σ] (g : Graph R) (x : Assignment) (budget : Nat) :
    Problem R → Attempt σ (Option Move)
  | maxCut => some <$> Move.randomFlip x
  | graphPartitioning => some <$> Move.randomSwap x
  | minimumVertexCover _ => Move.randomRemoval g x budget
  | maximumIndependentSet _ => some <$> Move.randomExchange x

/-- One step per node, and a hundred for independent set. -/
def usualSteps (g : Graph R) : Problem R → Nat
  | maximumIndependentSet _ => 100 * g.numNodes
  | _ => g.numNodes

/-- Refuses an assignment that leaves edges uncovered, with their number. -/
def requireCover (g : Graph R) (x : Assignment) : Fallible Unit := do
  if ← g.isCover x then return ()
  let uncovered ← g.uncoveredCount x
  throw (.infeasibleStart uncovered)

/-- Only vertex cover is particular about its start. -/
def checkStart (g : Graph R) (x : Assignment) : Problem R → Fallible Unit
  | minimumVertexCover _ => requireCover g x
  | _ => return ()

/-- What flipping one node alone gains. -/
def gain (g : Graph R) (x : Assignment) (node : Nat) : Problem R → Checked R
  | maxCut => g.cutGain x node
  | graphPartitioning => g.cutGain x node
  | minimumVertexCover penalty => g.coverGain penalty x node
  | maximumIndependentSet penalty => g.independentGain penalty x node

/-- The gains of the first `count` nodes. -/
def gains (problem : Problem R) (g : Graph R) (x : Assignment) (count : Nat) : Checked (List R) :=
  (List.range count).mapM fun node => problem.gain g x node

/-- The problem as the solvers see it. -/
def strategy (problem : Problem R) : Strategy R where
  name := problem.kind.name
  score g x := problem.score g x
  propose g x budget := problem.propose g x budget
  usualSteps g := problem.usualSteps g
  checkStart g x := problem.checkStart g x
  gains g x count := problem.gains g x count
  length_gains h := by simpa [gains] using length_of_mapM h

end Problem

-- ---------------------------------------------------------------------------
-- Problems by kind
-- ---------------------------------------------------------------------------

/-- The problem of a kind, with the usual penalty. -/
def Kind.problem {R : Type} [Weight R] : Kind → Problem R
  | maxCut => .maxCut
  | graphPartitioning => .graphPartitioning
  | minimumVertexCover => .minimumVertexCover Graph.usualCoverPenalty
  | maximumIndependentSet => .maximumIndependentSet Graph.usualConflictPenalty

end CutCover
