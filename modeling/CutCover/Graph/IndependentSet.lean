import CutCover.Graph.Cover

/-!
# CutCover — independent sets

The selected nodes are *independent* if no edge joins two of them; an edge that does is a
*conflict*. Sets that are not independent have a score too, so that a search may pass through
them.

Labels are read by node number, and a label that a test does not need is not read: an assignment
that is too short for the graph aborts only when a missing label is needed.
-/

namespace CutCover

variable {R : Type} [Weight R]

/-- Both endpoints are selected; the second is looked at only if the first is. -/
def Edge.isConflict (x : Assignment) (e : Edge R) : Checked Bool := do
  if ← x.label e.u then x.label e.v
  else return false

namespace Graph

/-- The number of edges with both endpoints selected. -/
def conflictCount (g : Graph R) (x : Assignment) : Checked Nat := do
  let conflicts ← selectWhere (Edge.isConflict x) g.edges
  return conflicts.length

/-- No edge has both endpoints selected. -/
def isIndependent (g : Graph R) (x : Assignment) : Checked Bool := do
  let conflicts ← g.conflictCount x
  return conflicts == 0

/-- The number of selected nodes, less a penalty for every conflict. -/
def independentScore (g : Graph R) (penalty : R) (x : Assignment) : Checked R := do
  let conflicts ← g.conflictCount x
  return Weight.ofNat x.countSelected - penalty * Weight.ofNat conflicts

/-- What flipping a node gains. Selecting it counts one and conflicts with its selected
neighbours. -/
def independentGain (g : Graph R) (penalty : R) (x : Assignment) (node : Nat) : Checked R := do
  let taken ← g.neighborsLabelled x true node
  let broken := penalty * Weight.ofNat taken
  if ← x.label node then return -Weight.ofNat 1 + broken
  return Weight.ofNat 1 - broken

/-- The penalty for a conflict unless another is asked for. -/
def usualConflictPenalty : R :=
  Weight.ofNat 2

end Graph

end CutCover
