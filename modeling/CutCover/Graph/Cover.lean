import CutCover.Assignment
import CutCover.Graph.Basic

/-!
# CutCover — vertex covers

The selected nodes *cover* an edge if one of its endpoints is among them, and the graph if they
cover every edge. A node is *redundant* in a cover if all its neighbours are selected, so that the
cover remains one without it.

Labels are read by node number, and a label that a test does not need is not read: an assignment
that is too short for the graph aborts only when a missing label is needed.

* `Graph.isCover`, `Graph.uncoveredCount` — the constraint and how far it is missed.
* `Graph.coverScore`, `Graph.coverGain`   — what a cover is worth, and a change to it.
* `Graph.isRedundant`                     — the local test for removing a node.
-/

namespace CutCover

variable {R : Type} [Weight R]

-- ---------------------------------------------------------------------------
-- Edges
-- ---------------------------------------------------------------------------

/-- At least one endpoint is selected; the second is looked at only if the first is not. -/
def Edge.isCovered (x : Assignment) (e : Edge R) : Checked Bool := do
  if ← x.label e.u then return true
  x.label e.v

/-- Neither endpoint is selected. -/
def Edge.isUncovered (x : Assignment) (e : Edge R) : Checked Bool := do
  let covered ← e.isCovered x
  return !covered

namespace Graph

/-- Every edge has a selected endpoint. Stops at the first that has none. -/
def isCover (g : Graph R) (x : Assignment) : Checked Bool :=
  g.edges.allM (Edge.isCovered x)

/-- The number of edges without a selected endpoint. -/
def uncoveredCount (g : Graph R) (x : Assignment) : Checked Nat := do
  let uncovered ← selectWhere (Edge.isUncovered x) g.edges
  return uncovered.length

-- ---------------------------------------------------------------------------
-- Nodes
-- ---------------------------------------------------------------------------

/-- Deselecting a node leaves all edges at it covered: every neighbour is selected. Stops at the
first that is not. -/
def isRedundant (g : Graph R) (x : Assignment) (node : Nat) : Checked Bool := do
  let row ← g.neighbors node
  row.allM fun entry => x.label entry.node

/-- The number of entries in a node's row whose node carries the label `value`. -/
def neighborsLabelled (g : Graph R) (x : Assignment) (value : Bool) (node : Nat) : Checked Nat := do
  let row ← g.neighbors node
  let matching ← selectWhere (fun entry => do
    let held ← x.label entry.node
    return held == value) row
  return matching.length

-- ---------------------------------------------------------------------------
-- Worth of a cover
-- ---------------------------------------------------------------------------

/-- The number of selected nodes, which a cover wants small. -/
def coverSize (x : Assignment) : R :=
  Weight.ofNat x.countSelected

/-- The negated number of selected nodes, less a penalty for every uncovered edge. -/
def coverScore (g : Graph R) (penalty : R) (x : Assignment) : Checked R := do
  let uncovered ← g.uncoveredCount x
  return -coverSize x - penalty * Weight.ofNat uncovered

/-- What flipping a node gains. Selecting it costs one and covers the edges to its unselected
neighbours. -/
def coverGain (g : Graph R) (penalty : R) (x : Assignment) (node : Nat) : Checked R := do
  let exposed ← g.neighborsLabelled x false node
  let repaired := penalty * Weight.ofNat exposed
  if ← x.label node then return Weight.ofNat 1 - repaired
  return -Weight.ofNat 1 + repaired

/-- The penalty for an uncovered edge unless another is asked for. -/
def usualCoverPenalty : R :=
  Weight.ofNat 2

end Graph

end CutCover
