import CutCover.Assignment
import CutCover.Graph.Basic

/-!
# CutCover — cuts

An assignment splits the nodes of a graph into two sides. An edge is *cut* if its endpoints lie on
different sides, and the weight of a cut is what max-cut and graph partitioning maximise.

Labels are read by node number, so an assignment that is too short for the graph aborts as soon as
a missing label is read.
-/

namespace CutCover

variable {R : Type} [Weight R]

/-- The endpoints carry different labels. -/
def Edge.isCut (x : Assignment) (e : Edge R) : Checked Bool := do
  let labelU ← x.label e.u
  let labelV ← x.label e.v
  return labelU != labelV

namespace Graph

/-- The edges that are cut, in order. -/
def cutEdges (g : Graph R) (x : Assignment) : Checked (List (Edge R)) :=
  selectWhere (Edge.isCut x) g.edges

/-- The total weight of the edges that are cut. -/
def cutWeight (g : Graph R) (x : Assignment) : Checked R := do
  let cut ← g.cutEdges x
  return Weight.total (cut.map Edge.weight)

/-- What flipping a node gains in a cut: the weight of its edges, less twice the part of it that is
cut already. -/
def cutGain (g : Graph R) (x : Assignment) (node : Nat) : Checked R := do
  let row ← g.neighbors node
  let across ← selectWhere (fun entry => do
    let theirs ← x.label entry.node
    let own ← x.label node
    return theirs != own) row
  let incident ← g.weightedDegree node
  return incident - Weight.ofNat 2 * Weight.total (across.map Neighbor.weight)

end Graph

end CutCover
