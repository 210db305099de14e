import CutCover.Outcome

/-!
# CutCover — assignments

An assignment gives every node a label, node 0 first. Nodes labelled `true` are called *selected*;
the two labels are the two sides of a partition. Whether the length fits a graph is checked where
an assignment enters a solver, so reading or changing a label by its number is a checked
operation.

* `Assignment.flip`, `Assignment.setLabel`, `Assignment.exchange` — changes to the labels.
* `Assignment.selected`, `Assignment.unselected` — the nodes of each label, in increasing order.
* `Assignment.countSelected`, `Assignment.sideSizes` — how many there are.
-/

namespace CutCover

/-- A label for every node, node 0 first. -/
abbrev Assignment := Array Bool

namespace Assignment

/-- The label of a node. -/
@[inline]
def label (x : Assignment) (node : Nat) : Checked Bool :=
  fetch x node

/-- Gives a node a label. -/
def setLabel (x : Assignment) (node : Nat) (value : Bool) : Checked Assignment :=
  store x node value

/-- Toggles one label. -/
def flip (x : Assignment) (node : Nat) : Checked Assignment := do
  let old ← x.label node
  x.setLabel node !old

/-- Exchanges the labels of two nodes. -/
def exchange (x : Assignment) (a b : Nat) : Checked Assignment := do
  let labelA ← x.label a
  let labelB ← x.label b
  let y ← x.setLabel a labelB
  y.setLabel b labelA

/-- The nodes labelled `value`, in increasing order. -/
def nodesLabelled (x : Assignment) (value : Bool) : List Nat :=
  x.toList.zipIdx.filterMap fun (held, node) => if held = value then some node else none

/-- The selected nodes, in increasing order. -/
def selected (x : Assignment) : List Nat :=
  x.nodesLabelled true

/-- The nodes that are not selected, in increasing order. -/
def unselected (x : Assignment) : List Nat :=
  x.nodesLabelled false

/-- The number of selected nodes. -/
def countSelected (x : Assignment) : Nat :=
  x.toList.count true

/-- The sizes of the `false` and of the `true` side. -/
def sideSizes (x : Assignment) : Nat × Nat :=
  (x.size - x.countSelected, x.countSelected)

-- ---------------------------------------------------------------------------
-- Labels within range
-- ---------------------------------------------------------------------------

/-- Within the assignment, reading a label answers it. -/
theorem label_of_lt {x : Assignment} {node : Nat} (h : node < x.size) :
    x.label node = .ok x[node] :=
  fetch_of_lt h

/-- Flipping a node of the assignment negates its label and keeps the others. -/
theorem flip_of_lt {x : Assignment} {node : Nat} (h : node < x.size) :
    x.flip node = .ok (x.set node (!x[node]) h) := by
  simp [flip, label_of_lt h, setLabel, store_of_lt _ h, bind, Except.bind]

/-- No more nodes are selected than there are. -/
theorem countSelected_le_size (x : Assignment) : x.countSelected ≤ x.size := by
  simpa [countSelected] using List.count_le_length (a := true) (l := x.toList)

end Assignment

end CutCover
