import CutCover.Problem
import CutCover.Proofs.Graph.Built
import CutCover.Proofs.Labels
import CutCover.Weight.Exact
import Mathlib.Tactic.Ring

/-!
# CutCover — clashing edges

An uncovered edge is one whose endpoints are both unselected, a conflict one whose endpoints are
both selected. Either way it *clashes*: both endpoints carry the label that the constraint forbids
them to share. Covers and independent sets, their violations and their scores are described here
in terms of clashing edges, once for both labels.

* `Edge.clashes`, `Edge.touches`            — both endpoints carry a label; a node is an endpoint.
* `Graph.clashCount`, `Graph.clashesAt`     — clashing edges, and those at a node.
* `Graph.clashCount_set`                    — what a change of one label does to their number.
* `Constraint`, `Constraint.isMet_eq`       — the two constraints, met if nothing clashes.
* `Constraint.score_eq`, `Constraint.exactScore_set` — exact scores, and a change of one label.
-/

namespace CutCover

variable {R : Type}

-- ---------------------------------------------------------------------------
-- Edges
-- ---------------------------------------------------------------------------

/-- Both endpoints carry the label. -/
def Edge.clashes (label : Bool) (x : Assignment) (e : Edge R) : Bool :=
  x[e.u]? == some label && x[e.v]? == some label

/-- The node is an endpoint. -/
def Edge.touches (node : Nat) (e : Edge R) : Bool :=
  e.u == node || e.v == node

/-- Once a node carries the other label, no edge at it clashes. -/
theorem Edge.clashes_set_of_touches {label : Bool} {x : Assignment} {node : Nat} {e : Edge R}
    (hnode : node < x.size) (he : e.touches node = true) :
    e.clashes label (x.set node (!label) hnode) = false := by
  rw [touches, Bool.or_eq_true, beq_iff_eq, beq_iff_eq] at he
  rcases he with rfl | rfl <;> cases label <;> simp [clashes]

/-- The label of a node does not matter to the edges that are not at it. -/
theorem Edge.clashes_set_of_not_touches {label value : Bool} {x : Assignment} {node : Nat}
    {e : Edge R} (hnode : node < x.size) (he : e.touches node = false) :
    e.clashes label (x.set node value hnode) = e.clashes label x := by
  rw [touches, Bool.or_eq_false_iff, beq_eq_false_iff_ne, beq_eq_false_iff_ne] at he
  rw [clashes, clashes, Array.getElem?_set_ne hnode he.1.symm,
    Array.getElem?_set_ne hnode he.2.symm]

theorem Edge.isUncovered_eq {x : Assignment} {e : Edge R} (hu : e.u < x.size) (hv : e.v < x.size) :
    e.isUncovered x = .ok (e.clashes false x) := by
  rw [isUncovered, isCovered, Assignment.label_of_lt hu, Assignment.label_of_lt hv, clashes,
    Array.getElem?_eq_getElem hu, Array.getElem?_eq_getElem hv]
  cases x[e.u] <;> cases x[e.v] <;> rfl

theorem Edge.isCovered_eq {x : Assignment} {e : Edge R} (hu : e.u < x.size) (hv : e.v < x.size) :
    e.isCovered x = .ok (!e.clashes false x) := by
  rw [isCovered, Assignment.label_of_lt hu, Assignment.label_of_lt hv, clashes,
    Array.getElem?_eq_getElem hu, Array.getElem?_eq_getElem hv]
  cases x[e.u] <;> cases x[e.v] <;> rfl

theorem Edge.isConflict_eq {x : Assignment} {e : Edge R} (hu : e.u < x.size) (hv : e.v < x.size) :
    e.isConflict x = .ok (e.clashes true x) := by
  rw [isConflict, Assignment.label_of_lt hu, Assignment.label_of_lt hv, clashes,
    Array.getElem?_eq_getElem hu, Array.getElem?_eq_getElem hv]
  cases x[e.u] <;> cases x[e.v] <;> rfl

-- ---------------------------------------------------------------------------
-- Counts
-- ---------------------------------------------------------------------------

namespace Graph

/-- The number of clashing edges. -/
def clashCount (g : Graph R) (label : Bool) (x : Assignment) : Nat :=
  g.edges.countP (Edge.clashes label x)

/-- The number of clashing edges at a node. -/
def clashesAt (g : Graph R) (label : Bool) (x : Assignment) (node : Nat) : Nat :=
  g.edges.countP fun e => e.clashes label x && e.touches node

/-- Between the two labels of a node, the number of clashing edges differs by those at it. -/
theorem clashCount_set (g : Graph R) (label : Bool) {x : Assignment} {node : Nat}
    (hnode : node < x.size) :
    g.clashCount label (x.set node label hnode)
      = g.clashCount label (x.set node (!label) hnode)
        + g.clashesAt label (x.set node label hnode) node := by
  unfold clashCount clashesAt
  induction g.edges with
  | nil => rfl
  | cons e rest ih =>
    rw [List.countP_cons, List.countP_cons, List.countP_cons, ih]
    cases he : e.touches node with
    | true =>
      rw [Edge.clashes_set_of_touches hnode he, Bool.and_true]
      simp only [Bool.false_eq_true, if_false]
      omega
    | false =>
      rw [Edge.clashes_set_of_not_touches hnode he, Edge.clashes_set_of_not_touches hnode he]
      simp only [Bool.and_false, Bool.false_eq_true, if_false]
      omega

variable [Weight R]

theorem uncoveredCount_eq {g : Graph R} (hg : g.IsBuilt) {x : Assignment}
    (hx : x.size = g.numNodes) : g.uncoveredCount x = .ok (g.clashCount false x) := by
  have htests : ∀ e ∈ g.edges, Edge.isUncovered x e = .ok (e.clashes false x) := by
    intro e he
    have hsound := hg.sound e he
    exact Edge.isUncovered_eq (by have := hsound.u_lt; omega) (by have := hsound.v_lt; omega)
  rw [uncoveredCount, selectWhere_of_total htests, clashCount, List.countP_eq_length_filter]
  rfl

theorem conflictCount_eq {g : Graph R} (hg : g.IsBuilt) {x : Assignment}
    (hx : x.size = g.numNodes) : g.conflictCount x = .ok (g.clashCount true x) := by
  have htests : ∀ e ∈ g.edges, Edge.isConflict x e = .ok (e.clashes true x) := by
    intro e he
    have hsound := hg.sound e he
    exact Edge.isConflict_eq (by have := hsound.u_lt; omega) (by have := hsound.v_lt; omega)
  rw [conflictCount, selectWhere_of_total htests, clashCount, List.countP_eq_length_filter]
  rfl

theorem isIndependent_eq {g : Graph R} (hg : g.IsBuilt) {x : Assignment}
    (hx : x.size = g.numNodes) : g.isIndependent x = .ok (g.clashCount true x == 0) := by
  rw [isIndependent, conflictCount_eq hg hx]
  rfl

theorem isCover_eq {g : Graph R} (hg : g.IsBuilt) {x : Assignment} (hx : x.size = g.numNodes) :
    g.isCover x = .ok (g.clashCount false x == 0) := by
  have htests : ∀ e ∈ g.edges, Edge.isCovered x e = .ok (!e.clashes false x) := by
    intro e he
    have hsound := hg.sound e he
    exact Edge.isCovered_eq (by have := hsound.u_lt; omega) (by have := hsound.v_lt; omega)
  rw [isCover, allM_of_total htests, clashCount]
  congr 1
  rw [Bool.eq_iff_iff, List.all_eq_true, beq_iff_eq, List.countP_eq_zero]
  simp

end Graph

-- ---------------------------------------------------------------------------
-- Constraints
-- ---------------------------------------------------------------------------

/-- The two constraints on the edges. -/
inductive Constraint where
  | cover
  | independence
deriving DecidableEq, Repr

namespace Constraint

/-- The problem with the constraint, and the penalty for every edge that violates it. -/
def problem (penalty : R) : Constraint → Problem R
  | cover => .minimumVertexCover penalty
  | independence => .maximumIndependentSet penalty

/-- The label that no edge may have at both of its endpoints. -/
def label : Constraint → Bool
  | cover => false
  | independence => true

/-- The score of an assignment without penalties. -/
def worth (x : Assignment) : Constraint → Rat
  | cover => -x.countSelected
  | independence => x.countSelected

/-- The score, with the violations counted as clashing edges. -/
def exactScore (c : Constraint) (penalty : Rat) (g : Graph Rat) (x : Assignment) : Rat :=
  c.worth x - penalty * g.clashCount c.label x

/-- Whether an assignment meets the constraint. -/
def isMet [Weight R] (g : Graph R) (x : Assignment) : Constraint → Checked Bool
  | cover => g.isCover x
  | independence => g.isIndependent x

/-- A constraint is met if no edge clashes. -/
theorem isMet_eq [Weight R] (c : Constraint) {g : Graph R} (hg : g.IsBuilt) {x : Assignment}
    (hx : x.size = g.numNodes) : c.isMet g x = .ok (g.clashCount c.label x == 0) := by
  cases c with
  | cover => exact Graph.isCover_eq hg hx
  | independence => exact Graph.isIndependent_eq hg hx

/-- Scores are answered, and are the exact ones. -/
theorem score_eq (c : Constraint) (penalty : Rat) {g : Graph Rat} (hg : g.IsBuilt)
    {x : Assignment} (hx : x.size = g.numNodes) :
    (c.problem penalty).strategy.score g x = .ok (c.exactScore penalty g x) := by
  cases c with
  | cover =>
    show g.coverScore penalty x = _
    rw [Graph.coverScore, Graph.uncoveredCount_eq hg hx]
    rfl
  | independence =>
    show g.independentScore penalty x = _
    rw [Graph.independentScore, Graph.conflictCount_eq hg hx]
    rfl

theorem worth_set (c : Constraint) {x : Assignment} {node : Nat} (hnode : node < x.size) :
    c.worth (x.set node c.label hnode) = c.worth (x.set node (!c.label) hnode) + 1 := by
  have hcount := Assignment.countSelected_set hnode
  cases c with
  | cover =>
    simp only [worth, label, Bool.not_false, hcount]
    push_cast
    ring
  | independence =>
    simp only [worth, label, Bool.not_true, hcount]
    push_cast
    ring

/-- A node that takes the label the constraint keeps apart is worth one more, less the penalties
for the edges that clash at it then. -/
theorem exactScore_set (c : Constraint) (penalty : Rat) (g : Graph Rat) {x : Assignment}
    {node : Nat} (hnode : node < x.size) :
    c.exactScore penalty g (x.set node c.label hnode)
      = c.exactScore penalty g (x.set node (!c.label) hnode) + 1
        - penalty * g.clashesAt c.label (x.set node c.label hnode) node := by
  rw [exactScore, exactScore, c.worth_set hnode, g.clashCount_set c.label hnode]
  push_cast
  ring

end Constraint

end CutCover
