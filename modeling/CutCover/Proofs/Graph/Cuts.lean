import CutCover.Graph.Cut
import CutCover.Proofs.Graph.Neighbors
import Mathlib.Tactic.Ring

/-!
# CutCover — crossing edges

An edge *crosses* if its endpoints carry different labels; the cut consists of the crossing edges.
Flipping a node turns exactly the edges at it around: those that crossed no longer do, and the
others do now. In exact arithmetic the cut therefore gains the weight of the row of the node, less
twice the part of it that crosses already, which is what `Graph.cutGain` computes without looking at
any other edge.

* `Edge.crosses`, `Graph.cutWeight_eq`   — the cut as a sum over the crossing edges.
* `Edge.crosses_set_of_touches`          — what a flip does to an edge at the node.
* `Graph.crossingAt`, `Graph.cutGain_eq` — the crossing part of a row, and the gain in its terms.
* `Graph.exactCut_flip`                  — what a flip does to the weight of the cut.
* `Problem.exists_score`                 — every assignment has a score, whatever the problem.
-/

namespace CutCover

variable {R : Type}

-- ---------------------------------------------------------------------------
-- Edges
-- ---------------------------------------------------------------------------

/-- The endpoints carry different labels. -/
def Edge.crosses (x : Assignment) (e : Edge R) : Bool :=
  x[e.u]? != x[e.v]?

theorem Edge.isCut_eq {x : Assignment} {e : Edge R} (hu : e.u < x.size) (hv : e.v < x.size) :
    e.isCut x = .ok (e.crosses x) := by
  rw [isCut, Assignment.label_of_lt hu, Assignment.label_of_lt hv, crosses,
    Array.getElem?_eq_getElem hu, Array.getElem?_eq_getElem hv]
  cases x[e.u] <;> cases x[e.v] <;> rfl

/-- An edge at a node crosses if the node at its other end carries the other label. -/
theorem Edge.crosses_of_entryAt? {node : Nat} {e : Edge R} {entry : Neighbor R} (x : Assignment)
    (h : e.entryAt? node = some entry) : e.crosses x = (x[entry.node]? != x[node]?) := by
  rcases (entryAt?_inv h).2 with ⟨hu, hv⟩ | ⟨hv, hu⟩
  · rw [crosses, hu, hv, bne_comm]
  · rw [crosses, hu, hv]

/-- Flipping an endpoint turns an edge around. -/
theorem Edge.crosses_set_of_touches {x : Assignment} {node : Nat} {e : Edge R} (hne : e.u ≠ e.v)
    (hu : e.u < x.size) (hv : e.v < x.size) (hnode : node < x.size) (he : e.touches node = true) :
    e.crosses (x.set node (!x[node]) hnode) = !e.crosses x := by
  rw [touches, Bool.or_eq_true, beq_iff_eq, beq_iff_eq] at he
  rcases he with rfl | rfl
  · rw [crosses, crosses, Array.getElem?_set_self, Array.getElem?_set_ne hnode hne,
      Array.getElem?_eq_getElem hnode, Array.getElem?_eq_getElem hv]
    cases x[e.u] <;> cases x[e.v] <;> rfl
  · rw [crosses, crosses, Array.getElem?_set_self, Array.getElem?_set_ne hnode hne.symm,
      Array.getElem?_eq_getElem hnode, Array.getElem?_eq_getElem hu]
    cases x[e.u] <;> cases x[e.v] <;> rfl

/-- The label of a node does not matter to the edges that are not at it. -/
theorem Edge.crosses_set_of_not_touches {x : Assignment} {node : Nat} {value : Bool} {e : Edge R}
    (hnode : node < x.size) (he : e.touches node = false) :
    e.crosses (x.set node value hnode) = e.crosses x := by
  rw [touches, Bool.or_eq_false_iff, beq_eq_false_iff_ne, beq_eq_false_iff_ne] at he
  rw [crosses, crosses, Array.getElem?_set_ne hnode he.1.symm,
    Array.getElem?_set_ne hnode he.2.symm]

-- ---------------------------------------------------------------------------
-- The weight of the cut
-- ---------------------------------------------------------------------------

namespace Graph

variable [Weight R]

/-- The weight of the cut is answered: it is the sum over the crossing edges, in order. -/
theorem cutWeight_eq {g : Graph R} (hg : g.IsBuilt) {x : Assignment} (hx : x.size = g.numNodes) :
    g.cutWeight x = .ok (Weight.total ((g.edges.filter (Edge.crosses x)).map Edge.weight)) := by
  have htests : ∀ e ∈ g.edges, Edge.isCut x e = .ok (e.crosses x) := by
    intro e he
    have hsound := hg.sound e he
    exact Edge.isCut_eq (by have := hsound.u_lt; omega) (by have := hsound.v_lt; omega)
  rw [cutWeight, cutEdges, selectWhere_of_total htests]
  rfl

/-- The entries of a row whose edges cross. -/
def crossingAt (g : Graph R) (x : Assignment) (node : Nat) : List (Neighbor R) :=
  (g.row node).filter fun entry => x[entry.node]? != x[node]?

theorem cutGain_eq {g : Graph R} (hg : g.IsBuilt) {x : Assignment} (hx : x.size = g.numNodes)
    {node : Nat} (hnode : node < g.numNodes) :
    g.cutGain x node = .ok (weigh (g.row node)
      - Weight.ofNat 2 * Weight.total ((g.crossingAt x node).map Neighbor.weight)) := by
  have htests : ∀ entry ∈ g.row node, (do
      let theirs ← x.label entry.node
      let own ← x.label node
      return theirs != own : Checked Bool) = .ok (x[entry.node]? != x[node]?) := by
    intro entry hentry
    have hlt : entry.node < x.size := by
      have := hg.node_lt_of_mem_row hentry
      omega
    have hown : node < x.size := by omega
    rw [Assignment.label_of_lt hlt, Assignment.label_of_lt hown, Array.getElem?_eq_getElem hlt,
      Array.getElem?_eq_getElem hown]
    cases x[entry.node] <;> cases x[node] <;> rfl
  rw [cutGain, hg.neighbors_eq hnode]
  show (selectWhere _ (g.row node) >>= _) = _
  rw [selectWhere_of_total htests]
  show (g.weightedDegree node >>= _) = _
  rw [hg.weightedDegree_eq hnode]
  rfl

-- ---------------------------------------------------------------------------
-- Exact cuts
-- ---------------------------------------------------------------------------

/-- The exact weight of the crossing edges among `edges`. -/
def exactCut (edges : List (Edge Rat)) (x : Assignment) : Rat :=
  Weight.total ((edges.filter (Edge.crosses x)).map Edge.weight)

theorem exactCut_cons (e : Edge Rat) (rest : List (Edge Rat)) (x : Assignment) :
    exactCut (e :: rest) x = (if e.crosses x then e.weight else 0) + exactCut rest x := by
  by_cases he : e.crosses x = true
  · simp [exactCut, he, Weight.total_cons]
  · simp [exactCut, he]

theorem weigh_eq_total (entries : List (Neighbor Rat)) :
    weigh entries = Weight.total (entries.map Neighbor.weight) := by
  rw [weigh, Weight.total, List.foldl_map]
  rfl

/-- Among sound edges, a flip adds the entries seen from the node to the cut, less twice those that
crossed. -/
theorem exactCut_set {edges : List (Edge Rat)} {x : Assignment}
    (h : ∀ e ∈ edges, e.IsSound x.size) {node : Nat} (hnode : node < x.size) :
    exactCut edges (x.set node (!x[node]) hnode)
      = exactCut edges x + (weigh (edges.filterMap (Edge.entryAt? node))
        - 2 * Weight.total (((edges.filterMap (Edge.entryAt? node)).filter fun entry =>
            x[entry.node]? != x[node]?).map Neighbor.weight)) := by
  rw [weigh_eq_total]
  induction edges with
  | nil =>
    have hempty : exactCut [] (x.set node (!x[node]) hnode) = exactCut [] x := rfl
    have hzero : Weight.total ([] : List Rat) = 0 := rfl
    simp [hempty, hzero]
  | cons e rest ih =>
    have he := h e List.mem_cons_self
    rw [exactCut_cons, exactCut_cons, ih fun f hf => h f (List.mem_cons_of_mem e hf)]
    have htouches := Edge.isSome_entryAt? node e
    cases hentry : e.entryAt? node with
    | none =>
      -- the edge is not at the node, and nothing changes
      rw [hentry, Option.isSome_none] at htouches
      rw [Edge.crosses_set_of_not_touches hnode htouches.symm, List.filterMap_cons_none hentry]
      ring
    | some entry =>
      -- the edge changes sides: its weight enters the cut or leaves it
      rw [hentry, Option.isSome_some] at htouches
      have hcrosses := Edge.crosses_of_entryAt? x hentry
      have hweight := (Edge.entryAt?_inv hentry).1
      rw [Edge.crosses_set_of_touches he.ne he.u_lt he.v_lt hnode htouches.symm,
        List.filterMap_cons_some hentry, List.filter_cons, List.map_cons, Weight.total_cons,
        ← hcrosses, hweight]
      cases e.crosses x with
      | true =>
        simp only [Bool.not_true, Bool.false_eq_true, if_true, if_false, List.map_cons,
          Weight.total_cons, hweight]
        ring
      | false =>
        simp only [Bool.not_false, Bool.false_eq_true, if_true, if_false]
        ring

/-- Flipping a node adds its row to the cut, less twice the part of the row that crossed. -/
theorem exactCut_flip {g : Graph Rat} (hg : g.IsBuilt) {x : Assignment} (hx : x.size = g.numNodes)
    {node : Nat} (hnode : node < x.size) :
    exactCut g.edges (x.set node (!x[node]) hnode) = exactCut g.edges x + (weigh (g.row node)
      - 2 * Weight.total ((g.crossingAt x node).map Neighbor.weight)) := by
  refine exactCut_set ?_ hnode
  rw [hx]
  exact hg.sound

end Graph

-- ---------------------------------------------------------------------------
-- The four problems
-- ---------------------------------------------------------------------------

namespace Problem

/-- Every problem either is one of the two cut problems or has a constraint. -/
theorem cut_or_constraint (problem : Problem R) :
    problem = .maxCut ∨ problem = .graphPartitioning ∨
      ∃ (c : Constraint) (penalty : R), problem = c.problem penalty := by
  cases problem with
  | maxCut => exact .inl rfl
  | graphPartitioning => exact .inr (.inl rfl)
  | minimumVertexCover penalty => exact .inr (.inr ⟨.cover, penalty, rfl⟩)
  | maximumIndependentSet penalty => exact .inr (.inr ⟨.independence, penalty, rfl⟩)

/-- Every assignment to the nodes of a graph has a score. -/
theorem exists_score [Weight R] (problem : Problem R) {g : Graph R} (hg : g.IsBuilt)
    {x : Assignment} (hx : x.size = g.numNodes) : ∃ score, problem.score g x = .ok score := by
  cases problem with
  | maxCut => exact ⟨_, Graph.cutWeight_eq hg hx⟩
  | graphPartitioning => exact ⟨_, Graph.cutWeight_eq hg hx⟩
  | minimumVertexCover penalty =>
    refine ⟨-Graph.coverSize x - penalty * Weight.ofNat (g.clashCount false x), ?_⟩
    show g.coverScore penalty x = _
    rw [Graph.coverScore, Graph.uncoveredCount_eq hg hx]
    rfl
  | maximumIndependentSet penalty =>
    refine ⟨Weight.ofNat x.countSelected - penalty * Weight.ofNat (g.clashCount true x), ?_⟩
    show g.independentScore penalty x = _
    rw [Graph.independentScore, Graph.conflictCount_eq hg hx]
    rfl

end Problem

end CutCover
