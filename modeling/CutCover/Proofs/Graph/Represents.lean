import CutCover.Proofs.Graph.Rows
import Mathlib.Algebra.GroupWithZero.Nat

/-!
# CutCover — a built graph is its list of edges

Building answers for every list of sound edges and aborts for none. The graph it answers represents
the list: each row holds the edges at its node, in their order and as often as they occur; the rows
stand one behind the other and fill the adjacency; every edge is seen from both of its ends alike.

* `Graph.exists_ofEdges`     — building answers or refuses, it never aborts.
* `Graph.adjacency_eq`       — the adjacency is one row after the other.
* `Graph.count_row_comm`     — an edge is in the rows of both of its endpoints.
* `Graph.Represents`         — what it means for a graph to represent a list of edges.
* `Graph.ofEdges_represents` — the graph built of a list represents it.
-/

namespace CutCover

-- ---------------------------------------------------------------------------
-- Edges seen from their ends
-- ---------------------------------------------------------------------------

section Ends

variable {R : Type}

/-- A node sees an edge just if the edge joins it to the node that the entry names. -/
theorem Edge.entryAt?_eq_some_iff {node : Nat} {e : Edge R} {entry : Neighbor R} :
    e.entryAt? node = some entry ↔
      entry.weight = e.weight ∧
        (e.u = node ∧ e.v = entry.node ∨ e.v = node ∧ e.u = entry.node) := by
  refine ⟨Edge.entryAt?_inv, ?_⟩
  obtain ⟨other, w⟩ := entry
  rintro ⟨rfl, ⟨rfl, rfl⟩ | ⟨rfl, rfl⟩⟩
  · exact if_pos rfl
  · by_cases hloop : e.u = e.v <;> simp [Edge.entryAt?, hloop]

/-- What one end sees of an edge, the other end sees with the two nodes exchanged. -/
theorem Edge.entryAt?_comm {i j : Nat} {w : R} {e : Edge R} :
    e.entryAt? i = some ⟨j, w⟩ ↔ e.entryAt? j = some ⟨i, w⟩ := by
  simp only [entryAt?_eq_some_iff]
  constructor
  · rintro ⟨hw, ⟨hu, hv⟩ | ⟨hv, hu⟩⟩
    · exact ⟨hw, .inr ⟨hv, hu⟩⟩
    · exact ⟨hw, .inl ⟨hu, hv⟩⟩
  · rintro ⟨hw, ⟨hu, hv⟩ | ⟨hv, hu⟩⟩
    · exact ⟨hw, .inr ⟨hv, hu⟩⟩
    · exact ⟨hw, .inl ⟨hu, hv⟩⟩

/-- One node is a neighbour of another as often as the other way round, for each weight. -/
theorem Graph.count_row_comm [DecidableEq R] (g : Graph R) (i j : Nat) (w : R) :
    (g.row i).count ⟨j, w⟩ = (g.row j).count ⟨i, w⟩ := by
  rw [row, row, List.count_filterMap, List.count_filterMap]
  refine List.countP_congr fun e _ => ?_
  simp only [beq_iff_eq]
  exact Edge.entryAt?_comm

end Ends

namespace Graph

variable {R : Type} {n : Nat} {halves : List (Nat × Neighbor R)}

-- ---------------------------------------------------------------------------
-- One row after the other
-- ---------------------------------------------------------------------------

/-- A row begins behind the entries of the rows before it. -/
theorem startOf_eq_length (halves : List (Nat × Neighbor R)) (row : Nat) :
    startOf halves row = ((List.range row).flatMap fun k => entriesOf k halves).length := by
  induction row with
  | zero => exact startOf_zero halves
  | succ row ih =>
    rw [startOf_succ, ih, List.range_succ, List.flatMap_append, List.length_append]
    simp

/-- Behind the last row there are no entries left. -/
theorem startOf_eq_size (h : ∀ half ∈ halves, half.1 < n) : startOf halves n = halves.length :=
  List.countP_eq_length.mpr fun half hhalf => by simpa using h half hhalf

/-- Filled rows stand one behind the other. -/
theorem take_of_isFilled {places : Nat → Neighbor R} (h : IsFilled halves halves places)
    (row : Nat) :
    (tabulate halves.length places).toList.take (startOf halves row)
      = (List.range row).flatMap fun k => entriesOf k halves := by
  induction row with
  | zero => rw [startOf_zero, List.take_zero]; rfl
  | succ row ih =>
    have hslice := slice_of_isFilled h row
    unfold slice at hslice
    split at hslice
    · next hrange =>
      have hrow := Except.ok.inj hslice
      rw [Array.toList_extract, List.extract_eq_take_drop, startOf_succ,
        Nat.add_sub_cancel_left] at hrow
      rw [startOf_succ, List.take_add, ih, hrow, List.range_succ, List.flatMap_append]
      simp
    · cases hslice

theorem length_halfEdges (edges : List (Edge R)) : (halfEdges edges).length = 2 * edges.length := by
  simp [halfEdges, Nat.mul_comm]

variable [Weight R] {edges : List (Edge R)} {g : Graph R}

-- ---------------------------------------------------------------------------
-- Building answers
-- ---------------------------------------------------------------------------

/-- For sound edges, all three passes answer. -/
theorem exists_ofEdges_of_validate (h : validate n 0 edges = .ok ()) :
    ∃ g, (ofEdges n edges).run = .ok (.ok g) := by
  have hrows := fst_lt_of_mem_halfEdges (isSound_of_validate h)
  obtain ⟨filled, hplaced, -⟩ := placeHalfEdges_eq hrows
  rw [ofEdges, Fallible.ofExcept_bind_of_ok h, Fallible.lift_bind_of_ok (rowOffsets_eq hrows),
    Fallible.lift_bind_of_ok hplaced, Fallible.lift_bind_of_ok (rowWeights_eq hrows)]
  exact ⟨_, rfl⟩

/-- Building answers or refuses: no place it reads or writes is out of range. -/
theorem exists_ofEdges (n : Nat) (edges : List (Edge R)) :
    ∃ answer, (ofEdges n edges).run = .ok answer := by
  cases hvalid : validate n 0 edges with
  | error refusal =>
    refine ⟨.error refusal, ?_⟩
    rw [ofEdges, hvalid]
    rfl
  | ok passed =>
    obtain ⟨g, hg⟩ := exists_ofEdges_of_validate hvalid
    exact ⟨.ok g, hg⟩

-- ---------------------------------------------------------------------------
-- The arrays of a built graph
-- ---------------------------------------------------------------------------

/-- The offsets say where the rows begin, and at the end where they end. -/
theorem IsBuilt.offsets_eq (h : g.IsBuilt) {i : Nat} (hi : i ≤ g.numNodes) :
    fetch g.offsets i = .ok ((List.range i).flatMap g.row).length := by
  obtain ⟨hoffsets, -, -⟩ := passes_of_ofEdges h
  rw [rowOffsets_eq (fst_lt_of_mem_halfEdges h.sound)] at hoffsets
  have hrow : (fun k => entriesOf k (halfEdges g.edges)) = g.row :=
    funext fun k => entriesOf_halfEdges (fun e he => (h.sound e he).ne) k
  rw [← Except.ok.inj hoffsets, fetch_tabulate (by omega), startOf_eq_length, hrow]

/-- The adjacency is one row after the other. -/
theorem IsBuilt.adjacency_eq (h : g.IsBuilt) :
    g.adjacency.toList = (List.range g.numNodes).flatMap g.row := by
  obtain ⟨hoffsets, hadjacency, -⟩ := passes_of_ofEdges h
  have hrows := fst_lt_of_mem_halfEdges h.sound
  rw [rowOffsets_eq hrows] at hoffsets
  rw [← Except.ok.inj hoffsets] at hadjacency
  obtain ⟨filled, hfold, hfilled⟩ := placeHalfEdges_eq hrows
  rw [hfold] at hadjacency
  have hrow : (fun k => entriesOf k (halfEdges g.edges)) = g.row :=
    funext fun k => entriesOf_halfEdges (fun e he => (h.sound e he).ne) k
  rw [← Except.ok.inj hadjacency, ← hrow, ← take_of_isFilled hfilled, startOf_eq_size hrows,
    List.take_of_length_le (by simp [tabulate])]

/-- It has two entries for each edge. -/
theorem IsBuilt.size_adjacency (h : g.IsBuilt) : g.adjacency.size = 2 * g.numEdges := by
  obtain ⟨hoffsets, hadjacency, -⟩ := passes_of_ofEdges h
  have hrows := fst_lt_of_mem_halfEdges h.sound
  rw [rowOffsets_eq hrows] at hoffsets
  rw [← Except.ok.inj hoffsets] at hadjacency
  obtain ⟨filled, hfold, -⟩ := placeHalfEdges_eq hrows
  rw [hfold] at hadjacency
  rw [← Except.ok.inj hadjacency, numEdges, ← length_halfEdges]
  simp [tabulate]

/-- The degree of a node is the length of its row. -/
theorem IsBuilt.degree_eq (h : g.IsBuilt) {node : Nat} (hnode : node < g.numNodes) :
    g.degree node = .ok (g.row node).length := by
  have hend : ((List.range (node + 1)).flatMap g.row).length
      = ((List.range node).flatMap g.row).length + (g.row node).length := by
    rw [List.range_succ, List.flatMap_append, List.length_append]
    simp
  rw [degree, h.offsets_eq (by omega : node + 1 ≤ g.numNodes), h.offsets_eq (by omega), hend]
  refine (difference_of_le (by omega)).trans ?_
  rw [Nat.add_sub_cancel_left]

-- ---------------------------------------------------------------------------
-- Representation
-- ---------------------------------------------------------------------------

/-- The graph represents a list of edges over `n` nodes. Its rows are read off the list, stand one
behind the other in the adjacency without gap or overlap, and hold every edge from both ends. -/
structure Represents [DecidableEq R] (g : Graph R) (n : Nat) (edges : List (Edge R)) : Prop where
  numNodes_eq : g.numNodes = n
  edges_eq : g.edges = edges
  neighbors_eq : ∀ i < n, g.neighbors i = .ok (edges.filterMap (Edge.entryAt? i))
  degree_eq : ∀ i < n, g.degree i = .ok (edges.filterMap (Edge.entryAt? i)).length
  weightedDegree_eq : ∀ i < n, g.weightedDegree i = .ok (weigh (edges.filterMap (Edge.entryAt? i)))
  offsets_eq : ∀ i ≤ n, fetch g.offsets i
    = .ok ((List.range i).flatMap fun k => edges.filterMap (Edge.entryAt? k)).length
  adjacency_eq : g.adjacency.toList
    = (List.range n).flatMap fun k => edges.filterMap (Edge.entryAt? k)
  size_adjacency : g.adjacency.size = 2 * edges.length
  sum_degrees : ((List.range n).map fun i => (edges.filterMap (Edge.entryAt? i)).length).sum
    = 2 * edges.length
  count_comm : ∀ i < n, ∀ j < n, ∀ w : R,
    (edges.filterMap (Edge.entryAt? i)).count ⟨j, w⟩
      = (edges.filterMap (Edge.entryAt? j)).count ⟨i, w⟩

/-- A graph that was built represents its edges. -/
theorem IsBuilt.represents [DecidableEq R] (h : g.IsBuilt) :
    g.Represents g.numNodes g.edges where
  numNodes_eq := rfl
  edges_eq := rfl
  neighbors_eq _ hi := h.neighbors_eq hi
  degree_eq _ hi := h.degree_eq hi
  weightedDegree_eq _ hi := h.weightedDegree_eq hi
  offsets_eq _ hi := h.offsets_eq hi
  adjacency_eq := h.adjacency_eq
  size_adjacency := h.size_adjacency
  sum_degrees := by
    rw [← List.length_flatMap]
    refine .trans ?_ h.size_adjacency
    rw [← Array.length_toList, h.adjacency_eq]
    rfl
  count_comm i _ j _ w := g.count_row_comm i j w

/-- In binary64 numbers, a row is added up from positive zero. -/
theorem weigh_float (entries : List (Neighbor Float)) :
    weigh entries = (entries.map Neighbor.weight).foldl (· + ·) 0.0 := by
  have hzero : (Weight.ofNat 0 : Float) = 0.0 := by decide
  rw [weigh, List.foldl_map, hzero]

end Graph

end CutCover
