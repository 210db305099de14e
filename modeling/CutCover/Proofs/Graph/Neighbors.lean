import CutCover.Proofs.Graph.Clash
import CutCover.Proofs.Graph.Rows

/-!
# CutCover — clashes seen from a node

The edges that clash at a node once it carries a label are those to its neighbours with that label,
so that the row of the node tells what a change of its label does to the clashing edges. For covers
this makes the local test for removing a node exact.

* `Graph.labelledAt`, `Graph.neighborsLabelled_eq` — the neighbours with a label.
* `Graph.clashesAt_eq`, `Graph.clashCount_flip`    — clashes counted in a row, and after a flip.
* `Graph.isCover_remove`                           — the test for removing a node from a cover.
* `Graph.IsCoveredBy`, `Graph.isCover_iff`         — covers, and the test for them.
-/

namespace CutCover

variable {R : Type}

/-- What a node sees of an edge is there just for the edges at it. -/
theorem Edge.isSome_entryAt? (node : Nat) (e : Edge R) :
    (e.entryAt? node).isSome = e.touches node := by
  by_cases hu : e.u = node
  · simp [entryAt?, touches, hu]
  · by_cases hv : e.v = node <;> simp [entryAt?, touches, hu, hv]

/-- A node either carries a label and gives it up when it is flipped, or takes it on. -/
theorem Assignment.flip_cases (label : Bool) {x : Assignment} {node : Nat} (hnode : node < x.size) :
    (x[node] = label ∧ x.set node label hnode = x ∧
      x.set node (!x[node]) hnode = x.set node (!label) hnode) ∨
    (x[node] ≠ label ∧ x.set node (!label) hnode = x ∧
      x.set node (!x[node]) hnode = x.set node label hnode) := by
  by_cases hlabel : x[node] = label
  · refine .inl ⟨hlabel, ?_, by rw [hlabel]⟩
    rw [← hlabel, Array.set_getElem_self]
  · have hother : x[node] = !label := Bool.eq_not.mpr hlabel
    refine .inr ⟨hlabel, ?_, by rw [hother, Bool.not_not]⟩
    rw [← hother, Array.set_getElem_self]

-- ---------------------------------------------------------------------------
-- Neighbours with a label
-- ---------------------------------------------------------------------------

/-- An edge at a node that carries the label clashes if the node at its other end carries it too. -/
theorem Edge.clashes_of_entryAt? {label : Bool} {x : Assignment} {node : Nat} {e : Edge R}
    {entry : Neighbor R} (hne : e.u ≠ e.v) (hnode : node < x.size)
    (h : e.entryAt? node = some entry) :
    e.clashes label (x.set node label hnode) = (x[entry.node]? == some label) := by
  rcases (entryAt?_inv h).2 with ⟨hu, hv⟩ | ⟨hv, hu⟩
  · have hother : node ≠ entry.node := by omega
    rw [clashes, hu, hv, Array.getElem?_set_self, Array.getElem?_set_ne hnode hother]
    simp
  · have hother : node ≠ entry.node := by omega
    rw [clashes, hu, hv, Array.getElem?_set_self, Array.getElem?_set_ne hnode hother]
    simp

namespace Graph

/-- The number of entries in a node's row whose node carries the label. -/
def labelledAt (g : Graph R) (label : Bool) (x : Assignment) (node : Nat) : Nat :=
  (g.row node).countP fun entry => x[entry.node]? == some label

variable [Weight R]

/-- The edges that clash at a node once it carries the label are those to neighbours with the
label. -/
theorem clashesAt_eq {g : Graph R} (hg : g.IsBuilt) (label : Bool) {x : Assignment}
    {node : Nat} (hnode : node < x.size) :
    g.clashesAt label (x.set node label hnode) node = g.labelledAt label x node := by
  have hsound := hg.sound
  unfold clashesAt labelledAt row
  generalize g.edges = edges at hsound
  induction edges with
  | nil => rfl
  | cons e rest ih =>
    have he := hsound e List.mem_cons_self
    have htouches := Edge.isSome_entryAt? node e
    rw [List.countP_cons, ih fun f hf => hsound f (List.mem_cons_of_mem e hf)]
    cases hentry : e.entryAt? node with
    | none =>
      rw [hentry, Option.isSome_none] at htouches
      rw [List.filterMap_cons_none hentry, ← htouches]
      simp
    | some entry =>
      rw [hentry, Option.isSome_some] at htouches
      rw [List.filterMap_cons_some hentry, List.countP_cons, ← htouches,
        Edge.clashes_of_entryAt? he.ne hnode hentry, Bool.and_true]

/-- A node that takes on a label, or gives it up, makes or repairs one clash for each neighbour with
that label. -/
theorem clashCount_flip {g : Graph R} (hg : g.IsBuilt) (label : Bool) {x : Assignment} {node : Nat}
    (hnode : node < x.size) :
    if x[node] = label then
      g.clashCount label x
        = g.clashCount label (x.set node (!x[node]) hnode) + g.labelledAt label x node
    else
      g.clashCount label (x.set node (!x[node]) hnode)
        = g.clashCount label x + g.labelledAt label x node := by
  have hset := g.clashCount_set label hnode
  rw [clashesAt_eq hg] at hset
  -- one of the two assignments compared is `x`, and the other one is `x` flipped
  rcases Assignment.flip_cases label hnode with ⟨hlabel, hheld, hflip⟩ | ⟨hlabel, hheld, hflip⟩
  · rw [hheld] at hset
    rwa [if_pos hlabel, hflip]
  · rw [hheld] at hset
    rwa [if_neg hlabel, hflip]

/-- Counting the neighbours with a label answers. -/
theorem neighborsLabelled_eq {g : Graph R} (hg : g.IsBuilt) {x : Assignment}
    (hx : x.size = g.numNodes) (label : Bool) {node : Nat} (hnode : node < g.numNodes) :
    g.neighborsLabelled x label node = .ok (g.labelledAt label x node) := by
  have htests : ∀ entry ∈ g.row node, (do
      let held ← x.label entry.node
      return held == label : Checked Bool) = .ok (x[entry.node]? == some label) := by
    intro entry hentry
    have hlt : entry.node < x.size := by
      have := hg.node_lt_of_mem_row hentry
      omega
    rw [Assignment.label_of_lt hlt, Array.getElem?_eq_getElem hlt]
    rfl
  rw [neighborsLabelled, hg.neighbors_eq hnode]
  show (selectWhere _ (g.row node) >>= _) = _
  rw [selectWhere_of_total htests, labelledAt, List.countP_eq_length_filter]
  rfl

theorem isRedundant_eq {g : Graph R} (hg : g.IsBuilt) {x : Assignment} (hx : x.size = g.numNodes)
    {node : Nat} (hnode : node < g.numNodes) :
    g.isRedundant x node = .ok (g.labelledAt false x node == 0) := by
  have htests : ∀ entry ∈ g.row node,
      x.label entry.node = .ok (!(x[entry.node]? == some false)) := by
    intro entry hentry
    have hlt : entry.node < x.size := by
      have := hg.node_lt_of_mem_row hentry
      omega
    rw [Assignment.label_of_lt hlt, Array.getElem?_eq_getElem hlt]
    cases x[entry.node] <;> rfl
  rw [isRedundant, hg.neighbors_eq hnode]
  show (g.row node).allM _ = _
  rw [allM_of_total htests, labelledAt]
  congr 1
  rw [Bool.eq_iff_iff, List.all_eq_true, beq_iff_eq, List.countP_eq_zero]
  simp

/-- A cover remains one without a node just if the node is redundant. -/
theorem isCover_remove {g : Graph R} (hg : g.IsBuilt) {x : Assignment} (hx : x.size = g.numNodes)
    (hcover : g.isCover x = .ok true) {node : Nat} (hnode : node < x.size) :
    g.isCover (x.set node false hnode) = g.isRedundant x node := by
  have hx' : (x.set node false hnode).size = g.numNodes := by simpa using hx
  rw [isCover_eq hg hx] at hcover
  have hnone : g.clashCount false x = 0 := by simpa using hcover
  rw [isCover_eq hg hx', isRedundant_eq hg hx (by omega)]
  have hflip := clashCount_flip hg false hnode
  rcases Assignment.flip_cases false hnode with ⟨hlabel, hheld, -⟩ | ⟨hlabel, -, hflipped⟩
  · rw [if_pos hlabel] at hflip
    have hzero : g.labelledAt false x node = 0 := by omega
    rw [hheld, hnone, hzero]
  · rw [if_neg hlabel, hflipped, hnone, Nat.zero_add] at hflip
    rw [hflip]

-- ---------------------------------------------------------------------------
-- Covers
-- ---------------------------------------------------------------------------

/-- Every edge has a selected endpoint. -/
def IsCoveredBy (g : Graph R) (x : Assignment) : Prop :=
  ∀ e ∈ g.edges, x[e.u]? = some true ∨ x[e.v]? = some true

/-- This is what is tested for. -/
theorem isCover_iff {g : Graph R} (hg : g.IsBuilt) {x : Assignment} (hx : x.size = g.numNodes) :
    g.isCover x = .ok true ↔ g.IsCoveredBy x := by
  rw [isCover_eq hg hx, Except.ok.injEq, beq_iff_eq, clashCount, List.countP_eq_zero]
  refine forall₂_congr fun e he => ?_
  have hsound := hg.sound e he
  have hu : e.u < x.size := by
    have := hsound.u_lt
    omega
  have hv : e.v < x.size := by
    have := hsound.v_lt
    omega
  rw [Edge.clashes, Array.getElem?_eq_getElem hu, Array.getElem?_eq_getElem hv]
  cases x[e.u] <;> cases x[e.v] <;> decide

omit [Weight R] in
/-- A cover of a graph with edges selects some node. -/
theorem IsCoveredBy.exists_selected {g : Graph R} {x : Assignment} (h : g.IsCoveredBy x)
    (hedges : g.numEdges ≠ 0) : ∃ node : Nat, x[node]? = some true := by
  obtain ⟨e, he⟩ := List.exists_mem_of_length_pos (Nat.pos_of_ne_zero hedges)
  rcases h e he with hu | hv
  · exact ⟨e.u, hu⟩
  · exact ⟨e.v, hv⟩

/-- A cover remains one without a redundant node. -/
theorem IsCoveredBy.remove {g : Graph R} (hg : g.IsBuilt) {x : Assignment}
    (hx : x.size = g.numNodes) (h : g.IsCoveredBy x) {node : Nat} (hnode : node < x.size)
    (hredundant : g.isRedundant x node = .ok true) : g.IsCoveredBy (x.set node false) := by
  have hx' : (x.set node false).size = g.numNodes := by simpa using hx
  rw [← isCover_iff hg hx', isCover_remove hg hx ((isCover_iff hg hx).mpr h) hnode]
  exact hredundant

end Graph

end CutCover
