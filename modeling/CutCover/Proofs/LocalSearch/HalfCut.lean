import CutCover.Proofs.Graph.Gains
import CutCover.Proofs.LocalSearch.OneFlip
import Mathlib.Algebra.BigOperators.Ring.Finset
import Mathlib.Algebra.Order.BigOperators.Group.Finset
import Mathlib.Tactic.Linarith

/-!
# CutCover — a cut that no flip improves weighs at least half

At a node whose flip does not improve the cut, the edges that cross weigh at least as much as those
that do not. Summed over all nodes every edge counts twice, on either side, so that a cut which
withstands all flips of a single node weighs at least half of all edges, whatever the signs of their
weights. A search certifies this of every slot that it leaves alone, without looking at the weight
of the graph.

* `Graph.weightAt`, `Graph.sum_weightAt` — the edges at a node, and at all nodes together.
* `Graph.weigh_row`, `Graph.total_crossingAt` — a row and its crossing part, as edges at the node.
* `Graph.CutsHalf`                       — the cut weighs at least half of all edges.
* `Slot.IsOneFlipOptimal.cutsHalf`       — a one-flip optimum does.
* `Population.searchSlots_certifies_half_cut` — a search call over a population.
-/

namespace CutCover

-- ---------------------------------------------------------------------------
-- Edges at a node
-- ---------------------------------------------------------------------------

namespace Graph

/-- The weight of the edges at a node. -/
def weightAt (edges : List (Edge Rat)) (node : Nat) : Rat :=
  Weight.total ((edges.filter (Edge.touches node)).map Edge.weight)

theorem weightAt_cons (e : Edge Rat) (rest : List (Edge Rat)) (node : Nat) :
    weightAt (e :: rest) node = (if e.touches node then e.weight else 0) + weightAt rest node := by
  by_cases he : e.touches node = true
  · simp [weightAt, he, Weight.total_cons]
  · simp [weightAt, he]

/-- An edge is at two nodes. -/
theorem sum_touches {n : Nat} {e : Edge Rat} (h : e.IsSound n) :
    ∑ node ∈ Finset.range n, (if e.touches node then e.weight else 0) = 2 * e.weight := by
  have hsplit : ∀ node, (if e.touches node then e.weight else 0)
      = (if e.u = node then e.weight else 0) + if e.v = node then e.weight else 0 := by
    intro node
    have hne := h.ne
    by_cases hu : e.u = node
    · have hv : e.v ≠ node := by omega
      simp [Edge.touches, hu, hv]
    · simp [Edge.touches, hu]
  have hu : e.u ∈ Finset.range n := Finset.mem_range.mpr h.u_lt
  have hv : e.v ∈ Finset.range n := Finset.mem_range.mpr h.v_lt
  rw [Finset.sum_congr rfl fun node _ => hsplit node, Finset.sum_add_distrib,
    Finset.sum_ite_eq, Finset.sum_ite_eq, if_pos hu, if_pos hv]
  ring

/-- Over all nodes, every edge counts twice. -/
theorem sum_weightAt {n : Nat} {edges : List (Edge Rat)} (h : ∀ e ∈ edges, e.IsSound n) :
    ∑ node ∈ Finset.range n, weightAt edges node = 2 * Weight.total (edges.map Edge.weight) := by
  induction edges with
  | nil =>
    have hzero : Weight.total ([] : List Rat) = 0 := rfl
    simp [weightAt, hzero]
  | cons e rest ih =>
    obtain ⟨he, hrest⟩ := List.forall_mem_cons.mp h
    rw [Finset.sum_congr rfl fun node _ => weightAt_cons e rest node, Finset.sum_add_distrib,
      sum_touches he, ih hrest, List.map_cons, Weight.total_cons]
    ring

-- ---------------------------------------------------------------------------
-- Rows
-- ---------------------------------------------------------------------------

/-- The entries of a row that pass a test weigh what the edges at the node do that pass the same
test. -/
theorem map_weight_filter_row {edges : List (Edge Rat)} {node : Nat} {p : Neighbor Rat → Bool}
    {q : Edge Rat → Bool} (h : ∀ e entry, Edge.entryAt? node e = some entry → p entry = q e) :
    ((edges.filterMap (Edge.entryAt? node)).filter p).map Neighbor.weight
      = ((edges.filter q).filter (Edge.touches node)).map Edge.weight := by
  induction edges with
  | nil => rfl
  | cons e rest ih =>
    have htouches := Edge.isSome_entryAt? node e
    cases hentry : e.entryAt? node with
    | none =>
      rw [hentry, Option.isSome_none] at htouches
      rw [List.filterMap_cons_none hentry, ih, List.filter_cons]
      split <;> simp [← htouches]
    | some entry =>
      rw [hentry, Option.isSome_some] at htouches
      have hweight := (Edge.entryAt?_inv hentry).1
      rw [List.filterMap_cons_some hentry, List.filter_cons, List.filter_cons, h e entry hentry]
      cases q e with
      | true => simp [← htouches, hweight, ih]
      | false => simpa using ih

theorem weigh_row (g : Graph Rat) (node : Nat) : weigh (g.row node) = weightAt g.edges node := by
  have hall : ((g.row node).filter fun _ => true).map Neighbor.weight
      = ((g.edges.filter fun _ => true).filter (Edge.touches node)).map Edge.weight :=
    map_weight_filter_row fun _ _ _ => rfl
  rw [List.filter_true, List.filter_true] at hall
  rw [weigh_eq_total, weightAt, hall]

theorem total_crossingAt (g : Graph Rat) (x : Assignment) (node : Nat) :
    Weight.total ((g.crossingAt x node).map Neighbor.weight)
      = weightAt (g.edges.filter (Edge.crosses x)) node := by
  rw [crossingAt, row, weightAt, map_weight_filter_row]
  exact fun _ _ hentry => (Edge.crosses_of_entryAt? x hentry).symm

-- ---------------------------------------------------------------------------
-- Half of the weight
-- ---------------------------------------------------------------------------

/-- The cut weighs at least half of all edges. -/
def CutsHalf (g : Graph Rat) (x : Assignment) : Prop :=
  ∃ weight, g.cutWeight x = .ok weight ∧ g.totalWeight / 2 ≤ weight

/-- If at every node at least half of the weight crosses, then so it does in the whole graph. -/
theorem cutsHalf_of_weightAt {g : Graph Rat} (hg : g.IsBuilt) {x : Assignment}
    (hx : x.size = g.numNodes)
    (h : ∀ node < g.numNodes,
      weightAt g.edges node ≤ 2 * weightAt (g.edges.filter (Edge.crosses x)) node) :
    g.CutsHalf x := by
  refine ⟨_, cutWeight_eq hg hx, ?_⟩
  have hcrossing : ∀ e ∈ g.edges.filter (Edge.crosses x), e.IsSound g.numNodes :=
    fun e he => hg.sound e (List.mem_of_mem_filter he)
  have hsum : ∑ node ∈ Finset.range g.numNodes, weightAt g.edges node
      ≤ 2 * ∑ node ∈ Finset.range g.numNodes, weightAt (g.edges.filter (Edge.crosses x)) node := by
    rw [Finset.mul_sum]
    exact Finset.sum_le_sum fun node hnode => h node (Finset.mem_range.mp hnode)
  rw [sum_weightAt hg.sound, sum_weightAt hcrossing] at hsum
  rw [totalWeight]
  linarith

end Graph

-- ---------------------------------------------------------------------------
-- One-flip optima
-- ---------------------------------------------------------------------------

/-- The score of the problem is the weight of the cut. -/
def Problem.IsCut {R : Type} (problem : Problem R) : Prop :=
  problem = .maxCut ∨ problem = .graphPartitioning

theorem Problem.IsCut.score_eq {R : Type} [Weight R] {problem : Problem R} (h : problem.IsCut)
    (g : Graph R) (x : Assignment) : problem.strategy.score g x = g.cutWeight x := by
  rcases h with rfl | rfl <;> rfl

namespace LocalSearch

variable {problem : Problem Rat} {g : Graph Rat}

/-- Where a flip does not improve the cut, at least half of the weight at the node crosses. -/
theorem Slot.WithstandsFlip.weightAt_le (hcut : problem.IsCut) (hg : g.IsBuilt) {slot : Slot Rat}
    (hscored : slot.IsScored problem.strategy g) (hsize : slot.solution.size = g.numNodes)
    {node : Nat} (h : slot.WithstandsFlip problem.strategy g node) :
    Graph.weightAt g.edges node
      ≤ 2 * Graph.weightAt (g.edges.filter (Edge.crosses slot.solution)) node := by
  obtain ⟨flipped, score, hflip, hscore, hnot⟩ := h
  obtain ⟨hnode, rfl⟩ := Assignment.flip_inv hflip
  rw [Slot.IsScored, hcut.score_eq, Graph.cutWeight_eq hg hsize] at hscored
  rw [hcut.score_eq, Graph.cutWeight_eq hg (by rw [Array.size_set, hsize])] at hscore
  have hbefore : slot.score = Graph.exactCut g.edges slot.solution := (Except.ok.inj hscored).symm
  have hafter : score = Graph.exactCut g.edges (slot.solution.set node (!slot.solution[node])) :=
    (Except.ok.inj hscore).symm
  have hchange := Graph.exactCut_flip hg hsize hnode
  rw [Graph.weigh_row, Graph.total_crossingAt] at hchange
  rw [hbefore, hafter, hchange] at hnot
  linarith

/-- A cut that no flip of a single node improves weighs at least half of all edges. -/
theorem Slot.IsOneFlipOptimal.cutsHalf (hcut : problem.IsCut) (hg : g.IsBuilt) {slot : Slot Rat}
    (hscored : slot.IsScored problem.strategy g) (hsize : slot.solution.size = g.numNodes)
    (h : slot.IsOneFlipOptimal problem.strategy g) : g.CutsHalf slot.solution := by
  refine Graph.cutsHalf_of_weightAt hg hsize fun node hnode => ?_
  have hlt : node < slot.solution.size := by omega
  exact (h node hlt).weightAt_le hcut hg hscored hsize

-- ---------------------------------------------------------------------------
-- The search of a population
-- ---------------------------------------------------------------------------

namespace Population

variable {σ : Type} [WordSource σ] {params : SearchParams}

/-- With exact weights of either sign, what a search call leaves alone cuts at least half of the
weight of the graph: of every slot with a true score it returns the slot itself, and then its cut
weighs that much, or one that scores strictly higher. If the call reports no update, this is so of
the whole population. -/
theorem searchSlots_certifies_half_cut (hcut : problem.IsCut) (hg : g.IsBuilt)
    {p after : Population Rat} {s s' : σ} {report : SearchReport Rat}
    (hp : p.IsConsistent problem.strategy g)
    (h : (p.searchSlots problem.strategy g params).run s = .ok ((.ok report, after), s')) :
    after.size = p.size ∧
    List.Forall₂ (fun slot found : Slot Rat =>
        (found = slot ∧ g.CutsHalf found.solution) ∨ slot.score < found.score)
      p.slots after.slots ∧
    (report.numUpdated = 0 → after = p ∧ ∀ x ∈ after.solutions, g.CutsHalf x) := by
  have hsearched := searched_of_searchSlots h
  have hafter := isConsistent_searchSlots hp h
  have hslots := forall₂_optimal_or_lt hsearched
  have hhalf : ∀ slot ∈ p.slots, slot.IsOneFlipOptimal problem.strategy g →
      g.CutsHalf slot.solution := fun slot hslot hoptimal =>
    hoptimal.cutsHalf hcut hg (hp.scored slot hslot) (hp.size_eq slot hslot)
  refine ⟨?_, ?_, ?_⟩
  · rw [← length_slots hafter.length_scores, ← length_slots hp.length_scores,
      hslots.length_eq]
  · refine (List.forall₂_and_left _ _ |>.mpr ⟨hhalf, hslots⟩).imp ?_
    rintro slot found ⟨hhalf, ⟨rfl, hoptimal⟩ | hlt⟩
    · exact .inl ⟨rfl, hhalf hoptimal⟩
    · exact .inr hlt
  · intro hzero
    rw [hsearched.numUpdated_eq] at hzero
    obtain ⟨hsame, hoptimal⟩ := optimal_of_countP_eq_zero hslots hzero
    refine ⟨?_, ?_⟩
    · rw [← ofSlots_slots hafter.length_scores, hsame, ofSlots_slots hp.length_scores]
    · intro x hx
      obtain ⟨slot, hslot, rfl⟩ := exists_slot_of_mem hafter.length_scores hx
      rw [hsame] at hslot
      exact hhalf slot hslot (hoptimal slot hslot)

/-- With edges of either sign, the cut that leaves out the one of negative weight. -/
theorem searchSlots_certifies_half_cut_doubledPath :
    Graph.doubledPath.CutsHalf #[true, true, false] := by
  have hconsistent : (⟨[#[true, true, false]], [2]⟩ : Population Rat).IsConsistent
      Problem.maxCut.strategy Graph.doubledPath := by
    decide +kernel
  have hsearch : ((⟨[#[true, true, false]], [2]⟩ : Population Rat).searchSlots
      Problem.maxCut.strategy Graph.doubledPath ⟨1, 3, 0.3⟩).run (Tape.start [5] 7)
      = .ok ((.ok ⟨0, some 2⟩, ⟨[#[true, true, false]], [2]⟩), ⟨[], .ofSeed 7, 1⟩) := by
    decide +kernel
  have hbuilt : Graph.doubledPath.IsBuilt := by
    decide +kernel
  obtain ⟨-, -, hhalf⟩ :=
    searchSlots_certifies_half_cut (.inl rfl) hbuilt hconsistent hsearch
  exact (hhalf rfl).2 _ (List.mem_singleton_self _)

end Population

end LocalSearch

end CutCover
