import CutCover.Proofs.Draws
import CutCover.Proofs.Graph.Growth
import CutCover.Proofs.Graph.Represents
import CutCover.Proofs.Graph.Simple
import CutCover.Random.Tape

/-!
# CutCover — preferential attachment

Preferential attachment is refused for a bad number of attachments before anything is drawn, and
otherwise gives a connected graph whose later nodes are joined to as many different earlier ones as
was asked for. As the ends favour a node by its degree at every moment, so do the draws.

* `chooseTargets_ensures`  — different nodes that occur in the ends.
* `growthAfter_ensures`    — one arrival after the other.
* `IsPreferential`         — the graphs that come out.
* `preferentialAttachment_grows` — when there is one, and what it was drawn from.
-/

namespace CutCover.Graph

-- ---------------------------------------------------------------------------
-- Targets
-- ---------------------------------------------------------------------------

section Targets

variable {σ : Type} [WordSource σ] {count arrived : Nat} {growth : Growth}

/-- A trial answers a node of the ends that has not been chosen, if it answers one. -/
theorem targetTrial_ensures {mayLoop : Prop} {ends : Array Nat} (hends : 0 < ends.size)
    (chosen : List Nat) :
    Draw.Ensures mayLoop (targetTrial ends chosen : Draw σ _)
      fun answer => ∀ t, answer = some t → t ∈ ends ∧ t ∉ chosen := by
  unfold targetTrial
  refine (Draw.below_ensures hends).bind ?_
  intro place hplace
  refine .lift (targetAt?_of_lt chosen hplace) ?_
  intro t ht
  rw [← Except.ok.injEq, ← targetAt?_of_lt chosen hplace, targetAt?_eq_some_iff hplace] at ht
  obtain ⟨rfl, hfree⟩ := ht
  exact ⟨Array.getElem_mem hplace, hfree⟩

/-- The chosen nodes are different ones that occur in the ends, as many as were asked for. -/
theorem chooseTargets_ensures {ends : Array Nat} (hends : 0 < ends.size) (count : Nat)
    {chosen : List Nat} (hnodup : chosen.Nodup) (hmem : ∀ t ∈ chosen, t ∈ ends) :
    Draw.Ensures True (chooseTargets ends count chosen : Draw σ _) fun targets =>
      targets.Nodup ∧ targets.length = chosen.length + count ∧ ∀ t ∈ targets, t ∈ ends := by
  induction count generalizing chosen with
  | zero => exact .pure ⟨hnodup, rfl, hmem⟩
  | succ count ih =>
    unfold chooseTargets
    refine (Draw.repeatUntil_ensures trivial (targetTrial_ensures hends chosen)).bind ?_
    rintro t ⟨ht, hfree⟩
    have hnodup' : (chosen ++ [t]).Nodup := by
      simpa [List.nodup_append] using ⟨hnodup, fun a ha heq => hfree (heq ▸ ha)⟩
    have hmem' : ∀ other ∈ chosen ++ [t], other ∈ ends := by
      intro other hother
      rcases List.mem_append.mp hother with hother | hother
      · exact hmem other hother
      · rwa [List.mem_singleton.mp hother]
    refine (ih hnodup' hmem').mono ?_
    rintro targets ⟨hdifferent, hlength, hall⟩
    refine ⟨hdifferent, ?_, hall⟩
    rw [hlength, List.length_append, List.length_singleton, Nat.add_assoc, Nat.add_comm 1]

/-- A new node is attached to different nodes that arrived before it. -/
theorem attach_ensures (hpos : 0 < count) (hcount : count < arrived)
    (h : growth.IsAttached count arrived) :
    Draw.Ensures True (attach count growth arrived : Draw σ _)
      fun grown => grown.IsAttached count (arrived + 1) := by
  have hmem : 0 ∈ growth.ends := (h.mem_ends_iff hpos).mpr (Nat.zero_lt_of_lt hcount)
  have hends := Array.size_pos_of_mem hmem
  unfold attach
  refine (chooseTargets_ensures hends count List.nodup_nil (by simp)).bind ?_
  rintro targets ⟨hnodup, hlength, hmem⟩
  refine .pure ?_
  have hgrown := h.arrive hcount hnodup (by simpa using hlength)
    fun t ht => h.lt_of_mem_ends (hmem t ht)
  unfold Growth.joinAll at hgrown
  rwa [List.foldl_map] at hgrown

/-- What has grown after a number of arrivals. -/
def growthAfter (count arrivals : Nat) : Draw σ Growth :=
  (List.range' (count + 1) arrivals).foldlM (attach count) (star count)

theorem foldlM_attach_ensures (hpos : 0 < count) (hcount : count < arrived)
    (h : growth.IsAttached count arrived) (arrivals : Nat) :
    Draw.Ensures True ((List.range' arrived arrivals).foldlM (attach count) growth : Draw σ _)
      fun grown => grown.IsAttached count (arrived + arrivals) := by
  induction arrivals generalizing arrived growth with
  | zero => exact .pure h
  | succ arrivals ih =>
    rw [List.range'_succ, List.foldlM_cons]
    refine (attach_ensures hpos hcount h).bind ?_
    intro grown hgrown
    have hrest := ih (Nat.lt_succ_of_lt hcount) hgrown
    rwa [Nat.succ_add_eq_add_succ] at hrest

theorem growthAfter_ensures (hpos : 0 < count) (arrivals : Nat) :
    Draw.Ensures True (growthAfter count arrivals : Draw σ _)
      fun grown => grown.IsAttached count (count + 1 + arrivals) :=
  foldlM_attach_ensures hpos (Nat.lt_succ_self count) (Growth.isAttached_star count) arrivals

end Targets

-- ---------------------------------------------------------------------------
-- The graph
-- ---------------------------------------------------------------------------

section Attached

variable {R : Type} [Weight R] {numNodes count : Nat} {growth : Growth} {g : Graph R}

/-- The nodes before a node that are its neighbours, in the order of its row. -/
def earlierNeighbors (g : Graph R) (v : Nat) : Checked (List Nat) := do
  let row ← g.neighbors v
  return (row.map Neighbor.node).filter fun node => node < v

/-- A simple connected graph with `count * (numNodes - count)` edges of weight one, each written
from the earlier of its nodes to the later one. The first nodes after node `0` have no other earlier
neighbour than that, and each later node has `count` different earlier neighbours. -/
structure IsPreferential (numNodes count : Nat) (g : Graph R) : Prop where
  built : g.IsBuilt
  numNodes_eq : g.numNodes = numNodes
  numEdges_eq : g.numEdges = count * (numNodes - count)
  edges : ∀ e ∈ g.edges, e.u < e.v ∧ e.weight = Weight.ofNat 1
  simple : g.IsSimple
  connected : g.simpleGraph.Connected
  first : ∀ v, 1 ≤ v → v ≤ count → g.earlierNeighbors v = .ok [0]
  later : ∀ v, count < v → v < numNodes →
    ∃ earlier, g.earlierNeighbors v = .ok earlier ∧ earlier.Nodup ∧ earlier.length = count

/-- The edges of what has grown, with a weight of one. -/
def Growth.edges (growth : Growth) : List (Edge R) :=
  growth.pairs.toList.map fun (t, v) => ⟨t, v, Weight.ofNat 1⟩

theorem mem_edges {e : Edge R} :
    e ∈ growth.edges ↔ (e.u, e.v) ∈ growth.pairs.toList ∧ e.weight = Weight.ofNat 1 := by
  unfold Growth.edges
  rw [List.mem_map]
  constructor
  · rintro ⟨⟨t, v⟩, hpair, rfl⟩
    exact ⟨hpair, rfl⟩
  · obtain ⟨t, v, weight⟩ := e
    rintro ⟨hpair, rfl⟩
    exact ⟨(t, v), hpair, rfl⟩

/-- Of what a node sees of the edges, the earlier nodes are its targets. -/
theorem filter_entries (hlt : ∀ pair ∈ growth.pairs.toList, pair.1 < pair.2) (v : Nat) :
    (((growth.edges : List (Edge R)).filterMap (Edge.entryAt? v)).map Neighbor.node).filter
      (fun node => node < v) = growth.targetsOf v := by
  unfold Growth.edges Growth.targetsOf
  generalize growth.pairs.toList = pairs at hlt
  induction pairs with
  | nil => rfl
  | cons pair rest ih =>
    have hpair := hlt pair List.mem_cons_self
    have hrest := ih fun later hlater => hlt later (List.mem_cons_of_mem pair hlater)
    rw [List.map_cons, List.filterMap_cons, List.filterMap_cons, ← hrest, Edge.entryAt?]
    by_cases hfst : pair.1 = v
    · have hsnd : pair.2 ≠ v := by omega
      have hnot : ¬ pair.2 < v := by omega
      simp [hfst, hsnd, hnot]
    · by_cases hsnd : pair.2 = v
      · have hbelow : pair.1 < v := by omega
        simp [hfst, hsnd, hbelow]
      · simp [hfst, hsnd]

/-- The edges of attached nodes pass validation. -/
theorem isSound_edges (hone : Weight.isFinite (Weight.ofNat 1 : R) = true)
    (h : growth.IsAttached count numNodes) :
    ∀ e ∈ (growth.edges : List (Edge R)), e.IsSound numNodes := by
  intro e he
  obtain ⟨hpair, hweight⟩ := mem_edges.mp he
  have hlt := h.lt _ hpair
  refine ⟨Nat.lt_trans hlt.1 hlt.2, hlt.2, Nat.ne_of_lt hlt.1, ?_⟩
  rwa [hweight]

theorem isSimple_edges (h : growth.IsAttached count numNodes) (hedges : g.edges = growth.edges) :
    g.IsSimple := by
  refine isSimple_of_lt ?_ ?_
  · intro e he
    rw [hedges] at he
    exact (h.lt _ (mem_edges.mp he).1).1
  · rw [hedges, Growth.edges, List.map_map]
    exact h.nodup_pairs.map Function.injective_id

/-- A graph built from the edges of attached nodes. -/
theorem isPreferential_of_isAttached (h : growth.IsAttached count numNodes) (hpos : 0 < count)
    (hcount : count < numNodes) (hbuilt : g.IsBuilt) (hnodes : g.numNodes = numNodes)
    (hedges : g.edges = growth.edges) : g.IsPreferential numNodes count := by
  have hearlier {v : Nat} (hv : v < numNodes) :
      g.earlierNeighbors v = .ok (growth.targetsOf v) := by
    unfold earlierNeighbors
    rw [hbuilt.neighbors_eq (by omega), ← filter_entries (R := R) (fun pair hpair =>
      (h.lt pair hpair).1) v, ← hedges]
    rfl
  refine ⟨hbuilt, hnodes, ?_, ?_, isSimple_edges h hedges, ?_, ?_, ?_⟩
  · rw [numEdges, hedges, Growth.edges, List.length_map, Array.length_toList, h.size_pairs]
  · intro e he
    rw [hedges] at he
    obtain ⟨hpair, hweight⟩ := mem_edges.mp he
    exact ⟨(h.lt _ hpair).1, hweight⟩
  · refine connected_of_exists_lt (by omega) ?_
    intro v hvpos hv
    obtain ⟨t, ht⟩ := h.exists_target hpos hvpos (by omega)
    rw [hedges]
    exact ⟨⟨t, v, Weight.ofNat 1⟩, mem_edges.mpr ⟨ht, rfl⟩, rfl, (h.lt _ ht).1⟩
  · intro v hvpos hle
    rw [hearlier (by omega), h.targets_star v hvpos hle]
  · intro v hlt hv
    exact ⟨growth.targetsOf v, hearlier hv, h.targets_new v hlt hv⟩

theorem ofEdges_edges_ensures {σ : Type} {mayLoop : Prop}
    (hone : Weight.isFinite (Weight.ofNat 1 : R) = true) (h : growth.IsAttached count numNodes)
    (hpos : 0 < count) (hcount : count < numNodes) :
    Attempt.Ensures mayLoop (Attempt.ofFallible (ofEdges numNodes growth.edges) : Attempt σ (Graph R))
      fun g => g.IsPreferential numNodes count := by
  have hvalid := validate_of_isSound (isSound_edges hone h) 0
  obtain ⟨g, hg⟩ := exists_ofEdges_of_validate hvalid
  obtain ⟨-, hnodes, hedges⟩ := ofEdges_inv hg
  exact Draw.Ensures.lift hg ⟨g, rfl,
    isPreferential_of_isAttached h hpos hcount (isBuilt_of_ofEdges hg) hnodes hedges⟩

end Attached

-- ---------------------------------------------------------------------------
-- Preferential attachment
-- ---------------------------------------------------------------------------

section Main

variable {σ : Type} [WordSource σ]

/-- Refused before anything is drawn. -/
theorem preferentialAttachment_of_bad {R : Type} [Weight R] {numNodes count : Nat}
    (h : count = 0 ∨ numNodes ≤ count) (s : σ) :
    ((preferentialAttachment numNodes count : Attempt σ (Graph R)).run).run s
      = .ok (.error (.invalidConfig (.attachmentCount numNodes count)), s) := by
  unfold preferentialAttachment
  rw [if_pos h]
  rfl

/-- Otherwise what has grown after all arrivals is built into a graph. -/
theorem preferentialAttachment_of_good {R : Type} [Weight R] {numNodes count : Nat}
    (h : ¬(count = 0 ∨ numNodes ≤ count)) :
    (preferentialAttachment numNodes count : Attempt σ (Graph R)) = (do
      let grown ← (growthAfter count (numNodes - (count + 1)) : Draw σ Growth)
      Attempt.ofFallible (ofEdges numNodes grown.edges)) := by
  unfold preferentialAttachment
  rw [if_neg h]
  rfl

theorem preferentialAttachment_ensures {R : Type} [Weight R]
    (hone : Weight.isFinite (Weight.ofNat 1 : R) = true) {numNodes count : Nat}
    (h : ¬(count = 0 ∨ numNodes ≤ count)) :
    Attempt.Ensures True (preferentialAttachment numNodes count : Attempt σ (Graph R))
      fun g => g.IsPreferential numNodes count := by
  have hpos : 0 < count := by omega
  have hcount : count < numNodes := by omega
  rw [preferentialAttachment_of_good h]
  refine (Attempt.Ensures.lift (growthAfter_ensures hpos (numNodes - (count + 1)))).bind ?_
  intro grown hgrown
  rw [Nat.add_sub_cancel' hcount] at hgrown
  exact ofEdges_edges_ensures hone hgrown hpos hcount

/-- For `count` attachments of each node among `numNodes`, preferential attachment is refused before
anything is drawn if there are none or not enough nodes. Otherwise it answers, as soon as its
rejection loops end, a simple connected graph with `count * (numNodes - count)` edges of weight one,
in which the first nodes are joined to node `0` alone of the earlier ones and each later node to
`count` different earlier ones. After every arrival, and every single edge of it, a node occurs in
the ends as often as it has edges, so that a node not chosen yet is drawn with its degree as its
weight. -/
theorem preferentialAttachment_grows (numNodes count : Nat) :
    (count = 0 ∨ numNodes ≤ count → ∀ s : σ,
      ((preferentialAttachment numNodes count : Attempt σ (Graph Float)).run).run s
        = .ok (.error (.invalidConfig (.attachmentCount numNodes count)), s)) ∧
    (¬(count = 0 ∨ numNodes ≤ count) →
      Attempt.Ensures True (preferentialAttachment numNodes count : Attempt σ (Graph Float))
        fun g => g.IsPreferential numNodes count) ∧
    (0 < count → ∀ arrivals,
      Draw.Ensures True (growthAfter count arrivals : Draw σ Growth) fun grown =>
        grown.IsTallied ∧ ∀ chosen t,
          placesOf grown.ends chosen t = if t ∈ chosen then 0 else grown.degree t) := by
  refine ⟨preferentialAttachment_of_bad, preferentialAttachment_ensures rfl, ?_⟩
  intro hpos arrivals
  refine (growthAfter_ensures hpos arrivals).mono ?_
  intro grown hgrown
  refine ⟨hgrown.isTallied, ?_⟩
  intro chosen t
  rw [placesOf_eq, hgrown.isTallied.count_ends]

end Main

/-- Four nodes, the last of them attached to nodes `1` and `0`. -/
def fourAttached : Graph Float where
  numNodes := 4
  edges := [⟨0, 1, 1.0⟩, ⟨0, 2, 1.0⟩, ⟨1, 3, 1.0⟩, ⟨0, 3, 1.0⟩]
  offsets := #[0, 3, 5, 6, 8]
  adjacency := #[⟨1, 1.0⟩, ⟨2, 1.0⟩, ⟨3, 1.0⟩, ⟨0, 1.0⟩, ⟨3, 1.0⟩, ⟨0, 1.0⟩, ⟨1, 1.0⟩, ⟨0, 1.0⟩]
  weightedDegrees := #[3.0, 2.0, 1.0, 2.0]

/-- They are grown with three draws, of which the second finds a node chosen already. -/
theorem preferentialAttachment_grows_fourAttached :
    ((preferentialAttachment 4 2 : Attempt Tape (Graph Float)).run).run
        (Tape.start [0x4000000000000000, 0x4000000000000000, 0x8000000000000000] 7)
      = .ok (.ok fourAttached, ⟨[], .ofSeed 7, 3⟩) ∧
    fourAttached.IsPreferential 4 2 := by
  have hrun : ((preferentialAttachment 4 2 : Attempt Tape (Graph Float)).run).run
      (Tape.start [0x4000000000000000, 0x4000000000000000, 0x8000000000000000] 7)
      = .ok (.ok fourAttached, ⟨[], .ofSeed 7, 3⟩) := by
    decide +kernel
  obtain ⟨-, hgrows, -⟩ := preferentialAttachment_grows (σ := Tape) 4 2
  obtain ⟨g, hg, hpreferential⟩ := Draw.Ensures.of_run (hgrows (by decide)) hrun
  cases hg
  exact ⟨hrun, hpreferential⟩

end CutCover.Graph
