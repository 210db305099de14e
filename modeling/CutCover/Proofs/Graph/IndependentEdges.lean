import CutCover.Graph.Random
import CutCover.Proofs.Graph.Represents
import CutCover.Proofs.Graph.Simple
import CutCover.Proofs.Weight.Order
import CutCover.Proofs.Words
import CutCover.Random.Tape

/-!
# CutCover — independent edges

A graph with independent edges takes one word for every pair of nodes. The pairs stand in
lexicographic order, so the word of a pair is found at the rank of the pair among them, and the pair
is joined just if the number that its word stands for is below the probability asked for.

* `IsProbability`        — a number from zero to one.
* `pairRank`             — the rank of a pair of nodes.
* `getElem?_nodePairs_iff`, `pairRank_bijOn` — a pair for each rank, and a rank for each pair.
* `JoinsExactly`         — the simple graph of the pairs that are joined.
* `independentEdges_joins` — when there is a graph, and which edges it has.
-/

namespace CutCover.Graph

open WordSource (skip wordAt)
open Draw (unitOf)

variable {n u v : Nat}

-- ---------------------------------------------------------------------------
-- Pairs of nodes
-- ---------------------------------------------------------------------------

/-- The pairs of a node with the nodes after it. -/
def pairsOf (n u : Nat) : List (Nat × Nat) :=
  (List.range' (u + 1) (n - (u + 1))).map fun v => (u, v)

/-- The rank of the pair of `u` and `v`: behind the pairs of the nodes before `u`, and those of `u`
with the nodes before `v`. -/
def pairRank (n u v : Nat) : Nat :=
  u * n - u * (u + 1) / 2 + (v - u - 1)

theorem nodePairs_eq (n : Nat) : nodePairs n = (List.range n).flatMap (pairsOf n) :=
  rfl

theorem mem_nodePairs : (u, v) ∈ nodePairs n ↔ u < v ∧ v < n := by
  simp only [nodePairs_eq, pairsOf, List.mem_flatMap, List.mem_range, List.mem_map,
    List.mem_range'_1, Prod.mk.injEq]
  constructor
  · rintro ⟨_, _, _, _, rfl, rfl⟩
    omega
  · intro h
    exact ⟨u, by omega, v, by omega, rfl, rfl⟩

/-- The pairs stand in lexicographic order. -/
theorem pairwise_nodePairs (n : Nat) : (nodePairs n).Pairwise (Prod.Lex (· < ·) (· < ·)) := by
  rw [nodePairs_eq, List.pairwise_flatMap]
  refine ⟨?_, List.pairwise_lt_range.imp ?_⟩
  · intro u _
    rw [pairsOf, List.pairwise_map]
    exact (List.pairwise_lt_range' 1).imp fun hlt => .right u hlt
  · intro u u' hlt p hp q hq
    obtain ⟨_, _, rfl⟩ := List.mem_map.mp hp
    obtain ⟨_, _, rfl⟩ := List.mem_map.mp hq
    exact .left _ _ hlt

/-- The pairs of so many nodes. -/
theorem length_flatMap_pairsOf {count : Nat} (h : count ≤ n) :
    ((List.range count).flatMap (pairsOf n)).length + count * (count + 1) / 2 = count * n := by
  induction count with
  | zero => simp
  | succ count ih =>
    have hcount := ih (Nat.le_of_succ_le h)
    have htriangle := Nat.triangle_succ (count + 1)
    rw [Nat.add_sub_cancel, Nat.add_sub_cancel, Nat.mul_comm (count + 1) count,
      Nat.mul_comm (count + 1 + 1)] at htriangle
    have hrow : (pairsOf n count).length = n - (count + 1) := by simp [pairsOf]
    rw [List.range_succ, List.flatMap_append, List.length_append, List.flatMap_singleton, hrow,
      htriangle, Nat.succ_mul]
    omega

theorem length_nodePairs (n : Nat) : (nodePairs n).length = n * (n - 1) / 2 := by
  have hall : (nodePairs n).length + n * (n + 1) / 2 = n * n := length_flatMap_pairsOf le_rfl
  have htriangle := Nat.triangle_succ n
  have htwice := Nat.two_mul_div_two_of_even (Nat.even_mul_pred_self n)
  rw [Nat.add_sub_cancel, Nat.mul_comm (n + 1)] at htriangle
  rw [Nat.mul_sub_one] at htwice htriangle ⊢
  have hle := Nat.le_mul_self n
  omega

/-- A pair stands at its rank. -/
theorem getElem?_nodePairs (huv : u < v) (hv : v < n) :
    (nodePairs n)[pairRank n u v]? = some (u, v) := by
  obtain ⟨later, hlater⟩ : ∃ later, List.range n = List.range u ++ u :: later := by
    obtain ⟨k, rfl⟩ : ∃ k, n = u + (k + 1) := ⟨n - u - 1, by omega⟩
    rw [List.range_add, List.range_succ_eq_map]
    exact ⟨_, rfl⟩
  have hbefore := length_flatMap_pairsOf (show u ≤ n by omega)
  have hrank : pairRank n u v
      = ((List.range u).flatMap (pairsOf n)).length + (v - u - 1) := by
    rw [pairRank, ← hbefore, Nat.add_sub_cancel]
  have hrow : (pairsOf n u)[v - u - 1]? = some (u, v) := by
    rw [pairsOf, List.getElem?_map, List.getElem?_range' (by omega)]
    simp only [Option.map_some, Option.some.injEq, Prod.mk.injEq, true_and]
    omega
  have hlt := (List.getElem?_eq_some_iff.mp hrow).1
  rw [nodePairs_eq, hlater, List.flatMap_append, List.flatMap_cons, hrank,
    List.getElem?_append_right (Nat.le_add_right _ _), Nat.add_sub_cancel_left,
    List.getElem?_append_left hlt, hrow]

theorem getElem?_nodePairs_iff {k : Nat} :
    (nodePairs n)[k]? = some (u, v) ↔ u < v ∧ v < n ∧ k = pairRank n u v := by
  constructor
  · intro hk
    obtain ⟨huv, hv⟩ := mem_nodePairs.mp (List.mem_of_getElem? hk)
    have hrank := getElem?_nodePairs huv hv
    have hlt := (List.getElem?_eq_some_iff.mp hk).1
    have heq := (List.getElem?_inj hlt (pairwise_nodePairs n).nodup).mp (hk.trans hrank.symm)
    exact ⟨huv, hv, heq⟩
  · rintro ⟨huv, hv, rfl⟩
    exact getElem?_nodePairs huv hv

/-- The ranks of the pairs are the numbers below that of all pairs, each of one pair. -/
theorem pairRank_bijOn (n : Nat) : Set.BijOn (fun pair : Nat × Nat => pairRank n pair.1 pair.2)
    {pair | pair.1 < pair.2 ∧ pair.2 < n} (Set.Iio (n * (n - 1) / 2)) := by
  rw [← length_nodePairs]
  refine ⟨?_, ?_, ?_⟩
  · rintro ⟨u, v⟩ ⟨huv, hv⟩
    exact (List.getElem?_eq_some_iff.mp (getElem?_nodePairs huv hv)).1
  · rintro ⟨u, v⟩ ⟨huv, hv⟩ ⟨u', v'⟩ ⟨huv', hv'⟩ heq
    have hpair := getElem?_nodePairs huv hv
    rw [show pairRank n u v = pairRank n u' v' from heq, getElem?_nodePairs huv' hv'] at hpair
    exact (Option.some_inj.mp hpair).symm
  · intro k hk
    obtain ⟨huv, hv, hrank⟩ := getElem?_nodePairs_iff.mp (List.getElem?_eq_getElem hk)
    exact ⟨_, ⟨huv, hv⟩, hrank.symm⟩

-- ---------------------------------------------------------------------------
-- Joined pairs
-- ---------------------------------------------------------------------------

variable {R : Type} [Weight R] {p : Float} {draw : Nat → Float}

/-- The edges of the pairs whose number is below `p`. -/
def joinedEdges (n : Nat) (p : Float) (draws : List Float) : List (Edge R) :=
  (((nodePairs n).zip draws).filter fun (_, r) => r < p).map
    fun ((u, v), _) => ⟨u, v, Weight.ofNat 1⟩

/-- Numbers for all pairs of nodes, by their ranks. -/
def drawsOf (n : Nat) (draw : Nat → Float) : List Float :=
  (List.range (nodePairs n).length).map draw

theorem mem_zip_drawsOf {r : Float} :
    ((u, v), r) ∈ (nodePairs n).zip (drawsOf n draw) ↔
      u < v ∧ v < n ∧ r = draw (pairRank n u v) := by
  simp only [List.mem_iff_getElem?, List.getElem?_zip_eq_some, getElem?_nodePairs_iff, drawsOf,
    List.getElem?_map, Option.map_eq_some_iff]
  constructor
  · rintro ⟨k, ⟨huv, hv, rfl⟩, place, hplace, rfl⟩
    obtain ⟨hlt, rfl⟩ := List.getElem?_eq_some_iff.mp hplace
    exact ⟨huv, hv, by rw [List.getElem_range]⟩
  · rintro ⟨huv, hv, rfl⟩
    have hlt := (List.getElem?_eq_some_iff.mp (getElem?_nodePairs huv hv)).1
    exact ⟨_, ⟨huv, hv, rfl⟩, _, List.getElem?_range hlt, rfl⟩

theorem mem_joinedEdges {e : Edge R} : e ∈ joinedEdges n p (drawsOf n draw) ↔
    e.u < e.v ∧ e.v < n ∧ draw (pairRank n e.u e.v) < p ∧ e.weight = Weight.ofNat 1 := by
  unfold joinedEdges
  rw [List.mem_map]
  constructor
  · rintro ⟨⟨⟨u, v⟩, r⟩, hmem, rfl⟩
    obtain ⟨hzip, hlt⟩ := List.mem_filter.mp hmem
    obtain ⟨huv, hv, rfl⟩ := mem_zip_drawsOf.mp hzip
    exact ⟨huv, hv, of_decide_eq_true hlt, rfl⟩
  · obtain ⟨u, v, weight⟩ := e
    rintro ⟨huv, hv, hlt, rfl⟩
    exact ⟨((u, v), draw (pairRank n u v)),
      List.mem_filter.mpr ⟨mem_zip_drawsOf.mpr ⟨huv, hv, rfl⟩, decide_eq_true hlt⟩, rfl⟩

/-- The edges keep the order of the pairs. -/
theorem pairwise_joinedEdges : ((joinedEdges n p (drawsOf n draw) : List (Edge R)).map
    fun e => (e.u, e.v)).Pairwise (Prod.Lex (· < ·) (· < ·)) := by
  have hends : (joinedEdges n p (drawsOf n draw) : List (Edge R)).map (fun e => (e.u, e.v))
      = (((nodePairs n).zip (drawsOf n draw)).filter fun (_, r) => r < p).map Prod.fst := by
    rw [joinedEdges, List.map_map]
    rfl
  have hall : ((nodePairs n).zip (drawsOf n draw)).map Prod.fst = nodePairs n :=
    List.map_fst_zip (by simp [drawsOf])
  have hordered := pairwise_nodePairs n
  rw [← hall] at hordered
  rw [hends]
  exact hordered.sublist (List.filter_sublist.map Prod.fst)

-- ---------------------------------------------------------------------------
-- The graph
-- ---------------------------------------------------------------------------

/-- The graph over `n` nodes with an edge of weight one for every pair of nodes that is joined, and
no other, in lexicographic order. -/
structure JoinsExactly (n : Nat) (joins : Nat → Nat → Prop) (g : Graph R) : Prop where
  built : g.IsBuilt
  numNodes_eq : g.numNodes = n
  mem_edges : ∀ e, e ∈ g.edges ↔
    e.u < e.v ∧ e.v < n ∧ joins e.u e.v ∧ e.weight = Weight.ofNat 1
  ordered : (g.edges.map fun e => (e.u, e.v)).Pairwise (Prod.Lex (· < ·) (· < ·))
  simple : g.IsSimple

/-- The edges of joined pairs pass validation, and make a simple graph. -/
theorem exists_joinsExactly (hone : Weight.isFinite (Weight.ofNat 1 : R) = true) (n : Nat)
    (p : Float) (draw : Nat → Float) :
    ∃ g : Graph R, (ofEdges n (joinedEdges n p (drawsOf n draw))).run = .ok (.ok g) ∧
      g.JoinsExactly n fun u v => draw (pairRank n u v) < p := by
  have hsound : ∀ e ∈ (joinedEdges n p (drawsOf n draw) : List (Edge R)), e.IsSound n := by
    intro e he
    obtain ⟨huv, hv, -, hweight⟩ := mem_joinedEdges.mp he
    refine ⟨by omega, hv, Nat.ne_of_lt huv, ?_⟩
    rwa [hweight]
  obtain ⟨g, hg⟩ := exists_ofEdges_of_validate (validate_of_isSound hsound 0)
  obtain ⟨-, hnodes, hedges⟩ := ofEdges_inv hg
  have hmem : ∀ e, e ∈ g.edges ↔ e.u < e.v ∧ e.v < n ∧ draw (pairRank n e.u e.v) < p ∧
      e.weight = Weight.ofNat 1 := by
    intro e
    rw [hedges]
    exact mem_joinedEdges
  have hordered : (g.edges.map fun e => (e.u, e.v)).Pairwise (Prod.Lex (· < ·) (· < ·)) := by
    rw [hedges]
    exact pairwise_joinedEdges
  have hsimple := isSimple_of_lt (fun e he => ((hmem e).mp he).1) hordered.nodup
  exact ⟨g, hg, isBuilt_of_ofEdges hg, hnodes, hmem, hordered, hsimple⟩

-- ---------------------------------------------------------------------------
-- Independent edges
-- ---------------------------------------------------------------------------

/-- A number from zero to one. -/
def IsProbability (p : Float) : Prop :=
  0.0 ≤ p ∧ p ≤ 1.0

/-- What is no probability is no number, or is below zero or above one. -/
theorem not_isProbability_iff : ¬ IsProbability p ↔ p.isNaN = true ∨ p < 0.0 ∨ 1.0 < p := by
  unfold IsProbability
  cases hnan : p.isNaN with
  | true =>
    simp only [true_or, iff_true]
    intro h
    have hnumber := ((Binary64.le_iff 0.0 p).mp h.1).2.1
    rw [hnan] at hnumber
    cases hnumber
  | false =>
    have hnumber : Weight.IsNumber p := (isNumber_iff_isNaN p).mpr hnan
    have hzero : 0.0 ≤ p ↔ ¬ p < 0.0 := Weight.Ordered.le_iff_not_lt (by decide) hnumber
    have hone : p ≤ 1.0 ↔ ¬ 1.0 < p := Weight.Ordered.le_iff_not_lt hnumber (by decide)
    rw [hzero, hone]
    tauto

variable {σ : Type} [WordSource σ]

/-- Refused before anything is drawn. -/
theorem independentEdges_of_not_isProbability (h : ¬ IsProbability p) (n : Nat) (s : σ) :
    ((independentEdges n p : Attempt σ (Graph R)).run).run s
      = .ok (.error (.invalidConfig (.edgeProbability p)), s) := by
  unfold IsProbability at h
  unfold independentEdges
  rw [if_pos h]
  rfl

/-- Otherwise a number is drawn for each pair, and the pairs joined are built into a graph. -/
theorem independentEdges_of_isProbability (h : IsProbability p) (n : Nat) :
    (independentEdges n p : Attempt σ (Graph R)) = (do
      let draws ← (Draw.replicate (nodePairs n).length Draw.unit : Draw σ _)
      Attempt.ofFallible (ofEdges n (joinedEdges n p draws))) := by
  unfold IsProbability at h
  unfold independentEdges
  rw [if_neg (not_not.mpr h)]
  rfl

/-- The number that the word at a place stands for. -/
def unitAt (s : σ) (place : Nat) : Float :=
  unitOf (wordAt s place)

theorem exists_independentEdges (hone : Weight.isFinite (Weight.ofNat 1 : R) = true)
    (h : IsProbability p) (n : Nat) (s : σ) :
    ∃ g : Graph R, ((independentEdges n p : Attempt σ (Graph R)).run).run s
        = .ok (.ok g, skip s (n * (n - 1) / 2)) ∧
      g.JoinsExactly n fun u v => unitAt s (pairRank n u v) < p := by
  obtain ⟨_, hdraws, rfl⟩ :=
    Draw.takes_replicate (fun _ => Draw.takes_unit) s (nodePairs n).length
  obtain ⟨g, hg, hjoins⟩ := exists_joinsExactly hone n p (unitAt s)
  refine ⟨g, ?_, hjoins⟩
  rw [independentEdges_of_isProbability h, Attempt.lift_bind_of_run hdraws, ← length_nodePairs]
  exact Attempt.ofFallible_run hg _

/-- Independent edges are refused, before anything is drawn, just if `p` is not a number, below zero
or above one. Otherwise there is a graph, from every source: one word is taken for each pair of
nodes, the one at its rank and at no other pair's, and the graph has just the edges of the pairs
whose own word stands for a number below `p`, in lexicographic order, of weight one. It is simple and
is what its edges are built into. -/
theorem independentEdges_joins (n : Nat) (p : Float) {σ : Type} [WordSource σ] (s : σ) :
    (((independentEdges n p : Attempt σ (Graph Float)).run).run s
        = .ok (.error (.invalidConfig (.edgeProbability p)), s) ↔ ¬ IsProbability p) ∧
    (¬ IsProbability p ↔ p.isNaN = true ∨ p < 0.0 ∨ 1.0 < p) ∧
    (IsProbability p → ∃ g,
      ((independentEdges n p : Attempt σ (Graph Float)).run).run s
        = .ok (.ok g, skip s (n * (n - 1) / 2)) ∧
      g.JoinsExactly n fun u v => unitAt s (pairRank n u v) < p) ∧
    Set.BijOn (fun pair : Nat × Nat => pairRank n pair.1 pair.2)
      {pair | pair.1 < pair.2 ∧ pair.2 < n} (Set.Iio (n * (n - 1) / 2)) := by
  refine ⟨⟨?_, fun h => independentEdges_of_not_isProbability h n s⟩, not_isProbability_iff,
    fun h => exists_independentEdges rfl h n s, pairRank_bijOn n⟩
  intro hrefused h
  obtain ⟨g, hrun, -⟩ := exists_independentEdges (R := Float) rfl h n s
  rw [hrun] at hrefused
  cases hrefused

/-- Three nodes of which the first and the last are not joined. -/
def threeJoined : Graph Float where
  numNodes := 3
  edges := [⟨0, 1, 1.0⟩, ⟨1, 2, 1.0⟩]
  offsets := #[0, 1, 3, 4]
  adjacency := #[⟨1, 1.0⟩, ⟨0, 1.0⟩, ⟨2, 1.0⟩, ⟨1, 1.0⟩]
  weightedDegrees := #[1.0, 2.0, 1.0]

/-- Their words stand for `0.0`, `0.5` and `0.25`, the second of which is not below `0.5`. -/
theorem independentEdges_joins_threeJoined :
    IsProbability 0.5 ∧
    ((independentEdges 3 0.5 : Attempt Tape (Graph Float)).run).run
        (Tape.start [0, 0x8000000000000000, 0x4000000000000000] 7)
      = .ok (.ok threeJoined, ⟨[], .ofSeed 7, 3⟩) ∧
    threeJoined.JoinsExactly 3 fun u v =>
      unitAt (Tape.start [0, 0x8000000000000000, 0x4000000000000000] 7) (pairRank 3 u v) < 0.5 := by
  have hhalf : IsProbability 0.5 := by
    unfold IsProbability
    decide
  have hrun : ((independentEdges 3 0.5 : Attempt Tape (Graph Float)).run).run
      (Tape.start [0, 0x8000000000000000, 0x4000000000000000] 7)
      = .ok (.ok threeJoined, ⟨[], .ofSeed 7, 3⟩) := by
    decide +kernel
  obtain ⟨-, -, hjoins, -⟩ := independentEdges_joins 3 0.5
    (Tape.start [0, 0x8000000000000000, 0x4000000000000000] 7)
  obtain ⟨g, hg, hexactly⟩ := hjoins hhalf
  obtain ⟨hanswer, -⟩ := Prod.mk.inj (Except.ok.inj (hrun.symm.trans hg))
  cases hanswer
  exact ⟨hhalf, hrun, hexactly⟩

end CutCover.Graph
