import CutCover.Graph.Random
import Mathlib.Data.List.Nodup

/-!
# CutCover — a graph grown edge by edge

Preferential attachment keeps, beside the edges, a list of their ends, and every node that arrives
is joined to different earlier nodes. What this makes of the edges is stated here without a word on
how the earlier nodes are chosen.

* `Growth.joinAll`    — several edges, one after the other.
* `Growth.degree`, `Growth.targetsOf` — what the edges say of a node.
* `Growth.IsTallied`  — after each edge, a node occurs in the ends as often as it has edges.
* `Growth.IsAttached` — the first nodes form a star, and every later one has as many targets.
* `placesOf_eq`       — the places of the ends at which a node can be drawn.
-/

namespace CutCover.Graph

namespace Growth

variable {growth : Growth} {count arrived node : Nat}

-- ---------------------------------------------------------------------------
-- Several edges
-- ---------------------------------------------------------------------------

/-- No edge yet. -/
def empty : Growth :=
  ⟨#[], #[]⟩

/-- Adds edges, one after the other. -/
def joinAll (growth : Growth) (new : List (Nat × Nat)) : Growth :=
  new.foldl (fun grown pair => grown.join pair.1 pair.2) growth

theorem joinAll_append (growth : Growth) (new later : List (Nat × Nat)) :
    growth.joinAll (new ++ later) = (growth.joinAll new).joinAll later := by
  unfold joinAll
  exact List.foldl_append

@[simp] theorem pairs_joinAll (growth : Growth) (new : List (Nat × Nat)) :
    (growth.joinAll new).pairs.toList = growth.pairs.toList ++ new := by
  induction new generalizing growth with
  | nil => simp [joinAll]
  | cons pair rest ih =>
    show ((growth.join pair.1 pair.2).joinAll rest).pairs.toList = _
    simp [ih, join]

@[simp] theorem ends_joinAll (growth : Growth) (new : List (Nat × Nat)) :
    (growth.joinAll new).ends.toList
      = growth.ends.toList ++ new.flatMap fun pair => [pair.1, pair.2] := by
  induction new generalizing growth with
  | nil => simp [joinAll]
  | cons pair rest ih =>
    show ((growth.join pair.1 pair.2).joinAll rest).ends.toList = _
    simp [ih, join]

-- ---------------------------------------------------------------------------
-- Nodes
-- ---------------------------------------------------------------------------

/-- The number of edges at a node. -/
def degree (growth : Growth) (node : Nat) : Nat :=
  growth.pairs.toList.countP fun pair => pair.1 == node || pair.2 == node

/-- The nodes to which a node was joined when it arrived, in order. -/
def targetsOf (growth : Growth) (v : Nat) : List Nat :=
  growth.pairs.toList.filterMap fun pair => if pair.2 = v then some pair.1 else none

theorem mem_targetsOf {t v : Nat} : t ∈ growth.targetsOf v ↔ (t, v) ∈ growth.pairs.toList := by
  unfold targetsOf
  simp

theorem length_targetsOf (growth : Growth) (v : Nat) :
    (growth.targetsOf v).length = growth.pairs.toList.countP fun pair => pair.2 == v := by
  unfold targetsOf
  rw [List.length_filterMap_eq_countP]
  congr 1
  funext pair
  by_cases h : pair.2 = v <;> simp [h]

theorem count_targetsOf (growth : Growth) (t v : Nat) :
    (growth.targetsOf v).count t = growth.pairs.toList.count (t, v) := by
  unfold targetsOf
  rw [List.count_filterMap]
  refine List.countP_congr ?_
  intro pair _
  by_cases h : pair.2 = v <;> simp [h, Prod.ext_iff]

theorem targetsOf_joinAll (growth : Growth) (new : List (Nat × Nat)) (v : Nat) :
    (growth.joinAll new).targetsOf v
      = growth.targetsOf v ++ new.filterMap fun pair => if pair.2 = v then some pair.1 else none := by
  unfold targetsOf
  rw [pairs_joinAll, List.filterMap_append]

-- ---------------------------------------------------------------------------
-- The tally
-- ---------------------------------------------------------------------------

/-- After each of the edges, every node occurs in the ends as often as it has edges. -/
structure IsTallied (growth : Growth) : Prop where
  /-- The edges were added one after the other. -/
  laid : growth = empty.joinAll growth.pairs.toList
  tally : ∀ k node, (empty.joinAll (growth.pairs.toList.take k)).ends.toList.count node
    = (empty.joinAll (growth.pairs.toList.take k)).degree node

/-- An edge between two different nodes adds one to the occurrences of each and to its edges. -/
theorem count_ends_joinAll {new : List (Nat × Nat)} (hne : ∀ pair ∈ new, pair.1 ≠ pair.2)
    (node : Nat) : (empty.joinAll new).ends.toList.count node = (empty.joinAll new).degree node := by
  unfold degree
  rw [ends_joinAll, pairs_joinAll]
  induction new with
  | nil => rfl
  | cons pair rest ih =>
    have hpair := hne pair List.mem_cons_self
    have hrest := ih fun later hlater => hne later (List.mem_cons_of_mem pair hlater)
    simp only [empty, List.nil_append, List.flatMap_cons, List.count_append, List.countP_cons,
      List.count_cons, List.count_nil, beq_iff_eq, Bool.or_eq_true] at hrest ⊢
    by_cases hfst : pair.1 = node
    · have hsnd : pair.2 ≠ node := by omega
      simp [hfst, hsnd, hrest]
      omega
    · simp [hfst, hrest]
      omega

theorem isTallied_of_laid (hlaid : growth = empty.joinAll growth.pairs.toList)
    (hne : ∀ pair ∈ growth.pairs.toList, pair.1 ≠ pair.2) : growth.IsTallied where
  laid := hlaid
  tally _ := count_ends_joinAll fun pair hpair => hne pair (List.mem_of_mem_take hpair)

/-- After all of them, in particular. -/
theorem IsTallied.count_ends (h : growth.IsTallied) (node : Nat) :
    growth.ends.toList.count node = growth.degree node := by
  have htally := h.tally growth.pairs.toList.length node
  rwa [List.take_length, ← h.laid] at htally

/-- The ends are those of the edges. -/
theorem IsTallied.mem_ends_iff (h : growth.IsTallied) :
    node ∈ growth.ends ↔ ∃ pair ∈ growth.pairs.toList, pair.1 = node ∨ pair.2 = node := by
  rw [← Array.mem_toList_iff, ← List.count_pos_iff, h.count_ends, degree, List.countP_pos_iff]
  simp

-- ---------------------------------------------------------------------------
-- Attached nodes
-- ---------------------------------------------------------------------------

/-- Of the nodes that have arrived, the first are joined to node `0` and to no other earlier node,
and each of the later ones to `count` different earlier nodes. -/
structure IsAttached (count arrived : Nat) (growth : Growth) : Prop where
  laid : growth = empty.joinAll growth.pairs.toList
  lt : ∀ pair ∈ growth.pairs.toList, pair.1 < pair.2 ∧ pair.2 < arrived
  size_pairs : growth.pairs.size = count * (arrived - count)
  targets_star : ∀ v, 1 ≤ v → v ≤ count → growth.targetsOf v = [0]
  targets_new : ∀ v, count < v → v < arrived →
    (growth.targetsOf v).Nodup ∧ (growth.targetsOf v).length = count

/-- The star joins one node after the other to node `0`. -/
theorem star_eq (count : Nat) :
    star count = empty.joinAll ((List.range' 1 count).map fun v => (0, v)) := by
  unfold star joinAll
  rw [List.foldl_map]
  rfl

theorem isAttached_star (count : Nat) : (star count).IsAttached count (count + 1) := by
  rw [star_eq]
  refine ⟨?_, ?_, ?_, ?_, ?_⟩
  · simp [empty]
  · intro pair hpair
    simp only [pairs_joinAll, empty, List.nil_append, List.mem_map, List.mem_range'_1] at hpair
    obtain ⟨v, hv, rfl⟩ := hpair
    show 0 < v ∧ v < count + 1
    omega
  · rw [← Array.length_toList, pairs_joinAll]
    simp [empty]
  · intro v hpos hle
    have hcount : ((List.range' 1 count).map fun v => (0, v)).countP (fun pair => pair.2 == v)
        = 1 := by
      rw [List.countP_map]
      refine List.count_eq_one_of_mem List.nodup_range' ?_
      rw [List.mem_range'_1]
      omega
    have htargets : (empty.joinAll ((List.range' 1 count).map fun v => (0, v))).targetsOf v
        = List.replicate 1 0 := by
      refine List.eq_replicate_iff.mpr ⟨?_, ?_⟩
      · rw [length_targetsOf, pairs_joinAll]
        exact hcount
      · intro t ht
        rw [mem_targetsOf, pairs_joinAll] at ht
        simp [empty] at ht
        omega
    exact htargets
  · intro v hlt hlt'
    omega

namespace IsAttached

theorem isTallied (h : growth.IsAttached count arrived) : growth.IsTallied :=
  isTallied_of_laid h.laid fun pair hpair => Nat.ne_of_lt (h.lt pair hpair).1

/-- A node that has not arrived has no targets. -/
theorem targetsOf_eq_nil (h : growth.IsAttached count arrived) {v : Nat} (hv : arrived ≤ v) :
    growth.targetsOf v = [] := by
  rw [List.eq_nil_iff_forall_not_mem]
  intro t ht
  have hlt := (h.lt (t, v) (mem_targetsOf.mp ht)).2
  exact Nat.not_lt_of_le hv hlt

/-- One more node arrives and is joined to `count` different nodes that are there. -/
theorem arrive (h : growth.IsAttached count arrived) (hcount : count < arrived)
    {targets : List Nat} (hnodup : targets.Nodup) (hlength : targets.length = count)
    (hlt : ∀ t ∈ targets, t < arrived) :
    (growth.joinAll (targets.map fun t => (t, arrived))).IsAttached count (arrived + 1) := by
  have hold (v : Nat) (hv : v ≠ arrived) :
      (growth.joinAll (targets.map fun t => (t, arrived))).targetsOf v = growth.targetsOf v := by
    rw [targetsOf_joinAll, List.filterMap_map]
    simp [Ne.symm hv]
  have hnew : (growth.joinAll (targets.map fun t => (t, arrived))).targetsOf arrived = targets := by
    rw [targetsOf_joinAll, List.filterMap_map, h.targetsOf_eq_nil (Nat.le_refl _)]
    simp
  refine ⟨?_, ?_, ?_, ?_, ?_⟩
  · rw [pairs_joinAll, joinAll_append, ← h.laid]
  · intro pair hpair
    rw [pairs_joinAll, List.mem_append] at hpair
    rcases hpair with hpair | hpair
    · have := h.lt pair hpair
      omega
    · obtain ⟨t, ht, rfl⟩ := List.mem_map.mp hpair
      exact ⟨hlt t ht, Nat.lt_succ_self arrived⟩
  · have hsize := h.size_pairs
    rw [← Array.length_toList] at hsize ⊢
    rw [pairs_joinAll, List.length_append, List.length_map, hsize, hlength,
      Nat.succ_sub (Nat.le_of_lt hcount), Nat.mul_succ]
  · intro v hpos hle
    rw [hold v (by omega)]
    exact h.targets_star v hpos hle
  · intro v hv hv'
    by_cases heq : v = arrived
    · rw [heq, hnew]
      exact ⟨hnodup, hlength⟩
    · rw [hold v heq]
      exact h.targets_new v hv (by omega)

/-- The ends are nodes that have arrived. -/
theorem lt_of_mem_ends (h : growth.IsAttached count arrived) (hnode : node ∈ growth.ends) :
    node < arrived := by
  obtain ⟨pair, hpair, hend⟩ := h.isTallied.mem_ends_iff.mp hnode
  have hlt := h.lt pair hpair
  omega

/-- Every node but the first has an earlier neighbour. -/
theorem exists_target (h : growth.IsAttached count arrived) (hcount : 0 < count) {v : Nat}
    (hpos : 0 < v) (hv : v < arrived) : ∃ t, (t, v) ∈ growth.pairs.toList := by
  have hne : growth.targetsOf v ≠ [] := by
    rcases Nat.lt_or_ge count v with hnew | hstar
    · have hlength := (h.targets_new v hnew hv).2
      intro hnil
      rw [hnil] at hlength
      exact absurd hlength (Nat.ne_of_lt hcount)
    · rw [h.targets_star v hpos hstar]
      exact List.cons_ne_nil 0 []
  obtain ⟨t, ht⟩ := List.exists_mem_of_ne_nil _ hne
  exact ⟨t, mem_targetsOf.mp ht⟩

/-- All nodes that have arrived are in the ends. -/
theorem mem_ends_iff (h : growth.IsAttached count arrived) (hpos : 0 < count) :
    node ∈ growth.ends ↔ node < arrived := by
  refine ⟨h.lt_of_mem_ends, fun hlt => ?_⟩
  rw [h.isTallied.mem_ends_iff]
  rcases Nat.eq_zero_or_pos node with rfl | hnode
  · have hfirst : 0 ∈ growth.targetsOf 1 := by
      rw [h.targets_star 1 (Nat.le_refl _) hpos]
      exact List.mem_singleton_self 0
    exact ⟨_, mem_targetsOf.mp hfirst, .inl rfl⟩
  · obtain ⟨t, ht⟩ := h.exists_target hpos hnode hlt
    exact ⟨_, ht, .inr rfl⟩

/-- No pair of nodes is joined twice. -/
theorem nodup_pairs (h : growth.IsAttached count arrived) : growth.pairs.toList.Nodup := by
  rw [List.nodup_iff_count_le_one]
  rintro ⟨t, v⟩
  rw [← count_targetsOf]
  by_cases hmem : t ∈ growth.targetsOf v
  · have hlt := h.lt (t, v) (mem_targetsOf.mp hmem)
    rcases Nat.lt_or_ge count v with hnew | hstar
    · exact List.nodup_iff_count_le_one.mp (h.targets_new v hnew hlt.2).1 t
    · rw [h.targets_star v (Nat.zero_lt_of_lt hlt.1) hstar]
      exact List.nodup_iff_count_le_one.mp (List.nodup_singleton 0) t
  · rw [List.count_eq_zero_of_not_mem hmem]
    exact Nat.zero_le 1

end IsAttached

end Growth

-- ---------------------------------------------------------------------------
-- Places
-- ---------------------------------------------------------------------------

/-- The number of places of the ends at which a node is found and not refused. -/
def placesOf (ends : Array Nat) (chosen : List Nat) (t : Nat) : Nat :=
  (List.range ends.size).countP fun place => targetAt? ends chosen place = .ok (some t)

/-- A place answers the node that it holds, unless that is among the chosen ones. -/
theorem targetAt?_of_lt {ends : Array Nat} (chosen : List Nat) {place : Nat}
    (hplace : place < ends.size) : targetAt? ends chosen place
      = .ok (if ends[place] ∈ chosen then none else some ends[place]) := by
  unfold targetAt?
  rw [fetch_of_lt hplace]
  rfl

theorem targetAt?_eq_some_iff {ends : Array Nat} {chosen : List Nat} {place t : Nat}
    (hplace : place < ends.size) :
    targetAt? ends chosen place = .ok (some t) ↔ ends[place] = t ∧ t ∉ chosen := by
  rw [targetAt?_of_lt chosen hplace]
  by_cases hchosen : ends[place] ∈ chosen
  · simp only [hchosen, if_true, Except.ok.injEq, reduceCtorEq, false_iff, not_and, not_not]
    rintro rfl
    exact hchosen
  · simp only [hchosen, if_false, Except.ok.injEq, Option.some_inj, iff_self_and]
    rintro rfl
    exact hchosen

/-- Occurrences are counted place by place. -/
theorem count_eq_countP_range (xs : List Nat) (t : Nat) :
    xs.count t = (List.range xs.length).countP fun place => xs[place]? = some t := by
  induction xs with
  | nil => rfl
  | cons x rest ih =>
    rw [List.count_cons, ih, List.length_cons, List.range_succ_eq_map, List.countP_cons,
      List.countP_map]
    simp [Function.comp_def]

/-- A node not chosen yet can be drawn at every place where it occurs, a node chosen at none. -/
theorem placesOf_eq (ends : Array Nat) (chosen : List Nat) (t : Nat) :
    placesOf ends chosen t = if t ∈ chosen then 0 else ends.toList.count t := by
  unfold placesOf
  split
  · next hchosen =>
    rw [List.countP_eq_zero]
    intro place hplace
    simp [targetAt?_eq_some_iff (List.mem_range.mp hplace), hchosen]
  · next hfree =>
    rw [count_eq_countP_range, Array.length_toList]
    refine List.countP_congr ?_
    intro place hplace
    have hlt := List.mem_range.mp hplace
    simp [targetAt?_eq_some_iff hlt, hfree, Array.getElem?_eq_getElem hlt]

end CutCover.Graph
