import CutCover.Proofs.Graph.Built
import Mathlib.Logic.Function.Basic

/-!
# CutCover — the rows of a built graph

The counting sort that fills the compressed rows is stable and complete: the row of a node lists the
edges at it, in the order of the edges, each with the node at its other end. No place used on the
way is out of range.

Each of the three passes is a fold over the half-edges, and its state after any part of them is a
table of a function of that part: how many half-edges fall into each row, where the rows begin and
how far they are filled, what the rows weigh. The invariants are stated in these terms.

* `tabulate`                    — an array given by a function.
* `entriesOf`, `startOf`        — the entries of a row among half-edges, and where the row begins.
* `Edge.entryAt?`, `Graph.row`  — the edges at a node, seen from it.
* `Graph.rowOffsets_eq`, `Graph.placeHalfEdges_eq`, `Graph.rowWeights_eq` — the passes.
* `Graph.IsBuilt.neighbors_eq`, `Graph.IsBuilt.weightedDegree_eq` — the rows of a built graph.
-/

namespace CutCover

-- ---------------------------------------------------------------------------
-- Tables
-- ---------------------------------------------------------------------------

section Tables

variable {α : Type} {n i : Nat} {f : Nat → α}

/-- The array of the first `n` values of a function. -/
def tabulate (n : Nat) (f : Nat → α) : Array α :=
  Array.ofFn fun i : Fin n => f i

theorem fetch_tabulate (h : i < n) : fetch (tabulate n f) i = .ok (f i) := by
  have hi : i < (tabulate n f).size := by simpa [tabulate] using h
  rw [fetch_of_lt hi]
  simp [tabulate]

theorem store_tabulate (a : α) (h : i < n) :
    store (tabulate n f) i a = .ok (tabulate n (Function.update f i a)) := by
  have hi : i < (tabulate n f).size := by simpa [tabulate] using h
  rw [store_of_lt a hi]
  congr 1
  apply Array.ext
  · simp [tabulate]
  · intro k hk hk'
    simp only [tabulate, Array.getElem_set, Array.getElem_ofFn, Function.update_apply]
    simp only [eq_comm]

/-- A table depends on the values it holds only. -/
theorem tabulate_congr {g : Nat → α} (h : ∀ k < n, f k = g k) : tabulate n f = tabulate n g := by
  simp only [tabulate]
  congr 1
  funext k
  exact h k k.isLt

theorem replicate_eq_tabulate (n : Nat) (a : α) : Array.replicate n a = tabulate n fun _ => a := by
  apply Array.ext
  · simp [tabulate]
  · intro k hk hk'
    simp [tabulate]

end Tables

-- ---------------------------------------------------------------------------
-- Half-edges by row
-- ---------------------------------------------------------------------------

section HalfEdges

variable {R : Type} {n : Nat} {halves : List (Nat × Neighbor R)}

/-- The entries that belong into a row, in order. -/
def entriesOf (row : Nat) (halves : List (Nat × Neighbor R)) : List (Neighbor R) :=
  (halves.filter fun half => half.1 == row).map Prod.snd

/-- Where a row begins: behind the entries of all rows before it. -/
def startOf (halves : List (Nat × Neighbor R)) (row : Nat) : Nat :=
  halves.countP fun half => half.1 < row

theorem entriesOf_append (row : Nat) (done todo : List (Nat × Neighbor R)) :
    entriesOf row (done ++ todo) = entriesOf row done ++ entriesOf row todo := by
  simp [entriesOf]

theorem entriesOf_singleton (row : Nat) (half : Nat × Neighbor R) :
    entriesOf row [half] = if half.1 = row then [half.2] else [] := by
  by_cases h : half.1 = row <;> simp [entriesOf, h]

theorem startOf_zero (halves : List (Nat × Neighbor R)) : startOf halves 0 = 0 := by
  simp [startOf]

theorem startOf_cons (half : Nat × Neighbor R) (rest : List (Nat × Neighbor R)) (row : Nat) :
    startOf (half :: rest) row = startOf rest row + if half.1 < row then 1 else 0 := by
  rw [startOf, List.countP_cons, ← startOf]
  simp only [decide_eq_true_eq]

theorem length_entriesOf_cons (row : Nat) (half : Nat × Neighbor R)
    (rest : List (Nat × Neighbor R)) :
    (entriesOf row (half :: rest)).length
      = (entriesOf row rest).length + if half.1 = row then 1 else 0 := by
  by_cases h : half.1 = row <;> simp [entriesOf, h]

/-- Rows follow each other without a gap. -/
theorem startOf_succ (halves : List (Nat × Neighbor R)) (row : Nat) :
    startOf halves (row + 1) = startOf halves row + (entriesOf row halves).length := by
  induction halves with
  | nil => rfl
  | cons half rest ih =>
    rw [startOf_cons, startOf_cons, length_entriesOf_cons, ih]
    rcases Nat.lt_trichotomy half.1 row with h | h | h
    · have hne : half.1 ≠ row := by omega
      rw [if_pos h, if_pos (show half.1 < row + 1 by omega), if_neg hne]
      omega
    · have hnot : ¬half.1 < row := by omega
      rw [if_neg hnot, if_pos (show half.1 < row + 1 by omega), if_pos h]
      omega
    · have hne : half.1 ≠ row := by omega
      have hnot : ¬half.1 < row := by omega
      rw [if_neg hnot, if_neg (show ¬half.1 < row + 1 by omega), if_neg hne]
      omega

theorem startOf_mono (halves : List (Nat × Neighbor R)) {row other : Nat} (h : row ≤ other) :
    startOf halves row ≤ startOf halves other := by
  refine List.countP_mono_left ?_
  intro half _ hhalf
  simp only [decide_eq_true_eq] at hhalf ⊢
  omega

theorem startOf_le_length (halves : List (Nat × Neighbor R)) (row : Nat) :
    startOf halves row ≤ halves.length :=
  List.countP_le_length

/-- A half-edge still to come has a place in its row behind those that came before it. -/
theorem filled_lt (done todo : List (Nat × Neighbor R)) (half : Nat × Neighbor R) :
    startOf (done ++ half :: todo) half.1 + (entriesOf half.1 done).length
      < startOf (done ++ half :: todo) (half.1 + 1) := by
  rw [startOf_succ, entriesOf_append, List.length_append]
  simp [entriesOf]

end HalfEdges

namespace Graph

variable {R : Type} {n : Nat} {halves : List (Nat × Neighbor R)}

-- ---------------------------------------------------------------------------
-- Where the rows begin
-- ---------------------------------------------------------------------------

theorem countEntry_tabulate {f : Nat → Nat} {row : Nat} (h : row < n) :
    countEntry (tabulate (n + 1) f) row
      = .ok (tabulate (n + 1) (Function.update f (row + 1) (f (row + 1) + 1))) := by
  have hrow : row + 1 < n + 1 := by omega
  rw [countEntry, fetch_tabulate hrow]
  exact store_tabulate _ hrow

/-- Counting adds to each place how often its row occurs. -/
theorem foldlM_countEntry {rows : List Nat} (h : ∀ row ∈ rows, row < n) (f : Nat → Nat) :
    rows.foldlM countEntry (tabulate (n + 1) f)
      = .ok (tabulate (n + 1) fun k => f k + rows.countP fun row => row + 1 == k) := by
  induction rows generalizing f with
  | nil => rfl
  | cons row rest ih =>
    have hrow := h row List.mem_cons_self
    rw [List.foldlM_cons, countEntry_tabulate hrow]
    refine (ih (fun other hother => h other (List.mem_cons_of_mem row hother)) _).trans ?_
    congr 1
    refine tabulate_congr fun k _ => ?_
    by_cases hk : k = row + 1
    · subst hk
      rw [Function.update_self, List.countP_cons_of_pos (by simp)]
      omega
    · have hne : ¬(row + 1 = k) := fun heq => hk heq.symm
      rw [Function.update_of_ne hk, List.countP_cons_of_neg (by simpa using hne)]

/-- Offsets up to the given place, counts behind it. -/
def offsetOrCount (halves : List (Nat × Neighbor R)) (place k : Nat) : Nat :=
  if k ≤ place then startOf halves k else (halves.map Prod.fst).countP fun row => row + 1 == k

theorem addPreceding_tabulate {place : Nat} (h : place < n) :
    addPreceding (tabulate (n + 1) (offsetOrCount halves place)) place
      = .ok (tabulate (n + 1) (offsetOrCount halves (place + 1))) := by
  have hplace : place + 1 < n + 1 := by omega
  have hcount : (halves.map Prod.fst).countP (fun row => row + 1 == place + 1)
      = (entriesOf place halves).length := by
    simp only [List.countP_map, entriesOf, List.length_map, ← List.countP_eq_length_filter]
    refine List.countP_congr fun half _ => ?_
    simp
  rw [addPreceding, fetch_tabulate (by omega : place < n + 1)]
  show (fetch _ (place + 1) >>= fun count => store _ (place + 1) (count + _)) = _
  rw [fetch_tabulate hplace]
  refine (store_tabulate _ hplace).trans ?_
  congr 1
  refine tabulate_congr fun k _ => ?_
  rw [Function.update_apply]
  -- the place turns from a count into an offset, those before it and behind it stay as they are
  rcases Nat.lt_trichotomy k (place + 1) with hk | hk | hk
  · simp [offsetOrCount, show k ≠ place + 1 by omega, show k ≤ place by omega,
      show k ≤ place + 1 by omega]
  · simp only [hk, if_true, offsetOrCount, Nat.le_refl, show ¬place + 1 ≤ place by omega, if_false,
      hcount, startOf_succ]
    omega
  · simp [offsetOrCount, show k ≠ place + 1 by omega, show ¬k ≤ place by omega,
      show ¬k ≤ place + 1 by omega]

theorem foldlM_addPreceding {m : Nat} (h : m ≤ n) :
    (List.range m).foldlM addPreceding (tabulate (n + 1) (offsetOrCount halves 0))
      = .ok (tabulate (n + 1) (offsetOrCount halves m)) := by
  induction m with
  | zero => rfl
  | succ m ih =>
    rw [List.range_succ, List.foldlM_append, ih (by omega)]
    show [m].foldlM addPreceding _ = _
    rw [List.foldlM_cons, addPreceding_tabulate (by omega)]
    rfl

/-- The offsets are the places where the rows begin, and the end of the last one. -/
theorem rowOffsets_eq (h : ∀ half ∈ halves, half.1 < n) :
    rowOffsets n halves = .ok (tabulate (n + 1) (startOf halves)) := by
  have hrows : ∀ row ∈ halves.map Prod.fst, row < n := by
    intro row hrow
    obtain ⟨half, hhalf, rfl⟩ := List.mem_map.mp hrow
    exact h half hhalf
  have hcounts : tabulate (n + 1)
        (fun k => 0 + (halves.map Prod.fst).countP fun row => row + 1 == k)
      = tabulate (n + 1) (offsetOrCount halves 0) := by
    refine tabulate_congr fun k _ => ?_
    by_cases hk : k = 0
    · simp [offsetOrCount, hk, startOf_zero]
    · simp [offsetOrCount, hk]
  rw [rowOffsets, replicate_eq_tabulate, foldlM_countEntry hrows, hcounts]
  refine (foldlM_addPreceding (Nat.le_refl n)).trans ?_
  congr 1
  refine tabulate_congr fun k hk => ?_
  simp [offsetOrCount, show k ≤ n by omega]

-- ---------------------------------------------------------------------------
-- Filling the rows
-- ---------------------------------------------------------------------------

/-- Every row is filled, from its beginning, with its entries among `done`. -/
def IsFilled (halves done : List (Nat × Neighbor R)) (places : Nat → Neighbor R) : Prop :=
  ∀ row j, ∀ h : j < (entriesOf row done).length,
    places (startOf halves row + j) = (entriesOf row done)[j]

/-- Where the rows go on once `done` has been put into them. -/
def freeAfter (halves done : List (Nat × Neighbor R)) (row : Nat) : Nat :=
  startOf halves row + (entriesOf row done).length

/-- Putting the next half-edge at the free place of its row keeps all rows filled. -/
theorem isFilled_update {done todo : List (Nat × Neighbor R)} {half : Nat × Neighbor R}
    {places : Nat → Neighbor R} (h : IsFilled (done ++ half :: todo) done places) :
    IsFilled (done ++ half :: todo) (done ++ [half])
      (Function.update places (freeAfter (done ++ half :: todo) done half.1) half.2) := by
  intro row j hj
  have hfree := filled_lt done todo half
  -- other rows end before the free place or begin behind it
  have hentries : (entriesOf row done).length ≤ (entriesOf row (done ++ half :: todo)).length := by
    rw [entriesOf_append, List.length_append]
    omega
  have hsucc := startOf_succ (done ++ half :: todo) row
  simp only [entriesOf_append row done [half], entriesOf_singleton] at hj ⊢
  by_cases hrow : half.1 = row
  · -- the row of the half-edge: what it held before, or the half-edge at its end
    subst hrow
    simp only [if_true, List.length_append, List.length_singleton] at hj
    by_cases hlast : j = (entriesOf half.1 done).length
    · subst hlast
      simp [freeAfter]
    · have hlt : j < (entriesOf half.1 done).length := by omega
      rw [Function.update_of_ne (by rw [freeAfter]; omega), h half.1 j hlt]
      simp [hlt]
  · simp only [hrow, if_false, List.append_nil] at hj ⊢
    have hne : startOf (done ++ half :: todo) row + j
        ≠ freeAfter (done ++ half :: todo) done half.1 := by
      rw [freeAfter]
      rcases Nat.lt_or_gt_of_ne hrow with hbefore | hbehind
      · have hmono := startOf_mono (done ++ half :: todo) (show half.1 + 1 ≤ row by omega)
        omega
      · have hmono := startOf_mono (done ++ half :: todo) (show row + 1 ≤ half.1 by omega)
        omega
    rw [Function.update_of_ne hne, h row j hj]

theorem placeHalfEdge_tabulate {done todo : List (Nat × Neighbor R)} {half : Nat × Neighbor R}
    {places : Nat → Neighbor R} (hhalf : half.1 < n) {size : Nat}
    (hsize : (done ++ half :: todo).length = size) :
    placeHalfEdge
        (tabulate (n + 1) (freeAfter (done ++ half :: todo) done), tabulate size places) half
      = .ok (tabulate (n + 1) (freeAfter (done ++ half :: todo) (done ++ [half])), tabulate size
          (Function.update places (freeAfter (done ++ half :: todo) done half.1) half.2)) := by
  have hrow : half.1 < n + 1 := by omega
  have hplace : freeAfter (done ++ half :: todo) done half.1 < size := by
    have hfree := filled_lt done todo half
    have hle := startOf_le_length (done ++ half :: todo) (half.1 + 1)
    rw [freeAfter]
    omega
  simp only [placeHalfEdge, fetch_tabulate hrow, store_tabulate _ hplace, store_tabulate _ hrow,
    bind, Except.bind, pure, Except.pure]
  congr 2
  refine tabulate_congr fun k _ => ?_
  -- only the row of the half-edge has become longer
  by_cases hk : k = half.1
  · subst hk
    rw [Function.update_self, freeAfter, freeAfter, entriesOf_append, entriesOf_singleton,
      if_pos rfl, List.length_append, List.length_singleton]
    omega
  · rw [Function.update_of_ne hk, freeAfter, freeAfter, entriesOf_append, entriesOf_singleton,
      if_neg (Ne.symm hk), List.append_nil]

/-- Once all half-edges have been put into their rows, the rows are filled with all of them. -/
theorem foldlM_placeHalfEdge (done : List (Nat × Neighbor R)) {todo : List (Nat × Neighbor R)}
    {size : Nat} {places : Nat → Neighbor R} (h : ∀ half ∈ todo, half.1 < n)
    (hsize : (done ++ todo).length = size) (hfilled : IsFilled (done ++ todo) done places) :
    ∃ free filled, todo.foldlM placeHalfEdge
        (tabulate (n + 1) (freeAfter (done ++ todo) done), tabulate size places)
        = .ok (free, tabulate size filled) ∧
      IsFilled (done ++ todo) (done ++ todo) filled := by
  induction todo generalizing done places with
  | nil =>
    refine ⟨_, places, rfl, ?_⟩
    simpa using hfilled
  | cons half rest ih =>
    -- the half-edge moves from the part still to be done to the part done
    have hassoc : done ++ half :: rest = (done ++ [half]) ++ rest := by simp
    have hrest : ∀ other ∈ rest, other.1 < n := fun other hother =>
      h other (List.mem_cons_of_mem half hother)
    have hnext := isFilled_update hfilled
    rw [List.foldlM_cons, placeHalfEdge_tabulate (h half List.mem_cons_self) hsize]
    rw [hassoc] at hsize hnext ⊢
    exact ih (done ++ [half]) hrest hsize hnext

/-- The adjacency holds every row at its place. -/
theorem placeHalfEdges_eq [Weight R] (h : ∀ half ∈ halves, half.1 < n) :
    ∃ filled, placeHalfEdges (tabulate (n + 1) (startOf halves)) halves
        = .ok (tabulate halves.length filled) ∧ IsFilled halves halves filled := by
  have hstart : tabulate (n + 1) (startOf halves)
      = tabulate (n + 1) (freeAfter ([] ++ halves) []) :=
    tabulate_congr fun k _ => by simp [freeAfter, entriesOf]
  have hempty : IsFilled ([] ++ halves) [] fun _ => ⟨0, Weight.ofNat 0⟩ :=
    fun row j hj => absurd hj (Nat.not_lt_zero j)
  obtain ⟨free, filled, hfold, hfilled⟩ := foldlM_placeHalfEdge [] h rfl hempty
  refine ⟨filled, ?_, hfilled⟩
  rw [placeHalfEdges, hstart, replicate_eq_tabulate]
  simp only [List.nil_append] at hfold ⊢
  rw [hfold]
  rfl

/-- A filled row is read back as its entries. -/
theorem slice_of_isFilled {places : Nat → Neighbor R} (h : IsFilled halves halves places)
    (row : Nat) :
    slice (tabulate halves.length places) (startOf halves row) (startOf halves (row + 1))
      = .ok (entriesOf row halves) := by
  have hsucc := startOf_succ halves row
  have hend := startOf_le_length halves (row + 1)
  have hsize : (tabulate halves.length places).size = halves.length := by simp [tabulate]
  rw [slice, if_pos ⟨by omega, by omega⟩]
  congr 1
  apply List.ext_getElem
  · simp only [Array.length_toList, Array.size_extract, hsize]
    omega
  · intro j hj hj'
    simp only [Array.getElem_toList, Array.getElem_extract, tabulate, Array.getElem_ofFn]
    exact h row j hj'

-- ---------------------------------------------------------------------------
-- Weights of the rows
-- ---------------------------------------------------------------------------

variable [Weight R]

/-- The weights of a list of entries, added up from the left, zero first. -/
def weigh (entries : List (Neighbor R)) : R :=
  entries.foldl (fun sum entry => sum + entry.weight) (Weight.ofNat 0)

theorem foldlM_addWeight (done : List (Nat × Neighbor R)) {todo : List (Nat × Neighbor R)}
    (h : ∀ half ∈ todo, half.1 < n) :
    todo.foldlM addWeight (tabulate n fun row => weigh (entriesOf row done))
      = .ok (tabulate n fun row => weigh (entriesOf row (done ++ todo))) := by
  induction todo generalizing done with
  | nil => simp only [List.foldlM_nil, List.append_nil]; rfl
  | cons half rest ih =>
    have hhalf := h half List.mem_cons_self
    have hstep : addWeight (tabulate n fun row => weigh (entriesOf row done)) half
        = .ok (tabulate n fun row => weigh (entriesOf row (done ++ [half]))) := by
      rw [addWeight, fetch_tabulate hhalf]
      refine (store_tabulate _ hhalf).trans ?_
      congr 1
      refine tabulate_congr fun row _ => ?_
      rw [entriesOf_append, entriesOf_singleton]
      by_cases hrow : row = half.1
      · subst hrow
        simp [weigh]
      · have hne : ¬(half.1 = row) := fun heq => hrow heq.symm
        simp [hrow, hne]
    have hassoc : done ++ half :: rest = (done ++ [half]) ++ rest := by simp
    rw [List.foldlM_cons, hstep, hassoc]
    exact ih (done ++ [half]) fun other hother => h other (List.mem_cons_of_mem half hother)

theorem rowWeights_eq (h : ∀ half ∈ halves, half.1 < n) :
    rowWeights n halves = .ok (tabulate n fun row => weigh (entriesOf row halves)) := by
  rw [rowWeights, replicate_eq_tabulate]
  exact foldlM_addWeight [] h

end Graph

-- ---------------------------------------------------------------------------
-- Rows of a built graph
-- ---------------------------------------------------------------------------

variable {R : Type}

/-- What a node sees of an edge: the node at the other end and the weight, if the edge is at it. -/
def Edge.entryAt? (node : Nat) (e : Edge R) : Option (Neighbor R) :=
  if e.u = node then some ⟨e.v, e.weight⟩
  else if e.v = node then some ⟨e.u, e.weight⟩
  else none

/-- The entry of an edge has its weight, and names the other one of its two endpoints. -/
theorem Edge.entryAt?_inv {node : Nat} {e : Edge R} {entry : Neighbor R}
    (h : e.entryAt? node = some entry) :
    entry.weight = e.weight ∧ (e.u = node ∧ e.v = entry.node ∨ e.v = node ∧ e.u = entry.node) := by
  unfold entryAt? at h
  split at h
  · next hu =>
    cases h
    exact ⟨rfl, .inl ⟨hu, rfl⟩⟩
  · split at h
    · next hv =>
      cases h
      exact ⟨rfl, .inr ⟨hv, rfl⟩⟩
    · cases h

namespace Graph

/-- The edges at a node, seen from it, in the order of the edges. -/
def row (g : Graph R) (node : Nat) : List (Neighbor R) :=
  g.edges.filterMap (Edge.entryAt? node)

/-- The half-edges of a row are the edges at its node, if no edge is a loop. -/
theorem entriesOf_halfEdges {edges : List (Edge R)} (h : ∀ e ∈ edges, e.u ≠ e.v) (node : Nat) :
    entriesOf node (halfEdges edges) = edges.filterMap (Edge.entryAt? node) := by
  induction edges with
  | nil => rfl
  | cons e rest ih =>
    have hne := h e List.mem_cons_self
    have hhalves : halfEdges (e :: rest)
        = [(e.u, ⟨e.v, e.weight⟩)] ++ [(e.v, ⟨e.u, e.weight⟩)] ++ halfEdges rest := by
      simp [halfEdges]
    rw [hhalves, entriesOf_append, entriesOf_append, entriesOf_singleton, entriesOf_singleton,
      ih fun f hf => h f (List.mem_cons_of_mem e hf), List.filterMap_cons, Edge.entryAt?]
    by_cases hu : e.u = node
    · have hv : e.v ≠ node := by omega
      simp [hu, hv]
    · by_cases hv : e.v = node <;> simp [hu, hv]

theorem fst_lt_of_mem_halfEdges [Weight R] {n : Nat} {edges : List (Edge R)}
    (h : ∀ e ∈ edges, e.IsSound n) : ∀ half ∈ halfEdges edges, half.1 < n := by
  intro half hhalf
  obtain ⟨e, he, hhalf⟩ := List.mem_flatMap.mp hhalf
  have hsound := h e he
  rcases List.mem_pair.mp hhalf with rfl | rfl
  · exact hsound.u_lt
  · exact hsound.v_lt

variable {g : Graph R}

/-- The entries of a row come from the edges at its node. -/
theorem exists_edge_of_mem_row {node : Nat} {entry : Neighbor R} (h : entry ∈ g.row node) :
    ∃ e ∈ g.edges, e.entryAt? node = some entry :=
  List.mem_filterMap.mp h

variable [Weight R]

/-- The arrays of a graph are what the three passes make of its half-edges. -/
theorem passes_of_ofEdges {n : Nat} {edges : List (Edge R)}
    (h : (ofEdges n edges).run = .ok (.ok g)) :
    rowOffsets n (halfEdges edges) = .ok g.offsets ∧
    placeHalfEdges g.offsets (halfEdges edges) = .ok g.adjacency ∧
    rowWeights n (halfEdges edges) = .ok g.weightedDegrees := by
  obtain ⟨⟨⟩, -, h⟩ := Fallible.ofExcept_bind_inv h
  obtain ⟨offsets, hoffsets, h⟩ := Fallible.lift_bind_inv h
  obtain ⟨adjacency, hadjacency, h⟩ := Fallible.lift_bind_inv h
  obtain ⟨degrees, hdegrees, h⟩ := Fallible.lift_bind_inv h
  cases h
  exact ⟨hoffsets, hadjacency, hdegrees⟩

/-- The neighbours of a node are the edges at it, in the order of the edges. -/
theorem IsBuilt.neighbors_eq (h : g.IsBuilt) {node : Nat} (hnode : node < g.numNodes) :
    g.neighbors node = .ok (g.row node) := by
  obtain ⟨hoffsets, hadjacency, -⟩ := passes_of_ofEdges h
  have hrows := fst_lt_of_mem_halfEdges h.sound
  rw [rowOffsets_eq hrows] at hoffsets
  rw [← Except.ok.inj hoffsets] at hadjacency
  obtain ⟨filled, hfold, hfilled⟩ := placeHalfEdges_eq hrows
  rw [hfold] at hadjacency
  rw [neighbors, ← Except.ok.inj hoffsets, ← Except.ok.inj hadjacency,
    fetch_tabulate (by omega), fetch_tabulate (by omega)]
  refine (slice_of_isFilled hfilled node).trans ?_
  rw [entriesOf_halfEdges fun e he => (h.sound e he).ne]
  rfl

/-- The weighted degree of a node is what its row weighs. -/
theorem IsBuilt.weightedDegree_eq (h : g.IsBuilt) {node : Nat} (hnode : node < g.numNodes) :
    g.weightedDegree node = .ok (weigh (g.row node)) := by
  obtain ⟨-, -, hdegrees⟩ := passes_of_ofEdges h
  rw [rowWeights_eq (fst_lt_of_mem_halfEdges h.sound)] at hdegrees
  rw [weightedDegree, ← Except.ok.inj hdegrees, fetch_tabulate hnode,
    entriesOf_halfEdges fun e he => (h.sound e he).ne]
  rfl

/-- The neighbours of a node are nodes of the graph. -/
theorem IsBuilt.node_lt_of_mem_row (h : g.IsBuilt) {node : Nat} {entry : Neighbor R}
    (hentry : entry ∈ g.row node) : entry.node < g.numNodes := by
  obtain ⟨e, he, hsome⟩ := exists_edge_of_mem_row hentry
  have hsound := h.sound e he
  rcases (Edge.entryAt?_inv hsome).2 with ⟨-, hother⟩ | ⟨-, hother⟩
  · rw [← hother]
    exact hsound.v_lt
  · rw [← hother]
    exact hsound.u_lt

end Graph

end CutCover
