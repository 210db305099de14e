import CutCover.Graph.Build
import CutCover.Proofs.Answers

/-!
# CutCover — graphs that were built

The fields of a graph are not independent of each other, and a graph as the library meets it is one
that `Graph.ofEdges` made of its edges. What building refuses is therefore true of no graph.

* `Graph.IsBuilt`      — the graph is what its edges are built into.
* `Graph.IsBuilt.sound` — its edges join two different nodes of it.
* `Graph.singleEdge`   — the smallest graph with an edge.
-/

namespace CutCover

variable {R : Type} [Weight R]

/-- An edge that joins two different nodes among the first `n`, with a finite weight. -/
structure Edge.IsSound (n : Nat) (e : Edge R) : Prop where
  u_lt : e.u < n
  v_lt : e.v < n
  ne : e.u ≠ e.v
  finite : Weight.isFinite e.weight = true

/-- An edge is sound if nothing is wrong with it. -/
theorem Edge.isSound_of_fault? {n : Nat} {e : Edge R} (h : e.fault? n = none) : e.IsSound n := by
  unfold Edge.fault? at h
  split at h
  · cases h
  · next hrange =>
    split at h
    · cases h
    · next hne =>
      split at h
      · next hfinite => exact ⟨by omega, by omega, hne, hfinite⟩
      · cases h

/-- Nothing is wrong with a sound edge. -/
theorem Edge.IsSound.fault?_eq_none {n : Nat} {e : Edge R} (h : e.IsSound n) :
    e.fault? n = none := by
  have hu := h.u_lt
  have hv := h.v_lt
  unfold Edge.fault?
  rw [if_neg (by omega), if_neg h.ne, if_pos h.finite]

namespace Graph

/-- Validation passes lists of sound edges only. -/
theorem isSound_of_validate {n position : Nat} {edges : List (Edge R)}
    (h : validate n position edges = .ok ()) : ∀ e ∈ edges, e.IsSound n := by
  induction edges generalizing position with
  | nil => exact fun e he => absurd he List.not_mem_nil
  | cons e rest ih =>
    unfold validate at h
    split at h
    · cases h
    · next hfault =>
      intro f hf
      rcases List.mem_cons.mp hf with rfl | hf
      · exact Edge.isSound_of_fault? hfault
      · exact ih h f hf

/-- All of these pass. -/
theorem validate_of_isSound {n : Nat} {edges : List (Edge R)} (h : ∀ e ∈ edges, e.IsSound n)
    (position : Nat) : validate n position edges = .ok () := by
  induction edges generalizing position with
  | nil => rfl
  | cons e rest ih =>
    unfold validate
    rw [(h e List.mem_cons_self).fault?_eq_none]
    exact ih (fun f hf => h f (List.mem_cons_of_mem e hf)) (position + 1)

/-- The graph is what its edges are built into. -/
def IsBuilt (g : Graph R) : Prop :=
  (ofEdges g.numNodes g.edges).run = .ok (.ok g)

instance [DecidableEq R] (g : Graph R) : Decidable g.IsBuilt :=
  inferInstanceAs (Decidable (_ = _))

/-- What building answers has the nodes and edges asked for. -/
theorem ofEdges_inv {n : Nat} {edges : List (Edge R)} {g : Graph R}
    (h : (ofEdges n edges).run = .ok (.ok g)) :
    validate n 0 edges = .ok () ∧ g.numNodes = n ∧ g.edges = edges := by
  obtain ⟨⟨⟩, hvalid, h⟩ := Fallible.ofExcept_bind_inv h
  obtain ⟨offsets, -, h⟩ := Fallible.lift_bind_inv h
  obtain ⟨adjacency, -, h⟩ := Fallible.lift_bind_inv h
  obtain ⟨degrees, -, h⟩ := Fallible.lift_bind_inv h
  cases h
  exact ⟨hvalid, rfl, rfl⟩

/-- Hence it is built. -/
theorem isBuilt_of_ofEdges {n : Nat} {edges : List (Edge R)} {g : Graph R}
    (h : (ofEdges n edges).run = .ok (.ok g)) : g.IsBuilt := by
  obtain ⟨-, hn, hedges⟩ := ofEdges_inv h
  rw [IsBuilt, hn, hedges]
  exact h

/-- The edges of a graph join two different nodes of it. -/
theorem IsBuilt.sound {g : Graph R} (h : g.IsBuilt) : ∀ e ∈ g.edges, e.IsSound g.numNodes :=
  isSound_of_validate (ofEdges_inv h).1

-- ---------------------------------------------------------------------------
-- The smallest graph
-- ---------------------------------------------------------------------------

/-- The graph of one edge, of weight one. -/
def singleEdge (R : Type) [Weight R] : Graph R where
  numNodes := 2
  edges := [⟨0, 1, Weight.ofNat 1⟩]
  offsets := #[0, 1, 2]
  adjacency := #[⟨1, Weight.ofNat 1⟩, ⟨0, Weight.ofNat 1⟩]
  weightedDegrees := #[Weight.ofNat 1, Weight.ofNat 1]

theorem isBuilt_singleEdge : (singleEdge Float).IsBuilt := rfl

end Graph

end CutCover
