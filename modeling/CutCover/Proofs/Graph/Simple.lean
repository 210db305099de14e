import CutCover.Graph.Basic
import Mathlib.Combinatorics.SimpleGraph.Connectivity.Connected

/-!
# CutCover — simple graphs

Weights and parallel edges aside, a graph says which nodes are adjacent. It is simple if it has no
loops and no parallel edges; the random graphs of the library are, since each of their edges is
written from the earlier of its nodes to the later one, and none twice.

* `Graph.simpleGraph`            — adjacency.
* `Graph.IsSimple`               — neither loops nor parallel edges.
* `Graph.isSimple_of_lt`         — a way to see that a graph is simple.
* `Graph.connected_of_exists_lt` — a way to see that it is connected.
-/

namespace CutCover.Graph

variable {R : Type} {g : Graph R}

/-- The simple graph of the edges: two different nodes are adjacent if an edge joins them. -/
def simpleGraph (g : Graph R) : SimpleGraph (Fin g.numNodes) where
  Adj a b := a ≠ b ∧ ∃ e ∈ g.edges, (e.u = a ∧ e.v = b) ∨ (e.u = b ∧ e.v = a)
  symm := ⟨by
    rintro a b ⟨hne, e, he, hjoins⟩
    exact ⟨hne.symm, e, he, hjoins.symm⟩⟩
  loopless := ⟨fun a h => h.1 rfl⟩

/-- No edge is a loop, and no two edges join the same nodes. -/
structure IsSimple (g : Graph R) : Prop where
  ne : ∀ e ∈ g.edges, e.u ≠ e.v
  nodup : (g.edges.map fun e => s(e.u, e.v)).Nodup

/-- A graph is simple if its edges lead from earlier nodes to later ones, no two of them from and to
the same. -/
theorem isSimple_of_lt (hlt : ∀ e ∈ g.edges, e.u < e.v)
    (hnodup : (g.edges.map fun e => (e.u, e.v)).Nodup) : g.IsSimple := by
  refine ⟨fun e he => Nat.ne_of_lt (hlt e he), ?_⟩
  have hpairs : (g.edges.map fun e => s(e.u, e.v))
      = (g.edges.map fun e => (e.u, e.v)).map fun pair => s(pair.1, pair.2) := by
    rw [List.map_map]
    rfl
  rw [hpairs]
  refine hnodup.map_on ?_
  have hordered : ∀ pair ∈ g.edges.map fun e => (e.u, e.v), pair.1 < pair.2 :=
    List.forall_mem_map.mpr hlt
  intro pair hpair other hother heq
  have hpair := hordered pair hpair
  have hother := hordered other hother
  -- the earlier node of an edge stands first, so that the edge can be told from its nodes
  rcases Sym2.eq_iff.mp heq with ⟨hfst, hsnd⟩ | ⟨hfst, hsnd⟩
  · exact Prod.ext hfst hsnd
  · omega

/-- A graph is connected if every node but the first has an edge to an earlier one. -/
theorem connected_of_exists_lt (hpos : 0 < g.numNodes)
    (h : ∀ v, 0 < v → v < g.numNodes → ∃ e ∈ g.edges, e.v = v ∧ e.u < v) :
    g.simpleGraph.Connected := by
  have hreach : ∀ (v : Nat) (hv : v < g.numNodes), g.simpleGraph.Reachable ⟨0, hpos⟩ ⟨v, hv⟩ := by
    intro v
    induction v using Nat.strong_induction_on with
    | _ v ih =>
      intro hv
      rcases Nat.eq_zero_or_pos v with rfl | hvpos
      · exact .refl _
      · obtain ⟨e, he, rfl, hlt⟩ := h v hvpos hv
        have hadj : g.simpleGraph.Adj ⟨e.u, by omega⟩ ⟨e.v, hv⟩ := by
          refine ⟨?_, e, he, .inl ⟨rfl, rfl⟩⟩
          intro heq
          exact Nat.ne_of_lt hlt (Fin.mk.inj heq)
        exact (ih e.u hlt (by omega)).trans hadj.reachable
  have : Nonempty (Fin g.numNodes) := ⟨⟨0, hpos⟩⟩
  refine ⟨?_⟩
  intro a b
  exact (hreach a a.isLt).symm.trans (hreach b b.isLt)

end CutCover.Graph
