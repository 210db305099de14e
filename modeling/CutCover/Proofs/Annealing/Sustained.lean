import CutCover.Problem
import CutCover.Proofs.Annealing.Step
import CutCover.Proofs.Graph.Cuts
import CutCover.Proofs.Moves

/-!
# CutCover — what the four problems sustain

The invariant under which each problem always has something to propose, or finds that there is
nothing: a node is enough for flips, a cover for removals, and nodes of both labels for swaps and
exchanges.

* `Strategy.Sustains.and`               — a further property that the moves keep.
* `Problem.sustains_maxCut`             — assignments with a node.
* `Problem.TradesLabels`, `Problem.sustains_tradesLabels` — assignments with both labels.
* `Problem.sustains_minimumVertexCover` — covers.
-/

namespace CutCover

variable {R : Type} [Weight R] {g : Graph R} {mayLoop : Prop}

omit [Weight R] in
/-- What the moves proposed keep may be added to the invariant. -/
theorem Strategy.Sustains.and {strategy : Strategy R} {inv kept : Assignment → Prop}
    {proposed : Assignment → Move → Prop} (h : strategy.Sustains mayLoop g inv proposed)
    (hkept : ∀ {x y : Assignment} {move : Move}, inv x → kept x → proposed x move →
      move.apply x = .ok y → kept y) :
    strategy.Sustains mayLoop g (fun x => inv x ∧ kept x) proposed where
  proposes budget hx := h.proposes budget hx.1
  makes hx hmove := by
    obtain ⟨y, score, happly, hscore, hinv⟩ := h.makes hx.1 hmove
    exact ⟨y, score, happly, hscore, hinv, hkept hx.1 hx.2 hmove happly⟩

namespace Problem

/-- Any node can be flipped. -/
theorem sustains_maxCut (hg : g.IsBuilt) (hnodes : g.numNodes ≠ 0) :
    (maxCut : Problem R).strategy.Sustains mayLoop g (fun x => x.size = g.numNodes)
      Move.Flips where
  proposes _ hx := by
    refine (Move.randomFlip_ensures (by omega)).map fun move hmove => ?_
    rintro _ ⟨⟩
    exact hmove
  makes := by
    rintro x _ hx ⟨node, hnode, rfl⟩
    have hsize : (x.set node (!x[node])).size = g.numNodes := by simpa using hx
    obtain ⟨score, hscore⟩ := exists_score maxCut hg hsize
    exact ⟨_, score, Assignment.flip_of_lt hnode, hscore, hsize⟩

/-- The moves of the problem trade labels. -/
def TradesLabels (problem : Problem R) : Prop :=
  problem.kind = .graphPartitioning ∨ problem.kind = .maximumIndependentSet

/-- Swaps and exchanges go on as long as both labels occur, which they see to themselves. -/
theorem sustains_tradesLabels {problem : Problem R} (hloop : mayLoop) (hg : g.IsBuilt)
    (htrades : problem.TradesLabels) :
    problem.strategy.Sustains mayLoop g (fun x => x.size = g.numNodes ∧ x.IsMixed)
      Move.Trades where
  proposes _ hx := by
    cases problem with
    | maxCut => rcases htrades with htrades | htrades <;> cases htrades
    | minimumVertexCover penalty => rcases htrades with htrades | htrades <;> cases htrades
    | graphPartitioning =>
      refine (Move.randomSwap_ensures hloop hx.2).map fun move hmove => ?_
      rintro _ ⟨⟩
      exact hmove.trades
    | maximumIndependentSet penalty =>
      refine (Move.randomExchange_ensures hloop hx.2).map fun move hmove => ?_
      rintro _ ⟨⟩
      exact hmove.trades
  makes := by
    rintro x move ⟨hx, -⟩ hmove
    obtain ⟨y, happly, hsize, hmixed⟩ := hmove.exists_apply
    rw [hx] at hsize
    obtain ⟨score, hscore⟩ := problem.exists_score hg hsize
    exact ⟨y, score, happly, hscore, hsize, hmixed⟩

/-- Removals go on as long as they start from a cover, which selects some node of every edge. -/
theorem sustains_minimumVertexCover (penalty : R) (hg : g.IsBuilt) (hedges : g.numEdges ≠ 0) :
    (minimumVertexCover penalty).strategy.Sustains mayLoop g
      (fun x => x.size = g.numNodes ∧ g.IsCoveredBy x) (Move.Removes g) where
  proposes budget hx := Move.randomRemoval_ensures hg hx.1 (hx.2.exists_selected hedges) budget
  makes := by
    rintro x _ ⟨hx, hcover⟩ ⟨node, hselected, hredundant, rfl⟩
    obtain ⟨hlt, -⟩ := Array.getElem?_eq_some_iff.mp hselected
    have hsize : (x.set node false).size = g.numNodes := by simpa using hx
    obtain ⟨score, hscore⟩ := exists_score (minimumVertexCover penalty) hg hsize
    exact ⟨_, score, Assignment.setLabel_of_lt _ hlt, hscore, hsize,
      hcover.remove hg hx hlt hredundant⟩

end Problem

end CutCover
