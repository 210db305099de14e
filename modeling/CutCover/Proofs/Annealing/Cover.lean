import CutCover.Proofs.Annealing.Run
import CutCover.Proofs.Annealing.Sustained
import CutCover.Random.Tape

/-!
# CutCover — annealing of covers

Annealing a cover only ever takes redundant nodes out of it. This does not depend on the scores,
which only decide whether a proposed removal is made: the assignment stays a cover whatever the
penalty, the score given for the start and the words drawn.

* `Graph.IsCoverWithin`               — covers that select only nodes selected in another.
* `Assignment.ShrinksTo`              — at most one node is deselected.
* `Problem.annealing_keeps_cover`     — every state, every step and every result.
-/

namespace CutCover

variable {R : Type} [Weight R] {g : Graph R} {x y : Assignment}

-- ---------------------------------------------------------------------------
-- Shrinking
-- ---------------------------------------------------------------------------

/-- Either nothing changes or one selected node is deselected. -/
def Assignment.ShrinksTo (x y : Assignment) : Prop :=
  y = x ∨ ∃ (node : Nat) (h : node < x.size), x[node] = true ∧ y = x.set node false

theorem Assignment.ShrinksTo.selected_subset (h : x.ShrinksTo y) : y.selected ⊆ x.selected := by
  rcases h with rfl | ⟨node, hlt, -, rfl⟩
  · exact List.Subset.refl _
  · intro other hother
    have hlabel := mem_nodesLabelled.mp hother
    refine mem_nodesLabelled.mpr ?_
    by_cases hsame : node = other
    · subst hsame
      rw [Array.getElem?_set_self] at hlabel
      cases hlabel
    · rwa [Array.getElem?_set_ne hlt hsame] at hlabel

omit [Weight R] in
theorem Move.Removes.shrinksTo {move : Move} (h : Removes g x move)
    (happly : move.apply x = .ok y) : x.ShrinksTo y := by
  obtain ⟨node, hselected, -, rfl⟩ := h
  obtain ⟨hlt, hlabel⟩ := Array.getElem?_eq_some_iff.mp hselected
  rw [apply, Assignment.setLabel_of_lt _ hlt] at happly
  cases happly
  exact .inr ⟨node, hlt, hlabel, rfl⟩

omit [Weight R] in
/-- What a step makes of the assignment, if the strategy proposes removals. -/
theorem Annealing.State.Follows.shrinksTo {s after : Annealing.State R}
    (h : s.Follows (Move.Removes g) after) : s.current.ShrinksTo after.current := by
  rcases h.current with hsame | ⟨move, hmove, happly⟩
  · exact .inl hsame
  · exact hmove.shrinksTo happly

-- ---------------------------------------------------------------------------
-- Covers
-- ---------------------------------------------------------------------------

/-- A cover of the graph that selects only nodes selected in `x`. -/
structure Graph.IsCoverWithin (g : Graph R) (x y : Assignment) : Prop where
  size : y.size = g.numNodes
  covers : g.IsCoveredBy y
  selected : y.selected ⊆ x.selected

namespace Problem

open Annealing (State Config Result runOn runSeeded start_inv)

omit [Weight R] in
/-- A start that is admitted is a cover. -/
theorem requireCover_inv (h : (requireCover g x).run = .ok (.ok ())) :
    g.isCover x = .ok true := by
  obtain ⟨covered, hcovered, h⟩ := Fallible.lift_bind_inv h
  cases covered with
  | true => exact hcovered
  | false =>
    obtain ⟨uncovered, -, h⟩ := Fallible.lift_bind_inv h
    cases h

/-- Removals keep a cover one, and select no node anew. -/
theorem sustains_isCoverWithin (penalty : R) (hg : g.IsBuilt) (hedges : g.numEdges ≠ 0)
    (x : Assignment) : (minimumVertexCover penalty).strategy.Sustains False g
      (fun y => (y.size = g.numNodes ∧ g.IsCoveredBy y) ∧ y.selected ⊆ x.selected)
      (Move.Removes g) := by
  refine (sustains_minimumVertexCover penalty hg hedges).and ?_
  intro y z move _ hy hmove happly
  exact List.Subset.trans (hmove.shrinksTo happly).selected_subset hy

/-- Annealing a cover keeps it one, within the start: in every state reached and in every result,
whatever the words. A step leaves the assignment alone or deselects one node. -/
theorem annealing_keeps_cover (penalty : R) (hg : g.IsBuilt) {score : R} {config : Config}
    {start : State R}
    (hstart : (State.start (minimumVertexCover penalty).strategy g x score config).run
      = .ok (.ok start)) :
    (∀ s, start.Reaches (minimumVertexCover penalty).strategy g s →
      g.IsCoverWithin x s.current ∧ g.IsCoverWithin x s.report.solution ∧
      ∀ {σ : Type} [WordSource σ] (source : σ), ∃ answer after source',
        (s.step (minimumVertexCover penalty).strategy g).run source
          = .ok ((answer, after), source') ∧ s.current.ShrinksTo after.current) ∧
    (∀ {σ : Type} [WordSource σ] (source : σ), ∃ result source',
      (runOn (minimumVertexCover penalty).strategy g x score config).run.run source
        = .ok (.ok result, source') ∧ g.IsCoverWithin x result.solution) ∧
    ∀ fresh, ∃ result,
      (runSeeded (minimumVertexCover penalty).strategy g x score config fresh).run
        = .ok (.ok result) ∧ g.IsCoverWithin x result.solution := by
  have hstarted := start_inv hstart
  have hcover := (Graph.isCover_iff hg hstarted.size).mp (requireCover_inv hstarted.admitted)
  -- covers within the start are the invariant, and scores play no part in it
  have hs := sustains_isCoverWithin penalty hg hstarted.edges x
  have hinv : (x.size = g.numNodes ∧ g.IsCoveredBy x) ∧ x.selected ⊆ x.selected :=
    ⟨⟨hstarted.size, hcover⟩, List.Subset.refl _⟩
  have hruns : ∀ {σ : Type} [WordSource σ] (source : σ), ∃ result source',
      (runOn (minimumVertexCover penalty).strategy g x score config).run.run source
        = .ok (.ok result, source') ∧ g.IsCoverWithin x result.solution := by
    intro σ _ source
    obtain ⟨_, source', hrun, result, rfl, hresult, -⟩ :=
      Draw.Ensures.answers (Annealing.runOn_ensures hs hstart hinv) source
    exact ⟨result, source', hrun, hresult.1.1, hresult.1.2, hresult.2⟩
  refine ⟨?_, hruns, ?_⟩
  · intro s hreach
    have hcurrent := hreach.sustained hs (by rw [hstarted.current]; exact hinv)
    have hwithin : g.IsCoverWithin x s.current :=
      ⟨hcurrent.1.1, hcurrent.1.2, hcurrent.2⟩
    refine ⟨hwithin, hwithin, ?_⟩
    intro σ _ source
    cases hfinished : s.finished with
    | true => exact ⟨_, s, source, State.step_of_finished hfinished source, .inl rfl⟩
    | false =>
      obtain ⟨⟨answer, after⟩, source', hstep, -, -, hfollows⟩ :=
        (State.step_ensures hs hcurrent hfinished).answers source
      exact ⟨answer, after, source', hstep, hfollows.shrinksTo⟩
  · intro fresh
    obtain ⟨result, source', hrun, hresult⟩ := hruns (config.generator fresh)
    exact ⟨result, Annealing.runSeeded_of_runOn hrun, hresult⟩

/-- The single edge stays covered although the penalty is not a number and the score handed over is
false. -/
theorem annealing_keeps_cover_singleEdge : ∃ result source',
    (runOn (minimumVertexCover (0.0 / 0.0)).strategy (Graph.singleEdge Float) #[true, true] 7.0
      {}).run.run (Tape.start [] 0) = .ok (.ok result, source') ∧
    (Graph.singleEdge Float).IsCoverWithin #[true, true] result.solution := by
  obtain ⟨start, hstart⟩ : ∃ start, (State.start (minimumVertexCover (0.0 / 0.0)).strategy
      (Graph.singleEdge Float) #[true, true] 7.0 {}).run = .ok (.ok start) := ⟨_, rfl⟩
  obtain ⟨-, hruns, -⟩ := annealing_keeps_cover (0.0 / 0.0) Graph.isBuilt_singleEdge hstart
  exact hruns (Tape.start [] 0)

end Problem

end CutCover
