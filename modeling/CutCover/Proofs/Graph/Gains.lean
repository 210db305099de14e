import CutCover.Proofs.Graph.Cuts
import Mathlib.Tactic.Linarith

/-!
# CutCover — gains and scores

The gain of a node, computed from its row alone, is the change of score that flipping it brings. For
the two cut problems this is what a flip does to the crossing edges; for cover and independence, a
flip changes the number of clashing edges by the number of neighbours that carry the label the
constraint keeps apart, and the number of selected nodes by one.

* `Constraint.violations`      — the edges that violate a constraint, counted.
* `Constraint.gain_eq`, `Constraint.exactScore_flip` — the gain and the change of score, both in
  terms of the neighbours with a label.
* `Problem.exists_gain`        — gains do not abort.
* `Problem.gain_eq_rescored`   — one gain.
* `Problem.gains_eq_rescored`  — all gains of an assignment.
-/

namespace CutCover

variable {R : Type}

-- ---------------------------------------------------------------------------
-- Violations
-- ---------------------------------------------------------------------------

namespace Constraint

/-- The number of edges that violate the constraint. -/
def violations [Weight R] (g : Graph R) (x : Assignment) : Constraint → Checked Nat
  | cover => g.uncoveredCount x
  | independence => g.conflictCount x

theorem violations_eq [Weight R] (c : Constraint) {g : Graph R} (hg : g.IsBuilt) {x : Assignment}
    (hx : x.size = g.numNodes) : c.violations g x = .ok (g.clashCount c.label x) := by
  cases c with
  | cover => exact Graph.uncoveredCount_eq hg hx
  | independence => exact Graph.conflictCount_eq hg hx

-- ---------------------------------------------------------------------------
-- Gains
-- ---------------------------------------------------------------------------

/-- The gain of a node: what it is worth, and the penalties for its neighbours with the label. -/
theorem gain_eq (c : Constraint) (penalty : Rat) {g : Graph Rat} (hg : g.IsBuilt) {x : Assignment}
    (hx : x.size = g.numNodes) {node : Nat} (hnode : node < x.size) :
    (c.problem penalty).gain g x node = .ok (
      if x[node] = c.label then -1 + penalty * g.labelledAt c.label x node
      else 1 - penalty * g.labelledAt c.label x node) := by
  have hlt : node < g.numNodes := by omega
  have hcount := Graph.neighborsLabelled_eq hg hx c.label hlt
  cases c with
  | cover =>
    show g.coverGain penalty x node = _
    rw [Graph.coverGain]
    show (g.neighborsLabelled x false node >>= _) = _
    rw [show g.neighborsLabelled x false node = _ from hcount]
    show (x.label node >>= _) = _
    rw [Assignment.label_of_lt hnode]
    cases x[node] <;> rfl
  | independence =>
    show g.independentGain penalty x node = _
    rw [Graph.independentGain]
    show (g.neighborsLabelled x true node >>= _) = _
    rw [show g.neighborsLabelled x true node = _ from hcount]
    show (x.label node >>= _) = _
    rw [Assignment.label_of_lt hnode]
    cases x[node] <;> rfl

/-- What a flip does to the exact score. -/
theorem exactScore_flip (c : Constraint) (penalty : Rat) {g : Graph Rat} (hg : g.IsBuilt)
    {x : Assignment} {node : Nat} (hnode : node < x.size) :
    c.exactScore penalty g (x.set node (!x[node]) hnode) - c.exactScore penalty g x
      = if x[node] = c.label then -1 + penalty * g.labelledAt c.label x node
        else 1 - penalty * g.labelledAt c.label x node := by
  have hset := c.exactScore_set penalty g hnode
  rw [Graph.clashesAt_eq hg] at hset
  -- one of the two assignments compared is `x`, and the other one is `x` flipped
  rcases Assignment.flip_cases c.label hnode with ⟨hlabel, hheld, hflip⟩ | ⟨hlabel, hheld, hflip⟩
  · rw [hheld] at hset
    rw [if_pos hlabel, hflip]
    linarith
  · rw [hheld] at hset
    rw [if_neg hlabel, hflip]
    linarith

end Constraint

-- ---------------------------------------------------------------------------
-- The four problems
-- ---------------------------------------------------------------------------

/-- A path whose first edge is doubled, once with a negative weight. -/
def Graph.doubledPath : Graph Rat where
  numNodes := 3
  edges := [⟨0, 1, 1⟩, ⟨1, 0, -3 / 2⟩, ⟨1, 2, 2⟩]
  offsets := #[0, 2, 5, 6]
  adjacency := #[⟨1, 1⟩, ⟨1, -3 / 2⟩, ⟨0, 1⟩, ⟨0, -3 / 2⟩, ⟨2, 2⟩, ⟨1, 2⟩]
  weightedDegrees := #[-1 / 2, 3 / 2, 2]

namespace Problem

/-- In a graph that was built, every node of an assignment has a gain. -/
theorem exists_gain [Weight R] (problem : Problem R) {g : Graph R} (hg : g.IsBuilt)
    {x : Assignment} (hx : x.size = g.numNodes) {node : Nat} (hnode : node < g.numNodes) :
    ∃ gain, problem.gain g x node = .ok gain := by
  have hlt : node < x.size := by omega
  cases problem with
  | maxCut => exact ⟨_, Graph.cutGain_eq hg hx hnode⟩
  | graphPartitioning => exact ⟨_, Graph.cutGain_eq hg hx hnode⟩
  | minimumVertexCover penalty =>
    show ∃ gain, g.coverGain penalty x node = .ok gain
    rw [Graph.coverGain, Graph.neighborsLabelled_eq hg hx false hnode, Assignment.label_of_lt hlt]
    cases x[node] <;> exact ⟨_, rfl⟩
  | maximumIndependentSet penalty =>
    show ∃ gain, g.independentGain penalty x node = .ok gain
    rw [Graph.independentGain, Graph.neighborsLabelled_eq hg hx true hnode,
      Assignment.label_of_lt hlt]
    cases x[node] <;> exact ⟨_, rfl⟩

variable {g : Graph Rat} {x : Assignment}

/-- The gain of a node is the score after flipping it, less the score before. -/
theorem gain_eq_rescored (problem : Problem Rat) (hg : g.IsBuilt) (hx : x.size = g.numNodes)
    {node : Nat} (hnode : node < x.size) :
    ∃ before after, problem.score g x = .ok before ∧
      problem.score g (x.set node (!x[node]) hnode) = .ok after ∧
      problem.gain g x node = .ok (after - before) := by
  have hx' : (x.set node (!x[node]) hnode).size = g.numNodes := by simpa using hx
  have hcut : g.cutGain x node = .ok (Graph.exactCut g.edges (x.set node (!x[node]) hnode)
      - Graph.exactCut g.edges x) := by
    rw [Graph.exactCut_flip hg hx hnode, add_sub_cancel_left]
    exact Graph.cutGain_eq hg hx (by omega)
  -- the two cut problems score alike, and so do the two constraints
  rcases problem.cut_or_constraint with rfl | rfl | ⟨c, penalty, rfl⟩
  · exact ⟨_, _, Graph.cutWeight_eq hg hx, Graph.cutWeight_eq hg hx', hcut⟩
  · exact ⟨_, _, Graph.cutWeight_eq hg hx, Graph.cutWeight_eq hg hx', hcut⟩
  · refine ⟨_, _, c.score_eq penalty hg hx, c.score_eq penalty hg hx', ?_⟩
    rw [c.exactScore_flip penalty hg hnode]
    exact c.gain_eq penalty hg hx hnode

/-- The gains of an assignment say what re-scoring it would: in exact arithmetic, the gain of each
node is the score after flipping this node alone, less the score before. For both constraints, the
flip makes or repairs one violation for each neighbour with the label the constraint keeps apart,
according to whether the node takes on that label or gives it up. -/
theorem gains_eq_rescored (problem : Problem Rat) (hg : g.IsBuilt) (hx : x.size = g.numNodes)
    {count : Nat} (hcount : count ≤ g.numNodes) :
    ∃ gains before, problem.gains g x count = .ok gains ∧ gains.length = count ∧
      problem.score g x = .ok before ∧
      ∀ node < count, ∃ flipped after row, x.flip node = .ok flipped ∧
        problem.score g flipped = .ok after ∧ gains[node]? = some (after - before) ∧
        g.neighbors node = .ok row ∧
        ∀ c : Constraint, ∃ violated violatedAfter, c.violations g x = .ok violated ∧
          c.violations g flipped = .ok violatedAfter ∧
          if x[node]? = some c.label then
            violated = violatedAfter + row.countP fun entry => x[entry.node]? == some c.label
          else
            violatedAfter = violated + row.countP fun entry => x[entry.node]? == some c.label := by
  obtain ⟨before, hbefore⟩ := problem.exists_score hg hx
  have hanswers : ∀ node ∈ List.range count, ∃ gain, problem.gain g x node = .ok gain := by
    intro node hnode
    have hlt : node < x.size := by
      have := List.mem_range.mp hnode
      omega
    obtain ⟨_, _, -, -, hgain⟩ := problem.gain_eq_rescored hg hx hlt
    exact ⟨_, hgain⟩
  obtain ⟨gains, hgains⟩ := exists_mapM hanswers
  refine ⟨gains, before, hgains, problem.strategy.length_gains hgains, hbefore, ?_⟩
  intro node hnode
  -- the gain at a place of the list is the gain of the node with that number
  have hlt : node < x.size := by omega
  have hx' : (x.set node (!x[node]) hlt).size = g.numNodes := by simpa using hx
  obtain ⟨before', after, hbefore', hafter, hgain⟩ := problem.gain_eq_rescored hg hx hlt
  rw [hbefore] at hbefore'
  cases hbefore'
  obtain ⟨gain, hplace, hgain'⟩ := getElem?_of_forall₂ (forall₂_of_mapM hgains)
    (List.getElem?_range hnode)
  rw [hgain] at hgain'
  cases hgain'
  refine ⟨_, after, g.row node, Assignment.flip_of_lt hlt, hafter, hplace,
    hg.neighbors_eq (by omega), ?_⟩
  intro c
  refine ⟨_, _, c.violations_eq hg hx, c.violations_eq hg hx', ?_⟩
  have hflip := Graph.clashCount_flip hg c.label hlt
  rw [Array.getElem?_eq_getElem hlt]
  simp only [Option.some_inj]
  exact hflip

/-- The gain listed for the middle node of the path is what flipping it adds to the cut. -/
theorem gains_eq_rescored_doubledPath :
    ∃ flipped after, Assignment.flip #[true, false, false] 1 = .ok flipped ∧
      Problem.maxCut.score Graph.doubledPath flipped = .ok after ∧
      ([1 / 2, 5 / 2, 2] : List Rat)[1]? = some (after - -1 / 2) := by
  obtain ⟨hbuilt, hgains, hscore⟩ : Graph.doubledPath.IsBuilt ∧
      Problem.maxCut.gains Graph.doubledPath #[true, false, false] 3 = .ok [1 / 2, 5 / 2, 2] ∧
      Problem.maxCut.score Graph.doubledPath #[true, false, false] = .ok (-1 / 2) := by
    decide +kernel
  have hsize : (#[true, false, false] : Assignment).size = Graph.doubledPath.numNodes := rfl
  obtain ⟨gains, before, hgains', -, hbefore, hnodes⟩ :=
    Problem.maxCut.gains_eq_rescored hbuilt hsize (Nat.le_refl 3)
  rw [hgains] at hgains'
  rw [hscore] at hbefore
  cases hgains'
  cases hbefore
  obtain ⟨flipped, after, _, hflip, hafter, hgain, -⟩ := hnodes 1 (by decide)
  exact ⟨flipped, after, hflip, hafter, hgain⟩

end Problem

end CutCover
