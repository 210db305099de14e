import CutCover.Proofs.Graph.Gains
import CutCover.Proofs.Moves
import CutCover.Random.Tape

/-!
# CutCover — removals from a cover

Whether a node may be taken out of a cover is a question about all edges. The generator of removals
asks only about the row of the node, and on covers it is the same question: every edge that is not
at the node is covered whether the node is selected or not. So what the generator proposes can be
read off the nodes that its budget allows it to sample, and on a cover with no node to spare it
proposes nothing.

* `Graph.HasUnselectedNeighbor`, `Graph.isRedundant_iff` — what the local test finds.
* `Graph.IsMinimalCover`       — covers without a node to spare.
* `Move.sampleRedundant_run`   — the search goes through the samples, up to the first redundant one.
* `Move.Removal`               — what is proposed, given the samples.
* `Move.randomRemoval_exact`   — the local test, every proposal, and the only refusal.
-/

namespace CutCover

variable {R : Type} [Weight R] {g : Graph R} {x : Assignment}

-- ---------------------------------------------------------------------------
-- The local test
-- ---------------------------------------------------------------------------

namespace Graph

/-- Some neighbour of the node is not selected. -/
def HasUnselectedNeighbor (g : Graph R) (x : Assignment) (node : Nat) : Prop :=
  ∃ row, g.neighbors node = .ok row ∧ ∃ entry ∈ row, x[entry.node]? = some false

/-- A cover that is none without any one of its nodes. -/
structure IsMinimalCover (g : Graph R) (x : Assignment) : Prop where
  covers : g.isCover x = .ok true
  needs : ∀ (node : Nat) (h : node < x.size), x[node] = true →
    g.isCover (x.set node false h) = .ok false

/-- The neighbours that make a node needed are counted in its row. -/
theorem hasUnselectedNeighbor_iff (hg : g.IsBuilt) {node : Nat} (hnode : node < g.numNodes) :
    g.HasUnselectedNeighbor x node ↔ g.labelledAt false x node ≠ 0 := by
  rw [HasUnselectedNeighbor, hg.neighbors_eq hnode, labelledAt, ne_eq, List.countP_eq_zero]
  simp

/-- The test fails for an unselected neighbour and for nothing else. -/
theorem isRedundant_iff (hg : g.IsBuilt) (hx : x.size = g.numNodes) {node : Nat}
    (hnode : node < g.numNodes) :
    g.isRedundant x node = .ok true ↔ ¬ g.HasUnselectedNeighbor x node := by
  rw [isRedundant_eq hg hx hnode, hasUnselectedNeighbor_iff hg hnode]
  simp

/-- No selected node of a minimal cover passes the test. -/
theorem IsMinimalCover.hasUnselectedNeighbor (h : g.IsMinimalCover x) (hg : g.IsBuilt)
    (hx : x.size = g.numNodes) {node : Nat} (hselected : x[node]? = some true) :
    g.HasUnselectedNeighbor x node := by
  obtain ⟨hlt, hlabel⟩ := Array.getElem?_eq_some_iff.mp hselected
  have hneeded := h.needs node hlt hlabel
  rw [isCover_remove hg hx h.covers hlt] at hneeded
  by_contra hnone
  rw [(isRedundant_iff hg hx (by omega)).mpr hnone] at hneeded
  cases hneeded

end Graph

-- ---------------------------------------------------------------------------
-- Samples
-- ---------------------------------------------------------------------------

namespace Move

variable {σ : Type} [WordSource σ]

/-- A search for a redundant node takes the samples that its budget allows in order, up to the first
redundant one. If there is none it has taken them all. -/
theorem sampleRedundant_run (hg : g.IsBuilt) (hx : x.size = g.numNodes) {candidates : Array Nat}
    (hpos : 0 < candidates.size) (hall : ∀ node ∈ candidates, node < g.numNodes) (budget : Nat)
    (s : σ) :
    ∃ samples s₁ s', (Draw.replicate budget (Draw.pick candidates)).run s = .ok (samples, s₁) ∧
      samples.length = budget ∧ (∀ node ∈ samples, node ∈ candidates) ∧
      (sampleRedundant g x candidates budget).run s
        = .ok ((samples.find? fun node => g.labelledAt false x node == 0).map .remove, s') ∧
      ((samples.find? fun node => g.labelledAt false x node == 0) = none → s' = s₁) := by
  induction budget generalizing s with
  | zero => exact ⟨[], s, s, rfl, rfl, fun _ h => absurd h List.not_mem_nil, rfl, fun _ => rfl⟩
  | succ budget ih =>
    have hanswers : Draw.Ensures False (Draw.pick candidates : Draw σ Nat) (· ∈ candidates) :=
      Draw.pick_ensures hpos
    obtain ⟨node, s₀, hpick, hnode⟩ := hanswers.answers s
    obtain ⟨samples, s₁, s', hsamples, hlength, hmem, hsearch, hsource⟩ := ih s₀
    have htest := Graph.isRedundant_eq hg hx (hall node hnode)
    have hlift : (liftM (g.isRedundant x node) : Draw σ Bool).run s₀
        = .ok (g.labelledAt false x node == 0, s₀) := by
      rw [htest]
      rfl
    have hsamples' : (Draw.replicate (budget + 1) (Draw.pick candidates)).run s
        = .ok (node :: samples, s₁) := by
      rw [Draw.replicate, Draw.bind_of_run hpick, Draw.bind_of_run hsamples]
      rfl
    have hmem' : ∀ other ∈ node :: samples, other ∈ candidates :=
      List.forall_mem_cons.mpr ⟨hnode, hmem⟩
    refine ⟨node :: samples, s₁, ?_⟩
    rw [sampleRedundant, Draw.bind_of_run hpick, Draw.bind_of_run hlift, List.find?_cons]
    cases hzero : g.labelledAt false x node == 0 with
    | true => exact ⟨s₀, hsamples', by simp [hlength], hmem', rfl, fun hnone => by cases hnone⟩
    | false => exact ⟨s', hsamples', by simp [hlength], hmem', hsearch, hsource⟩

-- ---------------------------------------------------------------------------
-- Removals
-- ---------------------------------------------------------------------------

/-- What is proposed for a cover, given the selected nodes that the budget allows to sample: the
first of them without an unselected neighbour, whose removal leaves a cover with one node less, and
nothing if there is none. -/
structure Removal (g : Graph R) (x : Assignment) (samples : List Nat) (answer : Option Move) :
    Prop where
  none_iff : answer = none ↔ ∀ node ∈ samples, g.HasUnselectedNeighbor x node
  removes : ∀ move, answer = some move → ∃ earlier node later, samples = earlier ++ node :: later ∧
    (∀ other ∈ earlier, g.HasUnselectedNeighbor x other) ∧ move = .remove node ∧
    x[node]? = some true ∧ ∃ y, move.apply x = .ok y ∧ g.isCover y = .ok true ∧
      y.countSelected + 1 = x.countSelected

/-- The first sample that passes the local test is such a removal. -/
theorem removal_find? (hg : g.IsBuilt) (hx : x.size = g.numNodes)
    (hcover : g.isCover x = .ok true) {samples : List Nat}
    (hall : ∀ node ∈ samples, x[node]? = some true) :
    Removal g x samples
      ((samples.find? fun node => g.labelledAt false x node == 0).map .remove) := by
  have hlt : ∀ node ∈ samples, node < x.size := fun node hnode =>
    (Array.getElem?_eq_some_iff.mp (hall node hnode)).1
  have hfails : ∀ node ∈ samples, g.HasUnselectedNeighbor x node ↔
      ¬ (g.labelledAt false x node == 0) = true := by
    intro node hnode
    rw [Graph.hasUnselectedNeighbor_iff hg (by have := hlt node hnode; omega), beq_iff_eq]
  constructor
  · rw [Option.map_eq_none_iff, List.find?_eq_none]
    exact forall₂_congr fun node hnode => (hfails node hnode).symm
  · intro move hmove
    obtain ⟨node, hfind, rfl⟩ := Option.map_eq_some_iff.mp hmove
    obtain ⟨hzero, earlier, later, rfl, hearlier⟩ := List.find?_eq_some_iff_append.mp hfind
    have hnode : node ∈ earlier ++ node :: later := by simp
    refine ⟨earlier, node, later, rfl, ?_, rfl, hall node hnode, ?_⟩
    · intro other hother
      refine (hfails other (List.mem_append_left _ hother)).mpr ?_
      simpa using hearlier other hother
    · refine ⟨x.set node false (hlt node hnode), Assignment.setLabel_of_lt _ (hlt node hnode), ?_,
        Assignment.countSelected_deselect (hall node hnode) _⟩
      rw [Graph.isCover_remove hg hx hcover, Graph.isRedundant_eq hg hx (by
        have := hlt node hnode
        omega), hzero]

omit [Weight R] in
/-- Without a selected node there is nothing to remove. -/
theorem randomRemoval_of_countSelected_eq_zero (g : Graph R) (h : x.countSelected = 0)
    (budget : Nat) (s : σ) :
    (randomRemoval g x budget).run.run s = .ok (.error (.noCandidates .toRemove), s) := by
  have hnone : x.selected = [] := by
    rw [List.eq_nil_iff_forall_not_mem]
    intro node hnode
    have hheld := Array.mem_of_getElem? (Assignment.mem_nodesLabelled.mp hnode)
    cases Assignment.countSelected_eq_zero_iff.mp h true hheld
  rw [randomRemoval, hnone]
  rfl

/-- With a selected node the search among the selected nodes answers. -/
theorem randomRemoval_of_countSelected_ne_zero (hg : g.IsBuilt) (hx : x.size = g.numNodes)
    (hcover : g.isCover x = .ok true) (h : x.countSelected ≠ 0) (budget : Nat) (s : σ) :
    ∃ samples s₁ answer s',
      (Draw.replicate budget (Draw.pick x.selected.toArray)).run s = .ok (samples, s₁) ∧
      samples.length = budget ∧ (∀ node ∈ samples, x[node]? = some true) ∧
      (randomRemoval g x budget).run.run s = .ok (.ok answer, s') ∧
      Removal g x samples answer ∧ (answer = none → s' = s₁) := by
  obtain ⟨held, hheld, hlabel⟩ : ∃ held ∈ x, held ≠ false := by
    rw [ne_eq, Assignment.countSelected_eq_zero_iff] at h
    push Not at h
    exact h
  obtain ⟨node, hnode⟩ := Array.mem_iff_getElem?.mp hheld
  rw [Bool.eq_true_of_not_eq_false hlabel] at hnode
  have hmem : node ∈ x.selected.toArray :=
    List.mem_toArray.mpr (Assignment.mem_nodesLabelled.mpr hnode)
  have hpos := Array.size_pos_of_mem hmem
  have hempty : x.selected.toArray.isEmpty = false := by
    simpa using Nat.ne_of_gt hpos
  have hselected : ∀ node ∈ x.selected.toArray, x[node]? = some true := fun node hnode =>
    Assignment.mem_nodesLabelled.mp (List.mem_toArray.mp hnode)
  have hlt : ∀ node ∈ x.selected.toArray, node < g.numNodes := fun node hnode => by
    have := (Array.getElem?_eq_some_iff.mp (hselected node hnode)).1
    omega
  obtain ⟨samples, s₁, s', hsamples, hlength, hall, hsearch, hsource⟩ :=
    sampleRedundant_run hg hx hpos hlt budget s
  have hall' : ∀ node ∈ samples, x[node]? = some true := fun node hnode =>
    hselected node (hall node hnode)
  refine ⟨samples, s₁, _, s', hsamples, hlength, hall', ?_, removal_find? hg hx hcover hall', ?_⟩
  · rw [randomRemoval]
    simp only [hempty, Bool.false_eq_true, if_false]
    exact Attempt.lift_of_run hsearch
  · rw [Option.map_eq_none_iff]
    exact hsource

/-- In a cover a node passes the local test just if the rest is a cover. Hence what is proposed is
the removal of the first node without an unselected neighbour among the selected nodes sampled, and
nothing if the budget brings none, as is always so for a minimal cover. The only refusal is that
nothing is selected, and it draws nothing. -/
theorem randomRemoval_exact (hg : g.IsBuilt) (hx : x.size = g.numNodes)
    (hcover : g.isCover x = .ok true) :
    (∀ (node : Nat) (hnode : node < x.size), ∃ redundant,
      g.isRedundant x node = .ok redundant ∧
      g.isCover (x.set node false hnode) = .ok redundant) ∧
    ∀ {σ : Type} [WordSource σ] (budget : Nat) (s : σ),
      ((∃ refusal s', (randomRemoval g x budget).run.run s = .ok (.error refusal, s')) ↔
        x.countSelected = 0) ∧
      (x.countSelected = 0 →
        (randomRemoval g x budget).run.run s = .ok (.error (.noCandidates .toRemove), s)) ∧
      (x.countSelected ≠ 0 → ∃ samples s₁ answer s',
        (Draw.replicate budget (Draw.pick x.selected.toArray)).run s = .ok (samples, s₁) ∧
        samples.length = budget ∧ (∀ node ∈ samples, x[node]? = some true) ∧
        (randomRemoval g x budget).run.run s = .ok (.ok answer, s') ∧
        Removal g x samples answer ∧ (answer = none → s' = s₁) ∧
        (g.IsMinimalCover x → answer = none)) := by
  refine ⟨?_, ?_⟩
  · intro node hnode
    have hlt : node < g.numNodes := by omega
    refine ⟨_, Graph.isRedundant_eq hg hx hlt, ?_⟩
    rw [Graph.isCover_remove hg hx hcover, Graph.isRedundant_eq hg hx hlt]
  intro σ _ budget s
  refine ⟨⟨?_, ?_⟩, ?_, ?_⟩
  · rintro ⟨refusal, s', hrefused⟩
    by_contra hsome
    obtain ⟨_, _, _, _, -, -, -, hanswer, -⟩ :=
      randomRemoval_of_countSelected_ne_zero hg hx hcover hsome budget s
    rw [hrefused] at hanswer
    cases hanswer
  · exact fun hnone => ⟨_, s, randomRemoval_of_countSelected_eq_zero g hnone budget s⟩
  · exact fun hnone => randomRemoval_of_countSelected_eq_zero g hnone budget s
  · intro hsome
    obtain ⟨samples, s₁, answer, s', hsamples, hlength, hall, hanswer, hremoval, hsource⟩ :=
      randomRemoval_of_countSelected_ne_zero hg hx hcover hsome budget s
    refine ⟨samples, s₁, answer, s', hsamples, hlength, hall, hanswer, hremoval, hsource, ?_⟩
    intro hminimal
    exact hremoval.none_iff.mpr fun node hnode =>
      hminimal.hasUnselectedNeighbor hg hx (hall node hnode)

/-- In a path whose first edge is doubled, the cover of the first two nodes: the middle node, drawn
first, is needed for the last edge, the other one is not. -/
theorem randomRemoval_exact_doubledPath :
    Graph.doubledPath.HasUnselectedNeighbor #[true, true, false] 1 ∧
    ∃ y, (Move.remove 0).apply #[true, true, false] = .ok y ∧
      Graph.doubledPath.isCover y = .ok true ∧ y.countSelected + 1 = 2 := by
  have hbuilt : Graph.doubledPath.IsBuilt := by
    decide +kernel
  have hcover : Graph.doubledPath.isCover #[true, true, false] = .ok true := by
    decide +kernel
  have hsamples : (Draw.replicate 2 (Draw.pick
      (Assignment.selected #[true, true, false]).toArray)).run (Tape.start [2 ^ 63, 0] 7)
      = .ok ([1, 0], ⟨[], .ofSeed 7, 2⟩) := by
    decide +kernel
  have hrun : (randomRemoval Graph.doubledPath #[true, true, false] 2).run.run
      (Tape.start [2 ^ 63, 0] 7) = .ok (.ok (some (.remove 0)), ⟨[], .ofSeed 7, 2⟩) := by
    decide +kernel
  obtain ⟨-, hproposals⟩ := randomRemoval_exact hbuilt rfl hcover
  obtain ⟨-, -, hanswers⟩ := hproposals 2 (Tape.start [2 ^ 63, 0] 7)
  obtain ⟨samples, s₁, answer, s', hsamples', -, -, hrun', hremoval, -⟩ := hanswers (by decide)
  rw [hsamples] at hsamples'
  rw [hrun] at hrun'
  cases hsamples'
  cases hrun'
  obtain ⟨earlier, node, later, hsplit, hearlier, hmove, -, hleaves⟩ := hremoval.removes _ rfl
  cases hmove
  refine ⟨hearlier 1 ?_, hleaves⟩
  cases earlier with
  | nil => cases hsplit
  | cons other rest =>
    obtain ⟨rfl, -⟩ := List.cons.inj hsplit
    exact List.mem_cons_self

end Move

end CutCover
