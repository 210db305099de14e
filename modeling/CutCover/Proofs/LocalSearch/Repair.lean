import CutCover.Proofs.Graph.Clash
import CutCover.Proofs.LocalSearch.Population
import Mathlib.Tactic.Linarith

/-!
# CutCover — one sweep repairs every violation

If it pays to relabel a node wherever an edge at it clashes, then a sweep relabels it, and never
labels a node so that an edge at it clashes. A single sweep from any scored slot therefore ends
without a clashing edge: at the turn of a node all clashes at it are repaired, and later turns make
no new ones. In exact arithmetic a node is worth one, so that a penalty above one is enough.

* `PaysRepairs`                  — repairs pay, and scores are numbers.
* `paysRepairs_of_one_lt`        — with a penalty above one they do.
* `Slot.not_touches_of_tryFlip`  — the turn of a node.
* `Slot.RepairedBelow`           — the invariant of the sweep.
* `Slot.isMet_of_search`         — what one search returns meets the constraint.
* `Population.searchSlots_meets_constraint` — after a search call every slot does.
-/

namespace CutCover.LocalSearch

variable {R : Type} [Weight R] {c : Constraint} {penalty : R} {g : Graph R} {params : SearchParams}

-- ---------------------------------------------------------------------------
-- Clashes at one node
-- ---------------------------------------------------------------------------

/-- Every assignment has a number as its score, and wherever an edge at a node clashes, giving the
node the other label scores strictly higher. -/
structure PaysRepairs (c : Constraint) (penalty : R) (g : Graph R) : Prop where
  isNumber {x : Assignment} {score : R} (hx : x.size = g.numNodes)
    (h : (c.problem penalty).strategy.score g x = .ok score) : Weight.IsNumber score
  lt_of_clash {x : Assignment} {node : Nat} (hnode : node < x.size) {clashing repaired : R}
    (hx : x.size = g.numNodes)
    (hclashing : (c.problem penalty).strategy.score g (x.set node c.label) = .ok clashing)
    (hrepaired : (c.problem penalty).strategy.score g (x.set node (!c.label)) = .ok repaired)
    (h : g.clashesAt c.label (x.set node c.label) node ≠ 0) : clashing < repaired

/-- With exact scores repairs pay if the penalty exceeds what a node is worth. -/
theorem paysRepairs_of_one_lt (c : Constraint) {penalty : Rat} (hpenalty : 1 < penalty)
    {g : Graph Rat} (hg : g.IsBuilt) : PaysRepairs c penalty g where
  isNumber _ _ := le_refl _
  lt_of_clash := by
    intro x node hnode clashing repaired hx hclashing hrepaired h
    rw [c.score_eq penalty hg (by rw [Array.size_set, hx])] at hclashing hrepaired
    have hdifference := c.exactScore_set penalty g hnode
    rw [Except.ok.inj hclashing, Except.ok.inj hrepaired] at hdifference
    have hone : (1 : Rat) ≤ g.clashesAt c.label (x.set node c.label) node := by
      exact_mod_cast Nat.one_le_iff_ne_zero.mpr h
    have hcost : penalty ≤ penalty * g.clashesAt c.label (x.set node c.label) node :=
      le_mul_of_one_le_right (by linarith) hone
    linarith

omit [Weight R] in
theorem not_touches_of_clashesAt_eq_zero {label : Bool} {x : Assignment} {node : Nat}
    (h : g.clashesAt label x node = 0) {e : Edge R} (he : e ∈ g.edges)
    (hclash : e.clashes label x = true) : e.touches node = false := by
  have hnone := List.countP_eq_zero.mp h e he
  simpa [hclash] using hnone

namespace Slot

-- ---------------------------------------------------------------------------
-- The turn of one node
-- ---------------------------------------------------------------------------

/-- The turn of a node changes nothing about the edges that are not at it. -/
theorem clashes_of_tryFlip {strategy : Strategy R} {slot tried : Slot R} {node : Nat}
    (h : tryFlip strategy g slot node = .ok tried) {label : Bool} {e : Edge R}
    (he : e.touches node = false) :
    e.clashes label tried.solution = e.clashes label slot.solution := by
  obtain ⟨challenger, hflip, -, rfl⟩ := tryFlip_inv h
  obtain ⟨hnode, hset⟩ := Assignment.flip_inv hflip
  refine improve_of (fun held => e.clashes label held.solution = e.clashes label slot.solution)
    rfl ?_
  intro _
  rw [hset, Edge.clashes_set_of_not_touches hnode he]

variable [Weight.StrictlyOrdered R]

/-- After the turn of a node no edge at it clashes. -/
theorem not_touches_of_tryFlip (hpays : PaysRepairs c penalty g) {slot tried : Slot R}
    {node : Nat} (hslot : slot.IsScored (c.problem penalty).strategy g)
    (hsize : slot.solution.size = g.numNodes)
    (h : tryFlip (c.problem penalty).strategy g slot node = .ok tried)
    {e : Edge R} (he : e ∈ g.edges) (hclash : e.clashes c.label tried.solution = true) :
    e.touches node = false := by
  obtain ⟨challenger, hflip, hchallenger, rfl⟩ := tryFlip_inv h
  obtain ⟨hnode, hset⟩ := Assignment.flip_inv hflip
  have hscored := hchallenger.scored
  rw [IsScored] at hslot hscored
  -- the assignment held and the one tried give the node the two labels, in one order or the other
  by_cases hlabel : slot.solution[node] = c.label
  · have hheld : slot.solution.set node c.label hnode = slot.solution := by
      rw [← hlabel, Array.set_getElem_self]
    rw [hlabel] at hset
    rcases improve_cases slot challenger with ⟨himprove, -⟩ | ⟨himprove, hnot⟩
    · -- the node gave up the label, and nothing at it clashes
      rw [himprove, hset] at hclash
      by_contra htouches
      rw [Edge.clashes_set_of_touches hnode (by simpa using htouches)] at hclash
      exact Bool.noConfusion hclash
    · -- giving it up did not pay, so that nothing at the node clashed
      rw [himprove] at hclash
      refine not_touches_of_clashesAt_eq_zero ?_ he hclash
      by_contra hsome
      rw [← hheld] at hslot hsome
      rw [hset] at hscored
      exact hnot (hpays.lt_of_clash hnode hsize hslot hscored hsome)
  · have hother : slot.solution[node] = !c.label := Bool.eq_not.mpr hlabel
    have hheld : slot.solution.set node (!c.label) hnode = slot.solution := by
      rw [← hother, Array.set_getElem_self]
    rw [hother, Bool.not_not] at hset
    rcases improve_cases slot challenger with ⟨himprove, hlt⟩ | ⟨himprove, -⟩
    · -- taking the label paid, so that nothing at the node clashes now
      rw [himprove] at hclash
      refine not_touches_of_clashesAt_eq_zero ?_ he hclash
      by_contra hsome
      rw [← hheld] at hslot
      rw [hset] at hscored hsome
      have hback := hpays.lt_of_clash hnode hsize hscored hslot hsome
      exact Weight.StrictlyOrdered.lt_irrefl _ (Weight.StrictlyOrdered.lt_trans hlt hback)
    · rw [himprove, ← hheld] at hclash
      by_contra htouches
      rw [Edge.clashes_set_of_touches hnode (by simpa using htouches)] at hclash
      exact Bool.noConfusion hclash

-- ---------------------------------------------------------------------------
-- The sweep
-- ---------------------------------------------------------------------------

/-- The slot is scored, and no edge with an endpoint below `node` clashes. -/
structure RepairedBelow (c : Constraint) (penalty : R) (g : Graph R) (node : Nat)
    (slot : Slot R) : Prop where
  scored : slot.IsScored (c.problem penalty).strategy g
  size_eq : slot.solution.size = g.numNodes
  le_endpoints : ∀ e ∈ g.edges, e.clashes c.label slot.solution = true → node ≤ e.u ∧ node ≤ e.v

theorem repairedBelow_succ (hpays : PaysRepairs c penalty g) {slot tried : Slot R} {node : Nat}
    (hslot : RepairedBelow c penalty g node slot)
    (h : tryFlip (c.problem penalty).strategy g slot node = .ok tried) :
    RepairedBelow c penalty g (node + 1) tried := by
  obtain ⟨challenger, -, hchallenger, htried⟩ := tryFlip_inv h
  refine ⟨?_, ?_, ?_⟩
  · rw [htried]
    exact keptByChallengers_isScored slot challenger hslot.scored hchallenger
  · rw [htried]
    exact keptByChallengers_size g.numNodes slot challenger hslot.size_eq hchallenger
  · intro e he hclash
    have htouches := not_touches_of_tryFlip hpays hslot.scored hslot.size_eq h he hclash
    rw [clashes_of_tryFlip h htouches] at hclash
    have hle := hslot.le_endpoints e he hclash
    simp only [Edge.touches, Bool.or_eq_false_iff, beq_eq_false_iff_ne] at htouches
    omega

omit [Weight.StrictlyOrdered R] in
/-- Nothing clashes once all nodes had their turn. -/
theorem isMet_of_repairedBelow (hg : g.IsBuilt) {slot : Slot R}
    (hslot : RepairedBelow c penalty g g.numNodes slot) : c.isMet g slot.solution = .ok true := by
  have hzero : g.clashCount c.label slot.solution = 0 := by
    refine List.countP_eq_zero.mpr ?_
    intro e he hclash
    have hle := hslot.le_endpoints e he hclash
    have hlt := (hg.sound e he).u_lt
    omega
  rw [c.isMet_eq hg hslot.size_eq, hzero]
  rfl

theorem isMet_of_sweep (hpays : PaysRepairs c penalty g) (hg : g.IsBuilt) {slot searched : Slot R}
    (hslot : slot.IsScored (c.problem penalty).strategy g)
    (hsize : slot.solution.size = g.numNodes)
    (h : slot.sweep (c.problem penalty).strategy g = .ok searched) :
    c.isMet g searched.solution = .ok true := by
  have hstart : RepairedBelow c penalty g 0 slot :=
    ⟨hslot, hsize, fun e _ _ => ⟨Nat.zero_le e.u, Nat.zero_le e.v⟩⟩
  have hend := foldlM_invariant (RepairedBelow c penalty g)
    (fun node _ held tried hheld htried => repairedBelow_succ hpays hheld htried) hstart h
  rw [hsize] at hend
  exact isMet_of_repairedBelow hg hend

/-- What a search of a scored slot returns meets the constraint, whether it is the slot or not. -/
theorem isMet_of_search {τ : Type} [WordSource τ] (hpays : PaysRepairs c penalty g)
    (hg : g.IsBuilt) {slot searched : Slot R} {s s' : τ}
    (hslot : slot.IsScored (c.problem penalty).strategy g)
    (hsize : slot.solution.size = g.numNodes)
    (h : (slot.search (c.problem penalty).strategy g params).run s = .ok (searched, s')) :
    c.isMet g searched.solution = .ok true := by
  obtain ⟨flipped, hflipped, hsweep⟩ := search_inv h
  have hscored := flipRounds_invariant keptByChallengers_isScored hslot hflipped
  have hsize' := flipRounds_invariant (keptByChallengers_size g.numNodes) hsize hflipped
  exact isMet_of_sweep hpays hg hscored hsize' hsweep

end Slot

-- ---------------------------------------------------------------------------
-- The search of a population
-- ---------------------------------------------------------------------------

namespace Population

/-- After a search call every slot meets the constraint, those included that were not replaced. -/
theorem isMet_of_searchSlots [Weight.StrictlyOrdered R] (hpays : PaysRepairs c penalty g)
    (hg : g.IsBuilt) {σ : Type} [WordSource σ] {p after : Population R} {s s' : σ}
    {report : SearchReport R} (hp : p.IsConsistent (c.problem penalty).strategy g)
    (h : (p.searchSlots (c.problem penalty).strategy g params).run s
      = .ok ((.ok report, after), s')) :
    ∀ slot ∈ after.slots, c.isMet g slot.solution = .ok true := by
  intro found hfound
  obtain ⟨slot, hslot, seed, hseed⟩ :=
    exists_of_mem_forall₂ (searched_of_searchSlots h).found hfound
  obtain ⟨_, hsearch⟩ := Slot.searchSeeded_inv hseed
  exact Slot.isMet_of_search hpays hg (hp.scored slot hslot) (hp.size_eq slot hslot) hsearch

/-- With a penalty above one and exact scores, a search leaves no violation. What the search of a
scored slot returns meets the constraint, and after a search call over a population with true
scores every slot does, those included that were not replaced. -/
theorem searchSlots_meets_constraint (c : Constraint) {penalty : Rat} (hpenalty : 1 < penalty)
    {g : Graph Rat} (hg : g.IsBuilt) (params : SearchParams) :
    (∀ (slot found : Slot Rat) (seed : UInt64),
      slot.IsScored (c.problem penalty).strategy g → slot.solution.size = g.numNodes →
      slot.searchSeeded (c.problem penalty).strategy g params seed = .ok found →
        c.isMet g found.solution = .ok true) ∧
    ∀ (σ : Type) [WordSource σ] (p after : Population Rat) (s s' : σ) (report : SearchReport Rat),
      p.IsConsistent (c.problem penalty).strategy g →
      (p.searchSlots (c.problem penalty).strategy g params).run s
        = .ok ((.ok report, after), s') →
        after.size = p.size ∧ ∀ x ∈ after.solutions, c.isMet g x = .ok true := by
  have hpays := paysRepairs_of_one_lt c hpenalty hg
  constructor
  · intro slot found seed hslot hsize h
    obtain ⟨_, hsearch⟩ := Slot.searchSeeded_inv h
    exact Slot.isMet_of_search hpays hg hslot hsize hsearch
  · intro σ _ p after s s' report hp h
    have hsearched := searched_of_searchSlots h
    have hafter := isConsistent_searchSlots hp h
    have hlength := hsearched.found.length_eq
    rw [hsearched.length_slots, length_slots hafter.length_scores] at hlength
    refine ⟨hlength.symm, ?_⟩
    intro x hx
    obtain ⟨found, hfound, rfl⟩ := exists_slot_of_mem hafter.length_scores hx
    exact isMet_of_searchSlots hpays hg hp h found hfound

/-- A search from an uncovered edge, with the usual penalty. -/
theorem searchSlots_meets_constraint_singleEdge :
    Constraint.cover.isMet (Graph.singleEdge Rat) #[true, false] = .ok true := by
  have hbuilt : (Graph.singleEdge Rat).IsBuilt := by
    decide +kernel
  have hstart : (⟨[#[false, false]], [-2]⟩ : Population Rat).IsConsistent
      (Constraint.cover.problem 2).strategy (.singleEdge Rat) := by
    decide +kernel
  have hsearch : ((⟨[#[false, false]], [-2]⟩ : Population Rat).searchSlots
      (Constraint.cover.problem 2).strategy (.singleEdge Rat) ⟨1, 2, 0.3⟩).run (Tape.start [5] 7)
      = .ok ((.ok ⟨1, some (-1)⟩, ⟨[#[true, false]], [-1]⟩), ⟨[], .ofSeed 7, 1⟩) := by
    decide +kernel
  have hpenalty : (1 : Rat) < 2 := by
    decide +kernel
  obtain ⟨-, hpopulation⟩ := searchSlots_meets_constraint .cover hpenalty hbuilt ⟨1, 2, 0.3⟩
  exact (hpopulation Tape _ _ _ _ _ hstart hsearch).2 _ (List.mem_singleton_self _)

end Population

end CutCover.LocalSearch
