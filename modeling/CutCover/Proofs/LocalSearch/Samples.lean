import CutCover.Proofs.Graph.Cuts
import CutCover.Proofs.LocalSearch.Best
import CutCover.Proofs.Words
import CutCover.Random.Tape

/-!
# CutCover — filling a population by samples

Each slot is filled with the best of several random assignments, and a random assignment takes one
word for each node, whatever the words are. So the words of a sample can be told from its number and
from that of its slot, and what was in the population before plays no part.

* `IsFirstBest`, `exists_bestSample_eq` — the first of the best of several assignments.
* `sampleOf`                            — the samples of a slot, by the words they take.
* `Population.takes_sampleSlot`         — one slot.
* `Population.sample_is_first_best`     — all slots, from any source.
-/

namespace CutCover.LocalSearch

open WordSource (skip skip_add)

variable {R : Type} [Weight R]

-- ---------------------------------------------------------------------------
-- The best of several assignments
-- ---------------------------------------------------------------------------

/-- Of so many assignments none scores strictly above the one with this number, and if all scores
are numbers, those before it are strictly lower. -/
structure IsFirstBest (score : Assignment → R) (samples : Nat → Assignment) (count best : Nat) :
    Prop where
  lt : best < count
  unbeaten : ∀ i < count, ¬ score (samples best) < score (samples i)
  first : (∀ i < count, Weight.IsNumber (score (samples i))) →
    ∀ i < best, score (samples i) < score (samples best)

variable {strategy : Strategy R} {g : Graph R} {score : Assignment → R}

/-- An assignment with its score. -/
def scored (score : Assignment → R) (x : Assignment) : Slot R :=
  ⟨x, score x⟩

omit [Weight R] in
theorem ofSolution_eq {x : Assignment} (h : strategy.score g x = .ok (score x)) :
    Slot.ofSolution strategy g x = .ok (scored score x) := by
  rw [Slot.ofSolution, h]
  rfl

/-- What leads among scored assignments is the first of the best of them. -/
theorem Leads.isFirstBest {samples : Nat → Assignment} {count place : Nat} {slot : Slot R}
    (h : Leads ((List.range count).map fun i => scored score (samples i)) place slot) :
    IsFirstBest score samples count place ∧ slot.solution = samples place := by
  have hplace := h.at_place
  rw [List.getElem?_map, Option.map_eq_some_iff] at hplace
  obtain ⟨_, hrange, rfl⟩ := hplace
  obtain ⟨hlt, rfl⟩ := List.getElem?_eq_some_iff.mp hrange
  rw [List.length_range] at hlt
  rw [List.getElem_range] at h ⊢
  refine ⟨⟨hlt, ?_, ?_⟩, rfl⟩
  · intro i hi
    exact h.unbeaten _ (List.mem_map_of_mem (List.mem_range.mpr hi))
  · intro hnumbers i hi
    refine h.first ?_ (scored score (samples i)) ?_
    · rw [List.forall_mem_map]
      intro j hj
      exact hnumbers j (List.mem_range.mp hj)
    · rw [← List.map_take, List.take_range, Nat.min_eq_left hlt.le]
      exact List.mem_map_of_mem (List.mem_range.mpr hi)

/-- The best of some assignments is the first of the best of them. -/
theorem exists_bestSample_eq [Weight.Ordered R] {samples : Nat → Assignment} (count : Nat)
    (hscore : ∀ i, strategy.score g (samples i) = .ok (score (samples i))) :
    ∃ best, IsFirstBest score samples (count + 1) best ∧
      Population.bestSample strategy g (samples 0)
        ((List.range count).map fun i => samples (i + 1)) = .ok (samples best) := by
  let others := (List.range count).map fun i => samples (i + 1)
  have hslots : others.mapM (fun x => Slot.ofSolution strategy g x)
      = .ok (others.map (scored score)) := by
    refine mapM_of_total ?_
    intro x hx
    obtain ⟨i, -, rfl⟩ := List.mem_map.mp hx
    exact ofSolution_eq (hscore (i + 1))
  have hall : scored score (samples 0) :: others.map (scored score)
      = (List.range (count + 1)).map fun i => scored score (samples i) := by
    rw [List.range_succ_eq_map, List.map_cons, List.map_map, List.map_map]
    rfl
  obtain ⟨best, hleads⟩ := exists_leads (scored score (samples 0)) (others.map (scored score))
  rw [hall] at hleads
  obtain ⟨hfirst, hsolution⟩ := hleads.isFirstBest
  refine ⟨best, hfirst, ?_⟩
  rw [Population.bestSample, ofSolution_eq (hscore 0), hslots, ← hsolution]
  rfl

-- ---------------------------------------------------------------------------
-- Samples and their words
-- ---------------------------------------------------------------------------

variable {σ : Type} [WordSource σ]

/-- The sample with this number of a slot. It takes one word for each node, node 0 first, after
those of the samples before it and of the slots before that. -/
def sampleOf (s : σ) (numNodes count slot number : Nat) : Assignment :=
  Assignment.ofWords s (slot * count * numNodes + number * numNodes) numNodes

theorem size_sampleOf (s : σ) (numNodes count slot number : Nat) :
    (sampleOf s numNodes count slot number).size = numNodes :=
  Assignment.size_ofWords s _ numNodes

namespace Population

section Total

variable [Weight.Ordered R]
variable (hscore : ∀ x : Assignment, x.size = g.numNodes → strategy.score g x = .ok (score x))

include hscore

/-- A slot takes the words of all its samples and answers the first of the best of them. -/
theorem takes_sampleSlot (s : σ) (samplesPerSlot slot : Nat) :
    Draw.Takes (sampleSlot strategy g samplesPerSlot)
      (skip s (slot * (max 1 samplesPerSlot * g.numNodes))) (max 1 samplesPerSlot * g.numNodes)
      fun x => ∃ best, x = sampleOf s g.numNodes (max 1 samplesPerSlot) slot best ∧
        IsFirstBest score (sampleOf s g.numNodes (max 1 samplesPerSlot) slot)
          (max 1 samplesPerSlot) best := by
  obtain ⟨others, hcount⟩ : ∃ others, max 1 samplesPerSlot = others + 1 :=
    Nat.exists_eq_add_of_le' (Nat.le_max_left 1 samplesPerSlot)
  have hothers : samplesPerSlot - 1 = others := by omega
  obtain ⟨start, hstart⟩ : ∃ start, start = slot * ((others + 1) * g.numNodes) := ⟨_, rfl⟩
  let samples := sampleOf s g.numNodes (others + 1) slot
  have hsample (number : Nat) : Draw.Takes (Assignment.random g.numNodes)
      (skip s (start + number * g.numNodes)) g.numNodes fun x => x = samples number := by
    rw [hstart, ← Nat.mul_assoc]
    exact Assignment.takes_random s _ g.numNodes
  have hfirst : Draw.Takes (Assignment.random g.numNodes) (skip s start) g.numNodes
      fun x => x = samples 0 := by
    simpa using hsample 0
  have hrest : ∀ i < others, Draw.Takes (Assignment.random g.numNodes)
      (skip (skip (skip s start) g.numNodes) (i * g.numNodes)) g.numNodes
      fun x => x = samples (i + 1) := by
    intro i _
    have hnext := hsample (i + 1)
    rwa [Nat.succ_mul, Nat.add_comm (i * g.numNodes), skip_add, skip_add] at hnext
  obtain ⟨best, hisFirst, hbest⟩ := exists_bestSample_eq others
    fun i => hscore (samples i) (size_sampleOf s g.numNodes (others + 1) slot i)
  rw [hcount, ← hstart, sampleSlot, hothers, Nat.succ_mul, Nat.add_comm (others * g.numNodes)]
  refine hfirst.bind ?_
  rintro _ rfl
  refine (Draw.Takes.replicate_eq hrest).bind (b := 0) ?_
  rintro _ rfl
  exact .lift hbest ⟨best, rfl, hisFirst⟩

omit [Weight R] [Weight.Ordered R] in
/-- Assignments that fit the graph are taken over with their scores. -/
theorem load_of_fits {solutions : List Assignment} (hsize : ∀ x ∈ solutions, x.size = g.numNodes)
    (p : Population R) :
    p.load strategy g solutions
      = .ok (.ok (solutions.map score), ⟨solutions, solutions.map score⟩) := by
  have hfits : solutions.find? (fun x => x.size != g.numNodes) = none := by
    rw [List.find?_eq_none]
    intro x hx
    simpa using hsize x hx
  have hscores : solutions.mapM (fun x => strategy.score g x) = .ok (solutions.map score) :=
    mapM_of_total fun x hx => hscore x (hsize x hx)
  rw [load, hfits]
  dsimp only
  rw [hscores]
  rfl

/-- All that is needed is a score for every assignment to the nodes, as each of the four problems
gives on a graph that was built. Then, however many slots and samples are asked for, whatever words
there are, and whatever was in the population before: the call answers, and it takes one word for
each node of each sample, and of samples one at least for each slot. Each slot ends with a sample of
its own that none of them beats, the first such one if all scores are numbers, and with the score of
that sample. -/
theorem sample_is_first_best (numSlots samplesPerSlot : Nat) (s : σ) :
    ∃ filled : Population R,
      (∀ p : Population R, (p.sample strategy g numSlots samplesPerSlot).run s
        = .ok ((.ok filled.scores, filled),
            skip s (numSlots * max 1 samplesPerSlot * g.numNodes))) ∧
      filled.solutions.length = numSlots ∧ filled.scores = filled.solutions.map score ∧
      ∀ slot < numSlots, ∃ best,
        filled.solutions[slot]? = some (sampleOf s g.numNodes (max 1 samplesPerSlot) slot best) ∧
        IsFirstBest score (sampleOf s g.numNodes (max 1 samplesPerSlot) slot)
          (max 1 samplesPerSlot) best := by
  obtain ⟨solutions, hrun, hlength, hslots⟩ :=
    Draw.Takes.replicate fun slot (_ : slot < numSlots) =>
      takes_sampleSlot hscore s samplesPerSlot slot
  have hbest : ∀ slot < numSlots, ∃ best,
      solutions[slot]? = some (sampleOf s g.numNodes (max 1 samplesPerSlot) slot best) ∧
      IsFirstBest score (sampleOf s g.numNodes (max 1 samplesPerSlot) slot)
        (max 1 samplesPerSlot) best := by
    intro slot hslot
    have hsolution := List.getElem?_eq_getElem (hlength.symm ▸ hslot)
    obtain ⟨best, hbest, hisFirst⟩ := hslots slot _ hsolution
    exact ⟨best, by rw [hsolution, hbest], hisFirst⟩
  have hsize : ∀ x ∈ solutions, x.size = g.numNodes := by
    intro x hx
    obtain ⟨slot, hslot⟩ := List.mem_iff_getElem?.mp hx
    obtain ⟨best, rfl, -⟩ := hslots slot x hslot
    exact size_sampleOf s g.numNodes _ slot best
  refine ⟨⟨solutions, solutions.map score⟩, ?_, hlength, rfl, hbest⟩
  intro p
  rw [sample, Draw.bind_of_run hrun, load_of_fits hscore hsize, Nat.mul_assoc]
  rfl

end Total

/-- The second sample of the first slot is better than the first; of the two of the second slot,
which score alike, the first is kept. The slot that was there before is gone. -/
theorem sample_is_first_best_twoSlots :
    ((⟨[#[true, true]], [-0.0]⟩ : Population Float).sample Problem.maxCut.strategy
      (.singleEdge Float) 2 2).run
        (Tape.start [0, 0, 0, 0xffffffffffffffff, 0xffffffffffffffff, 0, 0, 0xffffffffffffffff] 7)
      = .ok ((.ok [1.0, 1.0], ⟨[#[true, false], #[false, true]], [1.0, 1.0]⟩),
          ⟨[], .ofSeed 7, 8⟩) := by
  let score (x : Assignment) : Float :=
    (Problem.maxCut.strategy.score (.singleEdge Float) x).toOption.getD 0.0
  have hscore : ∀ x : Assignment, x.size = (Graph.singleEdge Float).numNodes →
      Problem.maxCut.strategy.score (.singleEdge Float) x = .ok (score x) := by
    intro x hx
    obtain ⟨value, hvalue⟩ := Problem.maxCut.exists_score Graph.isBuilt_singleEdge hx
    have hstrategy : Problem.maxCut.strategy.score (.singleEdge Float) x = .ok value := hvalue
    simp only [score, hstrategy]
    rfl
  have hempty : ((empty : Population Float).sample Problem.maxCut.strategy (.singleEdge Float)
      2 2).run
        (Tape.start [0, 0, 0, 0xffffffffffffffff, 0xffffffffffffffff, 0, 0, 0xffffffffffffffff] 7)
      = .ok ((.ok [1.0, 1.0], ⟨[#[true, false], #[false, true]], [1.0, 1.0]⟩),
          ⟨[], .ofSeed 7, 8⟩) := by
    decide +kernel
  obtain ⟨filled, hrun, -⟩ := sample_is_first_best hscore 2 2
    (Tape.start [0, 0, 0, 0xffffffffffffffff, 0xffffffffffffffff, 0, 0, 0xffffffffffffffff] 7)
  rw [hrun, ← hrun empty, hempty]

end Population

end CutCover.LocalSearch
