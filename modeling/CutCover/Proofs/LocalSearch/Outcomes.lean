import CutCover.Proofs.Graph.Gains
import CutCover.Proofs.LocalSearch.Population
import CutCover.Proofs.Outcomes
import CutCover.Proofs.Random

/-!
# CutCover — what slots and populations come to

A search reads labels, gains and ranks only where they are, as long as assignments label the nodes
of the graph and no more nodes are to be flipped than there are. Where it still aborts, the strategy
did so when it was asked for a score or for gains, or a rejection loop did not end. The operations
of a population are moreover never refused if its slots are many enough and consistent.

* `Strategy.SearchAborts`   — how a search with a strategy may abort.
* `Problem.searchAborts_iff` — with one of the four problems, by a rejection loop only.
* `Slot.search_meets`       — searching a slot.
* `Population.IsFilled`     — a consistent population with a given number of slots.
* `load_meets`, `IsFilled.merge`, `searchSlots_meets` — the operations of a population.
-/

namespace CutCover

variable {R : Type} {strategy : Strategy R} {g : Graph R}

/-- A search with the strategy aborts as the strategy does, asked for the score or the gains of an
assignment that labels all nodes; or because a rejection loop does not end. -/
inductive Strategy.SearchAborts (strategy : Strategy R) (g : Graph R) : Abort → Prop where
  | loop : SearchAborts strategy g .endlessSampling
  | score {x : Assignment} {abort : Abort} (hx : x.size = g.numNodes)
    (h : strategy.score g x = .error abort) : SearchAborts strategy g abort
  | gains {x : Assignment} {abort : Abort} (hx : x.size = g.numNodes)
    (h : strategy.gains g x x.size = .error abort) : SearchAborts strategy g abort

/-- The four problems score every assignment that labels the nodes of a graph that was built, and
tell all gains. -/
theorem Problem.searchAborts_iff [Weight R] (problem : Problem R) (hg : g.IsBuilt) {abort : Abort} :
    problem.strategy.SearchAborts g abort ↔ abort = .endlessSampling := by
  constructor
  · intro h
    cases h with
    | loop => rfl
    | @score x _ hx hscore =>
      obtain ⟨score, hscored⟩ := problem.exists_score hg hx
      exact absurd (hscored.symm.trans hscore) (by simp)
    | @gains x _ hx hgains =>
      have hall : ∀ node ∈ List.range x.size, ∃ gain, problem.gain g x node = .ok gain := by
        intro node hnode
        rw [List.mem_range, hx] at hnode
        exact problem.exists_gain hg hx hnode
      obtain ⟨gains, hgained⟩ := exists_mapM hall
      exact absurd (hgained.symm.trans hgains) (by simp)
  · rintro rfl
    exact .loop

namespace LocalSearch

variable {τ : Type} [WordSource τ]

theorem addNoise_ensures {mayLoop : Prop} (hloop : mayLoop) (scale : Float) (gains : List Float) :
    Draw.Ensures mayLoop (addNoise scale gains : Draw τ (List Float)) fun _ => True :=
  (Draw.replicate_ensures (Draw.normal_ensures hloop) gains.length).bind fun _ _ => .pure trivial

/-- There is a number of every rank up to that of the largest. -/
theorem ofRank_meets {mayAbort : Abort → Prop} {values : List Float} {k : Nat}
    (h : k ≤ values.length) : Checked.Meets mayAbort (ofRank values k) fun _ => True := by
  cases k with
  | zero => trivial
  | succ k =>
    have hlt : k < (values.mergeSort fun a b => orderKey a ≤ orderKey b).toArray.size := by
      rw [List.size_toArray, List.length_mergeSort]
      omega
    exact .of_ok (fetch_of_lt hlt) trivial

theorem settleThreshold_meets {mayAbort : Abort → Prop} {numSpin : Nat}
    {threshold? : Option Float} {noisy : List Float} (h : numSpin ≤ noisy.length) :
    Checked.Meets mayAbort (settleThreshold numSpin threshold? noisy) fun _ => True := by
  cases threshold? with
  | some threshold => trivial
  | none =>
    exact .ok_bind (difference_of_le h) (ofRank_meets (Nat.sub_le _ _))

-- ---------------------------------------------------------------------------
-- Slots
-- ---------------------------------------------------------------------------

namespace Slot

theorem ofSolution_meets {x : Assignment} (hx : x.size = g.numNodes) :
    Checked.Meets (strategy.SearchAborts g) (ofSolution strategy g x) fun slot =>
      slot.solution = x := by
  unfold ofSolution
  cases hscore : strategy.score g x with
  | ok score => rfl
  | error abort => exact .score hx hscore

variable [Weight R] {params : SearchParams} {slot : Slot R}

theorem noisyGains_meets (hsize : slot.solution.size = g.numNodes) (noiseStd : Float) :
    Draw.Meets (strategy.SearchAborts g)
      (slot.noisyGains strategy g noiseStd : Draw τ (List Float))
      fun noisy => noisy.length = g.numNodes := by
  have hgains : Checked.Meets (strategy.SearchAborts g)
      (strategy.gains g slot.solution slot.solution.size) fun _ => True := by
    cases hgains : strategy.gains g slot.solution slot.solution.size with
    | ok gains => trivial
    | error abort => exact .gains hsize hgains
  refine Draw.Meets.strengthen ?_ ?_
  · refine Draw.Meets.bind (.lift hgains) fun gains _ => ?_
    exact (addNoise_ensures trivial _ _).meets fun _ => .loop
  · intro s s' noisy hnoisy
    rw [noisyGains_inv hnoisy, hsize]

/-- The better of two slots has a solution of the size that both have. -/
theorem size_improve {challenger : Slot R} (hsize : slot.solution.size = g.numNodes)
    (hchallenger : challenger.solution.size = g.numNodes) :
    (slot.improve challenger).solution.size = g.numNodes :=
  improve_of (fun held => held.solution.size = g.numNodes) hsize fun _ => hchallenger

theorem flipRounds_meets (hspin : params.numSpin ≤ g.numNodes) {rounds : Nat}
    {threshold? : Option Float} (hsize : slot.solution.size = g.numNodes) :
    Draw.Meets (strategy.SearchAborts g)
      (slot.flipRounds strategy g params rounds threshold? : Draw τ (Slot R))
      fun searched => searched.solution.size = g.numNodes := by
  induction rounds generalizing threshold? slot with
  | zero => exact .pure hsize
  | succ rounds ih =>
    rw [flipRounds]
    refine (noisyGains_meets hsize _).bind fun noisy hnoisy => ?_
    refine (Draw.Meets.lift (settleThreshold_meets (by omega))).bind fun threshold _ => ?_
    have hflipped : (flipAbove threshold noisy slot.solution).size = g.numNodes := by
      rw [size_flipAbove (by omega), hsize]
    refine (Draw.Meets.lift (ofSolution_meets hflipped)).bind fun challenger hchallenger => ?_
    rw [← hchallenger] at hflipped
    exact ih (size_improve hsize hflipped)

theorem tryFlip_meets (hsize : slot.solution.size = g.numNodes) {node : Nat}
    (hnode : node < g.numNodes) :
    Checked.Meets (strategy.SearchAborts g) (tryFlip strategy g slot node)
      fun tried => tried.solution.size = g.numNodes := by
  have hlt : node < slot.solution.size := by omega
  have hflipped : (slot.solution.set node (!slot.solution[node])).size = g.numNodes := by
    rw [Array.size_set, hsize]
  rw [tryFlip, Assignment.flip_of_lt hlt]
  refine (ofSolution_meets hflipped).bind fun challenger hchallenger => ?_
  rw [← hchallenger] at hflipped
  exact size_improve hsize hflipped

theorem sweep_meets (hsize : slot.solution.size = g.numNodes) :
    Checked.Meets (strategy.SearchAborts g) (slot.sweep strategy g) fun _ => True := by
  have htries : ∀ node ∈ List.range slot.solution.size, ∀ held : Slot R,
      held.solution.size = g.numNodes → Checked.Meets (strategy.SearchAborts g)
        (tryFlip strategy g held node) fun tried => tried.solution.size = g.numNodes := by
    intro node hnode held hheld
    rw [List.mem_range, hsize] at hnode
    exact tryFlip_meets hheld hnode
  exact (Checked.Meets.foldlM htries hsize).mono fun _ _ => trivial

/-- A search of a slot reads nothing that is not there. -/
theorem search_meets (hspin : params.numSpin ≤ g.numNodes)
    (hsize : slot.solution.size = g.numNodes) :
    Draw.Meets (strategy.SearchAborts g) (slot.search strategy g params : Draw τ (Slot R))
      fun _ => True :=
  (flipRounds_meets hspin hsize).bind fun _ hsearched => .lift (sweep_meets hsearched)

theorem searchSeeded_meets (hspin : params.numSpin ≤ g.numNodes)
    (hsize : slot.solution.size = g.numNodes) (seed : UInt64) :
    Checked.Meets (strategy.SearchAborts g) (slot.searchSeeded strategy g params seed)
      fun _ => True :=
  (search_meets hspin hsize (Xoshiro.ofSeed seed)).bind fun _ _ => trivial

end Slot

-- ---------------------------------------------------------------------------
-- Populations
-- ---------------------------------------------------------------------------

namespace Population

/-- A consistent population with the given number of slots. -/
structure IsFilled (strategy : Strategy R) (g : Graph R) (numSlots : Nat) (p : Population R) :
    Prop where
  consistent : p.IsConsistent strategy g
  size_eq : p.size = numSlots

variable {p offered : Population R} {numSlots : Nat}

theorem IsFilled.length_slots (hp : p.IsFilled strategy g numSlots) :
    p.slots.length = numSlots := by
  rw [Population.length_slots hp.consistent.length_scores, hp.size_eq]

theorem IsFilled.size_of_mem (hp : p.IsFilled strategy g numSlots) {x : Assignment}
    (hx : x ∈ p.solutions) : x.size = g.numNodes := by
  obtain ⟨slot, hslot, rfl⟩ := exists_slot_of_mem hp.consistent.length_scores hx
  exact hp.consistent.size_eq slot hslot

theorem isFilled_ofSlots {slots : List (Slot R)}
    (h : (ofSlots slots).IsConsistent strategy g) :
    (ofSlots slots).IsFilled strategy g slots.length :=
  ⟨h, List.length_map _⟩

/-- Assignments that label all nodes are loaded. -/
theorem load_meets {solutions : List Assignment} (hp : p.IsConsistent strategy g)
    (hsize : ∀ x ∈ solutions, x.size = g.numNodes) :
    Checked.Meets (strategy.SearchAborts g) (p.load strategy g solutions) fun answer =>
      (∃ scores, answer.1 = .ok scores) ∧
        answer.2.IsFilled strategy g solutions.length := by
  refine Checked.Meets.strengthen ?_ ?_
  · unfold load
    split
    · trivial
    · refine (Checked.Meets.mapM fun x hx => ?_).bind fun scores _ => trivial
      cases hscore : strategy.score g x with
      | ok score => trivial
      | error abort => exact .score (hsize x hx) hscore
  · rintro ⟨answer, q⟩ hload
    have hq := isConsistent_load hp hload
    rcases load_inv hload with ⟨bad, hbad, hne, -⟩ | ⟨-, scores, rfl, rfl, -⟩
    · exact absurd (hsize bad hbad) hne
    · exact ⟨⟨scores, rfl⟩, hq, rfl⟩

/-- A population that was loaded holds the assignments it was loaded with. -/
theorem isFilled_of_load {solutions : List Assignment} {scores : List R}
    (h : empty.load strategy g solutions = .ok (.ok scores, p)) :
    p.IsFilled strategy g solutions.length ∧ ∀ slot ∈ p.slots, slot.solution ∈ solutions := by
  have hp := isConsistent_load isConsistent_empty h
  rcases load_inv h with ⟨_, _, _, hrefused, _⟩ | ⟨-, _, -, rfl, hscores⟩
  · cases hrefused
  · exact ⟨⟨hp, rfl⟩, fun slot hslot => (isScored_of_forall₂ hscores slot hslot).2⟩

variable [Weight R]

theorem IsFilled.exists_best (hp : p.IsFilled strategy g numSlots) (hpos : 0 < numSlots) :
    ∃ slot, p.best = some slot ∧ slot.IsScored strategy g ∧ slot.solution.size = g.numNodes := by
  cases hbest : p.best with
  | none =>
    have hlength := hp.length_slots
    rw [slots_of_best_eq_none hbest, List.length_nil] at hlength
    omega
  | some slot =>
    have hslot := best_mem hbest
    exact ⟨slot, rfl, hp.consistent.scored slot hslot, hp.consistent.size_eq slot hslot⟩

theorem IsFilled.best_ne_none (hp : p.IsFilled strategy g numSlots) (hpos : 0 < numSlots) :
    p.best ≠ none := by
  obtain ⟨slot, hslot, -⟩ := hp.exists_best hpos
  rw [hslot]
  exact Option.some_ne_none slot

theorem IsFilled.copyBest (hp : p.IsFilled strategy g numSlots) :
    p.copyBest.IsFilled strategy g numSlots := by
  refine ⟨isConsistent_copyBest hp.consistent, ?_⟩
  unfold Population.copyBest
  split
  · exact hp.size_eq
  · simp [ofSlots, size, hp.length_slots]

/-- The best slot is among its copies when they are scored anew. -/
theorem IsFilled.mem_of_load_copyBest (hp : p.IsFilled strategy g numSlots) (hpos : 0 < numSlots)
    {slot : Slot R} {scores : List R} {copies : Population R} (hbest : p.best = some slot)
    (h : empty.load strategy g p.copyBest.solutions = .ok (.ok scores, copies)) :
    slot ∈ copies.slots := by
  obtain ⟨hcopies, hmem⟩ := isFilled_of_load h
  have hlength : 0 < copies.slots.length := by
    rw [hcopies.length_slots, ← size, hp.copyBest.size_eq]
    exact hpos
  obtain ⟨found, hfound⟩ := List.exists_mem_of_length_pos hlength
  obtain ⟨copy, hcopy, hsolution⟩ :=
    exists_slot_of_mem hp.copyBest.consistent.length_scores (hmem found hfound)
  rw [eq_of_mem_copyBest hbest hcopy] at hsolution
  -- the same assignment has the same score
  have hscored := hp.consistent.scored slot (best_mem hbest)
  have hscored' := hcopies.consistent.scored found hfound
  rw [Slot.IsScored, hsolution, hscored'] at hscored
  obtain ⟨solution, score⟩ := slot
  cases hsolution
  cases hscored
  exact hfound

/-- Populations with as many slots are merged. -/
theorem IsFilled.merge (hp : p.IsFilled strategy g numSlots)
    (hoffered : offered.IsFilled strategy g numSlots) :
    ∃ taken after, p.merge offered = (.ok taken, after) ∧
      after.IsFilled strategy g numSlots := by
  have hafter := isConsistent_merge hp.consistent hoffered.consistent
  have hsize := hp.size_eq
  have hscores : p.scores.length = numSlots := hp.consistent.length_scores.trans hp.size_eq
  have hsolutions' : offered.solutions.length = numSlots := hoffered.size_eq
  have hscores' : offered.scores.length = numSlots :=
    hoffered.consistent.length_scores.trans hoffered.size_eq
  have hagree : [p.scores.length, offered.solutions.length, offered.scores.length].find?
      (fun length => length != p.size) = none := by
    simp [hsize, hscores, hsolutions', hscores']
  unfold Population.merge at hafter ⊢
  dsimp only at hafter ⊢
  rw [hagree] at hafter ⊢
  refine ⟨_, _, rfl, hafter, ?_⟩
  simp [ofSlots, size, hp.length_slots, hoffered.length_slots]

variable {params : SearchParams} {σ : Type} [WordSource σ]

/-- With admissible parameters every slot is searched, and what is found is merged in. -/
theorem searchSlots_meets (hp : p.IsFilled strategy g numSlots)
    (hspin : params.numSpin ≤ g.numNodes) (hnoise : noiseAdmissible params.noiseStd = true) :
    Draw.Meets (strategy.SearchAborts g)
      (p.searchSlots strategy g params : Draw σ (Except Refusal (SearchReport R) × Population R))
      fun answer => (∃ report, answer.1 = .ok report) ∧
        answer.2.IsFilled strategy g numSlots := by
  have hcheck : checkSearch g params = .ok () := by
    rw [checkSearch, if_neg (by omega), if_pos hnoise]
  have hseeds : Draw.Ensures False (Draw.replicate p.size (Draw.word : Draw σ UInt64)) fun _ =>
      True := (Draw.replicate_ensures Draw.word_ensures p.size).mono fun _ _ => trivial
  refine Draw.Meets.strengthen ?_ ?_
  · unfold searchSlots
    rw [hcheck]
    refine (hseeds.meets False.elim).bind fun seeds _ => ?_
    refine (Draw.Meets.mapM fun pair hpair => ?_).bind fun searched _ => ?_
    · have hslot := hp.consistent.size_eq pair.1 (List.of_mem_zip hpair).1
      exact .lift (Slot.searchSeeded_meets hspin hslot pair.2)
    · split <;> exact .pure trivial
  · rintro s s' ⟨answer, after⟩ hsearch
    rcases searchSlots_inv hsearch with ⟨refusal, hrefused, -⟩ |
      ⟨-, seeds, searched, hseeds, hfound, hafter, hanswer⟩
    · rw [hcheck] at hrefused
      cases hrefused
    · have hsearched := found_of_seeds hp.consistent.length_scores hseeds hfound
      have hoffered := isFilled_ofSlots (isConsistent_found hp.consistent hsearched)
      rw [← hsearched.length_eq, hp.length_slots] at hoffered
      obtain ⟨taken, merged, hmerge, hfilled⟩ := hp.merge hoffered
      rw [hmerge] at hafter hanswer
      subst hafter
      exact ⟨⟨_, hanswer⟩, hfilled⟩

end Population

end LocalSearch

end CutCover
