import CutCover.LocalSearch.Slot
import CutCover.Proofs.Answers
import CutCover.Proofs.Weight.Order

/-!
# CutCover — what searching a slot preserves

A search only ever changes a slot in one way: a challenger, scored and as long as the assignment
held, replaces it if it scores strictly higher. `Slot.search_invariant` turns this into an
induction principle, and what a whole search preserves follows from what one such replacement
does.

* `Slot.IsScored`          — the score held is the score of the assignment held.
* `Slot.Challenges`        — the slots that a search may put against a slot.
* `Slot.search_invariant`  — what every replacement keeps, the search keeps.
* `Slot.isScored_search`, `Slot.size_search` — scores stay true, assignments keep their length.
* `Slot.search_eq_or_lt`   — a search returns the slot itself or one that scores strictly higher.
-/

namespace CutCover

/-- A flip that answers is one within the assignment. -/
theorem Assignment.flip_inv {x y : Assignment} {node : Nat} (h : x.flip node = .ok y) :
    ∃ hnode : node < x.size, y = x.set node (!x[node]) hnode := by
  by_cases hnode : node < x.size
  · rw [flip_of_lt hnode] at h
    cases h
    exact ⟨hnode, rfl⟩
  · obtain ⟨_, hlabel, -⟩ := Checked.bind_inv h
    simp [label, fetch, hnode] at hlabel

namespace LocalSearch

/-- As many nodes are labelled after flipping as before, if each has a noisy gain. -/
theorem size_flipAbove {threshold : Float} {noisy : List Float} {x : Assignment}
    (h : noisy.length = x.size) : (flipAbove threshold noisy x).size = x.size := by
  simp [flipAbove, h]

/-- Noise keeps the number of gains. -/
theorem addNoise_inv {τ : Type} [WordSource τ] {scale : Float} {gains noisy : List Float}
    {s s' : τ} (h : (addNoise scale gains).run s = .ok (noisy, s')) :
    noisy.length = gains.length := by
  obtain ⟨noise, s₁, hnoise, h⟩ := Draw.bind_inv h
  cases h
  have hlength := (Draw.replicate_inv hnoise).1
  simp [hlength]

namespace Slot

variable {R : Type} {τ : Type} [WordSource τ]
variable {strategy : Strategy R} {g : Graph R} {params : SearchParams}

-- ---------------------------------------------------------------------------
-- Scored slots and their challengers
-- ---------------------------------------------------------------------------

/-- The score held is the score of the assignment held. -/
def IsScored (strategy : Strategy R) (g : Graph R) (slot : Slot R) : Prop :=
  strategy.score g slot.solution = .ok slot.score

instance [DecidableEq R] (slot : Slot R) : Decidable (slot.IsScored strategy g) :=
  inferInstanceAs (Decidable (_ = _))

/-- A slot that may replace another in a search: its score is true, and its assignment is as long
as the other's. -/
structure Challenges (strategy : Strategy R) (g : Graph R) (slot challenger : Slot R) : Prop where
  scored : challenger.IsScored strategy g
  size_eq : challenger.solution.size = slot.solution.size

theorem ofSolution_inv {x : Assignment} {slot : Slot R}
    (h : ofSolution strategy g x = .ok slot) : slot.solution = x ∧ slot.IsScored strategy g := by
  obtain ⟨score, hscore, h⟩ := Checked.bind_inv h
  cases h
  exact ⟨rfl, hscore⟩

variable [Weight R]

/-- The better of two slots is one of them, and the challenger only if it scores higher. -/
theorem improve_cases (slot challenger : Slot R) :
    (slot.improve challenger = challenger ∧ slot.score < challenger.score) ∨
      (slot.improve challenger = slot ∧ ¬ slot.score < challenger.score) := by
  unfold improve
  split
  · next h => exact .inl ⟨rfl, h⟩
  · next h => exact .inr ⟨rfl, h⟩

/-- What holds of both slots, of the challenger if it scores higher, holds of the better one. -/
theorem improve_of (inv : Slot R → Prop) {slot challenger : Slot R} (hslot : inv slot)
    (hchallenger : slot.score < challenger.score → inv challenger) :
    inv (slot.improve challenger) := by
  rcases improve_cases slot challenger with ⟨himprove, hlt⟩ | ⟨himprove, -⟩
  · rw [himprove]
    exact hchallenger hlt
  · rw [himprove]
    exact hslot

theorem improve_of_lt {slot challenger : Slot R} (h : slot.score < challenger.score) :
    slot.improve challenger = challenger :=
  if_pos h

/-- Put against itself, a slot stays. -/
theorem improve_self (slot : Slot R) : slot.improve slot = slot := by
  rcases improve_cases slot slot with ⟨himprove, -⟩ | ⟨himprove, -⟩ <;> exact himprove

/-- A challenger replaces a slot once at most. -/
theorem improve_improve [Weight.StrictlyOrdered R] (slot challenger : Slot R) :
    (slot.improve challenger).improve challenger = slot.improve challenger := by
  rcases improve_cases slot challenger with ⟨himprove, -⟩ | ⟨himprove, -⟩
  · rw [himprove]
    exact if_neg (Weight.StrictlyOrdered.lt_irrefl challenger.score)
  · rw [himprove, himprove]

-- ---------------------------------------------------------------------------
-- Single steps
-- ---------------------------------------------------------------------------

/-- There is a noisy gain for every label. -/
theorem noisyGains_inv {noiseStd : Float} {slot : Slot R} {noisy : List Float} {s s' : τ}
    (h : (slot.noisyGains strategy g noiseStd).run s = .ok (noisy, s')) :
    noisy.length = slot.solution.size := by
  obtain ⟨gains, hgains, h⟩ := Draw.lift_bind_inv h
  have hlength := addNoise_inv h
  rw [hlength, List.length_map]
  exact strategy.length_gains hgains

/-- A flip round settles the threshold, flips what lies above it, and puts the outcome against the
slot; later rounds keep the threshold. -/
theorem flipRounds_succ_inv {rounds : Nat} {threshold? : Option Float} {slot searched : Slot R}
    {s s' : τ}
    (h : (flipRounds strategy g params (rounds + 1) threshold? slot).run s
      = .ok (searched, s')) :
    ∃ noisy threshold challenger s₁,
      (slot.noisyGains strategy g params.noiseStd).run s = .ok (noisy, s₁) ∧
      settleThreshold params.numSpin threshold? noisy = .ok threshold ∧
      ofSolution strategy g (flipAbove threshold noisy slot.solution) = .ok challenger ∧
      (flipRounds strategy g params rounds (some threshold) (slot.improve challenger)).run s₁
        = .ok (searched, s') := by
  obtain ⟨noisy, s₁, hnoisy, h⟩ := Draw.bind_inv h
  obtain ⟨threshold, hthreshold, h⟩ := Draw.lift_bind_inv h
  obtain ⟨challenger, hchallenger, h⟩ := Draw.lift_bind_inv h
  exact ⟨noisy, threshold, challenger, s₁, hnoisy, hthreshold, hchallenger, h⟩

/-- What a flip round puts against the slot is scored and as long as its assignment. -/
theorem challenges_of_flipAbove {noiseStd threshold : Float} {slot challenger : Slot R}
    {noisy : List Float} {s s' : τ}
    (hnoisy : (slot.noisyGains strategy g noiseStd).run s = .ok (noisy, s'))
    (h : ofSolution strategy g (flipAbove threshold noisy slot.solution) = .ok challenger) :
    Challenges strategy g slot challenger := by
  obtain ⟨hsolution, hscored⟩ := ofSolution_inv h
  refine ⟨hscored, ?_⟩
  rw [hsolution]
  exact size_flipAbove (noisyGains_inv hnoisy)

/-- Trying to flip a node puts the flipped assignment against the slot. -/
theorem tryFlip_inv {slot tried : Slot R} {node : Nat}
    (h : tryFlip strategy g slot node = .ok tried) :
    ∃ challenger, slot.solution.flip node = .ok challenger.solution ∧
      Challenges strategy g slot challenger ∧ tried = slot.improve challenger := by
  obtain ⟨flipped, hflip, h⟩ := Checked.bind_inv h
  obtain ⟨challenger, hchallenger, h⟩ := Checked.bind_inv h
  cases h
  obtain ⟨rfl, hscored⟩ := ofSolution_inv hchallenger
  obtain ⟨hnode, hset⟩ := Assignment.flip_inv hflip
  exact ⟨challenger, hflip, ⟨hscored, by rw [hset, Array.size_set]⟩, rfl⟩

/-- A search makes its flip rounds and then one sweep. -/
theorem search_inv {slot searched : Slot R} {s s' : τ}
    (h : (slot.search strategy g params).run s = .ok (searched, s')) :
    ∃ flipped, (slot.flipRounds strategy g params params.numIters none).run s
        = .ok (flipped, s') ∧ flipped.sweep strategy g = .ok searched := by
  obtain ⟨flipped, s₁, hflipped, h⟩ := Draw.bind_inv h
  obtain ⟨hsweep, rfl⟩ := Draw.lift_inv h
  exact ⟨flipped, hflipped, hsweep⟩

theorem searchSeeded_inv {slot searched : Slot R} {seed : UInt64}
    (h : slot.searchSeeded strategy g params seed = .ok searched) :
    ∃ s', (slot.search strategy g params).run (Xoshiro.ofSeed seed) = .ok (searched, s') := by
  obtain ⟨⟨answer, s'⟩, hanswer, h⟩ := Checked.bind_inv h
  cases h
  exact ⟨s', hanswer⟩

-- ---------------------------------------------------------------------------
-- Invariants of a search
-- ---------------------------------------------------------------------------

/-- A property that every replacement keeps. -/
def KeptByChallengers (strategy : Strategy R) (g : Graph R) (inv : Slot R → Prop) : Prop :=
  ∀ slot challenger, inv slot → Challenges strategy g slot challenger →
    inv (slot.improve challenger)

theorem flipRounds_invariant {inv : Slot R → Prop} (hkept : KeptByChallengers strategy g inv)
    {rounds : Nat} {threshold? : Option Float} {slot searched : Slot R} {s s' : τ}
    (hslot : inv slot)
    (h : (flipRounds strategy g params rounds threshold? slot).run s = .ok (searched, s')) :
    inv searched := by
  induction rounds generalizing threshold? slot s with
  | zero =>
    obtain ⟨rfl, -⟩ := Draw.pure_inv h
    exact hslot
  | succ rounds ih =>
    obtain ⟨noisy, threshold, challenger, s₁, hnoisy, -, hchallenger, h⟩ := flipRounds_succ_inv h
    exact ih (hkept slot challenger hslot (challenges_of_flipAbove hnoisy hchallenger)) h

theorem sweep_invariant {inv : Slot R → Prop} (hkept : KeptByChallengers strategy g inv)
    {slot searched : Slot R} (hslot : inv slot) (h : slot.sweep strategy g = .ok searched) :
    inv searched := by
  refine foldlM_invariant (fun _ => inv) ?_ hslot h
  intro node _ held tried hheld htried
  obtain ⟨challenger, -, hchallenger, rfl⟩ := tryFlip_inv htried
  exact hkept held challenger hheld hchallenger

/-- What every replacement keeps, the whole search keeps. -/
theorem search_invariant {inv : Slot R → Prop} (hkept : KeptByChallengers strategy g inv)
    {slot searched : Slot R} {s s' : τ} (hslot : inv slot)
    (h : (slot.search strategy g params).run s = .ok (searched, s')) : inv searched := by
  obtain ⟨flipped, hflipped, hsweep⟩ := search_inv h
  exact sweep_invariant hkept (flipRounds_invariant hkept hslot hflipped) hsweep

/-- Scores stay true. -/
theorem keptByChallengers_isScored :
    KeptByChallengers strategy g (IsScored strategy g) := by
  intro slot challenger hslot hchallenger
  exact improve_of (IsScored strategy g) hslot fun _ => hchallenger.scored

/-- Assignments keep their length. -/
theorem keptByChallengers_size (n : Nat) :
    KeptByChallengers strategy g fun slot => slot.solution.size = n := by
  intro slot challenger hslot hchallenger
  refine improve_of (fun held => held.solution.size = n) hslot ?_
  intro _
  rw [hchallenger.size_eq, hslot]

/-- Whatever replaces a slot, or what has replaced it, scores strictly higher. -/
theorem keptByChallengers_eq_or_lt [Weight.StrictlyOrdered R] (start : Slot R) :
    KeptByChallengers strategy g fun slot => slot = start ∨ start.score < slot.score := by
  intro slot challenger hslot _
  refine improve_of (fun held => held = start ∨ start.score < held.score) hslot ?_
  intro hlt
  right
  rcases hslot with rfl | hslot
  · exact hlt
  · exact Weight.StrictlyOrdered.lt_trans hslot hlt

theorem isScored_search {slot searched : Slot R} {s s' : τ} (hslot : slot.IsScored strategy g)
    (h : (slot.search strategy g params).run s = .ok (searched, s')) :
    searched.IsScored strategy g :=
  search_invariant keptByChallengers_isScored hslot h

theorem size_search {slot searched : Slot R} {s s' : τ}
    (h : (slot.search strategy g params).run s = .ok (searched, s')) :
    searched.solution.size = slot.solution.size :=
  search_invariant (keptByChallengers_size slot.solution.size) rfl h

/-- A search returns the slot itself or one that scores strictly higher. -/
theorem search_eq_or_lt [Weight.StrictlyOrdered R] {slot searched : Slot R} {s s' : τ}
    (h : (slot.search strategy g params).run s = .ok (searched, s')) :
    searched = slot ∨ slot.score < searched.score :=
  search_invariant (keptByChallengers_eq_or_lt slot) (.inl rfl) h

/-- Hence offering the outcome of a search to the slot always takes it. -/
theorem improve_searched [Weight.StrictlyOrdered R] {slot searched : Slot R} {s s' : τ}
    (h : (slot.search strategy g params).run s = .ok (searched, s')) :
    slot.improve searched = searched := by
  rcases search_eq_or_lt h with rfl | hlt
  · exact improve_self searched
  · exact improve_of_lt hlt

end Slot

end LocalSearch

end CutCover
