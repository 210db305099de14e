import CutCover.Proofs.LocalSearch.Population

/-!
# CutCover — slots that a search leaves alone

A slot that a search call did not replace is a one-flip optimum: no flip of a single node scores
strictly higher. Scores only ever rise in a search, so that the slot was never replaced inside the
search either, and every flip that the sweep tried was one of the slot's own assignment.

* `Slot.WithstandsFlip`, `Slot.IsOneFlipOptimal` — one flip, or no flip at all, is an improvement.
* `Slot.sweep_optimal_or_lt`  — the sweep.
* `Slot.search_optimal_or_lt` — the whole search.
* `Population.searchSlots_certifies_one_flip` — a search call over a population.
-/

namespace CutCover.LocalSearch

variable {R : Type} [Weight R] {σ : Type} [WordSource σ]
variable {strategy : Strategy R} {g : Graph R} {params : SearchParams}

namespace Slot

-- ---------------------------------------------------------------------------
-- Optimality
-- ---------------------------------------------------------------------------

/-- Flipping the node alone can be scored, and does not score strictly higher. -/
def WithstandsFlip (strategy : Strategy R) (g : Graph R) (slot : Slot R) (node : Nat) : Prop :=
  ∃ flipped score, slot.solution.flip node = .ok flipped ∧
    strategy.score g flipped = .ok score ∧ ¬ slot.score < score

/-- No flip of a single node scores strictly higher. -/
def IsOneFlipOptimal (strategy : Strategy R) (g : Graph R) (slot : Slot R) : Prop :=
  ∀ node < slot.solution.size, slot.WithstandsFlip strategy g node

/-- A flip that scores strictly higher is one that an optimum does not have. -/
theorem not_isOneFlipOptimal {slot : Slot R} {node : Nat} {flipped : Assignment} {score : R}
    (hflip : slot.solution.flip node = .ok flipped) (hscore : strategy.score g flipped = .ok score)
    (hlt : slot.score < score) : ¬ slot.IsOneFlipOptimal strategy g := by
  intro hoptimal
  obtain ⟨hnode, -⟩ := Assignment.flip_inv hflip
  obtain ⟨flipped', score', hflip', hscore', hnot⟩ := hoptimal node hnode
  rw [hflip] at hflip'
  cases hflip'
  rw [hscore] at hscore'
  cases hscore'
  exact hnot hlt

variable [Weight.StrictlyOrdered R]

-- ---------------------------------------------------------------------------
-- The search of one slot
-- ---------------------------------------------------------------------------

/-- As long as the sweep has improved nothing, the slot is the one it began with, and that
withstands every flip tried so far. -/
theorem tryFlip_withstands_or_lt {start slot tried : Slot R} {node : Nat}
    (hslot : (slot = start ∧ ∀ k < node, start.WithstandsFlip strategy g k) ∨
      start.score < slot.score)
    (h : tryFlip strategy g slot node = .ok tried) :
    (tried = start ∧ ∀ k < node + 1, start.WithstandsFlip strategy g k) ∨
      start.score < tried.score := by
  obtain ⟨challenger, hflip, hchallenger, rfl⟩ := tryFlip_inv h
  rcases improve_cases slot challenger with ⟨himprove, hlt⟩ | ⟨himprove, hnot⟩
  · right
    rw [himprove]
    rcases hslot with ⟨rfl, -⟩ | hslot
    · exact hlt
    · exact Weight.StrictlyOrdered.lt_trans hslot hlt
  · rw [himprove]
    rcases hslot with ⟨rfl, hbefore⟩ | hslot
    · left
      refine ⟨rfl, ?_⟩
      intro k hk
      by_cases hkn : k = node
      · rw [hkn]
        exact ⟨challenger.solution, challenger.score, hflip, hchallenger.scored, hnot⟩
      · exact hbefore k (by omega)
    · exact .inr hslot

/-- A sweep either returns the slot itself, which is then an optimum, or scores strictly higher. -/
theorem sweep_optimal_or_lt {slot searched : Slot R} (h : slot.sweep strategy g = .ok searched) :
    (searched = slot ∧ slot.IsOneFlipOptimal strategy g) ∨ slot.score < searched.score := by
  refine foldlM_invariant (fun node held =>
    (held = slot ∧ ∀ k < node, slot.WithstandsFlip strategy g k) ∨ slot.score < held.score)
    ?_ (.inl ⟨rfl, fun k hk => absurd hk (Nat.not_lt_zero k)⟩) h
  intro node _ held tried hheld htried
  exact tryFlip_withstands_or_lt hheld htried

/-- So does the whole search: flip rounds that come before the sweep return the slot itself, or
what scores strictly higher already. -/
theorem search_optimal_or_lt {slot searched : Slot R} {s s' : σ}
    (h : (slot.search strategy g params).run s = .ok (searched, s')) :
    (searched = slot ∧ slot.IsOneFlipOptimal strategy g) ∨ slot.score < searched.score := by
  obtain ⟨flipped, hflipped, hsweep⟩ := search_inv h
  have hrounds := flipRounds_invariant (keptByChallengers_eq_or_lt slot) (.inl rfl) hflipped
  have hswept := sweep_optimal_or_lt hsweep
  rcases hrounds with rfl | hrounds
  · -- no flip round replaced the slot, so that the sweep tried its own flips
    exact hswept
  · right
    rcases hswept with ⟨rfl, -⟩ | hswept
    · exact hrounds
    · exact Weight.StrictlyOrdered.lt_trans hrounds hswept

end Slot

namespace Population

-- ---------------------------------------------------------------------------
-- The search of a population
-- ---------------------------------------------------------------------------

/-- If no slot was improved, all were left alone and are optima. -/
theorem optimal_of_countP_eq_zero {slots found : List (Slot R)}
    (h : List.Forall₂ (fun slot found : Slot R =>
      (found = slot ∧ slot.IsOneFlipOptimal strategy g) ∨ slot.score < found.score) slots found)
    (hcount : (slots.zip found).countP (fun (held, found) => held.score < found.score) = 0) :
    found = slots ∧ ∀ slot ∈ slots, slot.IsOneFlipOptimal strategy g := by
  induction h with
  | nil => exact ⟨rfl, fun slot hslot => absurd hslot List.not_mem_nil⟩
  | cons hslot _ ih =>
    rw [List.zip_cons_cons, List.countP_cons, Nat.add_eq_zero_iff] at hcount
    obtain ⟨hrest, hhead⟩ := hcount
    obtain ⟨rfl, hoptimal⟩ := ih hrest
    rcases hslot with ⟨rfl, hslot⟩ | hlt
    · refine ⟨rfl, ?_⟩
      intro other hother
      rcases List.mem_cons.mp hother with rfl | hother
      · exact hslot
      · exact hoptimal other hother
    · simp [hlt] at hhead

variable [Weight.StrictlyOrdered R]

/-- The slots of a search call: each is left alone and an optimum, or scores strictly higher. -/
theorem forall₂_optimal_or_lt {p after : Population R} {report : SearchReport R}
    (h : Searched strategy g params p after report) :
    List.Forall₂ (fun slot found : Slot R =>
      (found = slot ∧ slot.IsOneFlipOptimal strategy g) ∨ slot.score < found.score)
      p.slots after.slots := by
  refine h.found.imp ?_
  rintro slot found ⟨seed, hseed⟩
  obtain ⟨_, hsearch⟩ := Slot.searchSeeded_inv hseed
  exact Slot.search_optimal_or_lt hsearch

/-- A search call leaves alone only what no single flip improves. Of every slot it returns the slot
itself, and then that is a one-flip optimum, or one that scores strictly higher; a slot that some
flip improves ends with a strictly higher score; and if it reports no update, all slots are left
alone and are one-flip optima. -/
theorem searchSlots_certifies_one_flip {p after : Population R} {s s' : σ}
    {report : SearchReport R}
    (h : (p.searchSlots strategy g params).run s = .ok ((.ok report, after), s')) :
    p.slots.length = p.size ∧
    List.Forall₂ (fun slot found : Slot R =>
        ((found = slot ∧ slot.IsOneFlipOptimal strategy g) ∨ slot.score < found.score) ∧
        ∀ node flipped score, slot.solution.flip node = .ok flipped →
          strategy.score g flipped = .ok score → slot.score < score →
            slot.score < found.score)
      p.slots after.slots ∧
    (report.numUpdated = 0 →
      after.slots = p.slots ∧ ∀ slot ∈ p.slots, slot.IsOneFlipOptimal strategy g) := by
  have hsearched := searched_of_searchSlots h
  have hslots := forall₂_optimal_or_lt hsearched
  refine ⟨hsearched.length_slots, hslots.imp ?_, ?_⟩
  · intro slot found hfound
    refine ⟨hfound, ?_⟩
    intro node flipped score hflip hscore hlt
    rcases hfound with ⟨-, hoptimal⟩ | hfound
    · exact absurd hoptimal (Slot.not_isOneFlipOptimal hflip hscore hlt)
    · exact hfound
  · intro hzero
    rw [hsearched.numUpdated_eq] at hzero
    exact optimal_of_countP_eq_zero hslots hzero

/-- A cut of the only edge is a one-flip optimum. -/
theorem searchSlots_certifies_one_flip_cut :
    (⟨#[true, false], 1.0⟩ : Slot Float).IsOneFlipOptimal
      Problem.maxCut.strategy (Graph.singleEdge Float) := by
  have hsearch : ((⟨[#[true, false]], [1.0]⟩ : Population Float).searchSlots
      Problem.maxCut.strategy (.singleEdge Float) ⟨1, 2, 0.3⟩).run (Tape.start [5] 7)
      = .ok ((.ok ⟨0, some 1.0⟩, ⟨[#[true, false]], [1.0]⟩), ⟨[], .ofSeed 7, 1⟩) := by
    decide +kernel
  obtain ⟨-, -, hoptimal⟩ := searchSlots_certifies_one_flip hsearch
  exact (hoptimal rfl).2 _ (List.mem_singleton_self _)

end Population

end CutCover.LocalSearch
