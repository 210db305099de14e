import CutCover.Proofs.LocalSearch.Merge
import Mathlib.Data.List.Induction

/-!
# CutCover — the best slot

The best slot is found by one scan that lets a later slot take over only with a strictly higher
score. Whatever the scores, none of the others scores strictly above it in the end; if they are all
numbers, it is the first that none does. Copying it into every slot leaves it the best, and a search
call, which lowers no score, cannot end with a best slot that scores lower than the one before.

* `Leads`, `Leads.concat`, `exists_leads` — the first of the best slots, found by a scan.
* `Population.best_copyBest`, `Population.copyBest_copyBest` — copying the best slot.
* `Population.not_lt_of_searchSlots` — the best slot before and after a search call.
* `Population.best_is_first_unbeaten` — all of it for reachable populations.
-/

namespace CutCover.LocalSearch

variable {R : Type} [Weight R]

-- ---------------------------------------------------------------------------
-- Scans
-- ---------------------------------------------------------------------------

/-- The slot stands at this place, none scores strictly above it, and if all scores are numbers,
those before it are strictly lower. -/
structure Leads (slots : List (Slot R)) (place : Nat) (slot : Slot R) : Prop where
  at_place : slots[place]? = some slot
  unbeaten : ∀ other ∈ slots, ¬ slot.score < other.score
  first : (∀ other ∈ slots, Weight.IsNumber other.score) →
    ∀ other ∈ slots.take place, other.score < slot.score

theorem Leads.mem {slots : List (Slot R)} {place : Nat} {slot : Slot R}
    (h : Leads slots place slot) : slot ∈ slots :=
  List.mem_of_getElem? h.at_place

section Ordered

variable [Weight.Ordered R]

/-- One more slot either is beaten or equalled by the one that leads, or takes its place. -/
theorem Leads.concat {slots : List (Slot R)} {place : Nat} {slot : Slot R}
    (h : Leads slots place slot) (next : Slot R) :
    ∃ place', Leads (slots ++ [next]) place' (slot.improve next) := by
  rcases Slot.improve_cases slot next with ⟨himprove, hlt⟩ | ⟨himprove, hnot⟩
  · refine ⟨slots.length, ?_⟩
    rw [himprove]
    refine ⟨List.getElem?_concat_length, ?_, ?_⟩
    · intro other hother habove
      rcases List.mem_append.mp hother with hother | hother
      · exact h.unbeaten other hother (Weight.StrictlyOrdered.lt_trans hlt habove)
      · rw [List.mem_singleton.mp hother] at habove
        exact Weight.StrictlyOrdered.lt_irrefl _ habove
    · intro hnumbers other hother
      rw [List.take_left] at hother
      have hnumber := hnumbers other (List.mem_append_left _ hother)
      have hslot := hnumbers slot (List.mem_append_left _ h.mem)
      have hnext := hnumbers next (by simp)
      have hle := (Weight.Ordered.le_iff_not_lt hnumber hslot).mpr (h.unbeaten other hother)
      by_contra hnot
      have hback := (Weight.Ordered.le_iff_not_lt hnext hnumber).mpr hnot
      exact (Weight.Ordered.le_iff_not_lt hnext hslot).mp (Weight.Ordered.le_trans hback hle) hlt
  · refine ⟨place, ?_⟩
    have hplace := (List.getElem?_eq_some_iff.mp h.at_place).1
    rw [himprove]
    refine ⟨?_, ?_, ?_⟩
    · rw [List.getElem?_append_left hplace]
      exact h.at_place
    · intro other hother
      rcases List.mem_append.mp hother with hother | hother
      · exact h.unbeaten other hother
      · rw [List.mem_singleton.mp hother]
        exact hnot
    · intro hnumbers
      rw [List.take_append_of_le_length hplace.le]
      exact h.first fun other hother => hnumbers other (List.mem_append_left _ hother)

/-- The slot that a scan ends with leads all of those scanned. -/
theorem exists_leads (start : Slot R) (others : List (Slot R)) :
    ∃ place, Leads (start :: others) place (others.foldl Slot.improve start) := by
  induction others using List.reverseRecOn with
  | nil =>
    refine ⟨0, rfl, ?_, by simp⟩
    intro other hother
    rw [List.mem_singleton.mp hother]
    exact Weight.StrictlyOrdered.lt_irrefl _
  | append_singleton others next ih =>
    obtain ⟨place, hleads⟩ := ih
    rw [List.foldl_append]
    exact hleads.concat next

end Ordered

namespace Population

-- ---------------------------------------------------------------------------
-- The best slot of a population
-- ---------------------------------------------------------------------------

variable {p after : Population R} {slot : Slot R}

/-- There is a best slot unless there are no slots at all. -/
theorem best_eq_none_iff (hlength : p.scores.length = p.solutions.length) :
    p.best = none ↔ p.size = 0 := by
  rw [← length_slots hlength, List.length_eq_zero_iff]
  refine ⟨slots_of_best_eq_none, ?_⟩
  intro hslots
  rw [best_eq, hslots]

-- ---------------------------------------------------------------------------
-- Copying it
-- ---------------------------------------------------------------------------

/-- Among copies of one slot it is the best. -/
theorem best_ofSlots_replicate (count : Nat) (slot : Slot R) :
    (ofSlots (List.replicate (count + 1) slot)).best = some slot := by
  rw [best_eq, slots_ofSlots]
  show some ((List.replicate count slot).foldl Slot.improve slot) = some slot
  induction count with
  | zero => rfl
  | succ count ih =>
    rw [List.replicate_succ, List.foldl_cons, Slot.improve_self]
    exact ih

/-- Every slot becomes a copy of the best one. -/
theorem copyBest_eq_replicate (h : p.best = some slot)
    (hlength : p.scores.length = p.solutions.length) :
    p.copyBest = ofSlots (List.replicate p.size slot) := by
  rw [copyBest_eq h, List.map_const', length_slots hlength]

/-- Copying keeps the number of slots and the best one. -/
theorem best_copyBest (hlength : p.scores.length = p.solutions.length) :
    p.copyBest.size = p.size ∧ p.copyBest.best = p.best := by
  cases hbest : p.best with
  | none =>
    have hcopy : p.copyBest = p := by rw [copyBest, hbest]
    rw [hcopy]
    exact ⟨rfl, hbest⟩
  | some slot =>
    obtain ⟨count, hcount⟩ : ∃ count, p.size = count + 1 := by
      refine Nat.exists_eq_succ_of_ne_zero ?_
      rw [ne_eq, ← best_eq_none_iff hlength, hbest]
      exact Option.some_ne_none slot
    rw [copyBest_eq_replicate hbest hlength, hcount]
    refine ⟨by simp [size, ofSlots], best_ofSlots_replicate count slot⟩

/-- A second copy changes nothing. -/
theorem copyBest_copyBest (hlength : p.scores.length = p.solutions.length) :
    p.copyBest.copyBest = p.copyBest := by
  obtain ⟨hsize, hbest⟩ := best_copyBest hlength
  cases hslot : p.best with
  | none =>
    rw [hslot] at hbest
    rw [copyBest, hbest]
  | some slot =>
    rw [hslot] at hbest
    have hcopy := copyBest_eq_replicate hslot hlength
    have hlength' : p.copyBest.scores.length = p.copyBest.solutions.length := by
      simp [hcopy, ofSlots]
    rw [copyBest_eq_replicate hbest hlength', hsize, hcopy]

-- ---------------------------------------------------------------------------
-- The best slot before and after a search call
-- ---------------------------------------------------------------------------

section Ordered

variable [Weight.Ordered R]
variable {σ : Type} [WordSource σ] {strategy : Strategy R} {g : Graph R} {params : SearchParams}

/-- The best slot leads the population. -/
theorem leads_of_best (h : p.best = some slot) : ∃ place, Leads p.slots place slot := by
  rw [best_eq] at h
  cases hslots : p.slots with
  | nil =>
    rw [hslots] at h
    cases h
  | cons first rest =>
    rw [hslots] at h
    obtain rfl := Option.some_inj.mp h
    exact exists_leads first rest

/-- A search call ends with a best slot if it began with one, and that does not score lower. -/
theorem not_lt_of_searchSlots {s s' : σ} {report : SearchReport R} (hbest : p.best = some slot)
    (h : (p.searchSlots strategy g params).run s = .ok ((.ok report, after), s')) :
    ∃ best, after.best = some best ∧ ¬ best.score < slot.score := by
  have hfound := (searched_of_searchSlots h).found
  obtain ⟨place, hplace⟩ := List.mem_iff_getElem?.mp (best_mem hbest)
  obtain ⟨found, hmem, seed, hseed⟩ := getElem?_of_forall₂ hfound hplace
  obtain ⟨_, hsearch⟩ := Slot.searchSeeded_inv hseed
  cases hafter : after.best with
  | none =>
    rw [slots_of_best_eq_none hafter] at hmem
    cases hmem
  | some best =>
    obtain ⟨place', hleads⟩ := leads_of_best hafter
    have hunbeaten := hleads.unbeaten found (List.mem_of_getElem? hmem)
    refine ⟨best, rfl, ?_⟩
    intro hlower
    rcases Slot.search_eq_or_lt hsearch with rfl | hraised
    · exact hunbeaten hlower
    · exact hunbeaten (Weight.StrictlyOrdered.lt_trans hlower hraised)

end Ordered

-- ---------------------------------------------------------------------------
-- Reachable populations
-- ---------------------------------------------------------------------------

/-- In every population that calls can lead to, there is a best slot unless there is none at all. No
slot scores strictly above it, and it is the first such slot if no score is NaN. Copying it puts it
into every slot, and changes neither the number of slots nor the best one, nor anything a second
time. A search call reports the best score that it ends with, which is not lower than the one before
it; in both places it is negative infinity if there is no slot. -/
theorem best_is_first_unbeaten {strategy : Strategy Float} {g : Graph Float} {p : Population Float}
    (hp : Reachable strategy g p) :
    (p.best = none ↔ p.size = 0) ∧
    (∀ slot, p.best = some slot →
      (∃ place, p.solutions[place]? = some slot.solution ∧ p.scores[place]? = some slot.score ∧
        (∀ score ∈ p.scores, ¬ slot.score < score) ∧
        ((∀ score ∈ p.scores, score.isNaN = false) →
          ∀ score ∈ p.scores.take place, score < slot.score)) ∧
      p.copyBest.solutions = List.replicate p.size slot.solution ∧
      p.copyBest.scores = List.replicate p.size slot.score) ∧
    p.copyBest.size = p.size ∧ p.copyBest.best = p.best ∧ p.copyBest.copyBest = p.copyBest ∧
    ∀ {σ : Type} [WordSource σ] (params : SearchParams) (s s' : σ) (report : SearchReport Float)
      (after : Population Float),
      (p.searchSlots strategy g params).run s = .ok ((.ok report, after), s') →
        scoreOrLowest report.bestScore = after.best.elim negativeInfinity Slot.score ∧
        ¬ scoreOrLowest report.bestScore < p.best.elim negativeInfinity Slot.score := by
  have hlength := hp.isConsistent.length_scores
  obtain ⟨hsize, hcopied⟩ := best_copyBest hlength
  refine ⟨best_eq_none_iff hlength, ?_, hsize, hcopied, copyBest_copyBest hlength, ?_⟩
  · intro slot hbest
    obtain ⟨place, hleads⟩ := leads_of_best hbest
    obtain ⟨hsolution, hscore⟩ := getElem?_of_slots hleads.at_place
    refine ⟨⟨place, hsolution, hscore, ?_, ?_⟩, ?_⟩
    · rw [← map_score_slots hlength, List.forall_mem_map]
      exact hleads.unbeaten
    · rw [← map_score_slots hlength, ← List.map_take, List.forall_mem_map, List.forall_mem_map]
      intro hnumbers
      exact hleads.first fun other hother => (isNumber_iff_isNaN _).mpr (hnumbers other hother)
    · rw [copyBest_eq_replicate hbest hlength]
      simp [ofSlots]
  · intro σ _ params s s' report after h
    have hreported : scoreOrLowest report.bestScore
        = after.best.elim negativeInfinity Slot.score := by
      rw [(searched_of_searchSlots h).bestScore_eq, scoreOrLowest]
      cases after.best <;> rfl
    refine ⟨hreported, ?_⟩
    rw [hreported]
    cases hbest : p.best with
    | none =>
      have hfound := (searched_of_searchSlots h).found
      rw [slots_of_best_eq_none hbest, List.forall₂_nil_left_iff] at hfound
      have hnone : after.best = none := by rw [best_eq, hfound]
      rw [hnone]
      exact Weight.StrictlyOrdered.lt_irrefl _
    | some slot =>
      obtain ⟨best, hafter, hnot⟩ := not_lt_of_searchSlots hbest h
      rw [hafter]
      exact hnot

/-- Of two slots that score alike the first is the best, and ends in all three. -/
theorem best_is_first_unbeaten_three :
    Reachable Problem.maxCut.strategy (Graph.singleEdge Float)
      ⟨[#[false, false], #[true, false], #[false, true]], [-0.0, 1.0, 1.0]⟩ ∧
    (copyBest ⟨[#[false, false], #[true, false], #[false, true]], [-0.0, 1.0, 1.0]⟩ :
      Population Float).solutions = [#[true, false], #[true, false], #[true, false]] := by
  have hload : (empty : Population Float).load Problem.maxCut.strategy (.singleEdge Float)
      [#[false, false], #[true, false], #[false, true]] = .ok (.ok [-0.0, 1.0, 1.0],
        ⟨[#[false, false], #[true, false], #[false, true]], [-0.0, 1.0, 1.0]⟩) := by
    decide +kernel
  have hbest : (⟨[#[false, false], #[true, false], #[false, true]], [-0.0, 1.0, 1.0]⟩ :
      Population Float).best = some ⟨#[true, false], 1.0⟩ := by
    decide +kernel
  have hreachable := Reachable.load _ .empty hload
  obtain ⟨-, hcopies, -⟩ := best_is_first_unbeaten hreachable
  exact ⟨hreachable, (hcopies _ hbest).2.1⟩

end Population

end CutCover.LocalSearch
