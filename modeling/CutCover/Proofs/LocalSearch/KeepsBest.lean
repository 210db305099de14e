import CutCover.Proofs.LocalSearch.Incumbent
import CutCover.Proofs.LocalSearch.Population

/-!
# CutCover — keeping the best of what was offered

Wherever local search lets go of slots, it keeps others that score as high. `KeepsBest` states this
of the slots offered and the slots kept, for each of the places where it happens: a challenger put
against a slot, populations merged, the best slot copied, a slot offered to the incumbent.

Scores that are not numbers compare with nothing, and the promise is made for numbers only.

* `KeepsBest`         — every kept slot was offered, and none offered scores above all kept.
* `KeepsBest.trans`, `KeepsBest.append`, `KeepsBest.followed_by` — several places in a row.
* `KeepsBest.exists_lt` — a score that was beaten stays beaten.
* `keepsBest_improve`, `keepsBest_merge`, `keepsBest_copyBest`, `keepsBest_offer` — the places.
-/

namespace CutCover.LocalSearch

variable {R : Type} [Weight R]

/-- Every slot kept is one of those offered; and if all scores offered are numbers, each is at most
that of some slot kept. -/
structure KeepsBest (offered kept : List (Slot R)) : Prop where
  mem_offered : ∀ slot ∈ kept, slot ∈ offered
  le_kept : (∀ slot ∈ offered, Weight.IsNumber slot.score) →
    ∀ slot ∈ offered, ∃ held ∈ kept, slot.score ≤ held.score

namespace KeepsBest

variable {a a' b b' c : List (Slot R)}

/-- All slots are kept. -/
theorem refl (a : List (Slot R)) : KeepsBest a a :=
  ⟨fun _ hslot => hslot, fun hnumber slot hslot => ⟨slot, hslot, hnumber slot hslot⟩⟩

/-- Only which slots are offered matters. -/
theorem congr_offered (h : KeepsBest a b) (hiff : ∀ slot, slot ∈ a' ↔ slot ∈ a) :
    KeepsBest a' b := by
  refine ⟨fun slot hslot => (hiff slot).mpr (h.mem_offered slot hslot), ?_⟩
  intro hnumber slot hslot
  exact h.le_kept (fun other hother => hnumber other ((hiff other).mpr hother)) slot
    ((hiff slot).mp hslot)

/-- More of the slots offered may be kept. -/
theorem mono_kept (h : KeepsBest a b) (hsub : ∀ slot ∈ b, slot ∈ b')
    (hoffered : ∀ slot ∈ b', slot ∈ a) : KeepsBest a b' := by
  refine ⟨hoffered, ?_⟩
  intro hnumber slot hslot
  obtain ⟨held, hheld, hle⟩ := h.le_kept hnumber slot hslot
  exact ⟨held, hsub held hheld, hle⟩

theorem append (h : KeepsBest a b) (h' : KeepsBest a' b') : KeepsBest (a ++ a') (b ++ b') := by
  refine ⟨?_, ?_⟩
  · intro slot hslot
    rcases List.mem_append.mp hslot with hslot | hslot
    · exact List.mem_append_left a' (h.mem_offered slot hslot)
    · exact List.mem_append_right a (h'.mem_offered slot hslot)
  intro hnumber slot hslot
  rcases List.mem_append.mp hslot with hslot | hslot
  · obtain ⟨held, hheld, hle⟩ := h.le_kept
      (fun other hother => hnumber other (List.mem_append_left a' hother)) slot hslot
    exact ⟨held, List.mem_append_left b' hheld, hle⟩
  · obtain ⟨held, hheld, hle⟩ := h'.le_kept
      (fun other hother => hnumber other (List.mem_append_right a hother)) slot hslot
    exact ⟨held, List.mem_append_right b hheld, hle⟩

variable [Weight.Ordered R]

theorem trans (h : KeepsBest a b) (h' : KeepsBest b c) : KeepsBest a c := by
  refine ⟨fun slot hslot => h.mem_offered slot (h'.mem_offered slot hslot), ?_⟩
  intro hnumber slot hslot
  obtain ⟨held, hheld, hle⟩ := h.le_kept hnumber slot hslot
  obtain ⟨last, hlast, hle'⟩ :=
    h'.le_kept (fun other hother => hnumber other (h.mem_offered other hother)) held hheld
  exact ⟨last, hlast, Weight.Ordered.le_trans hle hle'⟩

/-- If a slot offered scores above a number, then one kept does. -/
theorem exists_lt (h : KeepsBest a b) (hnumber : ∀ slot ∈ a, Weight.IsNumber slot.score) {score : R}
    (hscore : Weight.IsNumber score) (hlt : ∃ slot ∈ a, score < slot.score) :
    ∃ slot ∈ b, score < slot.score := by
  obtain ⟨slot, hslot, hlt⟩ := hlt
  obtain ⟨held, hheld, hle⟩ := h.le_kept hnumber slot hslot
  have hslot' := hnumber slot hslot
  have hheld' := hnumber held (h.mem_offered held hheld)
  refine ⟨held, hheld, ?_⟩
  by_contra hnot
  have hback := (Weight.Ordered.le_iff_not_lt hheld' hscore).mpr hnot
  exact (Weight.Ordered.le_iff_not_lt hslot' hscore).mp (Weight.Ordered.le_trans hle hback) hlt

/-- What is offered later is put against what was kept so far. -/
theorem followed_by {later later' : List (Slot R)} (h : KeepsBest (a ++ later) b)
    (h' : KeepsBest (b ++ later') c) : KeepsBest (a ++ (later ++ later')) c := by
  have hboth := (h.append (refl later')).trans h'
  rwa [List.append_assoc] at hboth

end KeepsBest

-- ---------------------------------------------------------------------------
-- Challengers
-- ---------------------------------------------------------------------------

variable [Weight.Ordered R]

theorem keepsBest_improve (slot challenger : Slot R) :
    KeepsBest [slot, challenger] [slot.improve challenger] := by
  rcases Slot.improve_cases slot challenger with ⟨himprove, hlt⟩ | ⟨himprove, hnot⟩
  · rw [himprove]
    refine ⟨by simp, ?_⟩
    intro hnumber other hother
    refine ⟨challenger, List.mem_singleton_self challenger, ?_⟩
    rcases List.mem_pair.mp hother with rfl | rfl
    · exact Weight.Ordered.le_of_lt hlt
    · exact hnumber other hother
  · rw [himprove]
    refine ⟨by simp, ?_⟩
    intro hnumber other hother
    refine ⟨slot, List.mem_singleton_self slot, ?_⟩
    rcases List.mem_pair.mp hother with rfl | rfl
    · exact hnumber other hother
    · have hother' := hnumber other (by simp)
      have hslot' := hnumber slot (by simp)
      exact (Weight.Ordered.le_iff_not_lt hother' hslot').mpr hnot

theorem keepsBest_foldl_improve (slots : List (Slot R)) (start : Slot R) :
    KeepsBest (start :: slots) [slots.foldl Slot.improve start] := by
  induction slots generalizing start with
  | nil => exact .refl [start]
  | cons slot rest ih =>
    have hfirst := (keepsBest_improve start slot).append (.refl rest)
    exact hfirst.trans (ih (start.improve slot))

theorem keepsBest_zipWith_improve {held offered : List (Slot R)}
    (hlength : held.length = offered.length) :
    KeepsBest (held ++ offered) (held.zipWith Slot.improve offered) := by
  induction held generalizing offered with
  | nil =>
    rw [List.length_nil, eq_comm, List.length_eq_zero_iff] at hlength
    rw [hlength]
    exact .refl []
  | cons slot rest ih =>
    cases offered with
    | nil => simp at hlength
    | cons challenger others =>
      have hlength' : rest.length = others.length := by simpa using hlength
      have hrest := ih hlength'
      have hboth := (keepsBest_improve slot challenger).append hrest
      refine hboth.congr_offered ?_
      intro other
      simp only [List.cons_append, List.mem_cons, List.mem_append, List.nil_append]
      tauto

-- ---------------------------------------------------------------------------
-- Populations
-- ---------------------------------------------------------------------------

namespace Population

/-- Merging puts the slots offered against those held. Both the slots held before and those that
are held afterwards stand up to what was offered. -/
theorem keepsBest_merge {p offered after : Population R} {taken : Nat}
    (h : p.merge offered = (.ok taken, after)) :
    KeepsBest (p.slots ++ offered.slots) after.slots ∧
      KeepsBest (after.slots ++ offered.slots) after.slots := by
  obtain ⟨hlength, hafter, -⟩ := merge_inv h
  have hlength' : (p.slots.zipWith Slot.improve offered.slots).length = offered.slots.length := by
    simp [hlength]
  have hagain := keepsBest_zipWith_improve hlength'
  rw [zipWith_improve_improve] at hagain
  rw [hafter]
  exact ⟨keepsBest_zipWith_improve hlength, hagain⟩

theorem keepsBest_best {p : Population R} {slot : Slot R} (h : p.best = some slot) :
    KeepsBest p.slots [slot] := by
  rw [best_eq] at h
  cases hslots : p.slots with
  | nil => simp [hslots] at h
  | cons first rest =>
    simp only [hslots, Option.some.injEq] at h
    rw [← h]
    exact keepsBest_foldl_improve rest first

/-- Copies of the best slot stand for all slots. -/
theorem keepsBest_copyBest (p : Population R) : KeepsBest p.slots p.copyBest.slots := by
  unfold copyBest
  split
  · exact .refl p.slots
  · next slot hbest =>
    have hmem := best_mem hbest
    rw [slots_ofSlots]
    refine (keepsBest_best hbest).mono_kept ?_ ?_
    · intro other hother
      rw [List.mem_singleton.mp hother]
      exact List.mem_map.mpr ⟨slot, hmem, rfl⟩
    · intro other hother
      obtain ⟨_, -, rfl⟩ := List.mem_map.mp hother
      exact hmem

end Population

-- ---------------------------------------------------------------------------
-- The incumbent
-- ---------------------------------------------------------------------------

namespace Incumbent

/-- The slot held, if there is one. -/
def slots (incumbent : Incumbent R) : List (Slot R) :=
  incumbent.best.toList

/-- Offering a slot puts it against the one held. Both the slot held before and the one that is
held afterwards stand up to what was offered. -/
theorem keepsBest_offer {incumbent after : Incumbent R} {round : Nat} {slot : Slot R}
    {taken : Bool} (h : incumbent.offer round slot = (taken, after)) :
    KeepsBest (incumbent.slots ++ [slot]) after.slots ∧
      KeepsBest (after.slots ++ [slot]) after.slots := by
  have htwice : KeepsBest ([slot] ++ [slot]) [slot] :=
    (KeepsBest.refl [slot]).congr_offered (by simp)
  rcases incumbent.offer_cases round slot with ⟨⟨held, hbest, hle⟩, hdeclined⟩ | ⟨hbeats, htaken⟩
  · obtain ⟨-, rfl⟩ := Prod.mk.inj (hdeclined.symm.trans h)
    have hkept : KeepsBest (incumbent.slots ++ [slot]) incumbent.slots := by
      unfold slots
      rw [hbest]
      refine ⟨by simp, ?_⟩
      intro hnumber other hother
      refine ⟨held, by simp, ?_⟩
      rcases List.mem_pair.mp hother with rfl | rfl
      · exact hnumber other hother
      · exact hle
    exact ⟨hkept, hkept⟩
  · obtain ⟨-, rfl⟩ := Prod.mk.inj (htaken.symm.trans h)
    refine ⟨?_, htwice⟩
    unfold slots
    refine ⟨by simp, ?_⟩
    intro hnumber other hother
    refine ⟨slot, by simp, ?_⟩
    rcases List.mem_append.mp hother with hheld | hslot
    · have hother' := hnumber other hother
      have hslot' := hnumber slot (by simp)
      have hnot : ¬ slot.score < other.score := fun hlt =>
        hbeats other (Option.mem_toList.mp hheld) (Weight.Ordered.le_of_lt hlt)
      exact (Weight.Ordered.le_iff_not_lt hother' hslot').mpr hnot
    · obtain rfl := List.mem_singleton.mp hslot
      exact hnumber other hother

/-- Offering the best slot of a population stands for offering all of its slots. -/
theorem keepsBest_offer_best {p : Population R} {incumbent after : Incumbent R} {round : Nat}
    {slot : Slot R} {taken : Bool} (hbest : p.best = some slot)
    (h : incumbent.offer round slot = (taken, after)) :
    KeepsBest (incumbent.slots ++ p.slots) (after.slots ++ p.slots) ∧
      KeepsBest (after.slots ++ p.slots) after.slots := by
  obtain ⟨hoffer, hsettled⟩ := keepsBest_offer h
  have hslot := Population.keepsBest_best hbest
  have hkept := ((KeepsBest.refl incumbent.slots).append hslot).trans hoffer
  refine ⟨?_, ((KeepsBest.refl after.slots).append hslot).trans hsettled⟩
  refine hkept.mono_kept (fun other hother => List.mem_append_left _ hother) ?_
  intro other hother
  rcases List.mem_append.mp hother with hother | hother
  · exact hkept.mem_offered other hother
  · exact List.mem_append_right _ hother

end Incumbent

end CutCover.LocalSearch
