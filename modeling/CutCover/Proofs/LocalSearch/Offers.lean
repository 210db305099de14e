import CutCover.Proofs.LocalSearch.Incumbent
import CutCover.Proofs.Weight.Order
import Mathlib.Data.List.Induction

/-!
# CutCover — any sequence of offers to the incumbent

The incumbent turns down a score that is at most the one it holds. As long as all scores are
numbers this is to take what lies above all that was taken before, and so to hold the best slot
ever offered. A score that is not a number compares with nothing: it is taken wherever it comes,
whatever comes next is taken after it, and what was held before is gone.

* `Incumbent.Trail`          — the offers taken so far, and the incumbent they lead to.
* `Incumbent.KeepsTrueBest`  — what is taken, listed and held is what a record of the best holds.
* `Incumbent.Trail.Agrees`   — what holds of every trail, whatever the scores.
* `Incumbent.Trail.Ascends`  — what holds besides as long as the scores are numbers.
* `Incumbent.trail_append_of_incomparable` — what a score that compares with nothing does.
* `Incumbent.keepsTrueBest_iff` — in binary64 the best is kept unless a NaN is offered.
-/

namespace CutCover.LocalSearch

/-- A slot, and the round in which it is offered. -/
structure Offer (R : Type) where
  round : Nat
  slot : Slot R

namespace Incumbent

variable {R : Type} [Weight R]

-- ---------------------------------------------------------------------------
-- Trails
-- ---------------------------------------------------------------------------

/-- The offers taken so far, in order, and the incumbent they lead to. -/
structure Trail (R : Type) where
  taken : List (Offer R)
  incumbent : Incumbent R

/-- Whether an offer that comes next is taken. -/
def Trail.takes (trail : Trail R) (next : Offer R) : Bool :=
  (trail.incumbent.offer next.round next.slot).1

/-- One more offer. -/
def Trail.grow (trail : Trail R) (next : Offer R) : Trail R where
  taken := if trail.takes next then trail.taken ++ [next] else trail.taken
  incumbent := (trail.incumbent.offer next.round next.slot).2

/-- Any number of offers, from nothing. -/
def trail (offers : List (Offer R)) : Trail R :=
  offers.foldl Trail.grow ⟨[], .empty⟩

@[simp] theorem trail_nil : trail ([] : List (Offer R)) = ⟨[], .empty⟩ :=
  rfl

@[simp] theorem trail_concat (before : List (Offer R)) (next : Offer R) :
    trail (before ++ [next]) = (trail before).grow next := by
  unfold trail
  rw [List.foldl_append, List.foldl_cons, List.foldl_nil]

/-- A record of the best: an offer is taken if it is the first or lies strictly above every score
recorded before, the history lists what was taken, its scores rise strictly, and what is held at
the end was taken and has nothing above it among all that was offered. -/
structure KeepsTrueBest (offers : List (Offer R)) : Prop where
  takes_iff : ∀ before next later, offers = before ++ next :: later →
    ((trail before).takes next = true ↔
      before = [] ∨ ∀ entry ∈ (trail before).incumbent.history, entry.2 < next.slot.score)
  taken_sublist : List.Sublist (trail offers).taken offers
  history_eq : (trail offers).incumbent.history
    = (trail offers).taken.map fun offer => (offer.round, offer.slot.score)
  history_lt : (trail offers).incumbent.history.Pairwise fun earlier later => earlier.2 < later.2
  best : offers ≠ [] → ∃ held ∈ (trail offers).taken,
    (trail offers).incumbent.best = some held.slot ∧
    ∀ other ∈ offers, ¬ held.slot.score < other.slot.score

-- ---------------------------------------------------------------------------
-- Whatever the scores
-- ---------------------------------------------------------------------------

namespace Trail

variable {t : Trail R} {next : Offer R}

/-- The incumbent is what the offers taken say: the last of them is held, and all are listed. -/
structure Agrees (t : Trail R) : Prop where
  best_eq : t.incumbent.best = t.taken.getLast?.map Offer.slot
  history_eq : t.incumbent.history = t.taken.map fun offer => (offer.round, offer.slot.score)

/-- An offer is turned down for a slot held that scores at least as high, and taken otherwise. -/
theorem grow_cases (t : Trail R) (next : Offer R) :
    (t.takes next = false ∧ t.grow next = t ∧
      ∃ held, t.incumbent.best = some held ∧ next.slot.score ≤ held.score) ∨
    (t.takes next = true ∧
      t.grow next = ⟨t.taken ++ [next],
        ⟨some next.slot, (next.round, next.slot.score) :: t.incumbent.improvements⟩⟩ ∧
      ∀ held, t.incumbent.best = some held → ¬ next.slot.score ≤ held.score) := by
  unfold grow takes
  rcases offer_cases t.incumbent next.round next.slot with ⟨hheld, hoffer⟩ | ⟨hfree, hoffer⟩
  · left
    rw [hoffer]
    exact ⟨rfl, rfl, hheld⟩
  · right
    rw [hoffer]
    exact ⟨rfl, rfl, hfree⟩

theorem Agrees.grow (h : t.Agrees) (next : Offer R) : (t.grow next).Agrees := by
  rcases grow_cases t next with ⟨-, hgrow, -⟩ | ⟨-, hgrow, -⟩
  · rwa [hgrow]
  · rw [hgrow]
    refine ⟨by simp, ?_⟩
    have hhistory := h.history_eq
    unfold history at hhistory ⊢
    simp [hhistory]

theorem grow_taken_ne_nil (h : t.Agrees) (next : Offer R) : (t.grow next).taken ≠ [] := by
  rcases grow_cases t next with ⟨-, hgrow, held, hheld, -⟩ | ⟨-, hgrow, -⟩
  · rw [hgrow]
    intro hnil
    rw [h.best_eq, hnil] at hheld
    cases hheld
  · rw [hgrow]
    simp

omit [Weight R] in
/-- What is held was taken. -/
theorem Agrees.exists_held (h : t.Agrees) (hne : t.taken ≠ []) :
    ∃ held ∈ t.taken, t.incumbent.best = some held.slot := by
  refine ⟨t.taken.getLast hne, List.getLast_mem hne, ?_⟩
  rw [h.best_eq, List.getLast?_eq_some_getLast hne, Option.map_some]

end Trail

theorem trail_agrees (offers : List (Offer R)) : (trail offers).Agrees := by
  induction offers using List.reverseRecOn with
  | nil => exact ⟨rfl, rfl⟩
  | append_singleton before next ih =>
    rw [trail_concat]
    exact ih.grow next

theorem trail_taken_ne_nil {offers : List (Offer R)} (hne : offers ≠ []) :
    (trail offers).taken ≠ [] := by
  induction offers using List.reverseRecOn with
  | nil => exact absurd rfl hne
  | append_singleton before next _ =>
    rw [trail_concat]
    exact Trail.grow_taken_ne_nil (trail_agrees before) next

theorem trail_taken_sublist (offers : List (Offer R)) :
    List.Sublist (trail offers).taken offers := by
  induction offers using List.reverseRecOn with
  | nil => exact .slnil
  | append_singleton before next ih =>
    rw [trail_concat]
    rcases Trail.grow_cases (trail before) next with ⟨-, hgrow, -⟩ | ⟨-, hgrow, -⟩
    · rw [hgrow]
      exact ih.trans (List.sublist_append_left before [next])
    · rw [hgrow]
      exact ih.append_right [next]

/-- The first offer is taken. -/
theorem takes_first (next : Offer R) : (trail []).takes next = true :=
  rfl

-- ---------------------------------------------------------------------------
-- Numbers
-- ---------------------------------------------------------------------------

/-- The scores taken are numbers and rise, and none offered lies above all of them. -/
structure Trail.Ascends (t : Trail R) (offers : List (Offer R)) : Prop where
  numbers : ∀ offer ∈ t.taken, Weight.IsNumber offer.slot.score
  taken_lt : t.taken.Pairwise fun earlier later => earlier.slot.score < later.slot.score
  le_taken : ∀ other ∈ offers, ∃ offer ∈ t.taken, other.slot.score ≤ offer.slot.score

section Numbers

variable [Weight.Ordered R] {t : Trail R} {offers : List (Offer R)} {next : Offer R}

omit [Weight.Ordered R] in
/-- The one held was taken, and lies above all others that were. -/
theorem Trail.Ascends.above (h : t.Ascends offers) (hagrees : t.Agrees) {held : Slot R}
    (hheld : t.incumbent.best = some held) :
    ∃ last ∈ t.taken, last.slot = held ∧
      ∀ offer ∈ t.taken, offer = last ∨ offer.slot.score < held.score := by
  rw [hagrees.best_eq] at hheld
  obtain ⟨last, hlast, hslot⟩ := Option.map_eq_some_iff.mp hheld
  obtain ⟨init, htaken⟩ := List.getLast?_eq_some_iff.mp hlast
  have hsorted := h.taken_lt
  rw [htaken] at hsorted ⊢
  refine ⟨last, by simp, hslot, ?_⟩
  intro offer hoffer
  rcases List.mem_append.mp hoffer with hinit | hoffer
  · right
    rw [← hslot]
    exact (List.pairwise_append.mp hsorted).2.2 offer hinit last (by simp)
  · left
    exact List.mem_singleton.mp hoffer

/-- While the scores taken rise, a number is taken if it lies above all of them. -/
theorem Trail.Ascends.takes_iff (h : t.Ascends offers) (hagrees : t.Agrees)
    (hnumber : Weight.IsNumber next.slot.score) :
    t.takes next = true ↔ ∀ earlier ∈ t.taken, earlier.slot.score < next.slot.score := by
  rcases Trail.grow_cases t next with ⟨htakes, -, held, hheld, hle⟩ | ⟨htakes, -, hfree⟩
  · obtain ⟨last, hlast, rfl, -⟩ := h.above hagrees hheld
    rw [Weight.Ordered.le_iff_not_lt hnumber (h.numbers last hlast)] at hle
    rw [htakes]
    exact ⟨fun hfalse => absurd hfalse Bool.false_ne_true, fun hlt => absurd (hlt last hlast) hle⟩
  · refine ⟨?_, fun _ => htakes⟩
    intro _ earlier hearlier
    obtain ⟨held, -, hheld⟩ := hagrees.exists_held (List.ne_nil_of_mem hearlier)
    obtain ⟨last, hlast, hslot, habove⟩ := h.above hagrees hheld
    -- the one held is beaten, and it has beaten all the others
    have hbeaten : held.slot.score < next.slot.score := by
      have hnot := hfree held.slot hheld
      rw [← hslot] at hnot ⊢
      rwa [Weight.Ordered.le_iff_not_lt hnumber (h.numbers last hlast), not_not] at hnot
    rcases habove earlier hearlier with rfl | hlt
    · rwa [hslot]
    · exact Weight.StrictlyOrdered.lt_trans hlt hbeaten

theorem Trail.Ascends.grow (h : t.Ascends offers) (hagrees : t.Agrees)
    (hnumber : Weight.IsNumber next.slot.score) :
    (t.grow next).Ascends (offers ++ [next]) := by
  rcases Trail.grow_cases t next with ⟨-, hgrow, held, hheld, hle⟩ | ⟨htakes, hgrow, -⟩
  · rw [hgrow]
    refine ⟨h.numbers, h.taken_lt, ?_⟩
    simp only [List.mem_append, List.mem_singleton, or_imp, forall_and, forall_eq]
    refine ⟨h.le_taken, ?_⟩
    obtain ⟨last, hlast, rfl, -⟩ := h.above hagrees hheld
    exact ⟨last, hlast, hle⟩
  · have hlt := (h.takes_iff hagrees hnumber).mp htakes
    rw [hgrow]
    refine ⟨?_, ?_, ?_⟩
    · simp only [List.mem_append, List.mem_singleton, or_imp, forall_and, forall_eq]
      exact ⟨h.numbers, hnumber⟩
    · simp only [List.pairwise_append, List.pairwise_singleton, List.mem_singleton, forall_eq]
      exact ⟨h.taken_lt, trivial, hlt⟩
    · simp only [List.mem_append, List.mem_singleton, or_imp, forall_and, forall_eq]
      refine ⟨?_, next, .inr rfl, hnumber⟩
      intro other hother
      obtain ⟨offer, hoffer, hle⟩ := h.le_taken other hother
      exact ⟨offer, .inl hoffer, hle⟩

theorem trail_ascends (hnumbers : ∀ offer ∈ offers, Weight.IsNumber offer.slot.score) :
    (trail offers).Ascends offers := by
  induction offers using List.reverseRecOn with
  | nil => exact ⟨by simp, .nil, by simp⟩
  | append_singleton before next ih =>
    simp only [List.mem_append, List.mem_singleton, or_imp, forall_and, forall_eq] at hnumbers
    rw [trail_concat]
    exact (ih hnumbers.1).grow (trail_agrees before) hnumbers.2

/-- The best is kept as long as all scores are numbers. -/
theorem keepsTrueBest_of_isNumber (hnumbers : ∀ offer ∈ offers, Weight.IsNumber offer.slot.score) :
    KeepsTrueBest offers := by
  have hagrees := trail_agrees offers
  have hascends := trail_ascends hnumbers
  refine ⟨?_, trail_taken_sublist offers, hagrees.history_eq, ?_, ?_⟩
  · rintro before next later rfl
    simp only [List.mem_append, List.mem_cons, or_imp, forall_and, forall_eq] at hnumbers
    obtain ⟨hbefore, hnext, -⟩ := hnumbers
    rw [(trail_ascends hbefore).takes_iff (trail_agrees before) hnext,
      (trail_agrees before).history_eq, List.forall_mem_map]
    refine ⟨.inr, ?_⟩
    rintro (rfl | hlt)
    · simp
    · exact hlt
  · rw [hagrees.history_eq, List.pairwise_map]
    exact hascends.taken_lt
  · intro hne
    obtain ⟨held, hheld, hbest⟩ := hagrees.exists_held (trail_taken_ne_nil hne)
    refine ⟨held, hheld, hbest, ?_⟩
    intro other hother
    obtain ⟨last, hlast, hslot, habove⟩ := hascends.above hagrees hbest
    obtain ⟨offer, hoffer, hle⟩ := hascends.le_taken other hother
    have hle' : offer.slot.score ≤ held.slot.score := by
      rcases habove offer hoffer with rfl | hlt
      · rw [hslot]
        exact hascends.numbers held hheld
      · exact Weight.Ordered.le_of_lt hlt
    rw [← Weight.Ordered.le_iff_not_lt (hnumbers other hother) (hascends.numbers held hheld)]
    exact Weight.Ordered.le_trans hle hle'

end Numbers

-- ---------------------------------------------------------------------------
-- Scores that compare with nothing
-- ---------------------------------------------------------------------------

/-- A score that is at most no other and that no other is at most. -/
def Incomparable (score : R) : Prop :=
  ∀ other : R, ¬ score ≤ other ∧ ¬ other ≤ score

variable {next : Offer R}

/-- Such a score is taken whatever is held. -/
theorem Trail.takes_of_incomparable (t : Trail R) (hnext : Incomparable next.slot.score) :
    t.takes next = true := by
  rcases Trail.grow_cases t next with ⟨-, -, held, -, hle⟩ | ⟨htakes, -, -⟩
  · exact absurd hle (hnext held.score).1
  · exact htakes

/-- What follows does not depend on what was taken before the one held. -/
theorem foldl_grow_of_best_eq {t t' : Trail R} (hbest : t.incumbent.best = t'.incumbent.best)
    (earlier : List (Offer R)) (htaken : t.taken = earlier ++ t'.taken) (later : List (Offer R)) :
    (later.foldl Trail.grow t).taken = earlier ++ (later.foldl Trail.grow t').taken ∧
    (later.foldl Trail.grow t).incumbent.best = (later.foldl Trail.grow t').incumbent.best := by
  induction later generalizing t t' with
  | nil => exact ⟨htaken, hbest⟩
  | cons next later ih =>
    rw [List.foldl_cons, List.foldl_cons]
    rcases Trail.grow_cases t next with ⟨-, hgrow, held, hheld, hle⟩ | ⟨-, hgrow, hfree⟩ <;>
      rcases Trail.grow_cases t' next with ⟨-, hgrow', held', hheld', hle'⟩ | ⟨-, hgrow', hfree'⟩
    · rw [hgrow, hgrow']
      exact ih hbest htaken
    · exact absurd hle (hfree' held (hbest ▸ hheld))
    · exact absurd hle' (hfree held' (hbest ▸ hheld'))
    · rw [hgrow, hgrow']
      refine ih rfl ?_
      rw [htaken, List.append_assoc]

/-- From a score that compares with nothing on, all goes as if it were the first. -/
theorem trail_append_of_incomparable (before later : List (Offer R))
    (hnext : Incomparable next.slot.score) :
    (trail (before ++ next :: later)).taken
      = (trail before).taken ++ (trail (next :: later)).taken ∧
    (trail (before ++ next :: later)).incumbent.best
      = (trail (next :: later)).incumbent.best := by
  have hgrow (t : Trail R) : (t.grow next).taken = t.taken ++ [next] ∧
      (t.grow next).incumbent.best = some next.slot := by
    rcases Trail.grow_cases t next with ⟨hleft, -, -⟩ | ⟨-, hgrow, -⟩
    · rw [t.takes_of_incomparable hnext] at hleft
      cases hleft
    · rw [hgrow]
      exact ⟨rfl, rfl⟩
  obtain ⟨htaken, hbest⟩ := hgrow (trail before)
  obtain ⟨htaken', hbest'⟩ := hgrow (trail [])
  unfold trail at htaken hbest htaken' hbest' ⊢
  rw [List.foldl_append, List.foldl_cons, List.foldl_cons]
  refine foldl_grow_of_best_eq (hbest.trans hbest'.symm) _ ?_ later
  rw [htaken, List.foldl_nil] at *
  rw [htaken']
  rfl

/-- Where such a score is offered along with others, the best is not kept. -/
theorem not_keepsTrueBest_of_incomparable {before later : List (Offer R)}
    (hle : ∀ {a b : R}, a < b → a ≤ b) (hnext : Incomparable next.slot.score)
    (hothers : before ≠ [] ∨ later ≠ []) :
    ¬ KeepsTrueBest (before ++ next :: later) := by
  intro hkeeps
  by_cases hbefore : before = []
  · -- it is held, and whatever comes next is taken without lying above it
    subst hbefore
    obtain ⟨second, rest, rfl⟩ :=
      List.exists_cons_of_ne_nil (hothers.resolve_left (fun hne => hne rfl))
    have htakes : (trail [next]).takes second = true := by
      rcases Trail.grow_cases (trail [next]) second with ⟨-, -, held, hheld, hle'⟩ | ⟨htakes, -⟩
      · obtain rfl := Option.some_inj.mp hheld
        exact absurd hle' (hnext second.slot.score).2
      · exact htakes
    rcases (hkeeps.takes_iff [next] second rest rfl).mp htakes with hnil | hlt
    · cases hnil
    · exact (hnext second.slot.score).1 (hle (hlt _ (List.mem_singleton_self _)))
  · -- it is taken without lying above what was taken before
    have htakes := (trail before).takes_of_incomparable hnext
    rcases (hkeeps.takes_iff before next later rfl).mp htakes with hnil | hlt
    · exact hbefore hnil
    · obtain ⟨first, rest, htaken⟩ := List.exists_cons_of_ne_nil (trail_taken_ne_nil hbefore)
      rw [(trail_agrees before).history_eq, htaken] at hlt
      exact (hnext first.slot.score).2 (hle (hlt _ List.mem_cons_self))

-- ---------------------------------------------------------------------------
-- Binary64
-- ---------------------------------------------------------------------------

theorem incomparable_of_isNaN {score : Float} (h : score.isNaN = true) : Incomparable score := by
  intro other
  rw [Binary64.le_iff, Binary64.le_iff, h]
  exact ⟨fun hle => Bool.noConfusion hle.1, fun hle => Bool.noConfusion hle.2.1⟩

theorem keepsTrueBest_of_length_le_one {offers : List (Offer Float)} (h : offers.length ≤ 1) :
    KeepsTrueBest offers := by
  rcases offers with _ | ⟨only, rest⟩
  · exact keepsTrueBest_of_isNumber (by simp)
  · obtain rfl : rest = [] := List.eq_nil_of_length_eq_zero (by simpa using h)
    refine ⟨?_, .refl _, rfl, List.pairwise_singleton _ _, ?_⟩
    · intro before next later heq
      rcases List.singleton_eq_append_iff.mp heq with ⟨rfl, -⟩ | ⟨-, hnil⟩
      · exact ⟨fun _ => .inl rfl, fun _ => takes_first next⟩
      · cases hnil
    · intro _
      refine ⟨only, List.mem_singleton_self _, rfl, ?_⟩
      intro other hother
      rw [List.mem_singleton.mp hother]
      exact Weight.StrictlyOrdered.lt_irrefl _

/-- In binary64 the best is kept -- an offer is taken if it is the first or beats all taken before,
just these are listed, their scores rise, and the last of them has nothing above it -- if no score
offered is NaN, and otherwise only if there is a single offer. Whatever was held before a NaN is
gone: what is held in the end is what the offers from the NaN on lead to by themselves. -/
theorem keepsTrueBest_iff (offers : List (Offer Float)) :
    (KeepsTrueBest offers ↔
      (∀ offer ∈ offers, offer.slot.score.isNaN = false) ∨ offers.length ≤ 1) ∧
    ∀ before next later, offers = before ++ next :: later → next.slot.score.isNaN = true →
      (trail offers).taken = (trail before).taken ++ (trail (next :: later)).taken ∧
      (trail offers).incumbent.best = (trail (next :: later)).incumbent.best := by
  refine ⟨⟨?_, ?_⟩, ?_⟩
  · intro hkeeps
    by_contra hnot
    simp only [not_or, not_forall, Bool.not_eq_false, Nat.not_le] at hnot
    obtain ⟨⟨next, hmem, hnaN⟩, hlength⟩ := hnot
    obtain ⟨before, later, rfl⟩ := List.append_of_mem hmem
    refine not_keepsTrueBest_of_incomparable Weight.Ordered.le_of_lt (incomparable_of_isNaN hnaN)
      ?_ hkeeps
    by_contra hnone
    simp only [not_or, not_not] at hnone
    simp [hnone] at hlength
  · rintro (hnumbers | hlength)
    · refine keepsTrueBest_of_isNumber ?_
      intro offer hoffer
      exact (isNumber_iff_isNaN _).mpr (hnumbers offer hoffer)
    · exact keepsTrueBest_of_length_le_one hlength
  · rintro before next later rfl hnaN
    exact trail_append_of_incomparable before later (incomparable_of_isNaN hnaN)

/-- Zero by zero, offered in the second round. -/
def undefinedOffer : Offer Float :=
  ⟨1, ⟨#[false, false], 0.0 / 0.0⟩⟩

/-- In between it makes a score of five be forgotten. -/
theorem keepsTrueBest_iff_undefined :
    undefinedOffer.slot.score.isNaN = true ∧
    (trail ([⟨0, ⟨#[true, false], 5.0⟩⟩] ++
        undefinedOffer :: [⟨2, ⟨#[false, true], 1.0⟩⟩])).incumbent.best
      = (trail (undefinedOffer :: [⟨2, ⟨#[false, true], 1.0⟩⟩])).incumbent.best := by
  have hnaN : undefinedOffer.slot.score.isNaN = true := by decide +kernel
  obtain ⟨-, hforgets⟩ := keepsTrueBest_iff ([⟨0, ⟨#[true, false], 5.0⟩⟩] ++
    undefinedOffer :: [⟨2, ⟨#[false, true], 1.0⟩⟩])
  exact ⟨hnaN, (hforgets _ _ _ rfl hnaN).2⟩

/-- A score of one is held after it, though five was offered. -/
theorem not_keepsTrueBest_undefined :
    (trail [⟨0, ⟨#[true, false], 5.0⟩⟩, undefinedOffer,
        ⟨2, ⟨#[false, true], 1.0⟩⟩]).incumbent.best = some ⟨#[false, true], 1.0⟩ ∧
    ¬ KeepsTrueBest [⟨0, ⟨#[true, false], 5.0⟩⟩, undefinedOffer, ⟨2, ⟨#[false, true], 1.0⟩⟩] := by
  have hlast : (trail [⟨0, ⟨#[true, false], 5.0⟩⟩, undefinedOffer,
      ⟨2, ⟨#[false, true], 1.0⟩⟩]).incumbent.best = some ⟨#[false, true], 1.0⟩ := by
    decide +kernel
  refine ⟨hlast, ?_⟩
  intro hkeeps
  obtain ⟨held, -, hbest, habove⟩ := hkeeps.best (List.cons_ne_nil _ _)
  have hheld : held.slot = ⟨#[false, true], 1.0⟩ := by
    exact Option.some_inj.mp (hbest.symm.trans hlast)
  refine habove _ List.mem_cons_self ?_
  rw [hheld]
  decide +kernel

end Incumbent

end CutCover.LocalSearch
