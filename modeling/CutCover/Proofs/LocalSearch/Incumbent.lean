import CutCover.LocalSearch.Config
import CutCover.LocalSearch.Incumbent
import CutCover.LocalSearch.Journal
import CutCover.Proofs.LocalSearch.Slot

/-!
# CutCover — the history of the incumbent

In every round of a run the best slot is offered to the incumbent, which takes the first one and
later only what its own score does not reach. What it holds, and the rounds and scores of the
improvements, follow by induction on the number of offers.

* `Incumbent.Offered`       — the incumbents that offers of scored slots lead to.
* `Incumbent.offer_cases`   — what an offer does.
* `Incumbent.Tracks`, `Offered.tracks` — what the incumbent knows of the rounds so far.
* `IsRestart`               — the rounds of a restart within the limits of the parameters.
* `Journal.rounds_bounds`, `Journal.searches_bounds` — the counts read off a journal.
-/

namespace CutCover.LocalSearch

variable {R : Type} [Weight R] {strategy : Strategy R} {g : Graph R}

-- ---------------------------------------------------------------------------
-- Offers
-- ---------------------------------------------------------------------------

namespace Incumbent

variable {incumbent : Incumbent R} {rounds : Nat} {slot : Slot R}

/-- In every round so far a slot with a true score was offered, whose assignment labels all nodes.
-/
inductive Offered (strategy : Strategy R) (g : Graph R) : (rounds : Nat) → Incumbent R → Prop where
  | none : Offered strategy g 0 .empty
  | next {rounds : Nat} {incumbent : Incumbent R} {slot : Slot R}
    (h : Offered strategy g rounds incumbent) (hscored : slot.IsScored strategy g)
    (hsize : slot.solution.size = g.numNodes) :
    Offered strategy g (rounds + 1) (incumbent.offer rounds slot).2

/-- An offer is turned down for a slot that scores at least as high, and is recorded otherwise. -/
theorem offer_cases (incumbent : Incumbent R) (round : Nat) (slot : Slot R) :
    ((∃ held, incumbent.best = some held ∧ slot.score ≤ held.score) ∧
      incumbent.offer round slot = (false, incumbent)) ∨
    ((∀ held, incumbent.best = some held → ¬ slot.score ≤ held.score) ∧
      incumbent.offer round slot
        = (true, ⟨some slot, (round, slot.score) :: incumbent.improvements⟩)) := by
  unfold offer declines bestScore
  cases hbest : incumbent.best with
  | none => exact .inr ⟨fun held hheld => (Option.some_ne_none held hheld.symm).elim, rfl⟩
  | some held =>
    by_cases hle : slot.score ≤ held.score
    · exact .inl ⟨⟨held, rfl, hle⟩, by simp [hle]⟩
    · refine .inr ⟨?_, by simp [hle]⟩
      rintro _ ⟨⟩
      exact hle

-- ---------------------------------------------------------------------------
-- What the incumbent knows
-- ---------------------------------------------------------------------------

/-- What the incumbent knows after some rounds. -/
structure Tracks (strategy : Strategy R) (g : Graph R) (rounds : Nat) (incumbent : Incumbent R) :
    Prop where
  /-- Nothing was offered before the first round. -/
  empty : rounds = 0 → incumbent = .empty
  /-- The slot held has a true score, and is the last improvement. -/
  held : 0 < rounds → ∃ slot, incumbent.best = some slot ∧ slot.IsScored strategy g ∧
    slot.solution.size = g.numNodes ∧
    ∃ round earlier, incumbent.improvements = (round, slot.score) :: earlier
  /-- The slot of the first round was taken. -/
  first : 0 < rounds → ∃ score, incumbent.improvements.getLast? = some (0, score)
  lt_rounds : ∀ entry ∈ incumbent.improvements, entry.1 < rounds
  rounds_lt : incumbent.improvements.Pairwise fun later earlier => earlier.1 < later.1
  scores_lt : (∀ entry ∈ incumbent.improvements, Weight.IsNumber entry.2) →
    incumbent.improvements.Pairwise fun later earlier => earlier.2 < later.2

theorem tracks_empty : Tracks strategy g 0 (.empty : Incumbent R) where
  empty _ := rfl
  held h := absurd h (Nat.lt_irrefl 0)
  first h := absurd h (Nat.lt_irrefl 0)
  lt_rounds _ h := absurd h List.not_mem_nil
  rounds_lt := .nil
  scores_lt _ := .nil

/-- A slot turned down leaves a further round behind. -/
theorem Tracks.declined (h : Tracks strategy g rounds incumbent) {held : Slot R}
    (hheld : incumbent.best = some held) : Tracks strategy g (rounds + 1) incumbent := by
  have hpos : 0 < rounds := by
    by_contra hzero
    rw [h.empty (by omega)] at hheld
    cases hheld
  refine ⟨fun hzero => absurd hzero (Nat.succ_ne_zero rounds), fun _ => h.held hpos,
    fun _ => h.first hpos, ?_, h.rounds_lt, h.scores_lt⟩
  intro entry hentry
  exact Nat.lt_succ_of_lt (h.lt_rounds entry hentry)

/-- The score of a slot that is taken lies above all before it, if they are numbers. -/
theorem Tracks.lt_of_taken [Weight.Ordered R] (h : Tracks strategy g rounds incumbent)
    (htaken : ∀ held, incumbent.best = some held → ¬ slot.score ≤ held.score)
    (hnumber : Weight.IsNumber slot.score)
    (hnumbers : ∀ entry ∈ incumbent.improvements, Weight.IsNumber entry.2) :
    ∀ entry ∈ incumbent.improvements, entry.2 < slot.score := by
  intro entry hentry
  have hpos : 0 < rounds := Nat.lt_of_le_of_lt (Nat.zero_le _) (h.lt_rounds entry hentry)
  obtain ⟨held, hbest, -, -, round, earlier, himprovements⟩ := h.held hpos
  have hsorted := h.scores_lt hnumbers
  rw [himprovements] at hentry hnumbers hsorted
  -- the slot held is beaten, and it has beaten all the others
  have hheld : held.score < slot.score := by
    have hnumber' := hnumbers _ List.mem_cons_self
    have hnot := htaken held hbest
    rwa [Weight.Ordered.le_iff_not_lt hnumber hnumber', not_not] at hnot
  rcases List.mem_cons.mp hentry with rfl | hearlier
  · exact hheld
  · exact Weight.StrictlyOrdered.lt_trans ((List.pairwise_cons.mp hsorted).1 entry hearlier) hheld

/-- A slot taken is the last improvement from then on. -/
theorem Tracks.taken [Weight.Ordered R] (h : Tracks strategy g rounds incumbent)
    (hscored : slot.IsScored strategy g) (hsize : slot.solution.size = g.numNodes)
    (htaken : ∀ held, incumbent.best = some held → ¬ slot.score ≤ held.score) :
    Tracks strategy g (rounds + 1)
      ⟨some slot, (rounds, slot.score) :: incumbent.improvements⟩ where
  empty hzero := absurd hzero (Nat.succ_ne_zero rounds)
  held _ := ⟨slot, rfl, hscored, hsize, rounds, _, rfl⟩
  first _ := by
    rcases Nat.eq_zero_or_pos rounds with rfl | hpos
    · rw [h.empty rfl]
      exact ⟨slot.score, rfl⟩
    · obtain ⟨score, hscore⟩ := h.first hpos
      refine ⟨score, ?_⟩
      rw [List.getLast?_cons, hscore]
      rfl
  lt_rounds := by
    intro entry hentry
    rcases List.mem_cons.mp hentry with rfl | hentry
    · exact Nat.lt_succ_self rounds
    · exact Nat.lt_succ_of_lt (h.lt_rounds entry hentry)
  rounds_lt := List.pairwise_cons.mpr ⟨h.lt_rounds, h.rounds_lt⟩
  scores_lt := by
    intro hnumbers
    obtain ⟨hnumber, hnumbers'⟩ := List.forall_mem_cons.mp hnumbers
    exact List.pairwise_cons.mpr
      ⟨h.lt_of_taken htaken hnumber hnumbers', h.scores_lt hnumbers'⟩

theorem Offered.tracks [Weight.Ordered R] (h : Offered strategy g rounds incumbent) :
    Tracks strategy g rounds incumbent := by
  induction h with
  | none => exact tracks_empty
  | @next rounds incumbent slot _ hscored hsize ih =>
    rcases offer_cases incumbent rounds slot with ⟨⟨held, hheld, -⟩, hoffer⟩ | ⟨htaken, hoffer⟩
    · rw [hoffer]
      exact ih.declined hheld
    · rw [hoffer]
      exact ih.taken hscored hsize htaken

end Incumbent

-- ---------------------------------------------------------------------------
-- Journals
-- ---------------------------------------------------------------------------

/-- A round within the limits of the parameters: it makes a search call, and no more than it may. -/
def RoundEntry.IsWithin (config : Config) (entry : RoundEntry) : Prop :=
  0 < entry.improved.length ∧ entry.improved.length ≤ config.numInner

/-- A restart within these limits, with at least one round and no more than it may have. -/
structure IsRestart (config : Config) (entries : List RoundEntry) : Prop where
  pos : 0 < entries.length
  le_rounds : entries.length ≤ config.numRounds
  within : ∀ entry ∈ entries, entry.IsWithin config

/-- With at least one and at most `most` entries each, some lists have together at least as many
entries as there are lists, and at most `most` times as many. -/
theorem length_flatMap_bounds {α β : Type} {f : α → List β} {xs : List α} {most : Nat}
    (h : ∀ x ∈ xs, 0 < (f x).length ∧ (f x).length ≤ most) :
    xs.length ≤ (xs.flatMap f).length ∧ (xs.flatMap f).length ≤ xs.length * most := by
  induction xs with
  | nil => simp
  | cons x rest ih =>
    obtain ⟨hpos, hle⟩ := h x List.mem_cons_self
    obtain ⟨hpos', hle'⟩ := ih fun y hy => h y (List.mem_cons_of_mem x hy)
    rw [List.flatMap_cons, List.length_append, List.length_cons, Nat.succ_mul]
    omega

namespace Journal

variable {config : Config} {journal : Journal}

theorem rounds_bounds (h : ∀ entries ∈ journal, IsRestart config entries) :
    journal.length ≤ journal.rounds ∧ journal.rounds ≤ journal.length * config.numRounds := by
  rw [rounds, ← List.flatMap_id]
  exact length_flatMap_bounds fun entries hentries =>
    ⟨(h entries hentries).pos, (h entries hentries).le_rounds⟩

theorem searches_bounds (h : ∀ entries ∈ journal, IsRestart config entries) :
    journal.rounds ≤ journal.searches ∧
      journal.searches ≤ journal.rounds * config.numInner := by
  refine length_flatMap_bounds fun entry hentry => ?_
  obtain ⟨entries, hentries, hentry⟩ := List.mem_flatten.mp hentry
  exact (h entries hentries).within entry hentry

end Journal

end CutCover.LocalSearch
