import CutCover.Proofs.LocalSearch.Population

/-!
# CutCover — merging slot by slot

A merge compares lengths before it writes anything, and then decides each slot on its own: the one
offered replaces the one held just if it scores strictly higher. Scores need not compare at all;
a slot whose score compares with nothing is neither taken over nor given up. Search calls end in a
merge, so that they too leave each slot alone or raise its score.

* `Population.AgreesAt`, `Population.raised`, `Population.raisedCount` — slots compared by place.
* `Population.MergesTo`, `merge_mergesTo` — what a merge answers and leaves.
* `Population.merge_again`      — a second merge with the same slots takes none.
* `Population.Raises`           — no slot is changed but for a strictly higher score.
* `Population.merge_is_exact`   — merges, search calls, and what refused calls leave.
-/

namespace CutCover.LocalSearch.Population

variable {R : Type}

-- ---------------------------------------------------------------------------
-- Places
-- ---------------------------------------------------------------------------

/-- Both populations hold the same slot at this place, or neither holds one. -/
def AgreesAt (p q : Population R) (place : Nat) : Prop :=
  p.solutions[place]? = q.solutions[place]? ∧ p.scores[place]? = q.scores[place]?

theorem AgreesAt.refl (p : Population R) (place : Nat) : p.AgreesAt p place :=
  ⟨rfl, rfl⟩

/-- Populations that agree everywhere are the same. -/
theorem ext_agreesAt {p q : Population R} (h : ∀ place, p.AgreesAt q place) : p = q := by
  obtain ⟨solutions, scores⟩ := p
  obtain ⟨solutions', scores'⟩ := q
  have hsolutions : solutions = solutions' := List.ext_getElem? fun place => (h place).1
  have hscores : scores = scores' := List.ext_getElem? fun place => (h place).2
  rw [hsolutions, hscores]

/-- As many scores as assignments in both populations, and as many in the one as in the other. -/
structure SameLengths (p offered : Population R) : Prop where
  scores : p.scores.length = p.size
  offeredSolutions : offered.solutions.length = p.size
  offeredScores : offered.scores.length = p.size

/-- The first of the three other lengths that is not the number of assignments held. -/
def FirstMismatch (p offered : Population R) (got : Nat) : Prop :=
  ∃ before later, [p.scores.length, offered.solutions.length, offered.scores.length]
      = before ++ got :: later ∧ got ≠ p.size ∧ ∀ length ∈ before, length = p.size

/-- Either all lengths are equal or one of them is the first that differs. -/
theorem sameLengths_or_firstMismatch (p offered : Population R) :
    p.SameLengths offered ∨ ∃ got, p.FirstMismatch offered got := by
  cases hfind : [p.scores.length, offered.solutions.length, offered.scores.length].find?
      (fun length => length != p.size) with
  | none =>
    have hnone := List.find?_eq_none.mp hfind
    refine .inl ⟨?_, ?_, ?_⟩
    · simpa using hnone p.scores.length (by simp)
    · simpa using hnone offered.solutions.length (by simp)
    · simpa using hnone offered.scores.length (by simp)
  | some got =>
    obtain ⟨hne, before, later, hlengths, hbefore⟩ := List.find?_eq_some_iff_append.mp hfind
    refine .inr ⟨got, before, later, hlengths, by simpa using hne, ?_⟩
    intro length hlength
    simpa using hbefore length hlength

variable [Weight R]

/-- The score at this place is strictly higher in `q`. -/
def raised (p q : Population R) (place : Nat) : Bool :=
  match p.scores[place]?, q.scores[place]? with
  | some held, some other => held < other
  | _, _ => false

/-- The number of slots whose score is strictly higher in `q`. -/
def raisedCount (p q : Population R) : Nat :=
  (List.range p.size).countP (p.raised q)

theorem raised_congr {p q p' q' : Population R} {place : Nat}
    (hp : p.scores[place]? = p'.scores[place]?) (hq : q.scores[place]? = q'.scores[place]?) :
    p.raised q place = p'.raised q' place := by
  rw [raised, raised, hp, hq]

/-- No score is strictly higher than itself. -/
theorem raised_self [Weight.StrictlyOrdered R] (p : Population R) (place : Nat) :
    p.raised p place = false := by
  rw [raised]
  cases p.scores[place]? with
  | none => rfl
  | some score => exact decide_eq_false (Weight.StrictlyOrdered.lt_irrefl score)

-- ---------------------------------------------------------------------------
-- Merges
-- ---------------------------------------------------------------------------

/-- What a merge that answers makes of `p`: slots that score strictly higher among those offered are
taken over as they are, all others are left alone, and the answer is their number. -/
structure MergesTo (p offered after : Population R) (taken : Nat) : Prop where
  size_eq : after.size = p.size
  length_scores : after.scores.length = p.size
  takes : ∀ place, p.raised offered place = true → after.AgreesAt offered place
  keeps : ∀ place, p.raised offered place = false → after.AgreesAt p place
  taken_eq : taken = p.raisedCount offered

theorem merge_of_firstMismatch {p offered : Population R} {got : Nat}
    (h : p.FirstMismatch offered got) :
    p.merge offered = (.error (.lengthMismatch p.size got), p) := by
  obtain ⟨before, later, hlengths, hne, hbefore⟩ := h
  have hfind : [p.scores.length, offered.solutions.length, offered.scores.length].find?
      (fun length => length != p.size) = some got := by
    refine List.find?_eq_some_iff_append.mpr ⟨by simpa using hne, before, later, hlengths, ?_⟩
    intro length hlength
    simpa using hbefore length hlength
  unfold merge
  simp only [hfind]

theorem merge_of_sameLengths {p offered : Population R} (h : p.SameLengths offered) :
    p.merge offered =
      (.ok ((p.slots.zip offered.slots).countP fun (held, slot) => held.score < slot.score),
        ofSlots (p.slots.zipWith Slot.improve offered.slots)) := by
  have hfind : [p.scores.length, offered.solutions.length, offered.scores.length].find?
      (fun length => length != p.size) = none := by
    simp [h.scores, h.offeredSolutions, h.offeredScores]
  unfold merge
  simp only [hfind]

/-- Pairs are counted place by place. -/
theorem countP_zip {α : Type} (test : α → α → Bool) {xs ys : List α}
    (h : xs.length = ys.length) :
    ((xs.zip ys).countP fun (x, y) => test x y) = (List.range xs.length).countP fun place =>
      match xs[place]?, ys[place]? with
      | some x, some y => test x y
      | _, _ => false := by
  induction xs generalizing ys with
  | nil => rfl
  | cons x rest ih =>
    cases ys with
    | nil => cases h
    | cons y others =>
      rw [List.zip_cons_cons, List.countP_cons, ih (Nat.succ.inj h), List.length_cons,
        List.range_succ_eq_map, List.countP_cons, List.countP_map]
      rfl

omit [Weight R] in
theorem map_score_slots {p : Population R} (h : p.scores.length = p.size) :
    p.slots.map Slot.score = p.scores := by
  refine List.ext_getElem? ?_
  intro place
  unfold size at h
  by_cases hplace : place < p.scores.length <;> simp [slots, hplace, ← h]

/-- The slots that a merge takes over are counted by their places. -/
theorem countP_slots {p offered : Population R} (h : p.SameLengths offered) :
    ((p.slots.zip offered.slots).countP fun (held, slot) => held.score < slot.score)
      = p.raisedCount offered := by
  have hoffered : offered.scores.length = offered.size := by
    rw [h.offeredScores, ← h.offeredSolutions, size]
  have hlength : p.scores.length = offered.scores.length := by
    rw [h.scores, h.offeredScores]
  have hcount := countP_zip (fun a b : R => decide (a < b)) hlength
  rw [h.scores, ← map_score_slots h.scores, ← map_score_slots hoffered, List.zip_map,
    List.countP_map, map_score_slots h.scores, map_score_slots hoffered] at hcount
  exact hcount

omit [Weight R] in
theorem exists_getElem?_of_lt {p : Population R} (h : p.scores.length = p.size) {place : Nat}
    (hplace : place < p.size) :
    ∃ x score, p.solutions[place]? = some x ∧ p.scores[place]? = some score :=
  ⟨_, _, List.getElem?_eq_getElem hplace, List.getElem?_eq_getElem (h ▸ hplace)⟩

omit [Weight R] in
theorem agreesAt_ofSlots {slots : List (Slot R)} {q : Population R} {place : Nat} {x : Assignment}
    {score : R} (hslot : slots[place]? = some ⟨x, score⟩) (hx : q.solutions[place]? = some x)
    (hscore : q.scores[place]? = some score) : (ofSlots slots).AgreesAt q place := by
  simp [AgreesAt, ofSlots, hslot, hx, hscore]

/-- Each place of a merge holds one of the two slots there, the one offered just if its score is
strictly higher. -/
theorem agreesAt_zipWith_improve {p offered : Population R} (h : p.SameLengths offered)
    (place : Nat) :
    (p.raised offered place = true ∧
      (ofSlots (p.slots.zipWith Slot.improve offered.slots)).AgreesAt offered place) ∨
    (p.raised offered place = false ∧
      (ofSlots (p.slots.zipWith Slot.improve offered.slots)).AgreesAt p place) := by
  have hsize : offered.size = p.size := h.offeredSolutions
  by_cases hplace : place < p.size
  · obtain ⟨x, score, hx, hscore⟩ := exists_getElem?_of_lt h.scores hplace
    obtain ⟨y, other, hy, hother⟩ :=
      exists_getElem?_of_lt (h.offeredScores.trans hsize.symm) (hsize ▸ hplace)
    have hraised : p.raised offered place = decide (score < other) := by
      simp [raised, hscore, hother]
    have hmerged : (p.slots.zipWith Slot.improve offered.slots)[place]?
        = some (Slot.improve ⟨x, score⟩ ⟨y, other⟩) := by
      simp [List.getElem?_zipWith, getElem?_slots hx hscore, getElem?_slots hy hother]
    rcases Slot.improve_cases ⟨x, score⟩ ⟨y, other⟩ with ⟨himprove, hlt⟩ | ⟨himprove, hnot⟩
    · rw [himprove] at hmerged
      exact .inl ⟨by simpa [hraised] using hlt, agreesAt_ofSlots hmerged hy hother⟩
    · rw [himprove] at hmerged
      exact .inr ⟨by simpa [hraised] using hnot, agreesAt_ofSlots hmerged hx hscore⟩
  · -- beyond the last slot there is nothing in any of the lists
    have hx : p.solutions[place]? = none := by
      simpa [size] using hplace
    have hscore : p.scores[place]? = none := by
      simpa [h.scores] using hplace
    have hmerged : (p.slots.zipWith Slot.improve offered.slots)[place]? = none := by
      refine List.getElem?_eq_none ?_
      rw [List.length_zipWith, length_slots h.scores]
      omega
    refine .inr ⟨by simp [raised, hscore], ?_⟩
    rw [AgreesAt, ofSlots, List.getElem?_map, List.getElem?_map, hmerged, hx, hscore]
    exact ⟨rfl, rfl⟩

/-- With all lengths equal a merge answers. -/
theorem merge_mergesTo {p offered : Population R} (h : p.SameLengths offered) :
    ∃ taken after, p.merge offered = (.ok taken, after) ∧ p.MergesTo offered after taken := by
  have hsize : (p.slots.zipWith Slot.improve offered.slots).length = p.size := by
    rw [List.length_zipWith, length_slots h.scores,
      length_slots (h.offeredScores.trans h.offeredSolutions.symm)]
    simp [size, h.offeredSolutions]
  refine ⟨_, _, merge_of_sameLengths h, ?_, ?_, ?_, ?_, countP_slots h⟩
  · simpa [size, ofSlots] using hsize
  · simpa [ofSlots] using hsize
  · intro place hraised
    rcases agreesAt_zipWith_improve h place with ⟨-, hagrees⟩ | ⟨hnot, -⟩
    · exact hagrees
    · rw [hraised] at hnot
      cases hnot
  · intro place hraised
    rcases agreesAt_zipWith_improve h place with ⟨hnot, -⟩ | ⟨-, hagrees⟩
    · rw [hraised] at hnot
      cases hnot
    · exact hagrees

-- ---------------------------------------------------------------------------
-- Raised slots
-- ---------------------------------------------------------------------------

/-- Every slot of `after` is the one `p` holds there, or scores strictly higher. -/
structure Raises (p after : Population R) : Prop where
  size_eq : after.size = p.size
  length_scores : after.scores.length = p.scores.length
  slots : ∀ place, after.AgreesAt p place ∨ p.raised after place = true

theorem Raises.refl (p : Population R) : p.Raises p :=
  ⟨rfl, rfl, fun place => .inl (.refl p place)⟩

section StrictlyOrdered

variable [Weight.StrictlyOrdered R] {p offered after : Population R} {taken : Nat}

/-- The slots that a merge raises are those it takes over. -/
theorem MergesTo.raised_eq (h : p.MergesTo offered after taken) (place : Nat) :
    p.raised after place = p.raised offered place := by
  cases hraised : p.raised offered place with
  | true => rw [raised_congr rfl (h.takes place hraised).2, hraised]
  | false => rw [raised_congr rfl (h.keeps place hraised).2, raised_self]

theorem MergesTo.raises (h : p.MergesTo offered after taken) (hscores : p.scores.length = p.size) :
    p.Raises after where
  size_eq := h.size_eq
  length_scores := h.length_scores.trans hscores.symm
  slots := by
    intro place
    cases hraised : p.raised offered place with
    | true => exact .inr (by rw [h.raised_eq, hraised])
    | false => exact .inl (h.keeps place hraised)

theorem MergesTo.taken_eq_raisedCount (h : p.MergesTo offered after taken) :
    taken = p.raisedCount after := by
  rw [h.taken_eq]
  refine List.countP_congr ?_
  intro place _
  rw [h.raised_eq]

/-- Once taken over, nothing among the slots offered scores strictly higher. -/
theorem MergesTo.not_raised (h : p.MergesTo offered after taken) (place : Nat) :
    after.raised offered place = false := by
  cases hraised : p.raised offered place with
  | true => rw [raised_congr (h.takes place hraised).2 rfl, raised_self]
  | false => rw [raised_congr (h.keeps place hraised).2 rfl, hraised]

/-- A second merge with the same slots takes none and changes nothing. -/
theorem MergesTo.merge_again (h : p.MergesTo offered after taken) (hp : p.SameLengths offered) :
    after.merge offered = (.ok 0, after) := by
  have hafter : after.SameLengths offered :=
    ⟨h.length_scores.trans h.size_eq.symm, hp.offeredSolutions.trans h.size_eq.symm,
      hp.offeredScores.trans h.size_eq.symm⟩
  obtain ⟨taken', after', hmerge, hagain⟩ := merge_mergesTo hafter
  have htaken : taken' = 0 := by
    rw [hagain.taken_eq, raisedCount, List.countP_eq_zero]
    intro place _
    rw [h.not_raised]
    decide
  have hsame : after' = after := ext_agreesAt fun place =>
    hagain.keeps place (h.not_raised place)
  rw [hmerge, htaken, hsame]

/-- Whether it answers or is refused, a merge leaves each slot alone or raises its score, and it
answers the number of those raised. -/
theorem merge_raises (p offered : Population R) :
    p.Raises (p.merge offered).2 ∧
    ∀ taken, (p.merge offered).1 = .ok taken → taken = p.raisedCount (p.merge offered).2 := by
  rcases sameLengths_or_firstMismatch p offered with hlengths | ⟨got, hgot⟩
  · obtain ⟨taken, after, hmerge, hmerges⟩ := merge_mergesTo hlengths
    rw [hmerge]
    refine ⟨hmerges.raises hlengths.scores, ?_⟩
    rintro _ ⟨⟩
    exact hmerges.taken_eq_raisedCount
  · rw [merge_of_firstMismatch hgot]
    refine ⟨.refl p, ?_⟩
    intro taken htaken
    cases htaken

/-- So does a search call. -/
theorem searchSlots_raises {σ : Type} [WordSource σ] {strategy : Strategy R} {g : Graph R}
    {params : SearchParams} {s s' : σ} {answer : Except Refusal (SearchReport R)}
    (h : (p.searchSlots strategy g params).run s = .ok ((answer, after), s')) :
    p.Raises after ∧ ∀ report, answer = .ok report → report.numUpdated = p.raisedCount after := by
  rcases searchSlots_inv h with ⟨_, -, rfl, rfl, -⟩ | ⟨-, _, searched, -, -, rfl, rfl⟩
  · refine ⟨.refl _, ?_⟩
    intro report hreport
    cases hreport
  · obtain ⟨hraises, hcount⟩ := merge_raises p (ofSlots searched)
    refine ⟨hraises, ?_⟩
    intro report hreport
    cases hmerge : (p.merge (ofSlots searched)).1 with
    | error refusal =>
      rw [hmerge] at hreport
      cases hreport
    | ok taken =>
      rw [hmerge] at hreport
      cases hreport
      exact hcount taken hmerge

end StrictlyOrdered

-- ---------------------------------------------------------------------------
-- Refused calls
-- ---------------------------------------------------------------------------

/-- A search call refused for its parameters draws nothing and leaves the population alone. -/
theorem searchSlots_of_refused {σ : Type} [WordSource σ] {strategy : Strategy R} {g : Graph R}
    {params : SearchParams} {refusal : Refusal} (h : checkSearch g params = .error refusal)
    (p : Population R) (s : σ) :
    (p.searchSlots strategy g params).run s = .ok ((.error refusal, p), s) := by
  unfold searchSlots
  rw [h]
  rfl

omit [Weight R] in
/-- Assignments of a wrong length leave the population alone; the first of them is named. -/
theorem load_of_mismatch {strategy : Strategy R} {g : Graph R} {solutions : List Assignment}
    (h : ∃ x ∈ solutions, x.size ≠ g.numNodes) (p : Population R) :
    ∃ before bad later, solutions = before ++ bad :: later ∧ bad.size ≠ g.numNodes ∧
      (∀ x ∈ before, x.size = g.numNodes) ∧
      p.load strategy g solutions = .ok (.error (.lengthMismatch g.numNodes bad.size), p) := by
  unfold load
  cases hfind : solutions.find? fun x => x.size != g.numNodes with
  | none =>
    obtain ⟨x, hx, hne⟩ := h
    have hsize := List.find?_eq_none.mp hfind x hx
    exact absurd (by simpa using hsize) hne
  | some bad =>
    obtain ⟨hne, before, later, hsplit, hbefore⟩ := List.find?_eq_some_iff_append.mp hfind
    refine ⟨before, bad, later, hsplit, by simpa using hne, ?_, rfl⟩
    intro x hx
    simpa using hbefore x hx

-- ---------------------------------------------------------------------------
-- The calls together
-- ---------------------------------------------------------------------------

/-- A merge is refused just if the lengths differ, for the first that does, and then changes
nothing; otherwise it takes over just the slots that score strictly higher, answers their number,
and would take none a second time. So neither a merge nor a search call changes a slot but for a
strictly higher score, and both answer the number of slots raised. A search call refused for its
parameters leaves population and source alone, and assignments of a wrong length leave the
population alone. -/
theorem merge_is_exact [Weight.StrictlyOrdered R] (p offered : Population R) :
    ((∃ refusal, (p.merge offered).1 = .error refusal) ↔ ¬ p.SameLengths offered) ∧
    (∀ refusal, (p.merge offered).1 = .error refusal → ∃ got, p.FirstMismatch offered got ∧
      p.merge offered = (.error (.lengthMismatch p.size got), p)) ∧
    (p.SameLengths offered → ∃ taken after, p.merge offered = (.ok taken, after) ∧
      p.MergesTo offered after taken ∧ after.merge offered = (.ok 0, after)) ∧
    (p.Raises (p.merge offered).2 ∧
      ∀ taken, (p.merge offered).1 = .ok taken → taken = p.raisedCount (p.merge offered).2) ∧
    ∀ (strategy : Strategy R) (g : Graph R),
      (∀ {σ : Type} [WordSource σ] (params : SearchParams) (s : σ),
        (∀ answer after s',
          (p.searchSlots strategy g params).run s = .ok ((answer, after), s') →
            p.Raises after ∧
            ∀ report, answer = .ok report → report.numUpdated = p.raisedCount after) ∧
        (g.numNodes < params.numSpin → (p.searchSlots strategy g params).run s
          = .ok ((.error (.invalidConfig (.spinExceedsNodes params.numSpin g.numNodes)), p), s)) ∧
        (params.numSpin ≤ g.numNodes →
          params.noiseStd.isFinite = false ∨ params.noiseStd < 0.0 →
            (p.searchSlots strategy g params).run s
              = .ok ((.error (.invalidConfig (.noiseStd params.noiseStd)), p), s))) ∧
      ∀ solutions : List Assignment, (∃ x ∈ solutions, x.size ≠ g.numNodes) →
        ∃ before bad later, solutions = before ++ bad :: later ∧ bad.size ≠ g.numNodes ∧
          (∀ x ∈ before, x.size = g.numNodes) ∧
          p.load strategy g solutions
            = .ok (.error (.lengthMismatch g.numNodes bad.size), p) := by
  refine ⟨⟨?_, ?_⟩, ?_, ?_, merge_raises p offered, ?_⟩
  · rintro ⟨refusal, hrefused⟩ hlengths
    rw [merge_of_sameLengths hlengths] at hrefused
    cases hrefused
  · intro hnot
    obtain ⟨got, hgot⟩ := (sameLengths_or_firstMismatch p offered).resolve_left hnot
    exact ⟨_, by rw [merge_of_firstMismatch hgot]⟩
  · intro refusal hrefused
    rcases sameLengths_or_firstMismatch p offered with hlengths | ⟨got, hgot⟩
    · rw [merge_of_sameLengths hlengths] at hrefused
      cases hrefused
    · exact ⟨got, hgot, merge_of_firstMismatch hgot⟩
  · intro hlengths
    obtain ⟨taken, after, hmerge, hmerges⟩ := merge_mergesTo hlengths
    exact ⟨taken, after, hmerge, hmerges, hmerges.merge_again hlengths⟩
  · intro strategy g
    refine ⟨?_, fun solutions hbad => load_of_mismatch hbad p⟩
    intro σ _ params s
    refine ⟨fun answer after s' h => searchSlots_raises h, ?_, ?_⟩
    · intro hspin
      refine searchSlots_of_refused ?_ p s
      simp [checkSearch, hspin]
    · intro hspin hnoise
      refine searchSlots_of_refused ?_ p s
      have hadmissible : noiseAdmissible params.noiseStd = false := by
        rcases hnoise with hinfinite | hnegative
        · simp [noiseAdmissible, hinfinite]
        · simp [noiseAdmissible, hnegative]
      simp [checkSearch, Nat.not_lt.mpr hspin, hadmissible]

/-- Of four slots one is taken over: a score that compares with nothing is neither taken nor given
up, and an equal one is not taken. -/
theorem merge_is_exact_four :
    MergesTo ⟨[#[false], #[true], #[true], #[false]], [1.0, 0.0 / 0.0, 2.0, 2.0]⟩
      ⟨[#[true], #[false], #[false], #[true]], [3.0, 5.0, 0.0 / 0.0, 2.0]⟩
      ⟨[#[true], #[true], #[true], #[false]], [3.0, 0.0 / 0.0, 2.0, 2.0]⟩ 1 := by
  have hmerge : merge ⟨[#[false], #[true], #[true], #[false]], [1.0, 0.0 / 0.0, 2.0, 2.0]⟩
      ⟨[#[true], #[false], #[false], #[true]], [3.0, 5.0, 0.0 / 0.0, 2.0]⟩
      = (.ok 1, ⟨[#[true], #[true], #[true], #[false]], [3.0, 0.0 / 0.0, 2.0, 2.0]⟩) := by
    decide +kernel
  obtain ⟨-, -, hanswers, -⟩ := merge_is_exact (R := Float)
    ⟨[#[false], #[true], #[true], #[false]], [1.0, 0.0 / 0.0, 2.0, 2.0]⟩
    ⟨[#[true], #[false], #[false], #[true]], [3.0, 5.0, 0.0 / 0.0, 2.0]⟩
  obtain ⟨taken, after, hmerge', hmerges, -⟩ := hanswers ⟨rfl, rfl, rfl⟩
  rw [hmerge] at hmerge'
  cases hmerge'
  exact hmerges

end CutCover.LocalSearch.Population
