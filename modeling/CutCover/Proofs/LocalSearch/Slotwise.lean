import CutCover.Proofs.LocalSearch.Merge
import CutCover.Proofs.Words

/-!
# CutCover — slots do not interact

A search call takes a word for each slot, searches each slot with a generator started from its word,
and puts what was found against the slot. Nothing passes from one slot to another, so that what
becomes of a slot depends on the slot and on its word alone: it is the same in any other population
and whichever slots are searched before it.

* `Population.SearchesSlotwise`   — what a search call leaves, slot by slot.
* `slotwise_of_searchSlots`, `exists_searchSlots` — calls that answer are such, and when they do.
* `SearchesSlotwise.agreesAt`     — two calls that agree on a slot and its word.
* `Population.searchPlace`, `SearchesSlotwise.foldlM_searchPlace` — one slot after another, in any
  order.
* `Population.slots_do_not_interact` — the words taken, two calls, and slots appended.
-/

namespace CutCover.LocalSearch.Population

open WordSource (skip wordAt)

variable {R : Type}

-- ---------------------------------------------------------------------------
-- Places
-- ---------------------------------------------------------------------------

/-- The slots of one population and then those of another. -/
def append (p extra : Population R) : Population R :=
  ⟨p.solutions ++ extra.solutions, p.scores ++ extra.scores⟩

theorem AgreesAt.slots_eq {p q : Population R} {place : Nat} (h : p.AgreesAt q place) :
    p.slots[place]? = q.slots[place]? := by
  rw [slots, slots, List.getElem?_zipWith, List.getElem?_zipWith, h.1, h.2]

theorem AgreesAt.trans {p q r : Population R} {place : Nat} (hpq : p.AgreesAt q place)
    (hqr : q.AgreesAt r place) : p.AgreesAt r place :=
  ⟨hpq.1.trans hqr.1, hpq.2.trans hqr.2⟩

theorem agreesAt_of_slots {p q : Population R} {place : Nat} {slot : Slot R}
    (hp : p.slots[place]? = some slot) (hq : q.slots[place]? = some slot) :
    p.AgreesAt q place := by
  obtain ⟨hsolution, hscore⟩ := getElem?_of_slots hp
  obtain ⟨hsolution', hscore'⟩ := getElem?_of_slots hq
  exact ⟨hsolution.trans hsolution'.symm, hscore.trans hscore'.symm⟩

/-- Beyond the last slots there is nothing to tell apart. -/
theorem agreesAt_of_le {p q : Population R} {place : Nat} (hp : p.scores.length = p.size)
    (hq : q.scores.length = q.size) (hplace : p.size ≤ place) (hplace' : q.size ≤ place) :
    p.AgreesAt q place := by
  constructor
  · rw [List.getElem?_eq_none hplace, List.getElem?_eq_none hplace']
  · rw [List.getElem?_eq_none (hp ▸ hplace), List.getElem?_eq_none (hq ▸ hplace')]

/-- What is appended changes nothing before it. -/
theorem agreesAt_append {p : Population R} (h : p.scores.length = p.size) (extra : Population R)
    {place : Nat} (hplace : place < p.size) : (p.append extra).AgreesAt p place := by
  constructor
  · exact List.getElem?_append_left hplace
  · exact List.getElem?_append_left (h.symm ▸ hplace)

theorem lt_of_slot {p : Population R} {place : Nat} {slot : Slot R}
    (h : p.slots[place]? = some slot) : place < p.size :=
  (List.getElem?_eq_some_iff.mp (getElem?_of_slots h).1).1

theorem exists_slot_of_lt {p : Population R} (h : p.scores.length = p.size) {place : Nat}
    (hplace : place < p.size) : ∃ slot, p.slots[place]? = some slot :=
  ⟨_, List.getElem?_eq_getElem ((length_slots h).symm ▸ hplace)⟩

/-- Each slot is paired with the word at its place. -/
theorem getElem?_zip_words (p : Population R) (words : Nat → UInt64) {place : Nat} {slot : Slot R}
    {word : UInt64} :
    (p.slots.zip ((List.range p.size).map words))[place]? = some (slot, word) ↔
      p.slots[place]? = some slot ∧ word = words place := by
  rw [List.getElem?_zip_eq_some]
  refine and_congr_right fun hslot => ?_
  simp [lt_of_slot hslot, eq_comm]

variable [Weight R]

-- ---------------------------------------------------------------------------
-- Search calls, slot by slot
-- ---------------------------------------------------------------------------

/-- Each slot was searched on its own with the word at its place, and then holds the better of what
it held before and what was found. -/
structure SearchesSlotwise (strategy : Strategy R) (g : Graph R) (params : SearchParams)
    (words : Nat → UInt64) (p after : Population R) : Prop where
  length_scores : p.scores.length = p.size
  size_eq : after.size = p.size
  length_after : after.scores.length = p.size
  kept : ∀ (place : Nat) (slot : Slot R), p.slots[place]? = some slot → ∃ found,
    slot.searchSeeded strategy g params (words place) = .ok found ∧
      after.slots[place]? = some (slot.improve found)

variable {strategy : Strategy R} {g : Graph R} {params : SearchParams}
variable {σ : Type} [WordSource σ]

/-- A search call that answers takes one word for each slot and searches slot by slot. -/
theorem slotwise_of_searchSlots {p after : Population R} {s s' : σ} {report : SearchReport R}
    (h : (p.searchSlots strategy g params).run s = .ok ((.ok report, after), s')) :
    checkSearch g params = .ok () ∧ s' = skip s p.size ∧
      SearchesSlotwise strategy g params (wordAt s) p after := by
  rcases searchSlots_inv h with
    ⟨_, -, hanswer, -⟩ | ⟨hcheck, seeds, searched, hseeds, hfound, hafter, hanswer⟩
  · cases hanswer
  · obtain ⟨_, hwords, rfl⟩ := Draw.takes_words (s := s) p.size
    rw [hwords] at hseeds
    cases hseeds
    rcases merge_cases p (ofSlots searched) with
      ⟨_, -, hmerge⟩ | ⟨hscores, hsolutions, -, hmerge⟩
    · rw [hmerge] at hanswer
      cases hanswer
    · rw [hmerge, slots_ofSlots] at hafter
      have hlength : (p.slots.zipWith Slot.improve searched).length = p.size := by
        rw [List.length_zipWith, length_slots hscores]
        simpa [ofSlots] using hsolutions.ge
      subst hafter
      refine ⟨hcheck, rfl, hscores, ?_, ?_, ?_⟩
      · simpa only [ofSlots, size, List.length_map] using hlength
      · simpa only [ofSlots, List.length_map] using hlength
      · intro place slot hslot
        have hpair := (getElem?_zip_words p (wordAt s)).mpr ⟨hslot, rfl⟩
        obtain ⟨found, hplaced, hsearch⟩ := getElem?_of_forall₂ hfound hpair
        refine ⟨found, hsearch, ?_⟩
        rw [slots_ofSlots, List.getElem?_zipWith, hslot, hplaced]

/-- It answers if its parameters are admissible, there are as many scores as assignments, and each
slot can be searched on its own. -/
theorem exists_searchSlots {p : Population R} {s : σ} (hcheck : checkSearch g params = .ok ())
    (hscores : p.scores.length = p.size)
    (hfound : ∀ (place : Nat) (slot : Slot R), p.slots[place]? = some slot → ∃ found,
      slot.searchSeeded strategy g params (wordAt s place) = .ok found) :
    ∃ report after, (p.searchSlots strategy g params).run s
      = .ok ((.ok report, after), skip s p.size) := by
  obtain ⟨_, hwords, rfl⟩ := Draw.takes_words (s := s) p.size
  have hpairs : ∀ pair ∈ p.slots.zip ((List.range p.size).map (wordAt s)), ∃ found,
      pair.1.searchSeeded strategy g params pair.2 = .ok found := by
    rintro ⟨slot, seed⟩ hpair
    obtain ⟨place, hplace⟩ := List.mem_iff_getElem?.mp hpair
    obtain ⟨hslot, rfl⟩ := (getElem?_zip_words p (wordAt s)).mp hplace
    exact hfound place slot hslot
  obtain ⟨searched, hsearched⟩ := exists_mapM hpairs
  have hlength : searched.length = p.size := by
    rw [length_of_mapM hsearched, List.length_zip, length_slots hscores]
    simp
  obtain ⟨taken, after, hmerge, -⟩ : ∃ taken after,
      p.merge (ofSlots searched) = (.ok taken, after) ∧ _ :=
    merge_mergesTo ⟨hscores, by simpa [ofSlots] using hlength, by simpa [ofSlots] using hlength⟩
  refine ⟨⟨taken, after.best.map Slot.score⟩, after, ?_⟩
  unfold searchSlots
  rw [hcheck]
  dsimp only
  rw [Draw.bind_of_run hwords, Draw.bind_of_run (Draw.mapM_lift_of_ok hsearched _), hmerge]
  rfl

-- ---------------------------------------------------------------------------
-- Two calls
-- ---------------------------------------------------------------------------

/-- Calls that find the same slot and the same word at a place leave the same slot there. -/
theorem SearchesSlotwise.agreesAt {p q after after' : Population R} {words words' : Nat → UInt64}
    {place : Nat} (hp : SearchesSlotwise strategy g params words p after)
    (hq : SearchesSlotwise strategy g params words' q after') (hagrees : p.AgreesAt q place)
    (hword : words place = words' place) : after.AgreesAt after' place := by
  have hslots := hagrees.slots_eq
  cases hslot : p.slots[place]? with
  | none =>
    have hslot' := hslots.symm.trans hslot
    rw [List.getElem?_eq_none_iff, length_slots hp.length_scores] at hslot
    rw [List.getElem?_eq_none_iff, length_slots hq.length_scores] at hslot'
    exact agreesAt_of_le (hp.length_after.trans hp.size_eq.symm)
      (hq.length_after.trans hq.size_eq.symm) (hp.size_eq.trans_le hslot)
      (hq.size_eq.trans_le hslot')
  | some slot =>
    obtain ⟨found, hfound, hafter⟩ := hp.kept place slot hslot
    obtain ⟨found', hfound', hafter'⟩ := hq.kept place slot (hslots.symm.trans hslot)
    rw [hword, hfound'] at hfound
    cases hfound
    exact agreesAt_of_slots hafter hafter'

-- ---------------------------------------------------------------------------
-- One slot after another
-- ---------------------------------------------------------------------------

/-- Searches the slot at one place with the word that is meant for it, and writes back what is kept
of the two before any other slot is searched. -/
def searchPlace (strategy : Strategy R) (g : Graph R) (params : SearchParams)
    (words : Nat → UInt64) (p : Population R) (place : Nat) : Checked (Population R) := do
  match p.slots[place]? with
  | none => return p
  | some slot =>
    let found ← slot.searchSeeded strategy g params (words place)
    let kept := slot.improve found
    return ⟨p.solutions.set place kept.solution, p.scores.set place kept.score⟩

/-- One such search changes nothing elsewhere. -/
theorem searchPlace_of_found {words : Nat → UInt64} {q : Population R} {place : Nat}
    {slot found : Slot R} (hslot : q.slots[place]? = some slot)
    (hfound : slot.searchSeeded strategy g params (words place) = .ok found) :
    ∃ q', searchPlace strategy g params words q place = .ok q' ∧
      q'.slots[place]? = some (slot.improve found) ∧
      ∀ other, other ≠ place → q'.AgreesAt q other := by
  obtain ⟨hsolution, hscore⟩ := getElem?_of_slots hslot
  have hsolutions := (List.getElem?_eq_some_iff.mp hsolution).1
  have hscores := (List.getElem?_eq_some_iff.mp hscore).1
  refine ⟨⟨q.solutions.set place (slot.improve found).solution,
    q.scores.set place (slot.improve found).score⟩, ?_, ?_, ?_⟩
  · rw [searchPlace, hslot]
    dsimp only
    rw [hfound]
    rfl
  · exact getElem?_slots (List.getElem?_set_self hsolutions) (List.getElem?_set_self hscores)
  · intro other hother
    exact ⟨List.getElem?_set_ne hother.symm, List.getElem?_set_ne hother.symm⟩

/-- Whichever slots have been searched before, those at further places come out as in the call. -/
theorem SearchesSlotwise.foldlM_searchPlace {p after : Population R} {words : Nat → UInt64}
    (h : SearchesSlotwise strategy g params words p after) {places : List Nat}
    (hnodup : places.Nodup) (hbelow : ∀ place ∈ places, place < p.size) {q : Population R}
    (hq : ∀ place ∈ places, q.AgreesAt p place) :
    ∃ r, places.foldlM (searchPlace strategy g params words) q = .ok r ∧
      (∀ place ∈ places, r.AgreesAt after place) ∧
      ∀ place, place ∉ places → r.AgreesAt q place := by
  induction places generalizing q with
  | nil => exact ⟨q, rfl, by simp, fun place _ => .refl q place⟩
  | cons place rest ih =>
    obtain ⟨hfresh, hnodup⟩ := List.nodup_cons.mp hnodup
    obtain ⟨slot, hslot⟩ := exists_slot_of_lt h.length_scores (hbelow place List.mem_cons_self)
    obtain ⟨found, hfound, hafter⟩ := h.kept place slot hslot
    have hslotq := (hq place List.mem_cons_self).slots_eq.trans hslot
    obtain ⟨q', hstep, hplace, helsewhere⟩ := searchPlace_of_found hslotq hfound
    have hrest : ∀ other ∈ rest, q'.AgreesAt p other := by
      intro other hother
      have hne : other ≠ place := fun heq => hfresh (heq ▸ hother)
      exact (helsewhere other hne).trans (hq other (List.mem_cons_of_mem place hother))
    obtain ⟨r, hrun, hsearched, hkept⟩ :=
      ih hnodup (fun other hother => hbelow other (List.mem_cons_of_mem place hother)) hrest
    refine ⟨r, ?_, ?_, ?_⟩
    · rw [List.foldlM_cons, hstep]
      exact hrun
    · intro other hother
      rcases List.mem_cons.mp hother with rfl | hother
      · exact (hkept other hfresh).trans (agreesAt_of_slots hplace hafter)
      · exact hsearched other hother
    · intro other hother
      rw [List.mem_cons, not_or] at hother
      exact (hkept other hother.2).trans (helsewhere other hother.1)

/-- In whatever order the slots are searched one after another, they come out as in the call. -/
theorem SearchesSlotwise.foldlM_of_perm {p after : Population R} {words : Nat → UInt64}
    (h : SearchesSlotwise strategy g params words p after) {order : List Nat}
    (horder : order.Perm (List.range p.size)) :
    order.foldlM (searchPlace strategy g params words) p = .ok after := by
  have hmem (place : Nat) : place ∈ order ↔ place < p.size := by
    rw [horder.mem_iff, List.mem_range]
  obtain ⟨r, hrun, hsearched, hkept⟩ :=
    h.foldlM_searchPlace (horder.nodup_iff.mpr List.nodup_range) (fun place => (hmem place).mp)
      fun place _ => .refl p place
  have hsame : r = after := by
    refine ext_agreesAt fun place => ?_
    by_cases hplace : place < p.size
    · exact hsearched place ((hmem place).mpr hplace)
    · have hbeyond := Nat.le_of_not_lt hplace
      exact (hkept place (mt (hmem place).mp hplace)).trans
        (agreesAt_of_le h.length_scores (h.length_after.trans h.size_eq.symm) hbeyond
          (h.size_eq.trans_le hbeyond))
  rw [hrun, hsame]

-- ---------------------------------------------------------------------------
-- Slots appended
-- ---------------------------------------------------------------------------

/-- If a call answers with slots appended it does without them, and leaves the same in the slots
before. -/
theorem exists_searchSlots_of_append {p extra after : Population R} {s s' : σ}
    {report : SearchReport R} (hscores : p.scores.length = p.size)
    (h : ((p.append extra).searchSlots strategy g params).run s
      = .ok ((.ok report, after), s')) :
    ∃ report' after', (p.searchSlots strategy g params).run s
        = .ok ((.ok report', after'), skip s p.size) ∧
      ∀ place < p.size, after.AgreesAt after' place := by
  obtain ⟨hcheck, -, hlong⟩ := slotwise_of_searchSlots h
  have hfound : ∀ (place : Nat) (slot : Slot R), p.slots[place]? = some slot → ∃ found,
      slot.searchSeeded strategy g params (wordAt s place) = .ok found := by
    intro place slot hslot
    have hslot' := (agreesAt_append hscores extra (lt_of_slot hslot)).slots_eq.trans hslot
    obtain ⟨found, hfound, -⟩ := hlong.kept place slot hslot'
    exact ⟨found, hfound⟩
  obtain ⟨report', after', hrun⟩ := exists_searchSlots (s := s) hcheck hscores hfound
  obtain ⟨-, -, hshort⟩ := slotwise_of_searchSlots hrun
  exact ⟨report', after', hrun, fun place hplace =>
    hlong.agreesAt hshort (agreesAt_append hscores extra hplace) rfl⟩

-- ---------------------------------------------------------------------------
-- All together
-- ---------------------------------------------------------------------------

/-- A search call that answers takes one word for each slot, in the order of the slots and whatever
they hold. It searches each slot with the word at its place, so that the slots may be searched and
written back one after another in any order, and its report follows from the population before and
after. Two calls, of any populations and with any sources, leave the same slot wherever they find
the same slot and the same word. Slots that are appended change nothing in those before them. -/
theorem slots_do_not_interact [Weight.StrictlyOrdered R] (strategy : Strategy R) (g : Graph R)
    (params : SearchParams) :
    (∀ {σ : Type} [WordSource σ] (p after : Population R) (s s' : σ) (report : SearchReport R),
      (p.searchSlots strategy g params).run s = .ok ((.ok report, after), s') →
        s' = skip s p.size ∧
        SearchesSlotwise strategy g params (wordAt s) p after ∧
        report = ⟨p.raisedCount after, after.best.map Slot.score⟩ ∧
        ∀ order : List Nat, order.Perm (List.range p.size) →
          order.foldlM (searchPlace strategy g params (wordAt s)) p = .ok after) ∧
    (∀ {σ τ : Type} [WordSource σ] [WordSource τ] (p q after after' : Population R) (s s' : σ)
      (t t' : τ) (report report' : SearchReport R),
      (p.searchSlots strategy g params).run s = .ok ((.ok report, after), s') →
      (q.searchSlots strategy g params).run t = .ok ((.ok report', after'), t') →
        ∀ place, p.AgreesAt q place → wordAt s place = wordAt t place →
          after.AgreesAt after' place) ∧
    ∀ {σ : Type} [WordSource σ] (p extra after : Population R) (s s' : σ)
      (report : SearchReport R), p.scores.length = p.size →
      ((p.append extra).searchSlots strategy g params).run s = .ok ((.ok report, after), s') →
        ∃ report' after', (p.searchSlots strategy g params).run s
            = .ok ((.ok report', after'), skip s p.size) ∧
          ∀ place < p.size, after.AgreesAt after' place := by
  refine ⟨?_, ?_, ?_⟩
  · intro σ _ p after s s' report h
    obtain ⟨-, hsource, hslotwise⟩ := slotwise_of_searchSlots h
    have hcount := (searchSlots_raises h).2 report rfl
    have hbest := (searched_of_searchSlots h).bestScore_eq
    obtain ⟨numUpdated, bestScore⟩ := report
    exact ⟨hsource, hslotwise, congrArg₂ SearchReport.mk hcount hbest,
      fun order horder => hslotwise.foldlM_of_perm horder⟩
  · intro σ τ _ _ p q after after' s s' t t' report report' hp hq place hagrees hword
    obtain ⟨-, -, hslotwise⟩ := slotwise_of_searchSlots hp
    obtain ⟨-, -, hslotwise'⟩ := slotwise_of_searchSlots hq
    exact hslotwise.agreesAt hslotwise' hagrees hword
  · intro σ _ p extra after s s' report hscores h
    exact exists_searchSlots_of_append hscores h

/-- The second of two slots may be searched first, and the first comes out as it does alone. -/
theorem slots_do_not_interact_two :
    [1, 0].foldlM (searchPlace Problem.maxCut.strategy (.singleEdge Float) ⟨1, 2, 0.3⟩
        (wordAt (Tape.start [5, 9] 7))) ⟨[#[false, false], #[true, true]], [-0.0, -0.0]⟩
      = .ok ⟨[#[true, false], #[false, true]], [1.0, 1.0]⟩ ∧
    ∃ report after, ((⟨[#[false, false]], [-0.0]⟩ : Population Float).searchSlots
        Problem.maxCut.strategy (.singleEdge Float) ⟨1, 2, 0.3⟩).run (Tape.start [5, 9] 7)
        = .ok ((.ok report, after), skip (Tape.start [5, 9] 7) 1) ∧
      AgreesAt ⟨[#[true, false], #[false, true]], [1.0, 1.0]⟩ after 0 := by
  have hsearch : ((⟨[#[false, false], #[true, true]], [-0.0, -0.0]⟩ : Population Float).searchSlots
      Problem.maxCut.strategy (.singleEdge Float) ⟨1, 2, 0.3⟩).run (Tape.start [5, 9] 7)
      = .ok ((.ok ⟨2, some 1.0⟩, ⟨[#[true, false], #[false, true]], [1.0, 1.0]⟩),
          ⟨[], .ofSeed 7, 2⟩) := by
    decide +kernel
  obtain ⟨hruns, -, happends⟩ := slots_do_not_interact Problem.maxCut.strategy
    (Graph.singleEdge Float) ⟨1, 2, 0.3⟩
  obtain ⟨-, -, -, horders⟩ := hruns _ _ _ _ _ hsearch
  obtain ⟨report, after, hrun, hagrees⟩ :=
    happends ⟨[#[false, false]], [-0.0]⟩ ⟨[#[true, true]], [-0.0]⟩ _ _ _ _ rfl hsearch
  exact ⟨horders [1, 0] (by decide), report, after, hrun, hagrees 0 (by decide)⟩

end CutCover.LocalSearch.Population
