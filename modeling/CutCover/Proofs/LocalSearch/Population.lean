import CutCover.LocalSearch.Population
import CutCover.Problem
import CutCover.Proofs.Graph.Built
import CutCover.Proofs.LocalSearch.Slot
import CutCover.Random.Tape

/-!
# CutCover — what a population is after any sequence of calls

A population caches the score of every assignment it holds, and no call computes it anew: calls
move slots around, or replace an assignment and its score together. `Population.Reachable` is what
the calls can lead to from the population without slots, refused calls included, and every such
population is consistent: as many scores as assignments, every assignment as long as the graph
has nodes, and every score that of its assignment.

* `Population.IsConsistent`, `Population.Reachable` — consistent and reachable populations.
* `load_inv`, `merge_cases`, `searchSlots_inv`     — what each call can do.
* `Reachable.isConsistent`                         — reachable populations are consistent.
* `reachable_scores_true`                          — the same, read off the two lists.
-/

namespace CutCover.LocalSearch

namespace Population

variable {R : Type}

-- ---------------------------------------------------------------------------
-- Slots and lists
-- ---------------------------------------------------------------------------

theorem slots_ofSlots (slots : List (Slot R)) : (ofSlots slots).slots = slots := by
  induction slots with
  | nil => rfl
  | cons slot rest ih =>
    show (⟨slot.solution, slot.score⟩ : Slot R) :: (ofSlots rest).slots = slot :: rest
    rw [ih]

/-- A population is its slots, if there are as many scores as assignments. -/
theorem ofSlots_slots {p : Population R} (h : p.scores.length = p.solutions.length) :
    ofSlots p.slots = p := by
  obtain ⟨solutions, scores⟩ := p
  have hzip : (Population.mk solutions scores).slots
      = (solutions.zip scores).map fun (x, score) => ⟨x, score⟩ := by
    rw [slots, List.zip, List.map_zipWith]
  rw [ofSlots, hzip, List.map_map, List.map_map]
  exact congrArg₂ Population.mk (List.map_fst_zip h.ge) (List.map_snd_zip h.le)

theorem getElem?_slots {p : Population R} {i : Nat} {x : Assignment} {score : R}
    (hx : p.solutions[i]? = some x) (hscore : p.scores[i]? = some score) :
    p.slots[i]? = some ⟨x, score⟩ := by
  simp [slots, List.getElem?_zipWith, hx, hscore]

theorem getElem?_of_slots {p : Population R} {place : Nat} {slot : Slot R}
    (h : p.slots[place]? = some slot) :
    p.solutions[place]? = some slot.solution ∧ p.scores[place]? = some slot.score := by
  rw [slots, List.getElem?_zipWith] at h
  split at h
  · next x score hx hscore =>
    obtain rfl := Option.some_inj.mp h
    exact ⟨hx, hscore⟩
  · cases h

/-- The number of slots, if there are as many scores as assignments. -/
theorem length_slots {p : Population R} (h : p.scores.length = p.solutions.length) :
    p.slots.length = p.size := by
  simp [slots, size, h]

/-- Every assignment is in a slot, if there are as many scores. -/
theorem exists_slot_of_mem {p : Population R} (h : p.scores.length = p.solutions.length)
    {x : Assignment} (hx : x ∈ p.solutions) : ∃ slot ∈ p.slots, slot.solution = x := by
  obtain ⟨i, hi, rfl⟩ := List.mem_iff_getElem.mp hx
  have hscore : i < p.scores.length := by
    rw [h]
    exact hi
  have hslot := getElem?_slots (List.getElem?_eq_getElem hi) (List.getElem?_eq_getElem hscore)
  exact ⟨_, List.mem_of_getElem? hslot, rfl⟩

-- ---------------------------------------------------------------------------
-- Consistency
-- ---------------------------------------------------------------------------

/-- As many scores as assignments, true scores, and assignments that fit the graph. -/
structure IsConsistent (strategy : Strategy R) (g : Graph R) (p : Population R) : Prop where
  length_scores : p.scores.length = p.solutions.length
  scored : ∀ slot ∈ p.slots, slot.IsScored strategy g
  size_eq : ∀ slot ∈ p.slots, slot.solution.size = g.numNodes

variable {strategy : Strategy R} {g : Graph R}

instance [DecidableEq R] (p : Population R) : Decidable (p.IsConsistent strategy g) :=
  decidable_of_iff (p.scores.length = p.solutions.length ∧
      ∀ slot ∈ p.slots, slot.IsScored strategy g ∧ slot.solution.size = g.numNodes)
    ⟨fun h => ⟨h.1, fun slot hslot => (h.2 slot hslot).1, fun slot hslot => (h.2 slot hslot).2⟩,
      fun h => ⟨h.length_scores, fun slot hslot => ⟨h.scored slot hslot, h.size_eq slot hslot⟩⟩⟩

theorem isConsistent_empty : (empty : Population R).IsConsistent strategy g :=
  ⟨rfl, fun _ h => absurd h List.not_mem_nil, fun _ h => absurd h List.not_mem_nil⟩

theorem isConsistent_ofSlots {slots : List (Slot R)}
    (hscored : ∀ slot ∈ slots, slot.IsScored strategy g)
    (hsize : ∀ slot ∈ slots, slot.solution.size = g.numNodes) :
    (ofSlots slots).IsConsistent strategy g := by
  refine ⟨by simp [ofSlots], ?_, ?_⟩
  · rw [slots_ofSlots]
    exact hscored
  · rw [slots_ofSlots]
    exact hsize

-- ---------------------------------------------------------------------------
-- Filling
-- ---------------------------------------------------------------------------

/-- Loading either is refused and changes nothing, or takes over all assignments with their
scores. -/
theorem load_inv {solutions : List Assignment} {p q : Population R}
    {answer : Except Refusal (List R)} (h : p.load strategy g solutions = .ok (answer, q)) :
    (∃ bad ∈ solutions, bad.size ≠ g.numNodes ∧
      answer = .error (.lengthMismatch g.numNodes bad.size) ∧ q = p) ∨
    ((∀ x ∈ solutions, x.size = g.numNodes) ∧ ∃ scores, answer = .ok scores ∧
      q = ⟨solutions, scores⟩ ∧
      List.Forall₂ (fun x score => strategy.score g x = .ok score) solutions scores) := by
  unfold load at h
  split at h
  · next bad hbad =>
    cases h
    have hsize := List.find?_some hbad
    exact .inl ⟨bad, List.mem_of_find?_eq_some hbad, by simpa using hsize, rfl, rfl⟩
  · next hnone =>
    obtain ⟨scores, hscores, h⟩ := Checked.bind_inv h
    cases h
    refine .inr ⟨?_, scores, rfl, rfl, forall₂_of_mapM hscores⟩
    intro x hx
    simpa using List.find?_eq_none.mp hnone x hx

theorem isScored_of_forall₂ {solutions : List Assignment} {scores : List R}
    (h : List.Forall₂ (fun x score => strategy.score g x = .ok score) solutions scores) :
    ∀ slot ∈ (⟨solutions, scores⟩ : Population R).slots,
      slot.IsScored strategy g ∧ slot.solution ∈ solutions := by
  induction h with
  | nil => exact fun slot hslot => absurd hslot List.not_mem_nil
  | cons hscore _ ih =>
    intro slot hslot
    rcases List.mem_cons.mp hslot with rfl | hslot
    · exact ⟨hscore, List.mem_cons_self⟩
    · obtain ⟨hscored, hmem⟩ := ih slot hslot
      exact ⟨hscored, List.mem_cons_of_mem _ hmem⟩

theorem isConsistent_load {solutions : List Assignment} {p q : Population R}
    {answer : Except Refusal (List R)} (hp : p.IsConsistent strategy g)
    (h : p.load strategy g solutions = .ok (answer, q)) : q.IsConsistent strategy g := by
  rcases load_inv h with ⟨_, _, _, _, rfl⟩ | ⟨hsize, scores, -, rfl, hscores⟩
  · exact hp
  · have hslots := isScored_of_forall₂ hscores
    exact ⟨hscores.length_eq.symm, fun slot hslot => (hslots slot hslot).1,
      fun slot hslot => hsize _ (hslots slot hslot).2⟩

variable [Weight R]

-- ---------------------------------------------------------------------------
-- The best slot
-- ---------------------------------------------------------------------------

/-- The best of several slots is one of them. -/
theorem foldl_improve_mem (slots : List (Slot R)) (start : Slot R) :
    slots.foldl Slot.improve start ∈ start :: slots := by
  induction slots generalizing start with
  | nil => exact List.mem_singleton_self start
  | cons slot rest ih =>
    rw [List.foldl_cons]
    rcases Slot.improve_cases start slot with ⟨himprove, -⟩ | ⟨himprove, -⟩
    · rw [himprove]
      exact List.mem_cons_of_mem start (ih slot)
    · rw [himprove]
      rcases List.mem_cons.mp (ih start) with h | h
      · rw [h]
        exact List.mem_cons_self
      · exact List.mem_cons_of_mem start (List.mem_cons_of_mem slot h)

theorem foldl_better_some (slots : List (Slot R)) (held : Slot R) :
    slots.foldl better (some held) = some (slots.foldl Slot.improve held) := by
  induction slots generalizing held with
  | nil => rfl
  | cons slot rest ih => exact ih (held.improve slot)

/-- The best slot of a population without slots is none; otherwise slots are compared from the
first on. -/
theorem best_eq (p : Population R) :
    p.best = match p.slots with
      | [] => none
      | first :: rest => some (rest.foldl Slot.improve first) := by
  unfold best
  cases p.slots with
  | nil => rfl
  | cons first rest => exact foldl_better_some rest first

theorem best_mem {p : Population R} {slot : Slot R} (h : p.best = some slot) :
    slot ∈ p.slots := by
  rw [best_eq] at h
  cases hslots : p.slots with
  | nil => simp [hslots] at h
  | cons first rest =>
    simp only [hslots, Option.some.injEq] at h
    rw [← h]
    exact foldl_improve_mem rest first

theorem slots_of_best_eq_none {p : Population R} (h : p.best = none) : p.slots = [] := by
  rw [best_eq] at h
  cases hslots : p.slots with
  | nil => rfl
  | cons first rest => simp [hslots] at h

theorem copyBest_eq {p : Population R} {slot : Slot R} (h : p.best = some slot) :
    p.copyBest = ofSlots (p.slots.map fun _ => slot) := by
  rw [copyBest, h]

theorem eq_of_mem_copyBest {p : Population R} {slot copy : Slot R} (h : p.best = some slot)
    (hcopy : copy ∈ p.copyBest.slots) : copy = slot := by
  rw [copyBest_eq h, slots_ofSlots] at hcopy
  obtain ⟨_, -, rfl⟩ := List.mem_map.mp hcopy
  rfl

theorem isConsistent_copyBest {p : Population R} (hp : p.IsConsistent strategy g) :
    p.copyBest.IsConsistent strategy g := by
  unfold copyBest
  split
  · exact hp
  · next slot hbest =>
    have hslot := best_mem hbest
    refine isConsistent_ofSlots ?_ ?_ <;> intro copy hcopy <;>
      obtain ⟨_, -, rfl⟩ := List.mem_map.mp hcopy
    · exact hp.scored slot hslot
    · exact hp.size_eq slot hslot

-- ---------------------------------------------------------------------------
-- Filling by samples
-- ---------------------------------------------------------------------------

variable {σ : Type} [WordSource σ]

/-- Filling by samples loads one assignment for each slot. -/
theorem sample_inv {numSlots samplesPerSlot : Nat} {p q : Population R} {s s' : σ}
    {answer : Except Refusal (List R)}
    (h : (p.sample strategy g numSlots samplesPerSlot).run s = .ok ((answer, q), s')) :
    ∃ solutions, (Draw.replicate numSlots (sampleSlot strategy g samplesPerSlot)).run s
        = .ok (solutions, s') ∧ p.load strategy g solutions = .ok (answer, q) := by
  obtain ⟨solutions, s₁, hsolutions, h⟩ := Draw.bind_inv h
  obtain ⟨hload, rfl⟩ := Draw.lift_inv h
  exact ⟨solutions, hsolutions, hload⟩

theorem isConsistent_sample {numSlots samplesPerSlot : Nat} {p q : Population R} {s s' : σ}
    {answer : Except Refusal (List R)} (hp : p.IsConsistent strategy g)
    (h : (p.sample strategy g numSlots samplesPerSlot).run s = .ok ((answer, q), s')) :
    q.IsConsistent strategy g := by
  obtain ⟨solutions, -, hload⟩ := sample_inv h
  exact isConsistent_load hp hload

-- ---------------------------------------------------------------------------
-- Merging
-- ---------------------------------------------------------------------------

/-- Merging either is refused and changes nothing, or puts the slots offered against those held,
one by one. -/
theorem merge_cases (p offered : Population R) :
    (∃ length ≠ p.size, p.merge offered = (.error (.lengthMismatch p.size length), p)) ∨
    (p.scores.length = p.size ∧ offered.solutions.length = p.size ∧
      offered.scores.length = p.size ∧
      p.merge offered =
        (.ok ((p.slots.zip offered.slots).countP fun (held, slot) => held.score < slot.score),
          ofSlots (p.slots.zipWith Slot.improve offered.slots))) := by
  unfold merge
  dsimp only
  split
  · next length hlength =>
    exact .inl ⟨length, by simpa using List.find?_some hlength, rfl⟩
  · next hnone =>
    have hlengths := List.find?_eq_none.mp hnone
    refine .inr ⟨?_, ?_, ?_, rfl⟩
    · simpa using hlengths p.scores.length (by simp)
    · simpa using hlengths offered.solutions.length (by simp)
    · simpa using hlengths offered.scores.length (by simp)

/-- A merge that answers puts as many slots against those held, and counts what it takes over. -/
theorem merge_inv {p offered after : Population R} {taken : Nat}
    (h : p.merge offered = (.ok taken, after)) :
    p.slots.length = offered.slots.length ∧
    after.slots = p.slots.zipWith Slot.improve offered.slots ∧
    taken = (p.slots.zip offered.slots).countP fun (held, slot) => held.score < slot.score := by
  rcases merge_cases p offered with ⟨_, -, hmerge⟩ | ⟨hscores, hsolutions, hoffered, hmerge⟩
  · rw [hmerge] at h
    cases h
  · rw [hmerge] at h
    obtain ⟨htaken, rfl⟩ := Prod.mk.inj h
    rw [slots_ofSlots, length_slots hscores, length_slots (hoffered.trans hsolutions.symm)]
    exact ⟨hsolutions.symm, rfl, (Except.ok.inj htaken).symm⟩

/-- What was taken over once is not taken over again. -/
theorem zipWith_improve_improve [Weight.StrictlyOrdered R] (held offered : List (Slot R)) :
    (held.zipWith Slot.improve offered).zipWith Slot.improve offered
      = held.zipWith Slot.improve offered := by
  induction held generalizing offered with
  | nil => rfl
  | cons slot rest ih =>
    cases offered with
    | nil => rfl
    | cons challenger others =>
      simp only [List.zipWith_cons_cons, ih, Slot.improve_improve]

/-- A slot after merging is one held before, or one offered that scores higher than one held. -/
theorem mem_zipWith_improve {held offered : List (Slot R)} {slot : Slot R}
    (h : slot ∈ held.zipWith Slot.improve offered) :
    slot ∈ held ∨ slot ∈ offered ∧ ∃ other ∈ held, other.score < slot.score := by
  rw [← List.map_uncurry_zip_eq_zipWith] at h
  obtain ⟨⟨other, challenger⟩, hmem, rfl⟩ := List.mem_map.mp h
  obtain ⟨hother, hchallenger⟩ := List.of_mem_zip hmem
  rw [Function.uncurry_apply_pair]
  rcases Slot.improve_cases other challenger with ⟨himprove, hlt⟩ | ⟨himprove, -⟩
  · rw [himprove]
    exact .inr ⟨hchallenger, other, hother, hlt⟩
  · rw [himprove]
    exact .inl hother

theorem isConsistent_merge {p offered : Population R} (hp : p.IsConsistent strategy g)
    (hoffered : offered.IsConsistent strategy g) :
    (p.merge offered).2.IsConsistent strategy g := by
  rcases merge_cases p offered with ⟨_, -, hmerge⟩ | ⟨-, -, -, hmerge⟩
  · rw [hmerge]
    exact hp
  · rw [hmerge]
    refine isConsistent_ofSlots ?_ ?_ <;> intro slot hmem <;>
      rcases mem_zipWith_improve hmem with hheld | ⟨hfound, -⟩
    · exact hp.scored slot hheld
    · exact hoffered.scored slot hfound
    · exact hp.size_eq slot hheld
    · exact hoffered.size_eq slot hfound

-- ---------------------------------------------------------------------------
-- Searching
-- ---------------------------------------------------------------------------

variable {params : SearchParams}

/-- A search call either is refused and changes nothing, or merges in what it found in each slot
with a seed of its own. -/
theorem searchSlots_inv {p after : Population R} {s s' : σ}
    {answer : Except Refusal (SearchReport R)}
    (h : (p.searchSlots strategy g params).run s = .ok ((answer, after), s')) :
    (∃ refusal, checkSearch g params = .error refusal ∧ answer = .error refusal ∧ after = p ∧
      s = s') ∨
    (checkSearch g params = .ok () ∧ ∃ seeds searched,
      (Draw.replicate p.size Draw.word).run s = .ok (seeds, s') ∧
      List.Forall₂ (fun pair found => pair.1.searchSeeded strategy g params pair.2 = .ok found)
        (p.slots.zip seeds) searched ∧
      after = (p.merge (ofSlots searched)).2 ∧
      answer = (p.merge (ofSlots searched)).1.map
        fun numUpdated => ⟨numUpdated, after.best.map Slot.score⟩) := by
  unfold searchSlots at h
  split at h
  · next refusal hcheck =>
    cases h
    exact .inl ⟨refusal, hcheck, rfl, rfl, rfl⟩
  · next hcheck =>
    obtain ⟨seeds, s₁, hseeds, h⟩ := Draw.bind_inv h
    obtain ⟨searched, s₂, hsearched, h⟩ := Draw.bind_inv h
    obtain ⟨hfound, hsource⟩ := Draw.mapM_lift_inv hsearched
    refine .inr ⟨hcheck, seeds, searched, ?_, hfound, ?_⟩
    · split at h <;> cases h <;> rw [← hsource, hseeds]
    · split at h <;> next hmerge => cases h; rw [hmerge]; exact ⟨rfl, rfl⟩

/-- With a seed for every slot, every slot is searched. -/
theorem found_of_seeds {p : Population R} {s s' : σ} {seeds : List UInt64}
    {searched : List (Slot R)} (h : p.scores.length = p.solutions.length)
    (hseeds : (Draw.replicate p.size Draw.word).run s = .ok (seeds, s'))
    (hfound : List.Forall₂
      (fun pair found => pair.1.searchSeeded strategy g params pair.2 = .ok found)
      (p.slots.zip seeds) searched) :
    List.Forall₂ (fun slot found => ∃ seed,
      slot.searchSeeded strategy g params seed = .ok found) p.slots searched := by
  have hlength : seeds.length = p.slots.length := by
    rw [(Draw.replicate_inv hseeds).1, length_slots h]
  exact forall₂_of_zip
    (fun slot seed found => slot.searchSeeded strategy g params seed = .ok found) hlength hfound

theorem isScored_searchSeeded {slot found : Slot R} {seed : UInt64}
    (hslot : slot.IsScored strategy g)
    (h : slot.searchSeeded strategy g params seed = .ok found) : found.IsScored strategy g := by
  obtain ⟨_, hsearch⟩ := Slot.searchSeeded_inv h
  exact Slot.isScored_search hslot hsearch

theorem size_searchSeeded {slot found : Slot R} {seed : UInt64}
    (h : slot.searchSeeded strategy g params seed = .ok found) :
    found.solution.size = slot.solution.size := by
  obtain ⟨_, hsearch⟩ := Slot.searchSeeded_inv h
  exact Slot.size_search hsearch

/-- What is found in the slots of a consistent population is consistent. -/
theorem isConsistent_found {p : Population R} {searched : List (Slot R)}
    (hp : p.IsConsistent strategy g)
    (h : List.Forall₂ (fun slot found => ∃ seed,
      slot.searchSeeded strategy g params seed = .ok found) p.slots searched) :
    (ofSlots searched).IsConsistent strategy g := by
  refine isConsistent_ofSlots ?_ ?_ <;> intro found hmem <;>
    obtain ⟨slot, hslot, seed, hseed⟩ := exists_of_mem_forall₂ h hmem
  · exact isScored_searchSeeded (hp.scored slot hslot) hseed
  · rw [size_searchSeeded hseed, hp.size_eq slot hslot]

theorem isConsistent_searchSlots {p after : Population R} {s s' : σ}
    {answer : Except Refusal (SearchReport R)} (hp : p.IsConsistent strategy g)
    (h : (p.searchSlots strategy g params).run s = .ok ((answer, after), s')) :
    after.IsConsistent strategy g := by
  rcases searchSlots_inv h with ⟨_, -, -, rfl, -⟩ | ⟨-, seeds, searched, hseeds, hfound, rfl, -⟩
  · exact hp
  · have hsearched := found_of_seeds hp.length_scores hseeds hfound
    exact isConsistent_merge hp (isConsistent_found hp hsearched)

/-- Whatever is found is the slot searched or better, so merging takes it either way. -/
theorem zipWith_improve_found [Weight.StrictlyOrdered R] {slots searched : List (Slot R)}
    (h : List.Forall₂ (fun slot found => ∃ seed,
      slot.searchSeeded strategy g params seed = .ok found) slots searched) :
    slots.zipWith Slot.improve searched = searched := by
  induction h with
  | nil => rfl
  | cons hseed _ ih =>
    obtain ⟨_, hseed⟩ := hseed
    obtain ⟨_, hsearch⟩ := Slot.searchSeeded_inv hseed
    rw [List.zipWith_cons_cons, Slot.improve_searched hsearch, ih]

/-- What a search call leaves when it answers: in every slot just what it found there. -/
structure Searched (strategy : Strategy R) (g : Graph R) (params : SearchParams)
    (p after : Population R) (report : SearchReport R) : Prop where
  length_slots : p.slots.length = p.size
  found : List.Forall₂ (fun slot found => ∃ seed,
    slot.searchSeeded strategy g params seed = .ok found) p.slots after.slots
  numUpdated_eq : report.numUpdated
    = (p.slots.zip after.slots).countP fun (held, found) => held.score < found.score
  bestScore_eq : report.bestScore = after.best.map Slot.score

theorem searched_of_searchSlots [Weight.StrictlyOrdered R] {p after : Population R} {s s' : σ}
    {report : SearchReport R}
    (h : (p.searchSlots strategy g params).run s = .ok ((.ok report, after), s')) :
    Searched strategy g params p after report := by
  rcases searchSlots_inv h with
    ⟨_, -, hanswer, -⟩ | ⟨-, seeds, searched, hseeds, hfound, hafter, hanswer⟩
  · cases hanswer
  · rcases merge_cases p (ofSlots searched) with ⟨_, -, hmerge⟩ | ⟨hscores, -, -, hmerge⟩
    · rw [hmerge] at hanswer
      cases hanswer
    · have hsearched := found_of_seeds hscores hseeds hfound
      rw [hmerge, slots_ofSlots, zipWith_improve_found hsearched] at hafter hanswer
      cases hanswer
      have hafterSlots : after.slots = searched := by
        rw [hafter, slots_ofSlots]
      exact ⟨length_slots hscores, by rwa [hafterSlots], by rw [hafterSlots], rfl⟩

-- ---------------------------------------------------------------------------
-- Sequences of calls
-- ---------------------------------------------------------------------------

/-- The populations that any sequence of calls over one problem and one graph can lead to, the
refused calls included. Each call may draw from a source of its own, and what is merged in has to
be reachable itself. -/
inductive Reachable (strategy : Strategy R) (g : Graph R) : Population R → Prop
  | empty : Reachable strategy g empty
  | load {p q : Population R} {answer : Except Refusal (List R)} (solutions : List Assignment)
      (hp : Reachable strategy g p) (h : p.load strategy g solutions = .ok (answer, q)) :
      Reachable strategy g q
  | sample {σ : Type} [WordSource σ] {p q : Population R} {s s' : σ}
      {answer : Except Refusal (List R)} (numSlots samplesPerSlot : Nat)
      (hp : Reachable strategy g p)
      (h : (p.sample strategy g numSlots samplesPerSlot).run s = .ok ((answer, q), s')) :
      Reachable strategy g q
  | copyBest {p : Population R} (hp : Reachable strategy g p) : Reachable strategy g p.copyBest
  | searchSlots {σ : Type} [WordSource σ] {p q : Population R} {s s' : σ}
      {answer : Except Refusal (SearchReport R)} (params : SearchParams)
      (hp : Reachable strategy g p)
      (h : (p.searchSlots strategy g params).run s = .ok ((answer, q), s')) :
      Reachable strategy g q
  | merge {p offered : Population R} (hp : Reachable strategy g p)
      (hoffered : Reachable strategy g offered) : Reachable strategy g (p.merge offered).2

/-- Every call keeps a population consistent. -/
theorem Reachable.isConsistent {p : Population R} (h : Reachable strategy g p) :
    p.IsConsistent strategy g := by
  induction h with
  | empty => exact isConsistent_empty
  | load solutions _ h ih => exact isConsistent_load ih h
  | sample numSlots samplesPerSlot _ h ih => exact isConsistent_sample ih h
  | copyBest _ ih => exact isConsistent_copyBest ih
  | searchSlots params _ h ih => exact isConsistent_searchSlots ih h
  | merge _ _ ih ihOffered => exact isConsistent_merge ih ihOffered

/-- After any sequence of calls there are as many scores as assignments, every assignment labels
the nodes of the graph, and every score is that of the assignment in its slot. -/
theorem reachable_scores_true {p : Population R} (h : Reachable strategy g p) :
    p.scores.length = p.solutions.length ∧
    (∀ x ∈ p.solutions, x.size = g.numNodes) ∧
    ∀ (i : Nat) (x : Assignment) (score : R),
      p.solutions[i]? = some x → p.scores[i]? = some score →
        strategy.score g x = .ok score := by
  have hp := h.isConsistent
  refine ⟨hp.length_scores, ?_, ?_⟩
  · intro x hx
    obtain ⟨slot, hslot, rfl⟩ := exists_slot_of_mem hp.length_scores hx
    exact hp.size_eq slot hslot
  · intro i x score hx hscore
    exact hp.scored _ (List.mem_of_getElem? (getElem?_slots hx hscore))

/-- A population that was filled with one assignment and searched on the smallest graph. -/
theorem reachable_scores_true_searched :
    Reachable Problem.maxCut.strategy (Graph.singleEdge Float) ⟨[#[true, false]], [1.0]⟩ ∧
    Problem.maxCut.strategy.score (Graph.singleEdge Float) #[true, false] = .ok 1.0 := by
  have hload : (empty : Population Float).load Problem.maxCut.strategy (.singleEdge Float)
      [#[false, false]] = .ok (.ok [-0.0], ⟨[#[false, false]], [-0.0]⟩) := by
    decide +kernel
  have hsearch : ((⟨[#[false, false]], [-0.0]⟩ : Population Float).searchSlots
      Problem.maxCut.strategy (.singleEdge Float) ⟨1, 2, 0.3⟩).run (Tape.start [5] 7)
      = .ok ((.ok ⟨1, some 1.0⟩, ⟨[#[true, false]], [1.0]⟩), ⟨[], .ofSeed 7, 1⟩) := by
    decide +kernel
  have h := Reachable.searchSlots ⟨1, 2, 0.3⟩ (.load [#[false, false]] .empty hload) hsearch
  exact ⟨h, (reachable_scores_true h).2.2 0 #[true, false] 1.0 rfl rfl⟩

end Population

end CutCover.LocalSearch
