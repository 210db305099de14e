import CutCover.Proofs.LocalSearch.Report
import Mathlib.Data.UInt

/-!
# CutCover — how patient a run is

A round waits for a search call that improves a slot, and a restart for a round that brings a new
best. Both loops give up once more steps than their patience have passed since the last success, so
that after a success one idle step more than the patience is made, and no more. Before the first
success they count from their first step, as if that had been a success. It may have been idle
itself, and then one idle step more still is made: a round may begin with such a stretch, and so
may every restart but the first, whose first round always brings a new best.

* `StretchesWithin`                — how long a stretch of idle steps may be.
* `Paced`, `Paced.le_or_eq`        — the steps of a loop with patience, and their stretches.
* `searchCalls_paced`, `runRounds_paced`, `runRestarts_paced` — the loops of a run.
* `Journal.StaysWithin`            — the stretches of a whole run.
* `explore_staysWithin_iff`        — when a run keeps its patience.
-/

namespace CutCover.LocalSearch

-- ---------------------------------------------------------------------------
-- Loops with patience
-- ---------------------------------------------------------------------------

section Stretches

variable {α : Type} {patience waited n : Nat} {idle : α} {steps : List α}

/-- No stretch of idle steps is longer than `limit`. -/
def StretchesWithin (limit : Nat) (idle : α) (steps : List α) : Prop :=
  ∀ n, List.replicate n idle <:+: steps → n ≤ limit

/-- The steps that a loop makes from one on that comes `waited` steps after the last success, and
up to the first idle one that comes more than `patience` steps after it, or fewer. -/
inductive Paced (patience : Nat) (idle : α) : (waited : Nat) → List α → Prop
  | done {waited : Nat} : Paced patience idle waited []
  | success {waited : Nat} {step : α} {rest : List α} (hstep : step ≠ idle)
    (hrest : Paced patience idle 1 rest) : Paced patience idle waited (step :: rest)
  | wait {waited : Nat} {rest : List α} (hrest : Paced patience idle (waited + 1) rest)
    (hpatient : waited ≤ patience) : Paced patience idle waited (idle :: rest)
  | giveUp {waited : Nat} (h : patience < waited) : Paced patience idle waited [idle]

/-- What a loop has left of its patience bounds the stretch it begins with. -/
theorem Paced.prefix_le (h : Paced patience idle waited steps) (hwaited : waited ≤ patience + 1)
    (hn : List.replicate n idle <+: steps) : n + waited ≤ patience + 2 := by
  induction h generalizing n with
  | done =>
    have hlength := hn.length_le
    simp only [List.length_replicate, List.length_nil] at hlength
    omega
  | success hstep _ _ =>
    cases n with
    | zero => omega
    | succ n =>
      rw [List.replicate_succ, List.cons_prefix_cons] at hn
      exact absurd hn.1.symm hstep
  | wait _ hpatient ih =>
    cases n with
    | zero => omega
    | succ n =>
      rw [List.replicate_succ, List.cons_prefix_cons] at hn
      have hrest := ih (by omega) hn.2
      omega
  | giveUp _ =>
    have hlength := hn.length_le
    simp only [List.length_replicate, List.length_cons, List.length_nil] at hlength
    omega

/-- A loop that begins with as long a stretch as it may makes no other step. -/
theorem Paced.eq_of_prefix (h : Paced patience idle waited steps) (hwaited : waited ≤ patience + 1)
    (hn : List.replicate n idle <+: steps) (hall : n + waited = patience + 2) :
    steps = List.replicate n idle := by
  induction h generalizing n with
  | done => exact (List.prefix_nil.mp hn).symm
  | success hstep _ _ =>
    obtain ⟨n, rfl⟩ := Nat.exists_eq_succ_of_ne_zero (show n ≠ 0 by omega)
    rw [List.replicate_succ, List.cons_prefix_cons] at hn
    exact absurd hn.1.symm hstep
  | wait _ hpatient ih =>
    obtain ⟨n, rfl⟩ := Nat.exists_eq_succ_of_ne_zero (show n ≠ 0 by omega)
    rw [List.replicate_succ, List.cons_prefix_cons] at hn
    rw [List.replicate_succ, ih (by omega) hn.2 (by omega)]
  | giveUp hover =>
    have hn : n = 1 := by omega
    rw [hn, List.replicate_one]

/-- After a success, one idle step more than the patience is made at most. -/
theorem Paced.stretchesWithin (h : Paced patience idle waited steps) (hpos : 0 < waited)
    (hwaited : waited ≤ patience + 1) : StretchesWithin (patience + 1) idle steps := by
  intro n hn
  induction h with
  | done =>
    have hlength := hn.length_le
    simp only [List.length_replicate, List.length_nil] at hlength
    omega
  | success hstep hrest ih =>
    rcases List.infix_cons_iff.mp hn with hn | hn
    · have hle := (Paced.success hstep hrest).prefix_le hwaited hn
      omega
    · exact ih Nat.one_pos (by omega) hn
  | wait hrest hpatient ih =>
    rcases List.infix_cons_iff.mp hn with hn | hn
    · have hle := (Paced.wait hrest hpatient).prefix_le hwaited hn
      omega
    · exact ih (by omega) (by omega) hn
  | giveUp hover =>
    have hlength := hn.length_le
    simp only [List.length_replicate, List.length_cons, List.length_nil] at hlength
    omega

/-- From its first step on a loop makes one idle step more than the patience at a time, unless it
makes two more and nothing else. -/
theorem Paced.le_or_eq (h : Paced patience idle 0 steps)
    (hn : List.replicate n idle <:+: steps) :
    n ≤ patience + 1 ∨ n = patience + 2 ∧ steps = List.replicate (patience + 2) idle := by
  have hprefix (hn : List.replicate n idle <+: steps) :
      n ≤ patience + 1 ∨ n = patience + 2 ∧ steps = List.replicate (patience + 2) idle := by
    have hle := h.prefix_le (Nat.zero_le _) hn
    rcases Nat.lt_or_eq_of_le hle with hlt | heq
    · exact .inl (by omega)
    · rw [Nat.add_zero] at heq
      subst heq
      exact .inr ⟨rfl, h.eq_of_prefix (Nat.zero_le _) hn rfl⟩
  cases h with
  | done => exact hprefix (List.infix_nil.mp hn ▸ List.prefix_rfl)
  | success hstep hrest =>
    rcases List.infix_cons_iff.mp hn with hn | hn
    · exact hprefix hn
    · exact .inl (hrest.stretchesWithin Nat.one_pos (by omega) n hn)
  | wait hrest hpatient =>
    rcases List.infix_cons_iff.mp hn with hn | hn
    · exact hprefix hn
    · exact .inl (hrest.stretchesWithin Nat.one_pos (by omega) n hn)
  | giveUp hover => exact absurd hover (Nat.not_lt_zero patience)

theorem Paced.stretchesWithin_succ (h : Paced patience idle 0 steps) :
    StretchesWithin (patience + 2) idle steps := by
  intro n hn
  rcases h.le_or_eq hn with hle | ⟨rfl, -⟩
  · omega
  · exact Nat.le_refl _

theorem Paced.stretchesWithin_iff (h : Paced patience idle 0 steps) :
    StretchesWithin (patience + 1) idle steps ↔
      steps ≠ List.replicate (patience + 2) idle := by
  constructor
  · rintro hwithin rfl
    exact absurd (hwithin _ List.infix_rfl) (by omega)
  · intro hne n hn
    rcases h.le_or_eq hn with hle | ⟨-, heq⟩
    · exact hle
    · exact absurd heq hne

end Stretches

variable {R σ : Type} [Weight R] [WordSource σ]
variable {strategy : Strategy R} {g : Graph R} {config : Config}

-- ---------------------------------------------------------------------------
-- The search calls of a round
-- ---------------------------------------------------------------------------

/-- The calls of a round are idle where they improve no slot. -/
theorem searchCalls_paced {calls call lastImproved : Nat} {pair : Pair R}
    (hle : lastImproved ≤ call) :
    Attempt.Meets (fun _ => True) (fun _ => True)
      (searchCalls strategy g config calls call lastImproved pair
        : Attempt σ (List Nat × Population R))
      fun answer => Paced config.innerPatience 0 (call - lastImproved) answer.1 := by
  induction calls generalizing call lastImproved pair with
  | zero => exact .pure .done
  | succ calls ih =>
    refine (Attempt.Meets.any (searchOnce strategy g config pair)).bind ?_
    rintro ⟨taken, after⟩ -
    dsimp only
    split
    · next htaken =>
      refine (ih (Nat.le_add_right call 1)).bind fun others hothers => .pure ?_
      rw [Nat.add_sub_cancel_left] at hothers
      exact .success (Nat.ne_of_gt htaken) hothers
    · next htaken =>
      obtain rfl : taken = 0 := by omega
      refine .lift_ok_bind (difference_of_le hle) ?_
      split
      · next hover => exact .pure (.giveUp hover)
      · next hpatient =>
        refine (ih (Nat.le_add_right_of_le hle)).bind fun others hothers => .pure ?_
        rw [Nat.sub_add_comm hle] at hothers
        exact .wait hothers (Nat.not_lt.mp hpatient)

theorem runRound_paced {best : Population R} :
    Attempt.Meets (fun _ => True) (fun _ => True)
      (runRound strategy g config best : Attempt σ (List Nat × Population R))
      fun answer => Paced config.innerPatience 0 0 answer.1 := by
  rw [runRound]
  refine (Attempt.Meets.any _).bind fun perturbed _ => ?_
  refine (Attempt.Meets.any _).bind fun loaded _ => ?_
  refine (Attempt.Meets.any _).bind fun scores _ => ?_
  exact searchCalls_paced (Nat.le_refl 0)

-- ---------------------------------------------------------------------------
-- The rounds of a restart
-- ---------------------------------------------------------------------------

/-- Rounds with patience, each of search calls with patience; the first comes `waited` rounds after
the last new best. -/
structure IsPaced (config : Config) (waited : Nat) (entries : List RoundEntry) : Prop where
  rounds : Paced config.roundPatience false waited (entries.map RoundEntry.newBest)
  searches : ∀ entry ∈ entries, Paced config.innerPatience 0 0 entry.improved

theorem isPaced_nil {waited : Nat} : IsPaced config waited [] :=
  ⟨.done, fun _ hentry => absurd hentry List.not_mem_nil⟩

/-- Without an incumbent the first offer is taken. -/
theorem Incumbent.offer_of_none {incumbent : Incumbent R} (h : incumbent.best = none) (round : Nat)
    (slot : Slot R) : (incumbent.offer round slot).1 = true := by
  rw [offer, declines, bestScore, h]
  rfl

/-- Rounds are idle where they bring no new best; if there was none at all, the first brings one. -/
theorem runRounds_paced (hconfig : config.Positive) (hspin : config.numSpin ≤ g.numNodes)
    {before rounds round lastImproved : Nat} {best : Population R} {incumbent : Incumbent R}
    (hle : lastImproved ≤ round) (hbest : best.IsFilled strategy g config.numSlots) :
    Attempt.Meets (strategy.SearchAborts g) (fun _ => False)
      (runRounds strategy g config before rounds round lastImproved best incumbent
        : Attempt σ (List RoundEntry × Incumbent R))
      fun answer => IsPaced config (round - lastImproved) answer.1 ∧
        (incumbent.best = none → ∀ entry ∈ answer.1.head?, entry.newBest = true) := by
  induction rounds generalizing round lastImproved best incumbent with
  | zero => exact .pure ⟨isPaced_nil, fun _ _ h => absurd h (by simp)⟩
  | succ rounds ih =>
    rw [runRounds]
    refine ((runRound_meets hconfig hspin hbest).and runRound_paced).bind ?_
    rintro ⟨improved, after⟩ ⟨⟨hafter, -⟩, hpaced⟩
    -- there is a slot to offer, so that idle rounds are counted
    obtain ⟨slot, hslot, -⟩ := hafter.exists_best hconfig.numSlots
    dsimp only
    rw [hslot, Option.map_some]
    cases hoffer : incumbent.offer (before + round) slot with
    | mk taken held =>
      have hnone (h : incumbent.best = none) : taken = true := by
        rw [← incumbent.offer_of_none h (before + round) slot, hoffer]
      cases taken with
      | true =>
        refine (ih (Nat.le_add_right round 1) hafter).bind ?_
        rintro ⟨entries, final⟩ ⟨hentries, -⟩
        rw [Nat.add_sub_cancel_left] at hentries
        refine .pure ⟨⟨.success (by simp) hentries.rounds, ?_⟩, fun _ _ h => by cases h; rfl⟩
        exact List.forall_mem_cons.mpr ⟨hpaced, hentries.searches⟩
      | false =>
        refine .lift_ok_bind (difference_of_le hle) ?_
        split
        · next hover =>
          refine .pure ⟨⟨.giveUp hover, List.forall_mem_singleton.mpr hpaced⟩, fun h => ?_⟩
          exact absurd (hnone h) Bool.false_ne_true
        · next hpatient =>
          refine (ih (Nat.le_add_right_of_le hle) hafter).bind ?_
          rintro ⟨entries, final⟩ ⟨hentries, -⟩
          rw [Nat.sub_add_comm hle] at hentries
          refine .pure ⟨⟨.wait hentries.rounds (Nat.not_lt.mp hpatient), ?_⟩, fun h => ?_⟩
          · exact List.forall_mem_cons.mpr ⟨hpaced, hentries.searches⟩
          · exact absurd (hnone h) Bool.false_ne_true

-- ---------------------------------------------------------------------------
-- The restarts
-- ---------------------------------------------------------------------------

/-- Every restart counts its rounds anew. Only the first begins with a new best in any case. -/
theorem runRestarts_paced (hconfig : config.Positive) (hspin : config.numSpin ≤ g.numNodes)
    {restarts before : Nat} {incumbent : Incumbent R} :
    Attempt.Meets (strategy.SearchAborts g) (fun _ => False)
      (runRestarts strategy g config restarts before incumbent
        : Attempt σ (Journal × Incumbent R))
      fun answer => (∀ entries ∈ answer.1, IsPaced config 0 entries) ∧
        (incumbent.best = none →
          ∀ entries ∈ answer.1.head?, ∀ entry ∈ entries.head?, entry.newBest = true) := by
  induction restarts generalizing before incumbent with
  | zero =>
    exact .pure ⟨fun _ hentries => absurd hentries List.not_mem_nil,
      fun _ _ h => absurd h (by simp)⟩
  | succ restarts ih =>
    rw [runRestarts]
    refine (runRestart_meets_of_rounds fun best hbest =>
      runRounds_paced hconfig hspin (Nat.le_refl 0) hbest).bind ?_
    rintro ⟨entries, held⟩ ⟨hentries, hfirst⟩
    refine ih.bind ?_
    rintro ⟨others, last⟩ ⟨hothers, -⟩
    refine .pure ⟨List.forall_mem_cons.mpr ⟨hentries, hothers⟩, ?_⟩
    rintro hnone _ ⟨⟩
    exact hfirst hnone

-- ---------------------------------------------------------------------------
-- Runs
-- ---------------------------------------------------------------------------

/-- In no round more search calls in a row improve no slot than the patience of a round and
`excess`, and in no restart more rounds in a row bring no new best than that of a restart and
`excess`. -/
def Journal.StaysWithin (config : Config) (excess : Nat) (journal : Journal) : Prop :=
  ∀ entries ∈ journal,
    StretchesWithin (config.roundPatience + excess) false (entries.map RoundEntry.newBest) ∧
    ∀ entry ∈ entries, StretchesWithin (config.innerPatience + excess) 0 entry.improved

/-- A run makes one idle step more than its patience at a time, unless a round makes two more calls
and no other, or a restart after the first two more rounds and no other. No stretch is longer. -/
theorem explore_staysWithin_iff {journal : Journal} {incumbent : Incumbent R} {source source' : σ}
    (h : (explore strategy g config).run.run source
      = .ok (.ok (journal, incumbent), source')) :
    (journal.StaysWithin config 1 ↔
      (∀ entries ∈ journal.tail, entries.map RoundEntry.newBest
        ≠ List.replicate (config.roundPatience + 2) false) ∧
      ∀ entries ∈ journal, ∀ entry ∈ entries,
        entry.improved ≠ List.replicate (config.innerPatience + 2) 0) ∧
    journal.StaysWithin config 2 := by
  obtain ⟨⟨⟩, hcheck, hrun⟩ := Attempt.ofExcept_bind_inv h
  obtain ⟨hconfig, -, hspin⟩ := checkRun_inv hcheck
  obtain ⟨hpaced, hfirst⟩ := (runRestarts_paced hconfig hspin).of_run hrun
  refine ⟨⟨fun hwithin => ⟨fun entries hentries => ?_, fun entries hentries entry hentry => ?_⟩,
    ?_⟩, fun entries hentries => ?_⟩
  · have hmem := List.mem_of_mem_tail hentries
    exact (hpaced entries hmem).rounds.stretchesWithin_iff.mp (hwithin entries hmem).1
  · have hsearches := (hpaced entries hentries).searches entry hentry
    exact hsearches.stretchesWithin_iff.mp ((hwithin entries hentries).2 entry hentry)
  · rintro ⟨hrounds, hcalls⟩ entries hentries
    refine ⟨(hpaced entries hentries).rounds.stretchesWithin_iff.mpr ?_, fun entry hentry => ?_⟩
    · cases journal with
      | nil => exact absurd hentries List.not_mem_nil
      | cons first rest =>
        rcases List.mem_cons.mp hentries with rfl | hentries
        · -- the first round of all brings a new best
          intro hidle
          cases entries with
          | nil => cases hidle
          | cons entry others =>
            rw [List.map_cons, List.replicate_succ, List.cons.injEq] at hidle
            have hnew := hfirst rfl _ rfl entry rfl
            rw [hidle.1] at hnew
            cases hnew
        · exact hrounds entries hentries
    · exact ((hpaced entries hentries).searches entry hentry).stretchesWithin_iff.mpr
        (hcalls entries hentries entry hentry)
  · exact ⟨(hpaced entries hentries).rounds.stretchesWithin_succ, fun entry hentry =>
      ((hpaced entries hentries).searches entry hentry).stretchesWithin_succ⟩

omit [Weight R] [WordSource σ] in
/-- The journal alone can be computed; the incumbent comes along. -/
theorem exists_explored {answer : Checked (Except Refusal (Journal × Incumbent R) × σ)}
    {journal : Journal} (h : answer.map (fun found => found.1.map Prod.fst) = .ok (.ok journal)) :
    ∃ incumbent source', answer = .ok (.ok (journal, incumbent), source') := by
  rcases answer with abort | ⟨refusal | ⟨found, incumbent⟩, source'⟩
  · cases h
  · cases h
  · cases h
    exact ⟨incumbent, source', rfl⟩

/-- One round of one search call is within all patience. -/
theorem explore_staysWithin_iff_singleEdge : ∃ journal incumbent source',
    (explore Problem.maxCut.strategy (.singleEdge Float) .smallest).run.run
      (Tape.start [1, 2, 3, 4] 7) = .ok (.ok (journal, incumbent), source') ∧
    journal.StaysWithin .smallest 1 := by
  obtain ⟨incumbent, source', hrun⟩ := exists_explored (show
    ((explore Problem.maxCut.strategy (.singleEdge Float) .smallest).run.run
      (Tape.start [1, 2, 3, 4] 7)).map (fun found => found.1.map Prod.fst)
        = .ok (.ok [[⟨[1], true⟩]]) by decide +kernel)
  refine ⟨_, incumbent, source', hrun, (explore_staysWithin_iff hrun).1.mpr ?_⟩
  decide

/-- Two restarts of one slot, no perturbation, and no patience. -/
def Config.impatient : Config where
  numSlots := 1
  numRestarts := 2
  numRounds := 5
  roundPatience := 0
  numInner := 5
  innerPatience := 0
  numPerturb := 0
  numIters := 0
  numSpin := 1
  noiseStd := 0.0

/-- Both restarts begin with the best cut of the smallest graph. Two search calls in a row improve
nothing where one was to be made, and so do two rounds of the second restart. -/
theorem explore_overstays_singleEdge : ∃ journal incumbent source',
    (explore Problem.maxCut.strategy (.singleEdge Float) .impatient).run.run
      (Tape.start [0, 2 ^ 63, 0, 0, 0, 2 ^ 63, 0, 2 ^ 63] 7)
        = .ok (.ok (journal, incumbent), source') ∧
    journal = [[⟨[0, 0], true⟩, ⟨[0, 0], false⟩], [⟨[0, 0], false⟩, ⟨[0, 0], false⟩]] ∧
    ¬ journal.StaysWithin .impatient 1 := by
  obtain ⟨incumbent, source', hrun⟩ := exists_explored (show
    ((explore Problem.maxCut.strategy (.singleEdge Float) .impatient).run.run
      (Tape.start [0, 2 ^ 63, 0, 0, 0, 2 ^ 63, 0, 2 ^ 63] 7)).map
        (fun found => found.1.map Prod.fst)
        = .ok (.ok [[⟨[0, 0], true⟩, ⟨[0, 0], false⟩], [⟨[0, 0], false⟩, ⟨[0, 0], false⟩]])
      by decide +kernel)
  refine ⟨_, incumbent, source', hrun, rfl, fun hwithin => ?_⟩
  have hround := (hwithin _ (List.mem_cons_of_mem _ (List.mem_singleton_self _))).1
  exact absurd (hround 2 List.infix_rfl) (by decide)

end CutCover.LocalSearch
