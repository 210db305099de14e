import CutCover.Proofs.LocalSearch.Incumbent
import CutCover.Proofs.LocalSearch.Optimum
import CutCover.Proofs.LocalSearch.Outcomes
import CutCover.Proofs.LocalSearch.Run

/-!
# CutCover — when a run is refused, and what it reports

A run is refused by its checks, before the first draw, or not at all: everything that a later part
could be refused for is ruled out by what the checks let through. What a run reports follows from
its parts, each of which keeps the populations filled, offers one slot to the incumbent in every
round, and leaves an entry in the journal.

* `Pair.IsFilled`, `searchCalls_meets`, `runRound_meets` — a round.
* `runRounds_meets`, `runRestarts_meets`                 — the rounds and the restarts.
* `IsRefusedFor`, `checkRun_cases`                       — the checks.
* `Result.IsSound`                                       — what is true of every report.
* `runOn_outcomes`                                       — the run.
* `runOn_ensures`                                        — with one of the four problems it answers.
-/

namespace CutCover.LocalSearch

variable {R σ : Type} [Weight R] [WordSource σ]
variable {strategy : Strategy R} {g : Graph R} {config : Config}

-- ---------------------------------------------------------------------------
-- Rounds
-- ---------------------------------------------------------------------------

/-- Both populations are filled. -/
structure Pair.IsFilled (strategy : Strategy R) (g : Graph R) (numSlots : Nat) (pair : Pair R) :
    Prop where
  best : pair.best.IsFilled strategy g numSlots
  search : pair.search.IsFilled strategy g numSlots

theorem searchOnce_meets (hconfig : config.Positive) (hspin : config.numSpin ≤ g.numNodes)
    {pair : Pair R} (hpair : pair.IsFilled strategy g config.numSlots) :
    Attempt.Meets (strategy.SearchAborts g) (fun _ => False)
      (searchOnce strategy g config pair : Attempt σ (Nat × Pair R))
      fun answer => answer.2.IsFilled strategy g config.numSlots := by
  have hsearched : Draw.Meets (strategy.SearchAborts g)
      (pair.search.searchSlots strategy g config.searchParams
        : Draw σ (Except Refusal (SearchReport R) × Population R)) _ :=
    Population.searchSlots_meets hpair.search hspin hconfig.noise
  rw [searchOnce]
  refine (Attempt.Meets.lift hsearched).bind ?_
  rintro ⟨_, search⟩ ⟨⟨report, rfl⟩, hsearch⟩
  obtain ⟨taken, best, hmerge, hbest⟩ := hpair.best.merge hsearch
  refine .ofExcept_bind rfl ?_
  rw [hmerge]
  exact .ofExcept_bind rfl (.pure ⟨hbest, hsearch⟩)

/-- The search calls of a round keep the best population filled, and there is one unless none was
asked for. -/
theorem searchCalls_meets (hconfig : config.Positive) (hspin : config.numSpin ≤ g.numNodes)
    {calls call lastImproved : Nat} {pair : Pair R} (hle : lastImproved ≤ call)
    (hpair : pair.IsFilled strategy g config.numSlots) :
    Attempt.Meets (strategy.SearchAborts g) (fun _ => False)
      (searchCalls strategy g config calls call lastImproved pair
        : Attempt σ (List Nat × Population R))
      fun answer => answer.2.IsFilled strategy g config.numSlots ∧
        (0 < calls → 0 < answer.1.length) ∧ answer.1.length ≤ calls := by
  induction calls generalizing call lastImproved pair with
  | zero => exact .pure ⟨hpair.best, fun h => absurd h (Nat.lt_irrefl 0), Nat.le_refl 0⟩
  | succ calls ih =>
    refine (searchOnce_meets hconfig hspin hpair).bind ?_
    rintro ⟨taken, after⟩ hafter
    -- the calls that follow, with the same bound wherever the last improvement was
    have hothers {improved : Nat} (himproved : improved ≤ call + 1) :
        Attempt.Meets (strategy.SearchAborts g) (fun _ => False)
          (searchCalls strategy g config calls (call + 1) improved after >>= fun others =>
            (pure (taken :: others.1, others.2) : Attempt σ (List Nat × Population R)))
          fun answer => answer.2.IsFilled strategy g config.numSlots ∧
            (0 < calls + 1 → 0 < answer.1.length) ∧ answer.1.length ≤ calls + 1 := by
      refine (ih himproved hafter).bind fun others hothers => .pure ⟨hothers.1, ?_, ?_⟩
      · exact fun _ => Nat.succ_pos _
      · exact Nat.succ_le_succ hothers.2.2
    dsimp only
    split
    · exact hothers (Nat.le_succ call)
    · refine .lift_ok_bind (difference_of_le hle) ?_
      split
      · exact .pure ⟨hafter.best, fun _ => Nat.succ_pos 0, Nat.succ_le_succ (Nat.zero_le calls)⟩
      · exact hothers (Nat.le_succ_of_le hle)

/-- As many copies of the best slot are perturbed as there are slots. -/
theorem perturbCopies_ensures (hconfig : config.Positive) (hspin : config.numSpin ≤ g.numNodes)
    {best : Population R} (hbest : best.IsFilled strategy g config.numSlots) :
    Draw.Ensures False (Assignment.perturbAll g.numNodes config.numPerturb
        best.copyBest.solutions : Draw σ (List Assignment))
      fun xs => xs.length = config.numSlots ∧ ∀ x ∈ xs, x.size = g.numNodes := by
  have hnodes : 0 < g.numNodes := Nat.lt_of_lt_of_le hconfig.numSpin hspin
  refine (Assignment.perturbAll_ensures hnodes (fun _ hx => hbest.copyBest.size_of_mem hx)
    config.numPerturb).mono ?_
  rintro xs ⟨hlength, hsize⟩
  exact ⟨hlength.trans hbest.copyBest.size_eq, hsize⟩

/-- A round keeps the best population filled, and makes a search call and no more than it may. -/
theorem runRound_meets (hconfig : config.Positive) (hspin : config.numSpin ≤ g.numNodes)
    {best : Population R} (hbest : best.IsFilled strategy g config.numSlots) :
    Attempt.Meets (strategy.SearchAborts g) (fun _ => False)
      (runRound strategy g config best : Attempt σ (List Nat × Population R))
      fun answer => answer.2.IsFilled strategy g config.numSlots ∧
        0 < answer.1.length ∧ answer.1.length ≤ config.numInner := by
  rw [runRound]
  refine (Attempt.Meets.lift ((perturbCopies_ensures hconfig hspin hbest).meets False.elim)).bind ?_
  rintro perturbed ⟨hlength, hsize⟩
  refine (Attempt.Meets.lift (.lift (Population.load_meets Population.isConsistent_empty
    hsize))).bind ?_
  rintro ⟨_, search⟩ ⟨⟨scores, rfl⟩, hsearch⟩
  refine .ofExcept_bind rfl ?_
  rw [hlength] at hsearch
  refine (searchCalls_meets hconfig hspin (Nat.le_refl 0) ⟨hbest.copyBest, hsearch⟩).mono ?_
  exact fun answer hanswer => ⟨hanswer.1, hanswer.2.1 hconfig.numInner, hanswer.2.2⟩

theorem isFilled_of_runRound (hconfig : config.Positive) (hspin : config.numSpin ≤ g.numNodes)
    {best after : Population R} {improved : List Nat} {s s' : σ}
    (hbest : best.IsFilled strategy g config.numSlots)
    (h : (runRound strategy g config best).run.run s = .ok (.ok (improved, after), s')) :
    after.IsFilled strategy g config.numSlots :=
  ((runRound_meets hconfig hspin hbest).of_run h).1

-- ---------------------------------------------------------------------------
-- Restarts
-- ---------------------------------------------------------------------------

/-- The rounds of a restart leave an entry each and offer a slot to the incumbent each; and there
is one unless none was asked for. -/
theorem runRounds_meets (hconfig : config.Positive) (hspin : config.numSpin ≤ g.numNodes)
    {before rounds round lastImproved : Nat} {best : Population R} {incumbent : Incumbent R}
    (hle : lastImproved ≤ round) (hbest : best.IsFilled strategy g config.numSlots)
    (hincumbent : incumbent.Offered strategy g (before + round)) :
    Attempt.Meets (strategy.SearchAborts g) (fun _ => False)
      (runRounds strategy g config before rounds round lastImproved best incumbent
        : Attempt σ (List RoundEntry × Incumbent R))
      fun answer => answer.2.Offered strategy g (before + round + answer.1.length) ∧
        (0 < rounds → 0 < answer.1.length) ∧ answer.1.length ≤ rounds ∧
        ∀ entry ∈ answer.1, entry.IsWithin config := by
  induction rounds generalizing round lastImproved best incumbent with
  | zero =>
    exact .pure ⟨hincumbent, fun h => absurd h (Nat.lt_irrefl 0), Nat.le_refl 0,
      fun entry hentry => absurd hentry List.not_mem_nil⟩
  | succ rounds ih =>
    rw [runRounds]
    refine (runRound_meets hconfig hspin hbest).bind ?_
    rintro ⟨improved, after⟩ ⟨hafter, hcalls⟩
    obtain ⟨slot, hslot, hscored, hsize⟩ := hafter.exists_best hconfig.numSlots
    have hoffered := hincumbent.next hscored hsize
    dsimp only
    rw [hslot, Option.map_some]
    cases hoffer : incumbent.offer (before + round) slot with
    | mk taken held =>
      rw [hoffer] at hoffered
      -- the rounds that follow, with the same bound wherever the last improvement was
      have hothers {last : Nat} (newBest : Bool) (hlast : last ≤ round + 1) :
          Attempt.Meets (strategy.SearchAborts g) (fun _ => False)
            (runRounds strategy g config before rounds (round + 1) last after held >>= fun others =>
              (pure (⟨improved, newBest⟩ :: others.1, others.2)
                : Attempt σ (List RoundEntry × Incumbent R)))
            fun answer => answer.2.Offered strategy g (before + round + answer.1.length) ∧
              (0 < rounds + 1 → 0 < answer.1.length) ∧ answer.1.length ≤ rounds + 1 ∧
              ∀ entry ∈ answer.1, entry.IsWithin config := by
        refine (ih hlast hafter hoffered).bind ?_
        rintro ⟨entries, final⟩ ⟨hfinal, -, hlength, hwithin⟩
        refine .pure ⟨?_, fun _ => Nat.succ_pos _, Nat.succ_le_succ hlength, ?_⟩
        · have hcount : before + (round + 1) + entries.length
              = before + round + (entries.length + 1) := by omega
          rw [hcount] at hfinal
          exact hfinal
        · exact List.forall_mem_cons.mpr ⟨hcalls, hwithin⟩
      cases taken with
      | true => exact hothers true (Nat.le_succ round)
      | false =>
        refine .lift_ok_bind (difference_of_le hle) ?_
        split
        · exact .pure ⟨hoffered, fun _ => Nat.succ_pos 0, Nat.succ_le_succ (Nat.zero_le rounds),
            List.forall_mem_singleton.mpr hcalls⟩
        · exact hothers false (Nat.le_succ_of_le hle)

/-- A restart makes its rounds from a population that is filled. -/
theorem runRestart_meets_of_rounds {before : Nat} {incumbent : Incumbent R}
    {post : List RoundEntry × Incumbent R → Prop}
    (hrounds : ∀ best : Population R, best.IsFilled strategy g config.numSlots →
      Attempt.Meets (strategy.SearchAborts g) (fun _ => False)
        (runRounds strategy g config before config.numRounds 0 0 best incumbent
          : Attempt σ (List RoundEntry × Incumbent R)) post) :
    Attempt.Meets (strategy.SearchAborts g) (fun _ => False)
      (runRestart strategy g config before incumbent
        : Attempt σ (List RoundEntry × Incumbent R)) post := by
  have hrandom : Draw.Ensures False (Draw.replicate config.numSlots
      (Assignment.random g.numNodes) : Draw σ (List Assignment)) fun xs =>
        xs.length = config.numSlots ∧ ∀ x ∈ xs, x.size = g.numNodes :=
    Draw.replicate_ensures (Assignment.random_ensures g.numNodes) config.numSlots
  rw [runRestart]
  refine (Attempt.Meets.lift (hrandom.meets False.elim)).bind ?_
  rintro start ⟨hlength, hsize⟩
  refine (Attempt.Meets.lift (.lift (Population.load_meets Population.isConsistent_empty
    hsize))).bind ?_
  rintro ⟨_, best⟩ ⟨⟨scores, rfl⟩, hbest⟩
  refine .ofExcept_bind rfl ?_
  rw [hlength] at hbest
  exact hrounds best hbest

/-- A restart is one within the limits of the parameters. -/
theorem runRestart_meets (hconfig : config.Positive) (hspin : config.numSpin ≤ g.numNodes)
    {before : Nat} {incumbent : Incumbent R}
    (hincumbent : incumbent.Offered strategy g before) :
    Attempt.Meets (strategy.SearchAborts g) (fun _ => False)
      (runRestart strategy g config before incumbent
        : Attempt σ (List RoundEntry × Incumbent R))
      fun answer => answer.2.Offered strategy g (before + answer.1.length) ∧
        IsRestart config answer.1 := by
  refine runRestart_meets_of_rounds fun best hbest => ?_
  refine (runRounds_meets hconfig hspin (Nat.le_refl 0) hbest hincumbent).mono ?_
  rintro ⟨entries, last⟩ ⟨hlast, hpos, hle, hwithin⟩
  exact ⟨hlast, hpos hconfig.numRounds, hle, hwithin⟩

theorem runRestarts_meets (hconfig : config.Positive) (hspin : config.numSpin ≤ g.numNodes)
    {restarts before : Nat} {incumbent : Incumbent R}
    (hincumbent : incumbent.Offered strategy g before) :
    Attempt.Meets (strategy.SearchAborts g) (fun _ => False)
      (runRestarts strategy g config restarts before incumbent
        : Attempt σ (Journal × Incumbent R))
      fun answer => answer.2.Offered strategy g (before + answer.1.rounds) ∧
        answer.1.length = restarts ∧ ∀ entries ∈ answer.1, IsRestart config entries := by
  induction restarts generalizing before incumbent with
  | zero => exact .pure ⟨hincumbent, rfl, fun entries h => absurd h List.not_mem_nil⟩
  | succ restarts ih =>
    rw [runRestarts]
    refine (runRestart_meets hconfig hspin hincumbent).bind ?_
    rintro ⟨entries, held⟩ ⟨hheld, hentries⟩
    refine (ih hheld).bind ?_
    rintro ⟨others, last⟩ ⟨hlast, hlength, hothers⟩
    refine .pure ⟨?_, congrArg Nat.succ hlength, List.forall_mem_cons.mpr ⟨hentries, hothers⟩⟩
    have hcount : before + entries.length + Journal.rounds others
        = before + Journal.rounds (entries :: others) := by
      rw [Journal.rounds, Journal.rounds, List.flatten_cons, List.length_append]
      omega
    rw [hcount] at hlast
    exact hlast

-- ---------------------------------------------------------------------------
-- Checks
-- ---------------------------------------------------------------------------

/-- The check of the parameters lets through what it should. -/
theorem validate_eq_ok_iff : config.validate = .ok () ↔ config.Positive := by
  refine ⟨positive_of_validate, fun h => ?_⟩
  have hslots := Nat.ne_of_gt h.numSlots
  have hrestarts := Nat.ne_of_gt h.numRestarts
  have hrounds := Nat.ne_of_gt h.numRounds
  have hinner := Nat.ne_of_gt h.numInner
  have hspin := Nat.ne_of_gt h.numSpin
  simp [Config.validate, Config.counts, hslots, hrestarts, hrounds, hinner, hspin, h.noise]

/-- Why a run is refused: its parameters are faulty; or the graph has no node or no edge; or more
nodes are to be flipped than there are. The first that applies is told. -/
inductive IsRefusedFor (g : Graph R) (config : Config) : Refusal → Prop where
  | parameters {fault : ConfigFault} (h : config.validate = .error fault) :
    IsRefusedFor g config (.invalidConfig fault)
  | graph (hconfig : config.Positive) (h : g.numNodes = 0 ∨ g.numEdges = 0) :
    IsRefusedFor g config (.degenerateGraph g.numNodes g.numEdges)
  | spin (hconfig : config.Positive) (hnodes : g.numNodes ≠ 0) (hedges : g.numEdges ≠ 0)
    (h : g.numNodes < config.numSpin) :
    IsRefusedFor g config (.invalidConfig (.spinExceedsNodes config.numSpin g.numNodes))

omit [Weight R] in
/-- With positive parameters and something to search, only the number of nodes to flip is left to
check. -/
theorem checkRun_of_positive (hconfig : config.Positive) (hnodes : g.numNodes ≠ 0)
    (hedges : g.numEdges ≠ 0) :
    checkRun g config = if g.numNodes < config.numSpin
      then .error (.invalidConfig (.spinExceedsNodes config.numSpin g.numNodes)) else .ok () := by
  rw [checkRun, Config.check, validate_eq_ok_iff.mpr hconfig, Graph.checkSearchable,
    if_neg (not_or.mpr ⟨hnodes, hedges⟩)]
  rfl

omit [Weight R] in
theorem checkRun_of_isRefusedFor {refusal : Refusal} (h : IsRefusedFor g config refusal) :
    checkRun g config = .error refusal := by
  cases h with
  | parameters hfault =>
    rw [checkRun, Config.check, hfault]
    rfl
  | graph hconfig hnothing =>
    rw [checkRun, Config.check, validate_eq_ok_iff.mpr hconfig, Graph.checkSearchable,
      if_pos hnothing]
    rfl
  | spin hconfig hnodes hedges hspin =>
    rw [checkRun_of_positive hconfig hnodes hedges, if_pos hspin]

omit [Weight R] in
/-- A run is refused for one of these reasons, or let through with positive parameters and no more
nodes to flip than there are. -/
theorem checkRun_cases (g : Graph R) (config : Config) :
    (∃ refusal, IsRefusedFor g config refusal) ∨
    (checkRun g config = .ok () ∧ config.Positive ∧ g.numNodes ≠ 0 ∧ g.numEdges ≠ 0 ∧
      config.numSpin ≤ g.numNodes) := by
  cases hvalid : config.validate with
  | error fault => exact .inl ⟨_, .parameters hvalid⟩
  | ok _ =>
    have hconfig := validate_eq_ok_iff.mp hvalid
    by_cases hnothing : g.numNodes = 0 ∨ g.numEdges = 0
    · exact .inl ⟨_, .graph hconfig hnothing⟩
    · obtain ⟨hnodes, hedges⟩ := not_or.mp hnothing
      by_cases hspin : g.numNodes < config.numSpin
      · exact .inl ⟨_, .spin hconfig hnodes hedges hspin⟩
      · refine .inr ⟨?_, hconfig, hnodes, hedges, Nat.le_of_not_lt hspin⟩
        rw [checkRun_of_positive hconfig hnodes hedges, if_neg hspin]

omit [Weight R] in
/-- The reasons, without their order. -/
theorem exists_isRefusedFor_iff : (∃ refusal, IsRefusedFor g config refusal) ↔
    ¬ config.Positive ∨ g.numNodes = 0 ∨ g.numEdges = 0 ∨ g.numNodes < config.numSpin := by
  constructor
  · rintro ⟨refusal, hrefused⟩
    cases hrefused with
    | parameters hfault =>
      refine .inl fun hconfig => ?_
      rw [validate_eq_ok_iff.mpr hconfig] at hfault
      cases hfault
    | graph _ hnothing => exact .inr (hnothing.imp_right .inl)
    | spin _ _ _ hspin => exact .inr (.inr (.inr hspin))
  · intro h
    rcases checkRun_cases g config with hrefused | ⟨-, hconfig, hnodes, hedges, hspin⟩
    · exact hrefused
    · rcases h with hparameters | hzero | hnone | hmore
      · exact absurd hconfig hparameters
      · exact absurd hzero hnodes
      · exact absurd hnone hedges
      · exact absurd hmore (Nat.not_lt.mpr hspin)

omit [Weight R] in
/-- None of them is what a later part of a run could be refused for: an assignment of the wrong
length, or a search without a solution. -/
theorem IsRefusedFor.ne_internal {refusal : Refusal} (h : IsRefusedFor g config refusal) :
    (∀ expected got, refusal ≠ .lengthMismatch expected got) ∧
      refusal ≠ .invalidConfig .noSolution := by
  cases h with
  | graph => exact ⟨fun _ _ => Refusal.noConfusion, Refusal.noConfusion⟩
  | spin => exact ⟨fun _ _ => Refusal.noConfusion, by simp⟩
  | parameters hfault =>
    refine ⟨fun _ _ => Refusal.noConfusion, ?_⟩
    rintro ⟨⟩
    rw [Config.validate] at hfault
    split at hfault
    · cases hfault
    · split at hfault <;> cases hfault

-- ---------------------------------------------------------------------------
-- Reports
-- ---------------------------------------------------------------------------

/-- What is true of every report. -/
structure Result.IsSound (strategy : Strategy R) (g : Graph R) (config : Config)
    (result : Result R) : Prop where
  size : result.solution.size = g.numNodes
  scored : strategy.score g result.solution = .ok result.score
  /-- The first new best is that of the first round. -/
  first : ∃ score, result.history.head? = some (0, score)
  /-- The last new best is the one reported. -/
  last : ∃ round, result.history.getLast? = some (round, result.score)
  rounds_lt : result.history.Pairwise fun earlier later => earlier.1 < later.1
  lt_rounds : ∀ entry ∈ result.history, entry.1 < result.rounds
  scores_lt : (∀ entry ∈ result.history, Weight.IsNumber entry.2) →
    result.history.Pairwise fun earlier later => earlier.2 < later.2
  numRestarts_le : config.numRestarts ≤ result.rounds
  rounds_le : result.rounds ≤ config.numRestarts * config.numRounds
  rounds_le_searches : result.rounds ≤ result.searches
  searches_le : result.searches ≤ result.rounds * config.numInner

/-- A journal of restarts and an incumbent that was offered a slot in each of their rounds make a
report, and a sound one. -/
theorem exists_report [Weight.Ordered R] {journal : Journal} {incumbent : Incumbent R}
    (hpos : 0 < config.numRestarts) (hincumbent : incumbent.Offered strategy g journal.rounds)
    (hlength : journal.length = config.numRestarts)
    (hrestarts : ∀ entries ∈ journal, IsRestart config entries) :
    ∃ result, report journal incumbent = .ok result ∧ result.IsSound strategy g config := by
  have htracks := hincumbent.tracks
  obtain ⟨hrounds, hrounds'⟩ := Journal.rounds_bounds hrestarts
  obtain ⟨hsearches, hsearches'⟩ := Journal.searches_bounds hrestarts
  rw [hlength] at hrounds hrounds'
  have hsome : 0 < journal.rounds := Nat.lt_of_lt_of_le hpos hrounds
  obtain ⟨slot, hbest, hscored, hsize, round, earlier, himprovements⟩ := htracks.held hsome
  obtain ⟨score, hfirst⟩ := htracks.first hsome
  refine ⟨⟨slot.solution, slot.score, incumbent.history, journal.rounds, journal.searches⟩, ?_, ?_⟩
  · rw [report, hbest]
  · refine ⟨hsize, hscored, ⟨score, ?_⟩, ⟨round, ?_⟩, List.pairwise_reverse.mpr htracks.rounds_lt,
      ?_, ?_, hrounds, hrounds', hsearches, hsearches'⟩
    · rw [Incumbent.history, List.head?_reverse, hfirst]
    · rw [Incumbent.history, List.getLast?_reverse, himprovements]
      rfl
    · intro entry hentry
      exact htracks.lt_rounds entry (List.mem_reverse.mp hentry)
    · intro hnumbers
      refine List.pairwise_reverse.mpr (htracks.scores_lt fun entry hentry => ?_)
      exact hnumbers entry (List.mem_reverse.mpr hentry)

-- ---------------------------------------------------------------------------
-- Runs
-- ---------------------------------------------------------------------------

/-- A run that is let through is not refused later, and its report is sound. -/
theorem runOn_meets [Weight.Ordered R] (hcheck : checkRun g config = .ok ()) :
    Attempt.Meets (strategy.SearchAborts g) (fun _ => False)
      (runOn strategy g config : Attempt σ (Result R)) fun result =>
        result.IsSound strategy g config := by
  obtain ⟨hconfig, -, hspin⟩ := checkRun_inv hcheck
  have hexplored : Attempt.Meets (strategy.SearchAborts g) (fun _ => False)
      (explore strategy g config : Attempt σ (Journal × Incumbent R)) _ :=
    .ofExcept_bind hcheck (runRestarts_meets hconfig hspin .none)
  rw [runOn]
  refine hexplored.bind ?_
  rintro ⟨journal, incumbent⟩ ⟨hincumbent, hlength, hrestarts⟩
  rw [Nat.zero_add] at hincumbent
  obtain ⟨result, hreport, hsound⟩ :=
    exists_report hconfig.numRestarts hincumbent hlength hrestarts
  show Attempt.Meets _ _ (liftM (report journal incumbent)) _
  rw [hreport]
  exact .pure hsound

/-- With one of the four problems and a graph that was built, a run that is let through answers,
unless a rejection loop does not end. -/
theorem runOn_ensures [Weight.Ordered R] (problem : Problem R) (hg : g.IsBuilt)
    (hcheck : checkRun g config = .ok ()) :
    Attempt.Ensures True (runOn problem.strategy g config : Attempt σ (Result R)) fun result =>
      result.IsSound problem.strategy g config := by
  have hmeets : Attempt.Meets (problem.strategy.SearchAborts g) (fun _ => False)
      (runOn problem.strategy g config : Attempt σ (Result R)) _ :=
    runOn_meets hcheck
  intro source
  rcases hmeets.cases source with ⟨result, source', hrun, hsound⟩ | ⟨_, _, _, hnever⟩ |
    ⟨abort, hrun, habort⟩
  · exact .inl ⟨_, source', hrun, result, rfl, hsound⟩
  · exact hnever.elim
  · rw [(problem.searchAborts_iff hg).mp habort] at hrun
    exact .inr ⟨trivial, hrun⟩

/-- A run that is refused by its checks draws nothing. -/
theorem runOn_of_isRefusedFor {refusal : Refusal} (h : IsRefusedFor g config refusal)
    (source : σ) :
    (runOn strategy g config).run.run source = .ok (.error refusal, source) := by
  have hchecked : (liftM (checkRun g config) : Attempt σ Unit).run.run source
      = .ok (.error refusal, source) := by
    rw [checkRun_of_isRefusedFor h]
    rfl
  exact Attempt.bind_of_refused (Attempt.bind_of_refused hchecked)

/-- What a run comes to, for every strategy, graph and choice of parameters, and from every source.
It is refused just for the first reason of its checks, and then draws nothing. Without such a reason
it answers, unless the strategy aborts or a rejection loop does not end. Every report is sound: its
solution labels all nodes and has the score told; its history starts in the first round, gets
better from round to round, and ends with that score; and its counts keep to the limits of the
parameters. -/
theorem runOn_outcomes [Weight.Ordered R] (strategy : Strategy R) (g : Graph R) (config : Config)
    (source : σ) :
    (∀ refusal source',
      (runOn strategy g config).run.run source = .ok (.error refusal, source') ↔
        IsRefusedFor g config refusal ∧ source' = source) ∧
    ((∃ refusal, IsRefusedFor g config refusal) ↔
      ¬ config.Positive ∨ g.numNodes = 0 ∨ g.numEdges = 0 ∨ g.numNodes < config.numSpin) ∧
    (∀ refusal, IsRefusedFor g config refusal →
      (∀ expected got, refusal ≠ .lengthMismatch expected got) ∧
        refusal ≠ .invalidConfig .noSolution) ∧
    ((¬ ∃ refusal, IsRefusedFor g config refusal) →
      (∃ result source', (runOn strategy g config).run.run source = .ok (.ok result, source')) ∨
      ∃ abort, (runOn strategy g config).run.run source = .error abort ∧
        strategy.SearchAborts g abort) ∧
    ∀ result source', (runOn strategy g config).run.run source = .ok (.ok result, source') →
      result.IsSound strategy g config := by
  refine ⟨?_, exists_isRefusedFor_iff, fun _ hrefused => hrefused.ne_internal, ?_, ?_⟩
  · intro refusal source'
    constructor
    · intro hrun
      rcases checkRun_cases g config with ⟨reason, hreason⟩ | ⟨hcheck, -⟩
      · rw [runOn_of_isRefusedFor hreason] at hrun
        cases hrun
        exact ⟨hreason, rfl⟩
      · exact ((runOn_meets hcheck).of_refused hrun).elim
    · rintro ⟨hreason, rfl⟩
      exact runOn_of_isRefusedFor hreason _
  · intro hnone
    rcases checkRun_cases g config with hreason | ⟨hcheck, -⟩
    · exact absurd hreason hnone
    · have hmeets : Attempt.Meets (strategy.SearchAborts g) (fun _ => False)
          (runOn strategy g config : Attempt σ (Result R)) _ := runOn_meets hcheck
      rcases hmeets.cases source with ⟨result, source', hrun, -⟩ | ⟨_, _, _, hnever⟩ | habort
      · exact .inl ⟨result, source', hrun⟩
      · exact hnever.elim
      · exact .inr habort
  · intro result source' hrun
    rcases checkRun_cases g config with ⟨reason, hreason⟩ | ⟨hcheck, -⟩
    · rw [runOn_of_isRefusedFor hreason] at hrun
      cases hrun
    · exact (runOn_meets hcheck).of_run hrun

/-- The usual parameters flip four nodes at once, which a graph of two nodes refuses before the
first word is drawn. With the smallest ones there is a result. -/
theorem runOn_outcomes_singleEdge :
    (runOn Problem.maxCut.strategy (.singleEdge Float) {}).run.run (Tape.start [] 7)
      = .ok (.error (.invalidConfig (.spinExceedsNodes 4 2)), Tape.start [] 7) ∧
    ∃ result source', (runOn Problem.maxCut.strategy (.singleEdge Float) .smallest).run.run
      (Tape.start [1, 2, 3, 4] 7) = .ok (.ok result, source') ∧
      result.IsSound Problem.maxCut.strategy (.singleEdge Float) .smallest := by
  have hpositive : ({} : Config).Positive := positive_of_validate (by decide +kernel)
  obtain ⟨hrefused, -⟩ :=
    runOn_outcomes Problem.maxCut.strategy (.singleEdge Float) {} (Tape.start [] 7)
  obtain ⟨-, -, -, -, hsound⟩ := runOn_outcomes Problem.maxCut.strategy (.singleEdge Float)
    .smallest (Tape.start [1, 2, 3, 4] 7)
  refine ⟨(hrefused _ _).mpr ⟨.spin hpositive ?_ ?_ ?_, rfl⟩, ?_⟩
  · decide
  · decide
  · decide
  · have hrun : (runOn Problem.maxCut.strategy (.singleEdge Float) .smallest).run.run
        (Tape.start [1, 2, 3, 4] 7)
        = .ok (.ok ⟨#[false, true], 1.0, [(0, 1.0)], 1, 1⟩, ⟨[], .ofSeed 7, 4⟩) := by
      decide +kernel
    exact ⟨_, _, hrun, hsound _ _ hrun⟩

end CutCover.LocalSearch
