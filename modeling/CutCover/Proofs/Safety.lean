import CutCover.Proofs.Annealing.Refusal
import CutCover.Proofs.Annealing.Trades
import CutCover.Proofs.LocalSearch.Report

/-!
# CutCover — solvers do not abort

Labels, gains and ranks are read by number, numbers are drawn below bounds, and differences are
taken, all without a look at whether there is something to read, draw or take away. It goes well
because of what the solvers check on entry and because every move and every write keeps the lengths
of what it changes. Callers may hand over what they like: whatever does not fit is refused. The only
abort that is left is that of a rejection loop that does not end.

* `Checked.IsSafe`, `Draw.IsSafe`     — nothing aborts but such a loop.
* `Problem.exists_start`, `Problem.step_isSafe`, `Problem.annealing_isSafe` — annealing.
* `Population.exists_load`, `Population.sample_ensures`, `Population.searchSlots_isSafe` — the
  operations of a population.
* `LocalSearch.runOn_isSafe`          — local search.
* `Problem.solvers_never_abort`       — all of them.
-/

namespace CutCover

variable {α β σ : Type}

-- ---------------------------------------------------------------------------
-- Safe computations
-- ---------------------------------------------------------------------------

/-- The computation does not abort, unless a rejection loop does not end. -/
def Checked.IsSafe (m : Checked α) : Prop :=
  ∀ abort, m = .error abort → abort = .endlessSampling

/-- From no source does the draw abort, unless a rejection loop does not end. -/
def Draw.IsSafe (m : Draw σ α) : Prop :=
  ∀ source, Checked.IsSafe (m.run source)

theorem Checked.Meets.isSafe {m : Checked α} {post : α → Prop}
    (h : Meets (· = .endlessSampling) m post) : IsSafe m := by
  rintro abort rfl
  exact h

theorem Checked.IsSafe.meets {m : Checked α} (h : IsSafe m) :
    Meets (· = .endlessSampling) m fun _ => True := by
  cases m with
  | ok a => trivial
  | error abort => exact h abort rfl

theorem Checked.isSafe_of_ok {m : Checked α} {a : α} (h : m = .ok a) : IsSafe m := by
  rw [h]
  rintro _ ⟨⟩

/-- A sequence is safe if its parts are. -/
theorem Checked.IsSafe.bind {m : Checked α} {f : α → Checked β} (hm : IsSafe m)
    (hf : ∀ a, m = .ok a → IsSafe (f a)) : IsSafe (m >>= f) := by
  cases m with
  | ok a => exact hf a rfl
  | error abort =>
    rintro _ ⟨⟩
    exact hm abort rfl

/-- A computation that may not abort at all answers. -/
theorem Checked.Meets.answers {m : Checked α} {post : α → Prop}
    (h : Meets (fun _ => False) m post) : ∃ a, m = .ok a := by
  cases m with
  | ok a => exact ⟨a, rfl⟩
  | error abort => exact h.elim

theorem Draw.Meets.isSafe {m : Draw σ α} {post : α → Prop}
    (h : Meets (· = .endlessSampling) m post) : IsSafe m :=
  fun source => (h source).isSafe

theorem Draw.Ensures.isSafe {mayLoop : Prop} {m : Draw σ α} {post : α → Prop}
    (h : Ensures mayLoop m post) : IsSafe m :=
  Meets.isSafe (h.meets fun _ => rfl)

/-- The rest of a sequence only has to go well after its first part did. -/
theorem Fallible.bind_meets {mayAbort : Abort → Prop} {m : Fallible α} {f : α → Fallible β}
    (hm : Checked.Meets mayAbort m.run fun _ => True)
    (hf : ∀ a, m.run = .ok (.ok a) → Checked.Meets mayAbort (f a).run fun _ => True) :
    Checked.Meets mayAbort (m >>= f).run fun _ => True := by
  rw [ExceptT.run_bind]
  rcases hrun : m.run with abort | refusal | a
  · rw [hrun] at hm
    exact hm
  · trivial
  · exact hf a hrun

theorem Fallible.ofExcept_bind_meets {mayAbort : Abort → Prop} {verdict : Except Refusal α}
    {f : α → Fallible β}
    (hf : ∀ a, verdict = .ok a → Checked.Meets mayAbort (f a).run fun _ => True) :
    Checked.Meets mayAbort ((liftM verdict : Fallible α) >>= f).run fun _ => True := by
  cases verdict with
  | error refusal => trivial
  | ok a => exact hf a rfl

theorem Fallible.lift_bind_meets {mayAbort : Abort → Prop} {m : Checked α} {a : α}
    {f : α → Fallible β} (h : m = .ok a)
    (hf : Checked.Meets mayAbort (f a).run fun _ => True) :
    Checked.Meets mayAbort ((liftM m : Fallible α) >>= f).run fun _ => True := by
  rwa [Fallible.lift_bind_of_ok h]

-- ---------------------------------------------------------------------------
-- Annealing
-- ---------------------------------------------------------------------------

namespace Problem

open Annealing (State Verdict Config Result runOn runSeeded runUnscored start_inv)

variable {R : Type} {g : Graph R} {x : Assignment}

/-- A length that passes the check is the number of nodes. -/
theorem size_of_checkLength (h : g.checkLength x.size = .ok ()) : x.size = g.numNodes := by
  by_contra hne
  rw [Graph.checkLength, if_neg hne] at h
  cases h

variable [Weight R] [WordSource σ]

/-- A start that labels the nodes of the graph can be checked. -/
theorem checkStart_meets (problem : Problem R) (hg : g.IsBuilt) (hx : x.size = g.numNodes) :
    Checked.Meets (fun _ => False) (problem.checkStart g x).run fun _ => True := by
  cases problem with
  | minimumVertexCover penalty =>
    refine Fallible.lift_bind_meets (Graph.isCover_eq hg hx) ?_
    split
    · trivial
    · exact Fallible.lift_bind_meets (Graph.uncoveredCount_eq hg hx) trivial
  | _ => trivial

/-- The checks before the first step answer, whatever they are given. -/
theorem exists_start (problem : Problem R) (hg : g.IsBuilt) (x : Assignment) (score : R)
    (config : Config) :
    ∃ answer, (State.start problem.strategy g x score config).run = .ok answer := by
  have hmeets : Checked.Meets (fun _ => False)
      (State.start problem.strategy g x score config).run fun _ => True := by
    refine Fallible.ofExcept_bind_meets fun _ _ => Fallible.ofExcept_bind_meets fun _ _ => ?_
    refine Fallible.ofExcept_bind_meets fun _ hlength => ?_
    exact Fallible.bind_meets (problem.checkStart_meets hg (size_of_checkLength hlength))
      fun _ _ => trivial
  exact hmeets.answers

/-- Steps do not abort, whatever steps went before. -/
theorem step_isSafe (problem : Problem R) (hg : g.IsBuilt) {score : R} {config : Config}
    {start s : State R}
    (hstart : (State.start problem.strategy g x score config).run = .ok (.ok start))
    (hreach : start.Reaches problem.strategy g s) :
    Draw.IsSafe (s.step problem.strategy g : Draw σ (Except Refusal Verdict × State R)) := by
  have hstarted := start_inv hstart
  cases hfinished : s.finished with
  | true => exact fun source => Checked.isSafe_of_ok (State.step_of_finished hfinished source)
  | false =>
    by_cases htrades : problem.TradesLabels
    · by_cases huniform : s.current.IsUniform
      · obtain ⟨_, hrefused⟩ := propose_of_isUniform (σ := σ) htrades huniform s.numSteps
        exact fun source =>
          Checked.isSafe_of_ok (State.step_of_refused hfinished (hrefused source))
      · -- trades keep the length, and with both labels there is one to make
        have hsize := (balances_of_reaches htrades hreach).size
        rw [hstarted.current, hstarted.size] at hsize
        have hmixed := s.current.isMixed_iff.mpr huniform
        exact (State.step_ensures (sustains_tradesLabels trivial hg htrades) ⟨hsize, hmixed⟩
          hfinished).isSafe
    · have hsteps := (problem.runOn_of_not_isUniform (σ := σ) hg (fun h => htrades h.1) hstart).2
      exact (hsteps s hreach hfinished).isSafe

theorem annealing_isSafe (problem : Problem R) (hg : g.IsBuilt) (x : Assignment) (score : R)
    (config : Config) :
    Draw.IsSafe (runOn problem.strategy g x score config : Attempt σ (Result R)).run := by
  obtain ⟨refusal | start, hstart⟩ := problem.exists_start hg x score config
  · intro source
    refine Checked.isSafe_of_ok (a := (.error refusal, source)) (Attempt.bind_of_refused ?_)
    rw [Attempt.ofFallible, hstart]
    rfl
  · by_cases h : problem.TradesLabels ∧ x.IsUniform
    · obtain ⟨_, hrefused⟩ := runOn_of_isUniform (σ := σ) h.1 h.2 hstart
      exact fun source => Checked.isSafe_of_ok (hrefused source).2
    · exact Draw.Ensures.isSafe (problem.runOn_of_not_isUniform hg h hstart).1

theorem annealing_runSeeded_isSafe (problem : Problem R) (hg : g.IsBuilt) (x : Assignment)
    (score : R) (config : Config) (fresh : UInt64) :
    Checked.IsSafe (runSeeded problem.strategy g x score config fresh).run :=
  (problem.annealing_isSafe hg x score config (config.generator fresh)).bind fun _ _ =>
    Checked.isSafe_of_ok rfl

/-- A start may be scored without fear once its length was checked. -/
theorem annealing_runUnscored_isSafe (problem : Problem R) (hg : g.IsBuilt) (x : Assignment)
    (config : Config) (fresh : UInt64) :
    Checked.IsSafe (runUnscored problem.strategy g x config fresh).run := by
  refine (Fallible.ofExcept_bind_meets fun _ hlength => ?_).isSafe
  obtain ⟨score, hscore⟩ := problem.exists_score hg (size_of_checkLength hlength)
  exact Fallible.lift_bind_meets hscore
    (problem.annealing_runSeeded_isSafe hg x score config fresh).meets

end Problem

-- ---------------------------------------------------------------------------
-- Populations
-- ---------------------------------------------------------------------------

namespace LocalSearch

variable {R : Type} [Weight R] {problem : Problem R} {g : Graph R} {p : Population R}
  [WordSource σ]

namespace Population

/-- Assignments of any lengths can be offered. -/
theorem exists_load (problem : Problem R) (hg : g.IsBuilt) (solutions : List Assignment)
    (p : Population R) :
    ∃ answer, p.load problem.strategy g solutions = .ok answer := by
  unfold load
  split
  · exact ⟨_, rfl⟩
  · next hnone =>
    have hall : ∀ x ∈ solutions, ∃ score, problem.strategy.score g x = .ok score := by
      intro x hx
      exact problem.exists_score hg (by simpa using List.find?_eq_none.mp hnone x hx)
    obtain ⟨scores, hscores⟩ := exists_mapM hall
    rw [hscores]
    exact ⟨_, rfl⟩

theorem exists_bestSample (problem : Problem R) (hg : g.IsBuilt) {first : Assignment}
    {others : List Assignment} (hfirst : first.size = g.numNodes)
    (hothers : ∀ x ∈ others, x.size = g.numNodes) :
    ∃ x, bestSample problem.strategy g first others = .ok x := by
  have hslot {x : Assignment} (hx : x.size = g.numNodes) :
      ∃ slot, Slot.ofSolution problem.strategy g x = .ok slot := by
    obtain ⟨score, hscore⟩ : ∃ score, problem.strategy.score g x = .ok score :=
      problem.exists_score hg hx
    refine ⟨⟨x, score⟩, ?_⟩
    rw [Slot.ofSolution, hscore]
    rfl
  obtain ⟨start, hstart⟩ := hslot hfirst
  obtain ⟨slots, hslots⟩ := exists_mapM fun x hx => hslot (hothers x hx)
  refine ⟨(slots.foldl Slot.improve start).solution, ?_⟩
  rw [bestSample, hstart, hslots]
  rfl

/-- Any number of slots can be filled with the best of any number of samples. -/
theorem sample_ensures (hg : g.IsBuilt) (numSlots samplesPerSlot : Nat) (p : Population R) :
    Draw.Ensures False (p.sample problem.strategy g numSlots samplesPerSlot
      : Draw σ (Except Refusal (List R) × Population R)) fun _ => True := by
  have hslot : Draw.Ensures False
      (sampleSlot problem.strategy g samplesPerSlot : Draw σ Assignment) fun _ => True := by
    refine (Assignment.random_ensures g.numNodes).bind fun first hfirst => ?_
    refine (Draw.replicate_ensures (Assignment.random_ensures g.numNodes) _).bind ?_
    rintro others ⟨-, hothers⟩
    obtain ⟨x, hx⟩ := exists_bestSample problem hg hfirst hothers
    exact .lift hx trivial
  refine (Draw.replicate_ensures hslot numSlots).bind fun solutions _ => ?_
  obtain ⟨answer, hload⟩ := exists_load problem hg solutions p
  exact .lift hload trivial

omit [Weight R] in
theorem checkSearch_inv {params : SearchParams} (h : checkSearch g params = .ok ()) :
    params.numSpin ≤ g.numNodes ∧ noiseAdmissible params.noiseStd = true := by
  unfold checkSearch at h
  split at h
  · cases h
  · next hspin =>
    split at h
    · next hnoise => exact ⟨Nat.not_lt.mp hspin, hnoise⟩
    · cases h

/-- A search call goes well on populations that calls have led to, with any parameters. -/
theorem searchSlots_isSafe (hg : g.IsBuilt) (hp : p.IsConsistent problem.strategy g)
    (params : SearchParams) :
    Draw.IsSafe (p.searchSlots problem.strategy g params
      : Draw σ (Except Refusal (SearchReport R) × Population R)) := by
  cases hcheck : checkSearch g params with
  | error refusal =>
    intro source
    rw [searchSlots, hcheck]
    exact Checked.isSafe_of_ok rfl
  | ok _ =>
    obtain ⟨hspin, hnoise⟩ := checkSearch_inv hcheck
    intro source abort habort
    have hmeets := searchSlots_meets (σ := σ) ⟨hp, rfl⟩ hspin hnoise source
    rw [habort] at hmeets
    exact (problem.searchAborts_iff hg).mp hmeets

end Population

-- ---------------------------------------------------------------------------
-- Local search
-- ---------------------------------------------------------------------------

theorem runOn_isSafe [Weight.Ordered R] (hg : g.IsBuilt) (config : Config) :
    Draw.IsSafe (runOn problem.strategy g config : Attempt σ (Result R)).run := by
  rcases checkRun_cases g config with ⟨refusal, hrefused⟩ | ⟨hcheck, -⟩
  · exact fun source => Checked.isSafe_of_ok (runOn_of_isRefusedFor hrefused source)
  · exact Draw.Ensures.isSafe (runOn_ensures problem hg hcheck)

theorem runSeeded_isSafe [Weight.Ordered R] (hg : g.IsBuilt) (config : Config) (fresh : UInt64) :
    Checked.IsSafe (runSeeded problem.strategy g config fresh).run :=
  (runOn_isSafe hg config (config.generator fresh)).bind fun _ _ => Checked.isSafe_of_ok rfl

end LocalSearch

-- ---------------------------------------------------------------------------
-- All solvers
-- ---------------------------------------------------------------------------

open LocalSearch (Population SearchReport SearchParams)

variable {R : Type} [Weight R]

/-- What callers may rely upon, whatever start, scores, parameters and words they hand over. -/
structure Strategy.NeverAborts (strategy : Strategy R) (g : Graph R) : Prop where
  /-- A start is let through or refused. -/
  starts (x : Assignment) (score : R) (config : Annealing.Config) :
    ∃ answer, (Annealing.State.start strategy g x score config).run = .ok answer
  /-- From a start that was let through, one step goes well after any others. -/
  steps {x : Assignment} {score : R} {config : Annealing.Config} {start s : Annealing.State R}
    (hstart : (Annealing.State.start strategy g x score config).run = .ok (.ok start))
    (hreach : start.Reaches strategy g s) {σ : Type} [WordSource σ] :
    Draw.IsSafe (s.step strategy g : Draw σ (Except Refusal Annealing.Verdict × Annealing.State R))
  anneals (x : Assignment) (score : R) (config : Annealing.Config) {σ : Type} [WordSource σ] :
    Draw.IsSafe (Annealing.runOn strategy g x score config : Attempt σ (Annealing.Result R)).run
  annealsSeeded (x : Assignment) (score : R) (config : Annealing.Config) (fresh : UInt64) :
    Checked.IsSafe (Annealing.runSeeded strategy g x score config fresh).run
  annealsUnscored (x : Assignment) (config : Annealing.Config) (fresh : UInt64) :
    Checked.IsSafe (Annealing.runUnscored strategy g x config fresh).run
  /-- After any calls there is an assignment for every score and a score for every assignment, so
  that the best slot can be copied and other slots can be merged in. -/
  slots {p : Population R} (hp : Population.Reachable strategy g p) :
    p.scores.length = p.solutions.length
  loads {p : Population R} (hp : Population.Reachable strategy g p)
    (solutions : List Assignment) : ∃ answer, p.load strategy g solutions = .ok answer
  samples {p : Population R} (hp : Population.Reachable strategy g p)
    (numSlots samplesPerSlot : Nat) {σ : Type} [WordSource σ] (source : σ) :
    ∃ answer, (p.sample strategy g numSlots samplesPerSlot).run source = .ok answer
  searches {p : Population R} (hp : Population.Reachable strategy g p) (params : SearchParams)
    {σ : Type} [WordSource σ] : Draw.IsSafe (p.searchSlots strategy g params
      : Draw σ (Except Refusal (SearchReport R) × Population R))
  runs (config : LocalSearch.Config) {σ : Type} [WordSource σ] :
    Draw.IsSafe (LocalSearch.runOn strategy g config : Attempt σ (LocalSearch.Result R)).run
  runsSeeded (config : LocalSearch.Config) (fresh : UInt64) :
    Checked.IsSafe (LocalSearch.runSeeded strategy g config fresh).run

/-- With the four problems, on graphs that were built, no solver reads what is not there, draws
from nothing or takes away more than there is. -/
theorem Problem.solvers_never_abort [Weight.Ordered R] (problem : Problem R) {g : Graph R}
    (hg : g.IsBuilt) : problem.strategy.NeverAborts g where
  starts := problem.exists_start hg
  steps hstart hreach := problem.step_isSafe hg hstart hreach
  anneals x score config _ _ := problem.annealing_isSafe hg x score config
  annealsSeeded := problem.annealing_runSeeded_isSafe hg
  annealsUnscored := problem.annealing_runUnscored_isSafe hg
  slots hp := hp.isConsistent.length_scores
  loads _ solutions := Population.exists_load problem hg solutions _
  samples _ numSlots samplesPerSlot _ _ source := by
    obtain ⟨answer, source', hanswer, -⟩ :=
      (Population.sample_ensures hg numSlots samplesPerSlot _).answers source
    exact ⟨_, hanswer⟩
  searches hp params _ _ := Population.searchSlots_isSafe hg hp.isConsistent params
  runs config _ _ := LocalSearch.runOn_isSafe hg config
  runsSeeded := LocalSearch.runSeeded_isSafe hg

/-- On the single edge neither an annealing start with a label too few nor a search that is to flip
more nodes than there are aborts. -/
theorem Problem.solvers_never_abort_singleEdge :
    (∃ answer, (Annealing.State.start (minimumVertexCover 2.0 : Problem Float).strategy
      (Graph.singleEdge Float) #[true] 0.0 {}).run = .ok answer) ∧
    Draw.IsSafe (LocalSearch.runOn (minimumVertexCover 2.0 : Problem Float).strategy
      (Graph.singleEdge Float) {} : Attempt Tape (LocalSearch.Result Float)).run := by
  have hsafe := solvers_never_abort (minimumVertexCover 2.0 : Problem Float)
    Graph.isBuilt_singleEdge
  exact ⟨hsafe.starts _ _ _, hsafe.runs _⟩

end CutCover
