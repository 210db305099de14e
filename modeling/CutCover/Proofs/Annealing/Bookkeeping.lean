import CutCover.Proofs.Annealing.Idle
import CutCover.Proofs.Annealing.Run
import CutCover.Proofs.Annealing.Sustained
import CutCover.Proofs.Proposals
import CutCover.Random.Tape

/-!
# CutCover — the bookkeeping of annealing

A run keeps four counters, a trace and the score of the current assignment, and updates them at
five places: a step may come after the last, be refused, be idle, and have its candidate rejected or
accepted. What they have to do with each other is an account of the answers that the calls of
`State.step` gave, refused calls included, and each call keeps the account balanced. Nothing is
asked of the strategy or the words. The calls may even draw from sources of their own.

* `State.Does`, `State.step_does` — what a step does, case by case.
* `State.Calls`                   — calls one after the other, with their answers.
* `State.Account`                 — what the fields of the state tell of the calls so far.
* `Account.next`                  — one more call keeps the account.
* `Calls.stepsBegun_eq`           — steps are counted unless they come after the last.
* `advance_calls`                 — a run that answers is a sequence of calls.
* `bookkeeping_balances`          — all of it, for every run that is let through.
-/

namespace CutCover.Annealing

variable {R : Type} [Weight R] {strategy : Strategy R} {g : Graph R} {x : Assignment} {score : R}
  {config : Config}

-- ---------------------------------------------------------------------------
-- Before the first step
-- ---------------------------------------------------------------------------

/-- A run starts from a temperature that is a number and not below zero. -/
theorem Config.initialTemperature_of_check (h : config.check = .ok ()) :
    config.initialTemperature.isFinite = true ∧ ¬ config.initialTemperature < 0.0 := by
  rw [check, validate] at h
  split at h
  · cases h
  · rename_i hfault
    rw [not_or, not_not] at hfault
    exact hfault

/-- The state before the first step: nothing is counted, and the trace holds the given score. -/
structure State.Fresh (start : State R) (score : R) : Prop where
  finite : start.initialTemperature.isFinite = true
  nonneg : ¬ start.initialTemperature < 0.0
  stepsBegun : start.stepsBegun = 0
  score_eq : start.score = score
  initialScore : start.initialScore = score
  trace : start.trace = #[score]
  acceptedMoves : start.acceptedMoves = 0
  improvingMoves : start.improvingMoves = 0
  idleSteps : start.idleSteps = 0

omit [Weight R] in
theorem start_fresh {start : State R}
    (h : (State.start strategy g x score config).run = .ok (.ok start)) : start.Fresh score := by
  obtain ⟨⟨⟩, hconfig, h⟩ := Fallible.ofExcept_bind_inv h
  obtain ⟨⟨⟩, -, h⟩ := Fallible.ofExcept_bind_inv h
  obtain ⟨⟨⟩, -, h⟩ := Fallible.ofExcept_bind_inv h
  obtain ⟨⟨⟩, -, h⟩ := Fallible.bind_inv h
  obtain ⟨hfinite, hnonneg⟩ := Config.initialTemperature_of_check hconfig
  cases h
  exact ⟨hfinite, hnonneg, rfl, rfl, rfl, rfl, rfl, rfl, rfl⟩

namespace State

variable {s start after : State R} {answer : Except Refusal Verdict}

-- ---------------------------------------------------------------------------
-- What a step does
-- ---------------------------------------------------------------------------

/-- What a step does, with its answer and the state after it. An idle step accepts the unchanged
state: whether it would is decided by a draw that cannot fail. -/
inductive Does (strategy : Strategy R) (g : Graph R) (s : State R) :
    Except Refusal Verdict → State R → Prop where
  | finished (h : s.finished = true) : Does strategy g s (.error (.noStepsLeft s.numSteps)) s
  | refused {τ : Type} [WordSource τ] {source source' : τ} {refusal : Refusal}
    (h : s.finished = false)
    (hpropose : (strategy.propose g s.current s.numSteps).run.run source
      = .ok (.error refusal, source')) : Does strategy g s (.error refusal) s.beginStep
  | idle (h : s.finished = false) : Does strategy g s (.ok .idle) (s.beginStep.idle true)
  | rejected (h : s.finished = false) : Does strategy g s (.ok .rejected) s.beginStep
  | accepted {candidate : Assignment} {score : R} {improving : Bool} (h : s.finished = false)
    (hscore : strategy.score g candidate = .ok score) :
    Does strategy g s (.ok (.accepted improving)) (s.beginStep.accept candidate score improving)

variable {σ : Type} [WordSource σ] {source source' : σ}

/-- A candidate is accepted with its score, or dropped. -/
theorem consider_inv {move : Move} {verdict : Verdict}
    (h : (s.consider strategy g move).run source = .ok ((verdict, after), source')) :
    (verdict = .rejected ∧ after = s) ∨
    ∃ candidate score improving, strategy.score g candidate = .ok score ∧
      verdict = .accepted improving ∧ after = s.accept candidate score improving := by
  obtain ⟨candidate, -, h⟩ := Draw.lift_bind_inv h
  obtain ⟨score, hscore, h⟩ := Draw.lift_bind_inv h
  obtain ⟨accepted, source₁, -, h⟩ := Draw.bind_inv h
  cases accepted with
  | true =>
    cases h
    exact .inr ⟨candidate, score, _, hscore, rfl, rfl⟩
  | false =>
    cases h
    exact .inl ⟨rfl, rfl⟩

/-- No temperature of a run is negative, so that an idle step accepts the unchanged state. -/
theorem unchanged_accepted [Weight.KeepsZero R] {mayLoop : Prop}
    (hfinite : s.initialTemperature.isFinite = true) (hnonneg : ¬ s.initialTemperature < 0.0)
    (hlt : s.numSteps < 2 ^ 64) (hunfinished : s.finished = false) :
    Draw.Ensures mayLoop (metropolis (Weight.ofNat 0 : R) s.beginStep.temperature : Draw σ Bool)
      fun accepted => accepted = true := by
  have hbegun : s.stepsBegun < s.numSteps := Nat.lt_of_not_le (of_decide_eq_false hunfinished)
  exact metropolis_zero (isNonneg_temperatureAt hfinite hnonneg hbegun hlt)

/-- A step of a run does one of these five things. -/
theorem step_does [Weight.KeepsZero R] (hfinite : s.initialTemperature.isFinite = true)
    (hnonneg : ¬ s.initialTemperature < 0.0) (hlt : s.numSteps < 2 ^ 64)
    (hstep : (s.step strategy g).run source = .ok ((answer, after), source')) :
    s.Does strategy g answer after := by
  cases hfinished : s.finished with
  | true =>
    rw [step_of_finished hfinished] at hstep
    cases hstep
    exact .finished hfinished
  | false =>
    rw [step] at hstep
    simp only [hfinished, Bool.false_eq_true, if_false] at hstep
    obtain ⟨proposal, source₁, hpropose, hstep⟩ := Draw.bind_inv hstep
    rcases proposal with refusal | _ | move
    · cases hstep
      exact .refused hfinished hpropose
    · obtain ⟨accepted, source₂, haccepted, hstep⟩ := Draw.bind_inv hstep
      have haccepts : Draw.Ensures False
          (metropolis (Weight.ofNat 0 : R) s.beginStep.temperature : Draw σ Bool)
          fun accepted => accepted = true := unchanged_accepted hfinite hnonneg hlt hfinished
      have htrue := haccepts.of_run haccepted
      cases hstep
      rw [htrue]
      exact .idle hfinished
    · obtain ⟨⟨verdict, after'⟩, source₂, hconsider, hstep⟩ := Draw.bind_inv hstep
      cases hstep
      rcases consider_inv hconsider with ⟨rfl, rfl⟩ |
        ⟨candidate, score, improving, hscore, rfl, rfl⟩
      · exact .rejected hfinished
      · exact .accepted hfinished hscore

omit [Weight R] in
/-- Only an accepted candidate changes the assignment and the score. -/
theorem Does.unchanged (h : s.Does strategy g answer after)
    (hanswer : ∀ improving, answer ≠ .ok (.accepted improving)) :
    after.current = s.current ∧ after.score = s.score := by
  cases h with
  | accepted => exact absurd rfl (hanswer _)
  | finished | refused | idle | rejected => exact ⟨rfl, rfl⟩

omit [Weight R] in
/-- A call is counted unless it comes after the last step. -/
theorem Does.stepsBegun (hdoes : s.Does strategy g answer after) :
    after.stepsBegun = if s.finished then s.stepsBegun else s.stepsBegun + 1 := by
  cases hdoes with
  | finished hfinished => rw [if_pos hfinished]
  | refused hfinished | idle hfinished | rejected hfinished | accepted hfinished =>
    rw [hfinished]
    rfl

-- ---------------------------------------------------------------------------
-- Calls
-- ---------------------------------------------------------------------------

/-- The calls of `step` from a state on, in order, each with its answer and the state after it, and
the state they lead to. Each call draws from a source of its own. -/
inductive Calls (strategy : Strategy R) (g : Graph R) (start : State R) :
    List (Except Refusal Verdict × State R) → State R → Prop where
  | none : Calls strategy g start [] start
  | next {τ : Type} [WordSource τ] {calls : List (Except Refusal Verdict × State R)}
    {s after : State R} {answer : Except Refusal Verdict} {source source' : τ}
    (hcalls : Calls strategy g start calls s)
    (hstep : (s.step strategy g).run source = .ok ((answer, after), source')) :
    Calls strategy g start (calls ++ [(answer, after)]) after

/-- The call made a candidate the current state, or accepted the unchanged one. -/
def accepts : Except Refusal Verdict → Bool
  | .ok (.accepted _) => true
  | .ok .idle => true
  | _ => false

@[simp] theorem accepts_accepted (improving : Bool) : accepts (.ok (.accepted improving)) = true :=
  rfl

@[simp] theorem accepts_idle : accepts (.ok .idle) = true :=
  rfl

@[simp] theorem accepts_rejected : accepts (.ok .rejected) = false :=
  rfl

@[simp] theorem accepts_refused (refusal : Refusal) : accepts (.error refusal) = false :=
  rfl

/-- The call came after the last step. -/
def isExhausted : Except Refusal Verdict → Bool
  | .error (.noStepsLeft _) => true
  | _ => false

theorem isExhausted_iff : isExhausted answer = true ↔ ∃ n, answer = .error (.noStepsLeft n) := by
  rcases answer with (_ | _ | _ | _ | _ | _ | _ | _ | _) | verdict <;> simp [isExhausted]

/-- What the fields of a state tell of the calls that led to it. -/
structure Account (strategy : Strategy R) (g : Graph R) (start : State R)
    (calls : List (Except Refusal Verdict × State R)) (s : State R) : Prop where
  initialTemperature : s.initialTemperature = start.initialTemperature
  numSteps : s.numSteps = start.numSteps
  initialScore : s.initialScore = start.score
  /-- Calls begin a step until all were begun. -/
  stepsBegun : s.stepsBegun = min calls.length start.numSteps
  acceptedMoves : s.acceptedMoves = (calls.map Prod.fst).count (.ok (.accepted true))
    + (calls.map Prod.fst).count (.ok (.accepted false)) + (calls.map Prod.fst).count (.ok .idle)
  improvingMoves : s.improvingMoves = (calls.map Prod.fst).count (.ok (.accepted true))
  idleSteps : s.idleSteps = (calls.map Prod.fst).count (.ok .idle)
  /-- The initial score, then that of the state after each acceptance. -/
  trace : s.trace.toList
    = start.score :: (calls.filter fun call => accepts call.1).map fun call => call.2.score
  last : s.trace.back? = some s.score
  /-- Scores stay true if the first one is. -/
  scored : strategy.score g start.current = .ok start.score →
    strategy.score g s.current = .ok s.score ∧
    ∀ call ∈ calls, strategy.score g call.2.current = .ok call.2.score

omit [Weight R] in
/-- Before the first call there is nothing to account for. -/
theorem Fresh.account (h : start.Fresh score) : start.Account strategy g [] start where
  initialTemperature := rfl
  numSteps := rfl
  initialScore := h.initialScore.trans h.score_eq.symm
  stepsBegun := h.stepsBegun.trans (Nat.zero_min _).symm
  acceptedMoves := h.acceptedMoves
  improvingMoves := h.improvingMoves
  idleSteps := h.idleSteps
  trace := by
    rw [h.trace, h.score_eq]
    rfl
  last := by
    rw [h.trace, h.score_eq]
    rfl
  scored htrue := ⟨htrue, fun call hcall => absurd hcall List.not_mem_nil⟩

omit [Weight R] in
/-- A call keeps scores true if it keeps the one of the current assignment true. -/
theorem Account.scored_next {calls : List (Except Refusal Verdict × State R)}
    (h : start.Account strategy g calls s)
    (hkept : strategy.score g s.current = .ok s.score →
      strategy.score g after.current = .ok after.score)
    (htrue : strategy.score g start.current = .ok start.score) :
    strategy.score g after.current = .ok after.score ∧
    ∀ call ∈ calls ++ [(answer, after)], strategy.score g call.2.current = .ok call.2.score := by
  obtain ⟨hcurrent, hcalls⟩ := h.scored htrue
  refine ⟨hkept hcurrent, fun call hcall => ?_⟩
  rcases List.mem_append.mp hcall with hcall | hcall
  · exact hcalls call hcall
  · rw [List.mem_singleton.mp hcall]
    exact hkept hcurrent

/-- What the next call does. -/
theorem Account.does [Weight.KeepsZero R] {calls : List (Except Refusal Verdict × State R)}
    (h : start.Account strategy g calls s) (hfresh : start.Fresh score)
    (hlt : start.numSteps < 2 ^ 64)
    (hstep : (s.step strategy g).run source = .ok ((answer, after), source')) :
    s.Does strategy g answer after := by
  refine step_does ?_ ?_ ?_ hstep
  · rw [h.initialTemperature]
    exact hfresh.finite
  · rw [h.initialTemperature]
    exact hfresh.nonneg
  · rw [h.numSteps]
    exact hlt

omit [Weight R] in
/-- One more call keeps the account. -/
theorem Account.next {calls : List (Except Refusal Verdict × State R)}
    (h : start.Account strategy g calls s) (hdoes : s.Does strategy g answer after) :
    start.Account strategy g (calls ++ [(answer, after)]) after := by
  have hbegun : after.stepsBegun = min (calls ++ [(answer, after)]).length start.numSteps := by
    have hbefore := h.stepsBegun
    rw [hdoes.stepsBegun, finished, h.numSteps, List.length_append, List.length_singleton]
    simp only [decide_eq_true_eq]
    split <;> omega
  have hmoves := h.acceptedMoves
  have himproving := h.improvingMoves
  have hidle := h.idleSteps
  have htrace := h.trace
  cases hdoes with
  | finished | refused | rejected =>
    -- nothing is accepted
    refine ⟨h.initialTemperature, h.numSteps, h.initialScore, hbegun, ?_, ?_, ?_, ?_, h.last,
      h.scored_next id⟩ <;> simp [beginStep, *]
  | idle =>
    -- the unchanged score is pushed once more
    refine ⟨h.initialTemperature, h.numSteps, h.initialScore, hbegun, ?_, ?_, ?_, ?_, ?_,
      h.scored_next id⟩
    · simp [beginStep, State.idle, hmoves]
      omega
    · simp [beginStep, State.idle, himproving]
    · simp [beginStep, State.idle, hidle]
    · simp [beginStep, State.idle, htrace, List.filter_cons]
    · simp [beginStep, State.idle]
  | @accepted candidate score improving _ hscore =>
    refine ⟨h.initialTemperature, h.numSteps, h.initialScore, hbegun, ?_, ?_, ?_, ?_, ?_,
      h.scored_next fun _ => hscore⟩
    · cases improving <;> simp [beginStep, accept, hmoves] <;> omega
    · cases improving <;> simp [beginStep, accept, himproving]
    · simp [beginStep, accept, hidle]
    · simp [beginStep, accept, htrace, List.filter_cons]
    · simp [accept]

variable {calls : List (Except Refusal Verdict × State R)}

/-- The calls of a run that is let through are accounted for. -/
theorem Calls.account [Weight.KeepsZero R] (hfresh : start.Fresh score)
    (hlt : start.numSteps < 2 ^ 64) (h : start.Calls strategy g calls s) :
    start.Account strategy g calls s := by
  induction h with
  | none => exact hfresh.account
  | next _ hstep ih => exact ih.next (ih.does hfresh hlt hstep)

omit [Weight R] in
/-- An acceptance is one of a candidate that scores higher, of another one, or of the unchanged
state. -/
theorem length_filter_accepts :
    (calls.filter fun call => accepts call.1).length
      = (calls.map Prod.fst).count (.ok (.accepted true))
        + (calls.map Prod.fst).count (.ok (.accepted false))
        + (calls.map Prod.fst).count (.ok .idle) := by
  induction calls with
  | nil => rfl
  | cons call rest ih =>
    obtain ⟨answer, after⟩ := call
    rcases answer with refusal | (_ | _) | _ | _ <;>
      simp [List.filter_cons, ih] <;> omega

omit [Weight R] in
/-- The trace has an entry for the start and one for every accepted move. -/
theorem Account.size_trace (h : start.Account strategy g calls s) :
    s.trace.size = s.acceptedMoves + 1 := by
  rw [← Array.length_toList, h.trace, List.length_cons, List.length_map, length_filter_accepts,
    h.acceptedMoves]

omit [Weight R] in
theorem Account.first_trace (h : start.Account strategy g calls s) :
    s.trace[0]? = some s.initialScore := by
  rw [← Array.getElem?_toList, h.trace, h.initialScore]
  rfl

-- ---------------------------------------------------------------------------
-- Steps counted
-- ---------------------------------------------------------------------------

omit [Weight R] in
/-- A call is answered for want of steps just if all were made. -/
theorem Does.isExhausted_eq (hleaves : strategy.LeavesStepsAlone g)
    (hdoes : s.Does strategy g answer after) : isExhausted answer = s.finished := by
  cases hdoes with
  | finished hfinished => exact hfinished.symm
  | refused hfinished hpropose =>
    have hother := (hleaves s.current s.numSteps).of_refused hpropose
    rw [hfinished, ← Bool.not_eq_true, isExhausted_iff]
    rintro ⟨n, hn⟩
    exact hother n (Except.error.inj hn)
  | idle hfinished => exact hfinished.symm
  | rejected hfinished => exact hfinished.symm
  | accepted hfinished => exact hfinished.symm

/-- The steps begun are the calls that were not answered for want of steps. -/
theorem Calls.stepsBegun_eq [Weight.KeepsZero R] (hfresh : start.Fresh score)
    (hlt : start.numSteps < 2 ^ 64) (hleaves : strategy.LeavesStepsAlone g)
    (h : start.Calls strategy g calls s) :
    s.stepsBegun = calls.countP fun call => !isExhausted call.1 := by
  induction h with
  | none => exact hfresh.stepsBegun
  | @next τ _ calls s after answer source source' hcalls hstep ih =>
    have hdoes := (hcalls.account hfresh hlt).does hfresh hlt hstep
    have hexhausted := hdoes.isExhausted_eq hleaves
    rw [hdoes.stepsBegun, List.countP_append, List.countP_singleton, hexhausted, ih]
    cases s.finished <;> rfl

-- ---------------------------------------------------------------------------
-- Runs
-- ---------------------------------------------------------------------------

/-- The steps of a run are calls that are not refused, so that each of them is counted. -/
theorem advance_calls [Weight.KeepsZero R] (hfresh : start.Fresh score)
    (hlt : start.numSteps < 2 ^ 64) {steps : Nat} {last : State R}
    (hcalls : start.Calls strategy g calls s)
    (h : (s.advance strategy g steps).run.run source = .ok (.ok last, source')) :
    last.stepsBegun = s.stepsBegun + steps ∧ ∃ calls, start.Calls strategy g calls last := by
  induction steps generalizing s source calls with
  | zero =>
    cases h
    exact ⟨rfl, calls, hcalls⟩
  | succ steps ih =>
    obtain ⟨⟨verdict, after⟩, source₁, hstep, h⟩ := Attempt.lift_bind_inv h
    obtain ⟨verdict', rfl, h⟩ := Attempt.ofExcept_bind_inv h
    have hdoes := (hcalls.account hfresh hlt).does hfresh hlt hstep
    obtain ⟨hlast, hreached⟩ := ih (.next hcalls hstep) h
    refine ⟨?_, hreached⟩
    have hunfinished : s.finished = false := by
      cases hdoes <;> assumption
    rw [hlast, hdoes.stepsBegun, hunfinished]
    show s.stepsBegun + 1 + steps = _
    omega

end State

open State

/-- The books of a run that is let through balance, whatever the strategy and the words, where the
number of steps is a machine word. After any calls of `step`, the fields of the state tell of their
answers, and the steps begun are the calls as long as there are steps; a call after the last step
answers just that, and changes nothing; and a call changes the assignment and the score only if it
accepts a candidate. Unless the strategy itself speaks of missing steps (that of a problem never
does, `Problem.leavesStepsAlone`), the steps begun are the calls that were not answered for want of
them, and a call is so answered just if all steps were begun. A run that answers has made all its
steps. -/
theorem bookkeeping_balances [Weight.KeepsZero R] {start : State R}
    (hstart : (State.start strategy g x score config).run = .ok (.ok start))
    (hlt : start.numSteps < 2 ^ 64) :
    (start.current = x ∧ start.score = score) ∧
    (∀ calls s, start.Calls strategy g calls s →
      start.Account strategy g calls s ∧
      s.trace.size = s.acceptedMoves + 1 ∧ s.trace[0]? = some s.initialScore ∧
      (s.stepsBegun = start.numSteps → ∀ {σ : Type} [WordSource σ] (source : σ),
        (s.step strategy g).run source = .ok ((.error (.noStepsLeft start.numSteps), s), source)) ∧
      ∀ {σ : Type} [WordSource σ] {source source' : σ} {answer : Except Refusal Verdict}
        {after : State R},
        (s.step strategy g).run source = .ok ((answer, after), source') →
        (∀ improving, answer ≠ .ok (.accepted improving)) →
        after.current = s.current ∧ after.score = s.score) ∧
    (strategy.LeavesStepsAlone g → ∀ calls s, start.Calls strategy g calls s →
      s.stepsBegun = (calls.countP fun call => !isExhausted call.1) ∧
      ∀ {σ : Type} [WordSource σ] {source source' : σ} {answer : Except Refusal Verdict}
        {after : State R},
        (s.step strategy g).run source = .ok ((answer, after), source') →
        (isExhausted answer = true ↔
          (calls.countP fun call => !isExhausted call.1) = start.numSteps)) ∧
    ∀ {σ : Type} [WordSource σ] {source source' : σ} {result : Result R},
      (runOn strategy g x score config).run.run source = .ok (.ok result, source') →
      result.steps = start.numSteps ∧
      ∃ calls last, start.Calls strategy g calls last ∧ result = last.report := by
  have hfresh := start_fresh hstart
  refine ⟨⟨(start_inv hstart).current, hfresh.score_eq⟩, ?_, ?_, ?_⟩
  · intro calls s hcalls
    have haccount := hcalls.account hfresh hlt
    refine ⟨haccount, haccount.size_trace, haccount.first_trace, ?_, ?_⟩
    · intro hbegun σ _ source
      have hfinished : s.finished = true := by
        rw [finished, haccount.numSteps, hbegun]
        exact decide_eq_true (Nat.le_refl _)
      rw [step_of_finished hfinished, haccount.numSteps]
    · intro σ _ source source' answer after hstep
      exact (haccount.does hfresh hlt hstep).unchanged
  · intro hleaves calls s hcalls
    have haccount := hcalls.account hfresh hlt
    have hbegun := hcalls.stepsBegun_eq hfresh hlt hleaves
    refine ⟨hbegun, ?_⟩
    intro σ _ source source' answer after hstep
    have hcapped := haccount.stepsBegun
    rw [(haccount.does hfresh hlt hstep).isExhausted_eq hleaves, finished, haccount.numSteps,
      decide_eq_true_eq, ← hbegun]
    omega
  · intro σ _ source source' result hrun
    rw [runOn_of_start hstart] at hrun
    obtain ⟨last, source₁, hadvance, hrun⟩ := Attempt.bind_inv hrun
    cases hrun
    obtain ⟨hsteps, calls, hcalls⟩ := advance_calls hfresh hlt .none hadvance
    rw [hfresh.stepsBegun, Nat.zero_add] at hsteps
    exact ⟨hsteps, calls, last, hcalls, rfl⟩

/-- Max-cut makes two steps on the single edge. The counts are those of their answers, and the score
reported is that of the solution, although the first score was negative zero. -/
theorem bookkeeping_balances_singleEdge : ∃ result source',
    ∃ answers : List (Except Refusal Verdict),
    (runOn (Problem.maxCut : Problem Float).strategy (Graph.singleEdge Float) #[true, true] (-0.0)
      {}).run.run (Tape.start [] 0) = .ok (.ok result, source') ∧
    result.steps = 2 ∧ (answers.countP fun answer => !isExhausted answer) = 2 ∧
    result.idleSteps = answers.count (.ok .idle) ∧ result.trace.size = result.acceptedMoves + 1 ∧
    Problem.maxCut.strategy.score (Graph.singleEdge Float) result.solution = .ok result.score := by
  obtain ⟨start, hstart, hsteps, hscore⟩ : ∃ start,
      (State.start (Problem.maxCut : Problem Float).strategy (Graph.singleEdge Float) #[true, true]
        (-0.0) {}).run = .ok (.ok start) ∧ start.numSteps = 2 ∧
      Problem.maxCut.strategy.score (Graph.singleEdge Float) start.current = .ok start.score :=
    ⟨_, rfl, rfl, by decide⟩
  -- a flip is never refused, so that the run answers
  obtain ⟨_, source', hrun, result, rfl, -⟩ := Draw.Ensures.answers
    (runOn_ensures (Problem.sustains_maxCut Graph.isBuilt_singleEdge (by decide)) hstart rfl)
    (Tape.start [] 0)
  obtain ⟨-, hbooks, hcounted, hruns⟩ := bookkeeping_balances hstart (by omega)
  obtain ⟨hresult, calls, last, hcalls, rfl⟩ := hruns hrun
  obtain ⟨haccount, hsize, -⟩ := hbooks calls last hcalls
  obtain ⟨hbegun, -⟩ := hcounted (Problem.maxCut.leavesStepsAlone _) calls last hcalls
  rw [hsteps] at hresult
  refine ⟨_, source', calls.map Prod.fst, hrun, hresult, ?_, haccount.idleSteps, hsize,
    (haccount.scored hscore).1⟩
  rw [List.countP_map, ← hresult]
  exact hbegun.symm

end CutCover.Annealing
