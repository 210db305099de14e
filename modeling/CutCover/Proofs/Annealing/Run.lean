import CutCover.Proofs.Annealing.Step

/-!
# CutCover — annealing runs that are let through

What the checks before the first step let through, and what becomes of a run from there.

* `Started`, `start_inv`  — the parameters, the graph and the start of a run that is let through.
* `runOn_of_start`        — such a run makes all its steps and reports the last state.
* `runOn_ensures`         — it does so unrefused under an invariant of its strategy.
* `runOn_of_refused`      — it is refused if its first step is.
* `runSeeded_of_runOn`    — runs on the generator of the configuration.
-/

namespace CutCover.Annealing

-- ---------------------------------------------------------------------------
-- Before the first step
-- ---------------------------------------------------------------------------

/-- A run is never asked for no steps. -/
theorem Config.numSteps_ne_zero {config : Config} (h : config.check = .ok ()) :
    config.numSteps ≠ some 0 := by
  intro hzero
  rw [check, validate, if_pos hzero] at h
  split at h <;> cases h

variable {R : Type} [Weight R] {strategy : Strategy R} {g : Graph R} {x : Assignment} {score : R}
  {config : Config} {start : State R}

/-- What is known once a run is let through. -/
structure Started (strategy : Strategy R) (g : Graph R) (x : Assignment) (config : Config)
    (start : State R) : Prop where
  checked : config.check = .ok ()
  nodes : g.numNodes ≠ 0
  edges : g.numEdges ≠ 0
  size : x.size = g.numNodes
  admitted : (strategy.checkStart g x).run = .ok (.ok ())
  current : start.current = x
  numSteps : start.numSteps = config.numSteps.getD (strategy.usualSteps g)
  stepsBegun : start.stepsBegun = 0

omit [Weight R] in
theorem start_inv (h : (State.start strategy g x score config).run = .ok (.ok start)) :
    Started strategy g x config start := by
  obtain ⟨⟨⟩, hconfig, h⟩ := Fallible.ofExcept_bind_inv h
  obtain ⟨⟨⟩, hgraph, h⟩ := Fallible.ofExcept_bind_inv h
  obtain ⟨⟨⟩, hlength, h⟩ := Fallible.ofExcept_bind_inv h
  obtain ⟨⟨⟩, hstart, h⟩ := Fallible.bind_inv h
  have hsearchable : ¬(g.numNodes = 0 ∨ g.numEdges = 0) := by
    intro hnothing
    rw [Graph.checkSearchable, if_pos hnothing] at hgraph
    cases hgraph
  have hsize : x.size = g.numNodes := by
    by_contra hne
    rw [Graph.checkLength, if_neg hne] at hlength
    cases hlength
  cases h
  exact ⟨hconfig, fun hn => hsearchable (.inl hn), fun he => hsearchable (.inr he), hsize, hstart,
    rfl, rfl, rfl⟩

omit [Weight R] in
/-- There is a first step, if the problem's own number of steps is positive. -/
theorem Started.numSteps_pos (h : Started strategy g x config start)
    (husual : 0 < strategy.usualSteps g) : 0 < start.numSteps := by
  rw [h.numSteps]
  cases hnum : config.numSteps with
  | none => exact husual
  | some steps =>
    have hne := Config.numSteps_ne_zero h.checked
    rw [hnum, ne_eq, Option.some.injEq] at hne
    exact Nat.pos_of_ne_zero hne

-- ---------------------------------------------------------------------------
-- All steps
-- ---------------------------------------------------------------------------

variable {σ : Type} [WordSource σ]

/-- A run that is let through makes its steps and reports where they end. -/
theorem runOn_of_start (hstart : (State.start strategy g x score config).run = .ok (.ok start)) :
    (runOn strategy g x score config : Attempt σ (Result R))
      = start.advance strategy g start.numSteps >>= fun last => pure last.report := by
  rw [runOn, Attempt.ofFallible, hstart]
  rfl

variable {inv : Assignment → Prop} {proposed : Assignment → Move → Prop} {mayLoop : Prop}

theorem runOn_ensures (hs : strategy.Sustains mayLoop g inv proposed)
    (hstart : (State.start strategy g x score config).run = .ok (.ok start)) (hinv : inv x) :
    Attempt.Ensures mayLoop (runOn strategy g x score config : Attempt σ (Result R)) fun result =>
      inv result.solution ∧ result.steps = start.numSteps := by
  have hstarted := start_inv hstart
  have hcurrent : inv start.current := by
    rw [hstarted.current]
    exact hinv
  have hbegun := hstarted.stepsBegun
  rw [runOn_of_start hstart]
  refine (State.advance_ensures hs hcurrent (by omega)).bind fun last hlast => ?_
  have hsteps := hlast.2
  exact .pure ⟨hlast.1, show last.stepsBegun = start.numSteps by omega⟩

/-- A refusal of the first step is that of the run. -/
theorem runOn_of_refused {source source' : σ} {refusal : Refusal} {after : State R}
    (hstart : (State.start strategy g x score config).run = .ok (.ok start))
    (hpos : 0 < start.numSteps)
    (hstep : (start.step strategy g).run source = .ok ((.error refusal, after), source')) :
    (runOn strategy g x score config).run.run source = .ok (.error refusal, source') := by
  obtain ⟨steps, hsteps⟩ := Nat.exists_eq_succ_of_ne_zero (Nat.ne_of_gt hpos)
  have hadvance : (start.advance strategy g start.numSteps).run.run source
      = .ok (.error refusal, source') := by
    rw [hsteps, State.advance, Attempt.lift_bind_of_run hstep]
    rfl
  rw [runOn_of_start hstart]
  exact Attempt.bind_of_refused hadvance

/-- A run on the generator of its configuration answers what it answers on that source. -/
theorem runSeeded_of_runOn {fresh : UInt64} {answer : Except Refusal (Result R)}
    {source' : Xoshiro} (h : (runOn strategy g x score config).run.run (config.generator fresh)
      = .ok (answer, source')) :
    (runSeeded strategy g x score config fresh).run = .ok answer := by
  show ((runOn strategy g x score config).run.run (config.generator fresh) >>= _) = _
  rw [h]
  rfl

end CutCover.Annealing
