import CutCover.Proofs.Annealing.Bookkeeping
import CutCover.Proofs.Annealing.Cover
import CutCover.Proofs.Annealing.Trades
import Mathlib.Data.List.Chain
import Mathlib.Tactic.Ring

/-!
# CutCover — annealing thins a cover out

With exact scores a cover pays no penalty, and scores minus the number of nodes it selects. Every
redundant node that a step removes therefore raises the score by one, so that the removal is
accepted without a draw, and a step that finds none accepts the unchanged cover. No step rejects
anything, whatever the temperature: annealing a cover is a random greedy descent.

* `Problem.score_of_isCoveredBy`   — the score of a cover.
* `State.Thins`, `State.step_thins` — what a step makes of a cover.
* `Result.Thinned`, `State.Thinned` — what is known of a report, and of a state.
* `State.Thins.thinned`            — a step keeps it.
* `Problem.annealing_cover_never_rejects` — every state, every step and every result.
-/

namespace CutCover

variable {g : Graph Rat} {x : Assignment}

-- ---------------------------------------------------------------------------
-- Scores of covers
-- ---------------------------------------------------------------------------

/-- A cover scores minus the number of nodes it selects, whatever the penalty. -/
theorem Problem.score_of_isCoveredBy (penalty : Rat) (hg : g.IsBuilt) (hx : x.size = g.numNodes)
    (hcover : g.IsCoveredBy x) :
    (minimumVertexCover penalty).strategy.score g x = .ok (-(x.countSelected : Rat)) := by
  have htest := (Graph.isCover_iff hg hx).mpr hcover
  rw [Graph.isCover_eq hg hx, Except.ok.injEq, beq_iff_eq] at htest
  have hexact : Constraint.cover.exactScore penalty g x = -(x.countSelected : Rat) := by
    simp [Constraint.exactScore, Constraint.label, Constraint.worth, htest]
  exact (Constraint.cover.score_eq penalty hg hx).trans (congrArg _ hexact)

/-- With one node less selected, a cover scores one more. -/
theorem Assignment.neg_countSelected_deselect {node : Nat} (h : x[node]? = some true)
    (hlt : node < x.size) :
    -(countSelected (x.set node false hlt) : Rat) = -(x.countSelected : Rat) + 1 := by
  rw [← countSelected_deselect h hlt]
  push_cast
  ring

namespace Annealing

variable {σ : Type} [WordSource σ] {source source' : σ} {penalty : Rat}

-- ---------------------------------------------------------------------------
-- Steps
-- ---------------------------------------------------------------------------

/-- What a step makes of a cover. It removes a node that the cover can do without, raises the score
by one and draws nothing beyond the proposal; or it finds no such node. -/
inductive State.Thins (g : Graph Rat) (s : State Rat) (source : σ) :
    Verdict → State Rat → σ → Prop where
  | removed {node : Nat} {source' : σ} (hselected : s.current[node]? = some true)
    (hlt : node < s.current.size) (hcovers : g.IsCoveredBy (s.current.set node false))
    (hpropose : (Move.randomRemoval g s.current s.numSteps).run.run source
      = .ok (.ok (some (.remove node)), source')) :
    Thins g s source (.accepted true)
      (s.beginStep.accept (s.current.set node false) (s.score + 1) true) source'
  | idle {source₁ source' : σ}
    (hpropose : (Move.randomRemoval g s.current s.numSteps).run.run source
      = .ok (.ok none, source₁)) :
    Thins g s source .idle (s.beginStep.idle true) source'

-- ---------------------------------------------------------------------------
-- States
-- ---------------------------------------------------------------------------

/-- What is reported once some nodes of the cover `x` were removed. -/
structure Result.Thinned (g : Graph Rat) (x : Assignment) (result : Result Rat) : Prop where
  size : result.solution.size = g.numNodes
  covers : g.IsCoveredBy result.solution
  score_eq : result.score = -(result.solution.countSelected : Rat)
  /-- Every improving move has removed a node. -/
  countSelected_add : result.solution.countSelected + result.improvingMoves = x.countSelected
  acceptedMoves : result.acceptedMoves = result.steps
  steps : result.improvingMoves + result.idleSteps = result.steps
  trace : result.trace.toList.IsChain fun before after => after = before ∨ after = before + 1
  last : result.trace.toList.getLast? = some result.score

namespace State

variable {start s after : State Rat} {verdict : Verdict} {score : Rat} {config : Config}

/-- A state that steps lead to from `start`. -/
structure Thinned (g : Graph Rat) (start s : State Rat) : Prop where
  initialTemperature : s.initialTemperature = start.initialTemperature
  numSteps : s.numSteps = start.numSteps
  report : s.report.Thinned g start.current

/-- A redundant node is removed without a draw. -/
theorem consider_removal (penalty : Rat) (hg : g.IsBuilt) (h : start.Thinned g s) {node : Nat}
    (hselected : s.current[node]? = some true) (hlt : node < s.current.size)
    (hcovers : g.IsCoveredBy (s.current.set node false)) (source : σ) :
    (s.beginStep.consider (Problem.minimumVertexCover penalty).strategy g (.remove node)).run source
      = .ok ((.accepted true,
          s.beginStep.accept (s.current.set node false) (s.score + 1) true), source) := by
  have hsize : (s.current.set node false).size = g.numNodes :=
    (Array.size_set hlt).trans h.report.size
  have hscore : s.score = -(s.current.countSelected : Rat) := h.report.score_eq
  have hraised := Problem.score_of_isCoveredBy penalty hg hsize hcovers
  rw [Assignment.neg_countSelected_deselect hselected hlt, ← hscore] at hraised
  have hdelta : s.beginStep.score - (s.score + 1) < Weight.ofNat 0 := by
    show s.score - (s.score + 1) < ((0 : Nat) : Rat)
    simp
  have happly : (Move.remove node).apply s.beginStep.current
      = .ok (s.current.set node false) := Assignment.setLabel_of_lt false hlt
  exact consider_of_improving happly hraised hdelta source

/-- A step from a cover with its true score removes a node or is idle. -/
theorem step_thins (penalty : Rat) (hg : g.IsBuilt) (hedges : g.numEdges ≠ 0)
    (hfresh : start.Fresh score) (hlt : start.numSteps < 2 ^ 64) (h : start.Thinned g s)
    (hunfinished : s.finished = false) (source : σ) :
    ∃ verdict after source',
      (s.step (Problem.minimumVertexCover penalty).strategy g).run source
        = .ok ((.ok verdict, after), source') ∧ s.Thins g source verdict after source' := by
  have hsize : s.current.size = g.numNodes := h.report.size
  have hcovers : g.IsCoveredBy s.current := h.report.covers
  have hremovals : Attempt.Ensures False
      (Move.randomRemoval g s.current s.numSteps : Attempt σ (Option Move)) fun answer =>
        ∀ move, answer = some move → Move.Removes g s.current move :=
    Move.randomRemoval_ensures hg hsize (hcovers.exists_selected hedges) s.numSteps
  obtain ⟨_, source₁, hpropose, proposal, rfl, hproposal⟩ :=
    Draw.Ensures.answers hremovals source
  cases proposal with
  | none =>
    have haccepts : Draw.Ensures False
        (metropolis (Weight.ofNat 0 : Rat) s.beginStep.temperature : Draw σ Bool)
        fun accepted => accepted = true := by
      refine unchanged_accepted ?_ ?_ ?_ hunfinished
      · rw [h.initialTemperature]
        exact hfresh.finite
      · rw [h.initialTemperature]
        exact hfresh.nonneg
      · rwa [h.numSteps]
    obtain ⟨_, source₂, haccepted, rfl⟩ := haccepts.answers source₁
    exact ⟨_, _, _, step_of_nothing hunfinished hpropose haccepted, .idle hpropose⟩
  | some move =>
    obtain ⟨node, hselected, hredundant, rfl⟩ := hproposal move rfl
    obtain ⟨hnode, -⟩ := Array.getElem?_eq_some_iff.mp hselected
    have hkept := hcovers.remove hg hsize hnode hredundant
    have hconsider := consider_removal penalty hg h hselected hnode hkept source₁
    exact ⟨_, _, _, step_of_proposed hunfinished hpropose hconsider,
      .removed hselected hnode hkept hpropose⟩

/-- A score that equals the last one or exceeds it by one prolongs the trace. -/
theorem Thinned.isChain_push (h : start.Thinned g s)
    (hnext : score = s.score ∨ score = s.score + 1) :
    (s.trace.push score).toList.IsChain fun before after =>
      after = before ∨ after = before + 1 := by
  have hlast : s.trace.toList.getLast? = some s.score := h.report.last
  rw [Array.toList_push, List.isChain_append]
  refine ⟨h.report.trace, List.isChain_singleton _, ?_⟩
  intro before hbefore after hafter
  cases hlast.symm.trans hbefore
  cases hafter
  exact hnext

/-- A step that removes a node or is idle counts what it does. -/
theorem Thins.thinned (h : start.Thinned g s) (hthins : s.Thins g source verdict after source') :
    start.Thinned g after := by
  have haccepted : s.acceptedMoves = s.stepsBegun := h.report.acceptedMoves
  have hsteps : s.improvingMoves + s.idleSteps = s.stepsBegun := h.report.steps
  cases hthins with
  | removed hselected hlt hcovers hpropose =>
    have hscore : s.score = -(s.current.countSelected : Rat) := h.report.score_eq
    have hcount := Assignment.countSelected_deselect hselected hlt
    have hremoved : s.current.countSelected + s.improvingMoves = start.current.countSelected :=
      h.report.countSelected_add
    refine ⟨h.initialTemperature, h.numSteps, ?_⟩
    constructor
    case size => exact (Array.size_set hlt).trans h.report.size
    case covers => exact hcovers
    case score_eq =>
      show s.score + 1 = -((Assignment.countSelected (s.current.set _ false hlt) : Nat) : Rat)
      rw [hscore, Assignment.neg_countSelected_deselect hselected hlt]
    case countSelected_add =>
      show Assignment.countSelected (s.current.set _ false hlt) + (s.improvingMoves + 1) = _
      omega
    case acceptedMoves => exact congrArg (· + 1) haccepted
    case steps =>
      show s.improvingMoves + 1 + s.idleSteps = s.stepsBegun + 1
      omega
    case trace => exact h.isChain_push (.inr rfl)
    case last => simp [report, accept]
  | idle hpropose =>
    refine ⟨h.initialTemperature, h.numSteps, ?_⟩
    constructor
    case size => exact h.report.size
    case covers => exact h.report.covers
    case score_eq => exact h.report.score_eq
    case countSelected_add => exact h.report.countSelected_add
    case acceptedMoves => exact congrArg (· + 1) haccepted
    case steps =>
      show s.improvingMoves + (s.idleSteps + 1) = s.stepsBegun + 1
      omega
    case trace => exact h.isChain_push (.inl rfl)
    case last => simp [report, State.idle, beginStep]

-- ---------------------------------------------------------------------------
-- Runs
-- ---------------------------------------------------------------------------

/-- Before the first step the start is the cover, with the score that was given. -/
theorem start_thinned (hg : g.IsBuilt)
    (hstart : (State.start (Problem.minimumVertexCover penalty).strategy g x score config).run
      = .ok (.ok start))
    (hscore : (Problem.minimumVertexCover penalty).strategy.score g x = .ok score) :
    start.Thinned g start := by
  have hstarted := start_inv hstart
  have hfresh := start_fresh hstart
  have hadmitted := Problem.requireCover_inv hstarted.admitted
  have hcovers := (Graph.isCover_iff hg hstarted.size).mp hadmitted
  rw [Problem.score_of_isCoveredBy penalty hg hstarted.size hcovers] at hscore
  cases hscore
  refine ⟨rfl, rfl, ?_⟩
  constructor
  case size => exact (congrArg Array.size hstarted.current).trans hstarted.size
  case covers =>
    show g.IsCoveredBy start.current
    rwa [hstarted.current]
  case score_eq =>
    show start.score = -(start.current.countSelected : Rat)
    rw [hfresh.score_eq, hstarted.current]
  case countSelected_add => exact congrArg (start.current.countSelected + ·) hfresh.improvingMoves
  case acceptedMoves => exact hfresh.acceptedMoves.trans hfresh.stepsBegun.symm
  case steps =>
    show start.improvingMoves + start.idleSteps = start.stepsBegun
    rw [hfresh.improvingMoves, hfresh.idleSteps, hfresh.stepsBegun]
  case trace =>
    show start.trace.toList.IsChain _
    rw [hfresh.trace]
    exact List.isChain_singleton _
  case last =>
    show start.trace.toList.getLast? = some start.score
    rw [hfresh.trace, hfresh.score_eq]
    rfl

/-- Steps lead from a cover to nothing but what is left of it. -/
theorem Reaches.thinned (hg : g.IsBuilt) (hedges : g.numEdges ≠ 0)
    (hfresh : start.Fresh score) (hlt : start.numSteps < 2 ^ 64) (hthinned : start.Thinned g start)
    (h : start.Reaches (Problem.minimumVertexCover penalty).strategy g s) :
    start.Thinned g s := by
  induction h with
  | start => exact hthinned
  | @step τ _ s after answer source source' _ hstep ih =>
    cases hfinished : s.finished with
    | true =>
      rw [step_of_finished hfinished] at hstep
      cases hstep
      exact ih
    | false =>
      obtain ⟨verdict, after', source₁, hrun, hthins⟩ :=
        step_thins penalty hg hedges hfresh hlt ih hfinished source
      rw [hstep] at hrun
      cases hrun
      exact hthins.thinned ih

end State

end Annealing

namespace Problem

open Annealing (State Config Result runOn runSeeded runUnscored runOn_of_start start_inv
  start_fresh)

/-- With exact scores and the true score of the start, annealing a cover rejects nothing, whatever
the penalty, the temperature and the words. Every step removes a node, which raises the score by one
and takes no draw to be accepted, or is idle. A run makes all its steps and accepts each of them,
its trace never rises by more than one at a time, and it ends with a score that is minus the number
of nodes still selected, as many fewer than at the start as there were improving moves. -/
theorem annealing_cover_never_rejects (penalty : Rat) (hg : g.IsBuilt) {score : Rat}
    {config : Config} {start : State Rat}
    (hstart : (State.start (minimumVertexCover penalty).strategy g x score config).run
      = .ok (.ok start))
    (hscore : (minimumVertexCover penalty).strategy.score g x = .ok score)
    (hlt : start.numSteps < 2 ^ 64) :
    (∀ s, start.Reaches (minimumVertexCover penalty).strategy g s →
      s.report.Thinned g x ∧
      (s.finished = false → ∀ {σ : Type} [WordSource σ] (source : σ),
        ∃ verdict after source',
          (s.step (minimumVertexCover penalty).strategy g).run source
            = .ok ((.ok verdict, after), source') ∧ s.Thins g source verdict after source')) ∧
    (∀ {σ : Type} [WordSource σ] (source : σ), ∃ result source',
      (runOn (minimumVertexCover penalty).strategy g x score config).run.run source
        = .ok (.ok result, source') ∧ result.steps = start.numSteps ∧ result.Thinned g x) ∧
    ∀ fresh, ∃ result,
      (runSeeded (minimumVertexCover penalty).strategy g x score config fresh).run
        = .ok (.ok result) ∧
      (runUnscored (minimumVertexCover penalty).strategy g x config fresh).run
        = .ok (.ok result) ∧ result.steps = start.numSteps ∧ result.Thinned g x := by
  have hstarted := start_inv hstart
  have hfresh := start_fresh hstart
  have hthinned := State.start_thinned hg hstart hscore
  have hreached : ∀ s, start.Reaches (minimumVertexCover penalty).strategy g s →
      start.Thinned g s := fun s hreach =>
    hreach.thinned hg hstarted.edges hfresh hlt hthinned
  have hreport : ∀ s, start.Reaches (minimumVertexCover penalty).strategy g s →
      s.report.Thinned g x := by
    intro s hreach
    rw [← hstarted.current]
    exact (hreached s hreach).report
  have hruns : ∀ {σ : Type} [WordSource σ] (source : σ), ∃ result source',
      (runOn (minimumVertexCover penalty).strategy g x score config).run.run source
        = .ok (.ok result, source') ∧ result.steps = start.numSteps ∧ result.Thinned g x := by
    intro σ _ source
    -- the run answers since its start is a cover, and what it reports is a state reached
    have hcover := (Graph.isCover_iff hg hstarted.size).mp (requireCover_inv hstarted.admitted)
    obtain ⟨_, source', hrun, result, rfl, -, hsteps⟩ := Draw.Ensures.answers
      (Annealing.runOn_ensures (sustains_minimumVertexCover penalty hg hstarted.edges) hstart
        ⟨hstarted.size, hcover⟩) source
    refine ⟨result, source', hrun, hsteps, ?_⟩
    rw [runOn_of_start hstart] at hrun
    obtain ⟨last, source₁, hadvance, hrun⟩ := Attempt.bind_inv hrun
    cases hrun
    exact hreport last (State.advance_reaches .start hadvance)
  refine ⟨?_, hruns, ?_⟩
  · intro s hreach
    refine ⟨hreport s hreach, ?_⟩
    intro hunfinished σ _ source
    exact State.step_thins penalty hg hstarted.edges hfresh hlt (hreached s hreach) hunfinished
      source
  · intro fresh
    obtain ⟨result, source', hrun, hsteps, hresult⟩ := hruns (config.generator fresh)
    have hseeded := Annealing.runSeeded_of_runOn hrun
    refine ⟨result, hseeded, ?_, hsteps, hresult⟩
    have hlength : g.checkLength x.size = .ok () := if_pos hstarted.size
    rw [runUnscored, Fallible.ofExcept_bind_of_ok hlength, Fallible.lift_bind_of_ok hscore]
    exact hseeded

/-- From both ends of the only edge one node is removed, and then none. -/
theorem annealing_cover_never_rejects_singleEdge : ∃ result source',
    (runOn (minimumVertexCover 2).strategy (Graph.singleEdge Rat) #[true, true] (-2) {}).run.run
      (Tape.start [] 0) = .ok (.ok result, source') ∧
    result.steps = 2 ∧ result.Thinned (Graph.singleEdge Rat) #[true, true] := by
  obtain ⟨start, hstart, hsteps⟩ : ∃ start, (State.start (minimumVertexCover 2).strategy
      (Graph.singleEdge Rat) #[true, true] (-2) {}).run = .ok (.ok start) ∧ start.numSteps = 2 :=
    ⟨_, rfl, rfl⟩
  have hscore : (minimumVertexCover 2).strategy.score (Graph.singleEdge Rat) #[true, true]
      = .ok (-2) := by
    decide +kernel
  have hbuilt : (Graph.singleEdge Rat).IsBuilt := by
    decide +kernel
  obtain ⟨-, hruns, -⟩ := annealing_cover_never_rejects 2 hbuilt hstart hscore (by omega)
  obtain ⟨result, source', hrun, hresult, hthinned⟩ := hruns (Tape.start [] 0)
  exact ⟨result, source', hrun, hresult.trans hsteps, hthinned⟩

end Problem

end CutCover
