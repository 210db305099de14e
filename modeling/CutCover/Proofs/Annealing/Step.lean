import CutCover.Annealing.Run
import CutCover.Proofs.Draws

/-!
# CutCover — annealing steps that are not refused

An annealing run goes on as long as its strategy finds something to propose, or finds that there is
nothing. Whether it does depends on the current assignment alone, so that the question for a whole
run is one about an invariant of assignments: where it holds, the strategy is not refused, and its
moves can be made and scored and lead to assignments where it holds again. `Strategy.Sustains` asks
this of a strategy once; steps, states reached and whole runs follow.

* `Strategy.Sustains`     — the invariant of a strategy.
* `State.step_ensures`    — what one step does under it.
* `State.Reaches`         — the states that steps lead to, refused ones included.
* `State.Reaches.sustained` — the invariant holds in them.
* `State.advance_ensures` — many steps.
-/

namespace CutCover

variable {R : Type} [Weight R] {strategy : Strategy R} {g : Graph R} {mayLoop : Prop}

/-- Where `inv` holds the strategy is not refused: it proposes nothing, or a move of the kind
described, which can be made and scored and keeps `inv`. Only if `mayLoop` holds may the search for
a move not end. -/
structure Strategy.Sustains (mayLoop : Prop) (strategy : Strategy R) (g : Graph R)
    (inv : Assignment → Prop) (proposed : Assignment → Move → Prop) : Prop where
  proposes : ∀ {σ : Type} [WordSource σ] {x : Assignment} (budget : Nat), inv x →
    Attempt.Ensures mayLoop (strategy.propose g x budget : Attempt σ (Option Move)) fun answer =>
      ∀ move, answer = some move → proposed x move
  makes : ∀ {x : Assignment} {move : Move}, inv x → proposed x move →
    ∃ y score, move.apply x = .ok y ∧ strategy.score g y = .ok score ∧ inv y

namespace Annealing

section Idle

omit [Weight R]

variable (s : State R) (accepted : Bool)

@[simp] theorem State.idle_current : (s.idle accepted).current = s.current := by
  cases accepted <;> rfl

@[simp] theorem State.idle_numSteps : (s.idle accepted).numSteps = s.numSteps := by
  cases accepted <;> rfl

@[simp] theorem State.idle_stepsBegun : (s.idle accepted).stepsBegun = s.stepsBegun := by
  cases accepted <;> rfl

end Idle

variable {σ : Type} [WordSource σ] {inv : Assignment → Prop} {proposed : Assignment → Move → Prop}

/-- The decision is made from any words. -/
theorem metropolis_ensures (delta : R) (temperature : Float) :
    Draw.Ensures mayLoop (metropolis delta temperature : Draw σ Bool) fun _ => True := by
  rw [metropolis]
  split
  · exact .pure trivial
  · exact Draw.unit_ensures.bind fun r _ => .pure trivial

namespace State

variable {s after : State R}

-- ---------------------------------------------------------------------------
-- One step
-- ---------------------------------------------------------------------------

/-- The state after one more step, which has left the assignment alone or made a move of the kind
described. -/
structure Follows (proposed : Assignment → Move → Prop) (s after : State R) : Prop where
  numSteps : after.numSteps = s.numSteps
  stepsBegun : after.stepsBegun = s.stepsBegun + 1
  current : after.current = s.current ∨
    ∃ move, proposed s.current move ∧ move.apply s.current = .ok after.current

/-- After the last step nothing happens. -/
theorem step_of_finished (h : s.finished = true) (source : σ) :
    (s.step strategy g).run source = .ok ((.error (.noStepsLeft s.numSteps), s), source) := by
  rw [step]
  simp only [h, if_true]
  rfl

/-- A step whose proposal is refused is counted, and that is all. -/
theorem step_of_refused (h : s.finished = false) {source source' : σ} {refusal : Refusal}
    (hpropose : (strategy.propose g s.current s.numSteps).run.run source
      = .ok (.error refusal, source')) :
    (s.step strategy g).run source = .ok ((.error refusal, s.beginStep), source') := by
  rw [step]
  simp only [h, Bool.false_eq_true, if_false]
  rw [StateT.run_bind]
  show ((strategy.propose g s.current s.numSteps).run.run source >>= _) = _
  rw [hpropose]
  rfl

/-- A step without a proposal is idle, whatever is decided on the unchanged state. -/
theorem step_of_nothing (h : s.finished = false) {source source₁ source' : σ} {accepted : Bool}
    (hpropose : (strategy.propose g s.current s.numSteps).run.run source
      = .ok (.ok none, source₁))
    (haccepted : (metropolis (Weight.ofNat 0 : R) s.beginStep.temperature).run source₁
      = .ok (accepted, source')) :
    (s.step strategy g).run source = .ok ((.ok .idle, s.beginStep.idle accepted), source') := by
  rw [step]
  simp only [h, Bool.false_eq_true, if_false]
  refine (Draw.bind_of_run hpropose).trans ?_
  exact Draw.bind_of_run haccepted

/-- A step with a proposal comes to what is decided on it. -/
theorem step_of_proposed (h : s.finished = false) {source source₁ source' : σ} {move : Move}
    {verdict : Verdict}
    (hpropose : (strategy.propose g s.current s.numSteps).run.run source
      = .ok (.ok (some move), source₁))
    (hconsider : (s.beginStep.consider strategy g move).run source₁
      = .ok ((verdict, after), source')) :
    (s.step strategy g).run source = .ok ((.ok verdict, after), source') := by
  rw [step]
  simp only [h, Bool.false_eq_true, if_false]
  refine (Draw.bind_of_run hpropose).trans ?_
  exact Draw.bind_of_run hconsider

/-- A candidate that scores higher is accepted without a draw. -/
theorem consider_of_improving {move : Move} {y : Assignment} {score : R}
    (hmove : move.apply s.current = .ok y) (hscore : strategy.score g y = .ok score)
    (hlt : s.score - score < Weight.ofNat 0) (source : σ) :
    (s.consider strategy g move).run source
      = .ok ((.accepted true, s.accept y score true), source) := by
  rw [consider, Draw.lift_bind_of_ok hmove, Draw.lift_bind_of_ok hscore]
  simp only [metropolis, hlt, if_true, decide_true]
  rfl

/-- A candidate that can be scored is accepted or rejected. -/
theorem consider_ensures {move : Move} {y : Assignment} {score : R}
    (hmove : move.apply s.current = .ok y) (hscore : strategy.score g y = .ok score) :
    Draw.Ensures mayLoop (s.consider strategy g move : Draw σ (Verdict × State R)) fun answer =>
      answer.2 = s ∨ ∃ improving, answer.2 = s.accept y score improving := by
  rw [consider]
  refine (Draw.Ensures.lift hmove rfl).bind fun candidate hcandidate => ?_
  subst hcandidate
  refine (Draw.Ensures.lift hscore rfl).bind fun candidateScore hcandidateScore => ?_
  subst hcandidateScore
  refine (metropolis_ensures _ _).bind fun accepted _ => ?_
  cases accepted with
  | true => exact .pure (.inr ⟨_, rfl⟩)
  | false => exact .pure (.inl rfl)

/-- Where the invariant holds a step is not refused, and the invariant holds after it. -/
theorem step_ensures (hs : strategy.Sustains mayLoop g inv proposed) (hinv : inv s.current)
    (hunfinished : s.finished = false) :
    Draw.Ensures mayLoop (s.step strategy g : Draw σ (Except Refusal Verdict × State R))
      fun answer => (∃ verdict, answer.1 = .ok verdict) ∧ inv answer.2.current ∧
        s.Follows proposed answer.2 := by
  rw [step]
  simp only [hunfinished, Bool.false_eq_true, if_false]
  refine Draw.Ensures.bind (hs.proposes s.numSteps hinv) fun proposal hproposal => ?_
  obtain ⟨answer, rfl, hall⟩ := hproposal
  cases answer with
  | none =>
    -- the unchanged assignment is the candidate
    refine (metropolis_ensures _ _).bind fun accepted _ => .pure ⟨⟨_, rfl⟩, ?_, ?_⟩
    · rw [idle_current]
      exact hinv
    · exact ⟨idle_numSteps _ _, idle_stepsBegun _ _, .inl (idle_current _ _)⟩
  | some move =>
    -- the candidate can be scored, and becomes the current assignment or is dropped
    have hmove := hall move rfl
    obtain ⟨y, score, happly, hscore, hkept⟩ := hs.makes hinv hmove
    refine (consider_ensures (s := s.beginStep) happly hscore).bind fun answer hanswer => ?_
    refine .pure ⟨⟨_, rfl⟩, ?_⟩
    rcases hanswer with hrejected | ⟨improving, haccepted⟩
    · rw [hrejected]
      exact ⟨hinv, rfl, rfl, .inl rfl⟩
    · rw [haccepted]
      exact ⟨hkept, rfl, rfl, .inr ⟨move, hmove, happly⟩⟩

-- ---------------------------------------------------------------------------
-- States reached
-- ---------------------------------------------------------------------------

/-- The state is reached by steps, each with words of its own and refused or not. -/
inductive Reaches (strategy : Strategy R) (g : Graph R) (start : State R) : State R → Prop where
  | start : Reaches strategy g start start
  | step {τ : Type} [WordSource τ] {s after : State R} {answer : Except Refusal Verdict}
    {source source' : τ} (hreach : Reaches strategy g start s)
    (hstep : (s.step strategy g).run source = .ok ((answer, after), source')) :
    Reaches strategy g start after

/-- The invariant holds of every assignment that a run passes through. -/
theorem Reaches.sustained {start : State R} (hs : strategy.Sustains mayLoop g inv proposed)
    (hinv : inv start.current) (h : Reaches strategy g start s) : inv s.current := by
  induction h with
  | start => exact hinv
  | @step τ _ s after answer source source' _ hstep ih =>
    cases hfinished : s.finished with
    | true =>
      -- a step after the last leaves the state as it is
      rw [step_of_finished hfinished] at hstep
      cases hstep
      exact ih
    | false => exact ((step_ensures hs ih hfinished).of_run hstep).2.1

/-- While steps are left they are made, and none is refused. -/
theorem advance_ensures (hs : strategy.Sustains mayLoop g inv proposed) {steps : Nat}
    (hinv : inv s.current) (hsteps : s.stepsBegun + steps ≤ s.numSteps) :
    Attempt.Ensures mayLoop (s.advance strategy g steps : Attempt σ (State R)) fun last =>
      inv last.current ∧ last.stepsBegun = s.stepsBegun + steps := by
  -- the invariant of the loop: `inv` holds of the state, and enough steps are left
  induction steps generalizing s with
  | zero => exact .pure ⟨hinv, rfl⟩
  | succ steps ih =>
    have hunfinished : s.finished = false := by
      rw [finished, decide_eq_false_iff_not]
      omega
    refine (Attempt.Ensures.lift (step_ensures hs hinv hunfinished)).bind fun answer hanswer => ?_
    obtain ⟨_, after⟩ := answer
    obtain ⟨⟨verdict, rfl⟩, hkept, hfollows⟩ := hanswer
    have hnum := hfollows.numSteps
    have hbegun := hfollows.stepsBegun
    have hrest := ih hkept (by omega)
    show Attempt.Ensures mayLoop (after.advance strategy g steps) _
    refine hrest.mono fun last hlast => ⟨hlast.1, ?_⟩
    have hsum := hlast.2
    omega

end State

end Annealing

end CutCover
