import CutCover.Problem
import CutCover.Proofs.Outcomes

/-!
# CutCover — what proposals are refused for

A generator of moves is refused before its first draw, for want of the nodes it needs, and for
nothing else; once it draws, it proposes a move or none.

* `Strategy.RefusesOnly`  — what the proposals of a strategy may be refused for.
* `Strategy.LeavesStepsAlone` — not for want of steps.
* `Problem.refusesOnly_noCandidates`, `Problem.leavesStepsAlone` — the proposals of the four
  problems.
-/

namespace CutCover

variable {σ : Type} [WordSource σ] {R : Type} {x : Assignment}

/-- The proposals of the strategy are refused for the reasons described only. -/
def Strategy.RefusesOnly (strategy : Strategy R) (g : Graph R) (reasons : Refusal → Prop) : Prop :=
  ∀ {σ : Type} [WordSource σ] (x : Assignment) (budget : Nat),
    Attempt.Meets (fun _ => True) reasons (strategy.propose g x budget : Attempt σ (Option Move))
      fun _ => True

/-- The proposals of the strategy are never refused as if no steps were left: that is for the
annealer to say. -/
def Strategy.LeavesStepsAlone (strategy : Strategy R) (g : Graph R) : Prop :=
  strategy.RefusesOnly g fun refusal => ∀ n, refusal ≠ .noStepsLeft n

/-- A move needs nodes that the assignment lacks. -/
def Refusal.IsNoCandidates : Refusal → Prop
  | .noCandidates _ => True
  | _ => False

namespace Move

omit [WordSource σ] in
/-- A generator that lacks nodes is refused for that, whatever would follow. -/
theorem lacking_bind_meets {α β : Type} {missing : MissingCandidates} {f : α → Attempt σ β} :
    Attempt.Meets (fun _ => True) Refusal.IsNoCandidates (lacking missing >>= f) fun _ => True :=
  .throw_bind trivial

theorem randomFlip_meets (x : Assignment) :
    Attempt.Meets (fun _ => True) Refusal.IsNoCandidates (randomFlip x : Attempt σ Move)
      fun _ => True := by
  rw [randomFlip]
  split
  · exact lacking_bind_meets
  · exact .bind (.lift (.any _)) fun _ _ => .pure trivial

theorem randomSwap_meets (x : Assignment) :
    Attempt.Meets (fun _ => True) Refusal.IsNoCandidates (randomSwap x : Attempt σ Move)
      fun _ => True := by
  rw [randomSwap]
  split
  · exact lacking_bind_meets
  · exact .lift (.any _)

theorem randomRemoval_meets [Weight R] (g : Graph R) (x : Assignment) (budget : Nat) :
    Attempt.Meets (fun _ => True) Refusal.IsNoCandidates
      (randomRemoval g x budget : Attempt σ (Option Move)) fun _ => True := by
  rw [randomRemoval]
  split
  · exact lacking_bind_meets
  · exact .lift (.any _)

theorem randomExchange_meets (x : Assignment) :
    Attempt.Meets (fun _ => True) Refusal.IsNoCandidates (randomExchange x : Attempt σ Move)
      fun _ => True := by
  rw [randomExchange]
  split
  · exact lacking_bind_meets
  split
  · exact lacking_bind_meets
  refine .bind (.lift (.any _)) fun out _ => .bind (.lift (.any _)) fun r _ => ?_
  split
  · exact .bind (.lift (.any _)) fun _ _ => .pure trivial
  · exact .lift (.any _)

end Move

/-- The proposals of the four problems are refused for want of nodes only. -/
theorem Problem.refusesOnly_noCandidates [Weight R] (problem : Problem R) (g : Graph R) :
    problem.strategy.RefusesOnly g Refusal.IsNoCandidates := by
  intro σ _ x budget
  cases problem with
  | maxCut => exact (Move.randomFlip_meets x).map fun _ _ => trivial
  | graphPartitioning => exact (Move.randomSwap_meets x).map fun _ _ => trivial
  | minimumVertexCover penalty => exact Move.randomRemoval_meets g x budget
  | maximumIndependentSet penalty => exact (Move.randomExchange_meets x).map fun _ _ => trivial

theorem Problem.leavesStepsAlone [Weight R] (problem : Problem R) (g : Graph R) :
    problem.strategy.LeavesStepsAlone g := by
  have hother (refusal : Refusal) (h : refusal.IsNoCandidates) (n : Nat) :
      refusal ≠ .noStepsLeft n := by
    rintro rfl
    exact h
  intro σ _ x budget
  exact (problem.refusesOnly_noCandidates g x budget).mono_refuse hother

end CutCover
