import CutCover.Graph.Basic
import CutCover.Move
import CutCover.Random.Attempt

/-!
# CutCover — strategies

A problem as the solvers see it: how to score an assignment, how to propose a move, and how much a
flip of each node would gain. A higher score is always better; a problem whose objective is to be
small negates it. Both solvers are written for an arbitrary strategy, and `CutCover.Problem` gives
the four of the library.
-/

namespace CutCover

/-- What a solver needs to know of a problem. -/
structure Strategy (R : Type) where
  name : String
  /-- Scores an assignment; higher is better. -/
  score : Graph R → Assignment → Checked R
  /-- Proposes a move, or none. The number bounds a search for a move that may come to nothing. -/
  propose : {σ : Type} → [WordSource σ] → Graph R → Assignment → Nat → Attempt σ (Option Move)
  /-- The number of annealing steps unless another is asked for. -/
  usualSteps : Graph R → Nat
  /-- Refuses an assignment that annealing must not start from. -/
  checkStart : Graph R → Assignment → Fallible Unit
  /-- For each of the first nodes, as many as the number says, the change of score that flipping it
  alone would bring. -/
  gains : Graph R → Assignment → Nat → Checked (List R)
  /-- There are as many gains as were asked for. -/
  length_gains : ∀ {g : Graph R} {x : Assignment} {count : Nat} {gs : List R},
    gains g x count = .ok gs → gs.length = count

end CutCover
