import CutCover.LocalSearch.Slot

/-!
# CutCover — the incumbent

The best slot offered so far over a whole run, and the rounds in which it was beaten. An offer is
turned down if its score is at most the one held.
-/

namespace CutCover.LocalSearch

/-- The best slot so far, and the round and score of every improvement, the last one first. -/
structure Incumbent (R : Type) where
  best : Option (Slot R)
  improvements : List (Nat × R)

namespace Incumbent

variable {R : Type}

/-- Nothing has been offered yet. -/
def empty : Incumbent R :=
  ⟨none, []⟩

/-- The round and score of every improvement, in order. -/
def history (incumbent : Incumbent R) : List (Nat × R) :=
  incumbent.improvements.reverse

/-- The score of the slot held. -/
def bestScore (incumbent : Incumbent R) : Option R :=
  incumbent.best.map Slot.score

variable [Weight R]

/-- A score is turned down: a slot is held already, and the score is at most its score. -/
def declines (incumbent : Incumbent R) (score : R) : Bool :=
  match incumbent.bestScore with
  | none => false
  | some best => score ≤ best

/-- Offers a slot seen in a round. Answers whether it was taken. -/
def offer (incumbent : Incumbent R) (round : Nat) (slot : Slot R) : Bool × Incumbent R :=
  if incumbent.declines slot.score then (false, incumbent)
  else (true, ⟨some slot, (round, slot.score) :: incumbent.improvements⟩)

end Incumbent

end CutCover.LocalSearch
