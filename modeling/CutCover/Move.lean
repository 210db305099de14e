import CutCover.Assignment

/-!
# CutCover — moves

A move names the labels that change from one assignment to the next. Proposing a move never touches
the assignment; the caller applies it to a copy of its own.
-/

namespace CutCover

/-- A change to an assignment. -/
inductive Move where
  /-- Toggles one label. -/
  | flip (node : Nat)
  /-- Exchanges the labels of two nodes. -/
  | swap (a b : Nat)
  /-- Deselects one node. -/
  | remove (node : Nat)
  /-- Deselects `out` and selects `into`. -/
  | exchange (out into : Nat)
  /-- Deselects `out` and selects two others. -/
  | exchangeTwo (out first second : Nat)
deriving DecidableEq, Repr

namespace Move

/-- The assignment after the move. -/
def apply (x : Assignment) : Move → Checked Assignment
  | flip node => x.flip node
  | swap a b => x.exchange a b
  | remove node => x.setLabel node false
  | exchange out into => do
    let y ← x.setLabel out false
    y.setLabel into true
  | exchangeTwo out first second => do
    let y ← x.setLabel out false
    let z ← y.setLabel first true
    z.setLabel second true

end Move

end CutCover
