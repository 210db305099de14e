import CutCover.Graph.Cover
import CutCover.Move
import CutCover.Random.Attempt

/-!
# CutCover — random moves

One generator of moves for each problem. Each samples nodes of the kind its move needs and is
refused, without a draw, when there are none.

* `Move.randomFlip`     — toggles any node.
* `Move.randomSwap`     — exchanges two nodes with different labels, which keeps the sizes of the
  sides.
* `Move.randomRemoval`  — deselects a redundant node, which keeps a cover a cover.
* `Move.randomExchange` — moves one selected node out and one or two others in.
-/

namespace CutCover.Move

variable {σ : Type} [WordSource σ] {R : Type} [Weight R]

/-- Refused because the assignment lacks the nodes the move needs. -/
def lacking {α : Type} (missing : MissingCandidates) : Attempt σ α :=
  throw (Refusal.noCandidates missing)

-- ---------------------------------------------------------------------------
-- Flips
-- ---------------------------------------------------------------------------

/-- Toggles one uniformly chosen node. -/
def randomFlip (x : Assignment) : Attempt σ Move := do
  if x.isEmpty then
    lacking .toFlip
  let node ← (Draw.below x.size : Draw σ _)
  return .flip node

-- ---------------------------------------------------------------------------
-- Swaps
-- ---------------------------------------------------------------------------

/-- The swap of two nodes, if their labels differ. -/
def swapOf? (x : Assignment) (a b : Nat) : Checked (Option Move) := do
  let labelA ← x.label a
  let labelB ← x.label b
  return if labelA != labelB then some (.swap a b) else none

/-- One attempt at a pair of nodes with different labels. -/
def swapTrial (x : Assignment) : Draw σ (Option Move) := do
  let a ← Draw.below x.size
  let b ← Draw.below x.size
  swapOf? x a b

/-- Exchanges two nodes with different labels. -/
def randomSwap (x : Assignment) : Attempt σ Move := do
  let ones := x.countSelected
  if ones = 0 ∨ ones = x.size then
    lacking .toSwap
  (Draw.repeatUntil (swapTrial x) : Draw σ _)

-- ---------------------------------------------------------------------------
-- Removals
-- ---------------------------------------------------------------------------

/-- Samples from `candidates`, at most `budget` times, and removes the first that is redundant. -/
def sampleRedundant (g : Graph R) (x : Assignment) (candidates : Array Nat) :
    (budget : Nat) → Draw σ (Option Move)
  | 0 => return none
  | budget + 1 => do
    let node ← Draw.pick candidates
    if ← g.isRedundant x node then return some (.remove node)
    sampleRedundant g x candidates budget

/-- Deselects a redundant node, or proposes nothing if `budget` samples bring none. The assignment
has to be a cover already. -/
def randomRemoval (g : Graph R) (x : Assignment) (budget : Nat) : Attempt σ (Option Move) := do
  let candidates := x.selected.toArray
  if candidates.isEmpty then
    lacking .toRemove
  (sampleRedundant g x candidates budget : Draw σ _)

-- ---------------------------------------------------------------------------
-- Exchanges
-- ---------------------------------------------------------------------------

/-- The probability that an exchange moves one node in instead of two. -/
def singleExchangeChance : Float := 0.05

/-- The move that brings in the candidates at two places, if the places differ. -/
def exchangeTwoOf? (out : Nat) (candidates : Array Nat) (a b : Nat) : Checked (Option Move) := do
  if a = b then return none
  let first ← fetch candidates a
  let second ← fetch candidates b
  return some (.exchangeTwo out first second)

/-- One attempt at two distinct candidates. -/
def exchangeTwoTrial (out : Nat) (candidates : Array Nat) : Draw σ (Option Move) := do
  let a ← Draw.below candidates.size
  let b ← Draw.below candidates.size
  exchangeTwoOf? out candidates a b

/-- Moves one selected node out, and one or two nodes in that were unselected before. With a single
unselected node there is no choice but to move that one in. -/
def randomExchange (x : Assignment) : Attempt σ Move := do
  let selected := x.selected.toArray
  let unselected := x.unselected.toArray
  if selected.isEmpty then
    lacking .toMoveOut
  if unselected.isEmpty then
    lacking .toMoveIn
  let out ← (Draw.pick selected : Draw σ _)
  let r ← (Draw.unit : Draw σ _)
  if r < singleExchangeChance ∨ unselected.size < 2 then
    let into ← (Draw.pick unselected : Draw σ _)
    return .exchange out into
  (Draw.repeatUntil (exchangeTwoTrial out unselected) : Draw σ _)

end CutCover.Move
