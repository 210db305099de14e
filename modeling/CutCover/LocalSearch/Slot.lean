import CutCover.LocalSearch.Rank
import CutCover.Random.Normal
import CutCover.Random.Xoshiro
import CutCover.Strategy

/-!
# CutCover — searching one slot

A slot is an assignment with its score. Searching it runs *flip rounds* and then one *sweep*. A
flip round adds normal noise to the gains of the nodes, flips every node whose noisy gain lies
above a threshold, and keeps the challenger if it scores strictly higher. The threshold is fixed
in the first round so that about `numSpin` nodes lie above it. The sweep tries to flip each node
alone, in order, and keeps what scores strictly higher.

* `SearchParams`      — flip rounds, nodes per round, noise.
* `Slot.flipRounds`   — the flip rounds.
* `Slot.sweep`        — the sweep.
* `Slot.search`       — both.
* `Slot.searchSeeded` — both, with a generator of their own.
-/

namespace CutCover.LocalSearch

/-- An assignment and its score. -/
structure Slot (R : Type) where
  solution : Assignment
  score : R
deriving DecidableEq, Repr

/-- The parameters of one search call. -/
structure SearchParams where
  /-- The number of flip rounds. -/
  numIters : Nat
  /-- The number of nodes to flip in a round. -/
  numSpin : Nat
  /-- The noise on the gains, relative to their spread. -/
  noiseStd : Float

-- ---------------------------------------------------------------------------
-- Noise and threshold
-- ---------------------------------------------------------------------------

/-- The smaller of two numbers; the other one if one is not a number. -/
def minNumber (a b : Float) : Float :=
  if a.isNaN then b else if b < a then b else a

/-- The larger of two numbers; the other one if one is not a number. -/
def maxNumber (a b : Float) : Float :=
  if a.isNaN then b else if a < b then b else a

/-- The difference between the largest and the smallest gain. -/
def spread (gains : List Float) : Float :=
  gains.foldl maxNumber negativeInfinity - gains.foldl minNumber positiveInfinity

/-- The gains with normal noise of the given size, one draw of it for each node in order. -/
def addNoise {τ : Type} [WordSource τ] (scale : Float) (gains : List Float) :
    Draw τ (List Float) := do
  let noise ← Draw.replicate gains.length Draw.normal
  return gains.zipWith (fun gain z => gain + z * scale) noise

/-- The threshold that leaves `numSpin` of the noisy gains above it, unless there are ties. -/
def chooseThreshold (numSpin : Nat) (noisy : List Float) : Checked Float := do
  let rank ← difference noisy.length numSpin
  ofRank noisy rank

/-- The threshold of a round: the one fixed before, or else one chosen for these gains. -/
def settleThreshold (numSpin : Nat) (threshold? : Option Float) (noisy : List Float) :
    Checked Float :=
  match threshold? with
  | some threshold => .ok threshold
  | none => chooseThreshold numSpin noisy

/-- Flips the nodes whose noisy gain lies above the threshold. -/
def flipAbove (threshold : Float) (noisy : List Float) (x : Assignment) : Assignment :=
  (x.toList.zipWith (fun label gain => if threshold < gain then !label else label) noisy).toArray

namespace Slot

variable {R : Type} [Weight R] {τ : Type} [WordSource τ]

-- ---------------------------------------------------------------------------
-- Challengers
-- ---------------------------------------------------------------------------

/-- Scores an assignment. -/
def ofSolution (strategy : Strategy R) (g : Graph R) (x : Assignment) : Checked (Slot R) := do
  let score ← strategy.score g x
  return ⟨x, score⟩

/-- Keeps a challenger if it scores strictly higher. -/
def improve (slot challenger : Slot R) : Slot R :=
  if slot.score < challenger.score then challenger else slot

-- ---------------------------------------------------------------------------
-- Flip rounds
-- ---------------------------------------------------------------------------

/-- The noisy gains of the slot's assignment. -/
def noisyGains (strategy : Strategy R) (g : Graph R) (noiseStd : Float) (slot : Slot R) :
    Draw τ (List Float) := do
  let gains ← strategy.gains g slot.solution slot.solution.size
  let gains := gains.map Weight.toFloat
  addNoise (spread gains * noiseStd) gains

/-- Flip rounds. The first of them chooses the threshold if there is none yet. -/
def flipRounds (strategy : Strategy R) (g : Graph R) (params : SearchParams) :
    (rounds : Nat) → (threshold? : Option Float) → Slot R → Draw τ (Slot R)
  | 0, _, slot => return slot
  | rounds + 1, threshold?, slot => do
    let noisy ← slot.noisyGains strategy g params.noiseStd
    let threshold ← settleThreshold params.numSpin threshold? noisy
    let challenger ← ofSolution strategy g (flipAbove threshold noisy slot.solution)
    flipRounds strategy g params rounds (some threshold) (slot.improve challenger)

-- ---------------------------------------------------------------------------
-- The sweep
-- ---------------------------------------------------------------------------

/-- Tries to flip one node. -/
def tryFlip (strategy : Strategy R) (g : Graph R) (slot : Slot R) (node : Nat) :
    Checked (Slot R) := do
  let flipped ← slot.solution.flip node
  let challenger ← ofSolution strategy g flipped
  return slot.improve challenger

/-- Tries to flip each node once, in order. -/
def sweep (strategy : Strategy R) (g : Graph R) (slot : Slot R) : Checked (Slot R) :=
  (List.range slot.solution.size).foldlM (tryFlip strategy g) slot

-- ---------------------------------------------------------------------------
-- The whole search
-- ---------------------------------------------------------------------------

/-- The flip rounds and the sweep. -/
def search (strategy : Strategy R) (g : Graph R) (params : SearchParams) (slot : Slot R) :
    Draw τ (Slot R) := do
  let searched ← slot.flipRounds strategy g params params.numIters none
  searched.sweep strategy g

/-- Searches the slot with a generator of its own, started from `seed`. -/
def searchSeeded (strategy : Strategy R) (g : Graph R) (params : SearchParams) (slot : Slot R)
    (seed : UInt64) : Checked (Slot R) := do
  let (searched, _) ← (slot.search strategy g params).run (Xoshiro.ofSeed seed)
  return searched

end Slot

end CutCover.LocalSearch
