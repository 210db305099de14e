import CutCover.Assignment.Random
import CutCover.LocalSearch.Config
import CutCover.LocalSearch.Slot
import CutCover.Random.Attempt

/-!
# CutCover — populations

A population holds a number of assignments with their scores, slot by slot. Slots never exchange
information except when the best one is copied into all of them: a search improves each slot on its
own, and a slot gives way only to an assignment that scores strictly higher.

The operations that can be refused return the population along with the refusal, so that what a
refused call leaves behind can be seen.

* `Population.load`, `Population.sample`   — fill a population.
* `Population.best`, `Population.copyBest` — the highest-scoring slot.
* `Population.merge`       — takes over what scores higher in another population.
* `Population.searchSlots` — searches every slot.
-/

namespace CutCover.LocalSearch

/-- Assignments and their scores, in two lists with the slots in the same order. -/
structure Population (R : Type) where
  solutions : List Assignment
  scores : List R
deriving DecidableEq, Repr

/-- What a search call reports: the number of slots that improved, and the best score after it. -/
structure SearchReport (R : Type) where
  numUpdated : Nat
  bestScore : Option R
deriving DecidableEq, Repr

/-- A best score as a number; negative infinity if there is none. -/
def scoreOrLowest (score : Option Float) : Float :=
  score.getD negativeInfinity

namespace Population

variable {R : Type}

/-- The population without slots. -/
def empty : Population R :=
  ⟨[], []⟩

/-- The slots, each assignment with its score. -/
def slots (p : Population R) : List (Slot R) :=
  p.solutions.zipWith Slot.mk p.scores

/-- The population with the given slots. -/
def ofSlots (slots : List (Slot R)) : Population R :=
  ⟨slots.map Slot.solution, slots.map Slot.score⟩

/-- The number of slots. -/
def size (p : Population R) : Nat :=
  p.solutions.length

variable [Weight R]

-- ---------------------------------------------------------------------------
-- The best slot
-- ---------------------------------------------------------------------------

/-- Of two slots the one that scores higher, and the first if neither does. -/
def better (best : Option (Slot R)) (slot : Slot R) : Option (Slot R) :=
  match best with
  | none => some slot
  | some held => some (held.improve slot)

/-- The highest-scoring slot, the first of several. -/
def best (p : Population R) : Option (Slot R) :=
  p.slots.foldl better none

/-- Overwrites every slot with the best one. -/
def copyBest (p : Population R) : Population R :=
  match p.best with
  | none => p
  | some slot => ofSlots (p.slots.map fun _ => slot)

-- ---------------------------------------------------------------------------
-- Filling
-- ---------------------------------------------------------------------------

/-- Takes over assignments and scores them. Refused for the first one of the wrong length. -/
def load (strategy : Strategy R) (g : Graph R) (solutions : List Assignment) (p : Population R) :
    Checked (Except Refusal (List R) × Population R) := do
  match solutions.find? fun x => x.size != g.numNodes with
  | some bad => return (.error (.lengthMismatch g.numNodes bad.size), p)
  | none =>
    let scores ← solutions.mapM fun x => strategy.score g x
    return (.ok scores, ⟨solutions, scores⟩)

/-- The best-scoring of some assignments, the first of several. -/
def bestSample (strategy : Strategy R) (g : Graph R) (first : Assignment)
    (others : List Assignment) : Checked Assignment := do
  let start ← Slot.ofSolution strategy g first
  let slots ← others.mapM fun x => Slot.ofSolution strategy g x
  return (slots.foldl Slot.improve start).solution

/-- The best of `samples` random assignments, but of one at least. -/
def sampleSlot {σ : Type} [WordSource σ] (strategy : Strategy R) (g : Graph R) (samples : Nat) :
    Draw σ Assignment := do
  let first ← Assignment.random g.numNodes
  let others ← Draw.replicate (samples - 1) (Assignment.random g.numNodes)
  bestSample strategy g first others

/-- Fills a population, each slot with the best of some random assignments. -/
def sample {σ : Type} [WordSource σ] (strategy : Strategy R) (g : Graph R)
    (numSlots samplesPerSlot : Nat) (p : Population R) :
    Draw σ (Except Refusal (List R) × Population R) := do
  let solutions ← Draw.replicate numSlots (sampleSlot strategy g samplesPerSlot)
  p.load strategy g solutions

-- ---------------------------------------------------------------------------
-- Merging
-- ---------------------------------------------------------------------------

/-- Takes over every slot of `offered` that scores strictly higher than the same slot here, and
answers how many there were. Refused unless the four lists have one length; the first that differs
from the assignments here is named. -/
def merge (p offered : Population R) : Except Refusal Nat × Population R :=
  let lengths := [p.scores.length, offered.solutions.length, offered.scores.length]
  match lengths.find? fun length => length != p.size with
  | some length => (.error (.lengthMismatch p.size length), p)
  | none =>
    let taken := (p.slots.zip offered.slots).countP fun (held, slot) => held.score < slot.score
    (.ok taken, ofSlots (p.slots.zipWith Slot.improve offered.slots))

-- ---------------------------------------------------------------------------
-- Searching
-- ---------------------------------------------------------------------------

/-- Refuses a number of nodes to flip that exceeds the nodes, then noise that is not admissible. -/
def checkSearch (g : Graph R) (params : SearchParams) : Except Refusal Unit :=
  if g.numNodes < params.numSpin then
    .error (.invalidConfig (.spinExceedsNodes params.numSpin g.numNodes))
  else if noiseAdmissible params.noiseStd then .ok ()
  else .error (.invalidConfig (.noiseStd params.noiseStd))

/-- Searches every slot with a generator of its own and keeps what scores strictly higher. The
seeds of these generators, one word for each slot in order, are all that is drawn. -/
def searchSlots {σ : Type} [WordSource σ] (strategy : Strategy R) (g : Graph R)
    (params : SearchParams) (p : Population R) :
    Draw σ (Except Refusal (SearchReport R) × Population R) := do
  match checkSearch g params with
  | .error refusal => return (.error refusal, p)
  | .ok () =>
    let seeds ← Draw.replicate p.size Draw.word
    let searched ← (p.slots.zip seeds).mapM fun (slot, seed) =>
      slot.searchSeeded strategy g params seed
    match p.merge (ofSlots searched) with
    | (.error refusal, after) => return (.error refusal, after)
    | (.ok numUpdated, after) =>
      return (.ok ⟨numUpdated, after.best.map Slot.score⟩, after)

end Population

end CutCover.LocalSearch
