import CutCover.Outcome
import CutCover.Decimal.Positional
import CutCover.Text.Quoted

/-!
# CutCover — refusals

Everything a caller can be refused for, by cause, and the one wording of each. The top constructor
is the family of the refusal; what distinguishes its members is the nested cause.

* `Refusal`         — the refusals.
* `EdgeFault`, `MissingCandidates`, `ConfigFault` — causes within a family.
* `Refusal.message` — the text shown to the user.
* `Fallible`        — computations that answer, are refused, or abort.
-/

namespace CutCover

/-- What is wrong with an edge of an input graph. -/
inductive EdgeFault where
  | endpointOutside (u v numNodes : Nat)
  | selfLoop (node : Nat)
  | nonFiniteWeight (weight : Float)
deriving DecidableEq

/-- The nodes a move would need and the assignment does not offer. -/
inductive MissingCandidates where
  | toFlip
  | toSwap
  | toRemove
  | toMoveOut
  | toMoveIn
deriving DecidableEq

/-- Parameters that have to be at least one. -/
inductive CountParameter where
  | numSteps
  | numSlots
  | numRestarts
  | numRounds
  | numInner
  | numSpin
deriving DecidableEq

/-- What is wrong with a parameter, or with the result it led to. -/
inductive ConfigFault where
  | edgeProbability (p : Float)
  | attachmentCount (numNodes count : Nat)
  | unknownKind (text : String)
  | spinExceedsNodes (numSpin numNodes : Nat)
  | noiseStd (value : Float)
  | initialTemperature (value : Float)
  | notPositive (parameter : CountParameter)
  | noSolution
deriving DecidableEq

/-- A refusal. -/
inductive Refusal where
  /-- The input graph is malformed at the numbered edge. -/
  | invalidGraph (edge : Nat) (fault : EdgeFault)
  /-- The graph is well formed but has nothing to search over. -/
  | degenerateGraph (numNodes numEdges : Nat)
  /-- A move was to be drawn from an empty set of nodes. -/
  | noCandidates (missing : MissingCandidates)
  /-- The text holds a character that is no digit; positions count characters from zero. -/
  | invalidSymbol (symbol : Char) (position : Nat)
  /-- The written value needs more labels than there are nodes. -/
  | valueOverflow (numNodes : Nat)
  /-- The starting assignment leaves edges uncovered. -/
  | infeasibleStart (uncovered : Nat)
  /-- An assignment or a population has the wrong length. -/
  | lengthMismatch (expected got : Nat)
  /-- A step was asked for after the last one. -/
  | noStepsLeft (numSteps : Nat)
  /-- A parameter is out of bounds. -/
  | invalidConfig (fault : ConfigFault)
deriving DecidableEq

-- ---------------------------------------------------------------------------
-- Wording
-- ---------------------------------------------------------------------------

/-- The wording of a faulty edge, which is named by its number. -/
def EdgeFault.message (edge : Nat) : EdgeFault → String
  | endpointOutside u v numNodes =>
    s!"edge {edge} ({u}, {v}) has an endpoint outside [0, {numNodes})"
  | selfLoop node => s!"edge {edge} is a self-loop on node {node}"
  | nonFiniteWeight weight => s!"edge {edge} has non-finite weight {Decimal.render weight}"

/-- The wording of missing nodes. -/
def MissingCandidates.message : MissingCandidates → String
  | toFlip => "no nodes to flip"
  | toSwap => "swap needs nodes on both sides of the partition"
  | toRemove => "no selected node to remove"
  | toMoveOut => "no selected node to move out"
  | toMoveIn => "no unselected node to move in"

/-- The name under which a parameter is known to callers. -/
def CountParameter.name : CountParameter → String
  | numSteps => "num_steps"
  | numSlots => "num_slots"
  | numRestarts => "num_restarts"
  | numRounds => "num_rounds"
  | numInner => "num_inner"
  | numSpin => "num_spin"

/-- The wording of a faulty parameter. -/
def ConfigFault.message : ConfigFault → String
  | edgeProbability p => s!"edge probability must be in [0, 1], got {Decimal.render p}"
  | attachmentCount numNodes count =>
    s!"attachment count must be in [1, {numNodes}), got {count}"
  | unknownKind text => s!"unknown problem kind {Text.quoteString text}"
  | spinExceedsNodes numSpin numNodes => s!"num_spin {numSpin} exceeds node count {numNodes}"
  | noiseStd value => s!"noise_std must be finite and non-negative, got {Decimal.render value}"
  | initialTemperature value =>
    s!"initial_temperature must be finite and non-negative, got {Decimal.render value}"
  | notPositive parameter => s!"{parameter.name} must be positive"
  | noSolution => "search produced no solution"

/-- The text of a refusal: its family, a colon, its cause. -/
def Refusal.message : Refusal → String
  | invalidGraph edge fault => s!"invalid graph: {fault.message edge}"
  | degenerateGraph numNodes numEdges =>
    s!"degenerate graph: {numNodes} nodes, {numEdges} edges"
  | noCandidates missing => s!"empty candidate set: {missing.message}"
  | invalidSymbol symbol position =>
    s!"invalid symbol {Text.quoteChar symbol} at position {position}"
  | valueOverflow numNodes => s!"decoded value does not fit in {numNodes} nodes"
  | infeasibleStart uncovered =>
    s!"infeasible starting assignment: {uncovered} edges are not covered"
  | lengthMismatch expected got => s!"dimension mismatch: expected {expected}, got {got}"
  | noStepsLeft numSteps => s!"all {numSteps} annealing steps already ran"
  | invalidConfig fault => s!"invalid config: {fault.message}"

-- ---------------------------------------------------------------------------
-- Computations that can be refused
-- ---------------------------------------------------------------------------

/-- A computation that answers, is refused, or aborts. -/
abbrev Fallible := ExceptT Refusal Checked

end CutCover
