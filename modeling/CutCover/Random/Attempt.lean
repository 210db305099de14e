import CutCover.Refusal
import CutCover.Random.Words

/-!
# CutCover — attempts

A computation that takes random words and may be refused. A refusal keeps the source: the words
drawn before it stay drawn. An abort ends everything and leaves no source.
-/

namespace CutCover

/-- A computation that takes words, and answers, is refused, or aborts. -/
abbrev Attempt (σ : Type) := ExceptT Refusal (Draw σ)

namespace Attempt

variable {σ : Type} {α : Type}

/-- A computation without draws, as an attempt that leaves the source alone. -/
def ofFallible (computation : Fallible α) : Attempt σ α :=
  ExceptT.mk (liftM computation.run)

end Attempt

end CutCover
