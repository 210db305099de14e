/-!
# CutCover — journals of local search runs

What happened in the rounds of a run, restart by restart. The counts of rounds and search calls
that a run reports are read off its journal.
-/

namespace CutCover.LocalSearch

/-- What happened in a round: how many slots each search call improved, and whether the round
brought a new best. -/
structure RoundEntry where
  improved : List Nat
  newBest : Bool
deriving DecidableEq, Repr

/-- The rounds of each restart, in order. -/
abbrev Journal := List (List RoundEntry)

/-- The number of rounds of all restarts. -/
def Journal.rounds (journal : Journal) : Nat :=
  journal.flatten.length

/-- The number of search calls of all rounds. -/
def Journal.searches (journal : Journal) : Nat :=
  (journal.flatten.flatMap fun entry => entry.improved).length

end CutCover.LocalSearch
