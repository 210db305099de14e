import CutCover.LocalSearch.Incumbent
import CutCover.LocalSearch.Journal
import CutCover.LocalSearch.Population

/-!
# CutCover — local search runs

A run makes independent restarts. A restart keeps a population of the best slots found since it
began; in every round a copy of its best slot in each place is perturbed and searched, and what
gets better is taken over. A round ends early when search calls bring nothing any more, and a
restart when rounds do. The best slot of all restarts is the incumbent.

* `searchCalls` — the search calls of a round.
* `runRound`    — a round.
* `runRounds`   — the rounds of a restart.
* `runRestarts` — the restarts.
* `explore`     — a whole run, with its journal.
* `runOn`, `runSeeded` — what a run reports.
-/

namespace CutCover.LocalSearch

/-- What a run reports. -/
structure Result (R : Type) where
  solution : Assignment
  score : R
  /-- The round and score of every new best; rounds are counted across restarts. -/
  history : List (Nat × R)
  rounds : Nat
  searches : Nat
deriving DecidableEq, Repr

variable {σ : Type} [WordSource σ] {R : Type} [Weight R]

/-- The part of the parameters that a search call needs. -/
def Config.searchParams (config : Config) : SearchParams :=
  ⟨config.numIters, config.numSpin, config.noiseStd⟩

-- ---------------------------------------------------------------------------
-- Rounds
-- ---------------------------------------------------------------------------

/-- The population that best slots are taken over into, and the one that is searched. -/
structure Pair (R : Type) where
  best : Population R
  search : Population R

/-- Searches once and takes over what got better. Answers how many slots that were. -/
def searchOnce (strategy : Strategy R) (g : Graph R) (config : Config) (pair : Pair R) :
    Attempt σ (Nat × Pair R) := do
  let (report, search) ← (pair.search.searchSlots strategy g config.searchParams : Draw σ _)
  let _ ← report
  let (taken, best) := pair.best.merge search
  let taken ← taken
  return (taken, ⟨best, search⟩)

/-- The search calls of a round, at most `calls` of them from number `call` on. The round ends
when more than `innerPatience` calls have passed since the last one that improved a slot, or since
the first one. -/
def searchCalls (strategy : Strategy R) (g : Graph R) (config : Config) :
    (calls call lastImproved : Nat) → Pair R → Attempt σ (List Nat × Population R)
  | 0, _, _, pair => return ([], pair.best)
  | calls + 1, call, lastImproved, pair => do
    let (taken, after) ← searchOnce strategy g config pair
    if 0 < taken then
      let (others, best) ← searchCalls strategy g config calls (call + 1) call after
      return (taken :: others, best)
    let waited ← (difference call lastImproved : Draw σ _)
    if config.innerPatience < waited then
      return ([taken], after.best)
    let (others, best) ← searchCalls strategy g config calls (call + 1) lastImproved after
    return (taken :: others, best)

/-- A round: copies the best slot into all places, perturbs a copy of that population, and
searches the copy. -/
def runRound (strategy : Strategy R) (g : Graph R) (config : Config) (best : Population R) :
    Attempt σ (List Nat × Population R) := do
  let best := best.copyBest
  let perturbed ←
    (Assignment.perturbAll g.numNodes config.numPerturb best.solutions : Draw σ _)
  let (scores, search) ← (Population.empty.load strategy g perturbed : Draw σ _)
  let _ ← scores
  searchCalls strategy g config config.numInner 0 0 ⟨best, search⟩

-- ---------------------------------------------------------------------------
-- Restarts
-- ---------------------------------------------------------------------------

/-- The rounds of a restart, at most `rounds` of them from number `round` on; `before` rounds were
made by earlier restarts. The restart ends when more than `roundPatience` rounds have passed since
the last one that brought a new best, or since the first one. -/
def runRounds (strategy : Strategy R) (g : Graph R) (config : Config) (before : Nat) :
    (rounds round lastImproved : Nat) → Population R → Incumbent R →
      Attempt σ (List RoundEntry × Incumbent R)
  | 0, _, _, _, incumbent => return ([], incumbent)
  | rounds + 1, round, lastImproved, best, incumbent => do
    let (improved, best) ← runRound strategy g config best
    match best.best.map (incumbent.offer (before + round)) with
    | none =>
      let (others, last) ←
        runRounds strategy g config before rounds (round + 1) lastImproved best incumbent
      return (⟨improved, false⟩ :: others, last)
    | some (true, raised) =>
      let (others, last) ←
        runRounds strategy g config before rounds (round + 1) round best raised
      return (⟨improved, true⟩ :: others, last)
    | some (false, held) =>
      let waited ← (difference round lastImproved : Draw σ _)
      if config.roundPatience < waited then
        return ([⟨improved, false⟩], held)
      let (others, last) ←
        runRounds strategy g config before rounds (round + 1) lastImproved best held
      return (⟨improved, false⟩ :: others, last)

/-- A restart: a random population, and rounds from it. -/
def runRestart (strategy : Strategy R) (g : Graph R) (config : Config) (before : Nat)
    (incumbent : Incumbent R) : Attempt σ (List RoundEntry × Incumbent R) := do
  let start ← (Draw.replicate config.numSlots (Assignment.random g.numNodes) : Draw σ _)
  let (scores, best) ← (Population.empty.load strategy g start : Draw σ _)
  let _ ← scores
  runRounds strategy g config before config.numRounds 0 0 best incumbent

/-- Restarts, one after another; `before` rounds were made by earlier ones. -/
def runRestarts (strategy : Strategy R) (g : Graph R) (config : Config) :
    (restarts before : Nat) → Incumbent R → Attempt σ (Journal × Incumbent R)
  | 0, _, incumbent => return ([], incumbent)
  | restarts + 1, before, incumbent => do
    let (entries, held) ← runRestart strategy g config before incumbent
    let (others, last) ← runRestarts strategy g config restarts (before + entries.length) held
    return (entries :: others, last)

-- ---------------------------------------------------------------------------
-- Runs
-- ---------------------------------------------------------------------------

/-- Refuses faulty parameters, a graph with nothing to search, and more nodes to flip than there
are, in this order. -/
def checkRun (g : Graph R) (config : Config) : Except Refusal Unit := do
  config.check
  g.checkSearchable
  if g.numNodes < config.numSpin then
    throw (.invalidConfig (.spinExceedsNodes config.numSpin g.numNodes))

/-- A whole run: its journal and its incumbent. -/
def explore (strategy : Strategy R) (g : Graph R) (config : Config) :
    Attempt σ (Journal × Incumbent R) := do
  checkRun g config
  runRestarts strategy g config config.numRestarts 0 .empty

/-- What a run with this journal and incumbent reports. -/
def report (journal : Journal) (incumbent : Incumbent R) : Except Refusal (Result R) :=
  match incumbent.best with
  | none => .error (.invalidConfig .noSolution)
  | some slot =>
    .ok {
      solution := slot.solution
      score := slot.score
      history := incumbent.history
      rounds := journal.rounds
      searches := journal.searches }

/-- Runs on a given source of words. -/
def runOn (strategy : Strategy R) (g : Graph R) (config : Config) : Attempt σ (Result R) := do
  let (journal, incumbent) ← explore strategy g config
  report journal incumbent

/-- Runs with the generator of the configuration; `fresh` is the seed if it names none. -/
def runSeeded (strategy : Strategy R) (g : Graph R) (config : Config) (fresh : UInt64) :
    Fallible (Result R) :=
  ExceptT.mk do
    let (answer, _) ← (runOn strategy g config).run.run (config.generator fresh)
    return answer

end CutCover.LocalSearch
