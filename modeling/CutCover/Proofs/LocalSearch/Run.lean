import CutCover.LocalSearch.Run
import CutCover.Proofs.Answers

/-!
# CutCover — runs that answer

What is known of the parameters, the graph, the parts and the report of a local search run that
answers. The loops over search calls and over rounds count their steps and may end early; what they
make of the populations is described by relations that leave the counting out.

* `Config.Positive`, `positive_of_check` — the counts that the check of the parameters requires.
* `checkRun_inv`                         — what the check of a run lets through.
* `Calls`, `runRound_inv`                — the search calls of a round, and a whole round.
* `Rounds`, `rounds_of_runRounds`        — the rounds of a restart.
* `report_inv`                           — where the report of a run comes from.
-/

namespace CutCover.LocalSearch

-- ---------------------------------------------------------------------------
-- Parameters
-- ---------------------------------------------------------------------------

/-- The counts that have to be positive are, and the noise is admissible. -/
structure Config.Positive (config : Config) : Prop where
  numSlots : 0 < config.numSlots
  numRestarts : 0 < config.numRestarts
  numRounds : 0 < config.numRounds
  numInner : 0 < config.numInner
  numSpin : 0 < config.numSpin
  noise : noiseAdmissible config.noiseStd = true

theorem positive_of_validate {config : Config} (h : config.validate = .ok ()) :
    config.Positive := by
  unfold Config.validate at h
  split at h
  · cases h
  · next hnone =>
    split at h
    · next hnoise =>
      have hcounts := List.find?_eq_none.mp hnone
      simp only [Config.counts, List.mem_cons, List.not_mem_nil, or_false, beq_iff_eq,
        forall_eq_or_imp, forall_eq] at hcounts
      obtain ⟨hslots, hrestarts, hrounds, hinner, hspin⟩ := hcounts
      exact ⟨by omega, by omega, by omega, by omega, by omega, hnoise⟩
    · cases h

theorem positive_of_check {config : Config} (h : config.check = .ok ()) : config.Positive := by
  unfold Config.check at h
  cases hvalid : config.validate with
  | error fault =>
    rw [hvalid] at h
    cases h
  | ok _ => exact positive_of_validate hvalid

-- ---------------------------------------------------------------------------
-- Checks
-- ---------------------------------------------------------------------------

variable {R : Type} {g : Graph R} {config : Config}

/-- A run is let through if its parameters are, and the graph has something to search. -/
theorem checkRun_inv (h : checkRun g config = .ok ()) :
    config.Positive ∧ g.checkSearchable = .ok () ∧ config.numSpin ≤ g.numNodes := by
  unfold checkRun at h
  cases hcheck : config.check with
  | error refusal =>
    rw [hcheck] at h
    cases h
  | ok _ =>
    cases hgraph : g.checkSearchable with
    | error refusal =>
      rw [hcheck, hgraph] at h
      cases h
    | ok _ =>
      rw [hcheck, hgraph] at h
      by_cases hspin : g.numNodes < config.numSpin
      · simp only [hspin, if_true] at h
        cases h
      · exact ⟨positive_of_check hcheck, rfl, by omega⟩

-- ---------------------------------------------------------------------------
-- Rounds
-- ---------------------------------------------------------------------------

section Parts

variable {σ : Type} [WordSource σ] [Weight R] {strategy : Strategy R} {s s' : σ}

/-- A search call searches the one population, and merges what it leaves there into the other. -/
theorem searchOnce_inv {pair after : Pair R} {taken : Nat}
    (h : (searchOnce strategy g config pair).run.run s = .ok (.ok (taken, after), s')) :
    ∃ report, (pair.search.searchSlots strategy g config.searchParams).run s
        = .ok ((.ok report, after.search), s') ∧
      pair.best.merge after.search = (.ok taken, after.best) := by
  obtain ⟨⟨answer, search⟩, s₁, hsearch, hmerging⟩ := Attempt.lift_bind_inv h
  obtain ⟨report, rfl, htaking⟩ := Attempt.ofExcept_bind_inv hmerging
  cases hmerge : pair.best.merge search with
  | mk verdict best =>
    simp only [hmerge] at htaking
    obtain ⟨merged, rfl, hanswer⟩ := Attempt.ofExcept_bind_inv htaking
    cases hanswer
    exact ⟨report, hsearch, hmerge⟩

/-- Some search calls, one after another, with the number of slots that each improved and the best
population after the last of them. -/
inductive Calls (σ : Type) [WordSource σ] (strategy : Strategy R) (g : Graph R) (config : Config) :
    Pair R → List Nat → Population R → Prop
  | none {pair : Pair R} : Calls σ strategy g config pair [] pair.best
  | call {pair after : Pair R} {taken : Nat} {counts : List Nat} {best : Population R} {s s' : σ}
    (h : (searchOnce strategy g config pair).run.run s = .ok (.ok (taken, after), s'))
    (hrest : Calls σ strategy g config after counts best) :
    Calls σ strategy g config pair (taken :: counts) best

theorem calls_of_searchCalls {calls call lastImproved : Nat} {pair : Pair R} {counts : List Nat}
    {best : Population R}
    (h : (searchCalls strategy g config calls call lastImproved pair).run.run s
      = .ok (.ok (counts, best), s')) :
    Calls σ strategy g config pair counts best ∧ (0 < calls → counts ≠ []) := by
  induction calls generalizing call lastImproved pair counts s with
  | zero =>
    cases h
    exact ⟨.none, fun hpos => absurd hpos (Nat.lt_irrefl 0)⟩
  | succ calls ih =>
    obtain ⟨⟨taken, after⟩, s₁, honce, hrest⟩ := Attempt.bind_inv h
    dsimp only at hrest
    split at hrest
    · obtain ⟨⟨others, last⟩, s₂, hothers, hend⟩ := Attempt.bind_inv hrest
      cases hend
      exact ⟨.call honce (ih hothers).1, fun _ => List.cons_ne_nil taken others⟩
    · obtain ⟨waited, s₂, -, hrest'⟩ := Attempt.bind_inv hrest
      split at hrest'
      · cases hrest'
        exact ⟨.call honce .none, fun _ => List.cons_ne_nil taken []⟩
      · obtain ⟨⟨others, last⟩, s₃, hothers, hend⟩ := Attempt.bind_inv hrest'
        cases hend
        exact ⟨.call honce (ih hothers).1, fun _ => List.cons_ne_nil taken others⟩

/-- A round perturbs copies of the best slot, scores them, and makes its search calls. -/
theorem runRound_inv {best after : Population R} {improved : List Nat}
    (h : (runRound strategy g config best).run.run s = .ok (.ok (improved, after), s')) :
    ∃ perturbed scores search s₁,
      (Assignment.perturbAll g.numNodes config.numPerturb best.copyBest.solutions).run s
        = .ok (perturbed, s₁) ∧
      Population.empty.load strategy g perturbed = .ok (.ok scores, search) ∧
      (searchCalls strategy g config config.numInner 0 0 ⟨best.copyBest, search⟩).run.run s₁
        = .ok (.ok (improved, after), s') := by
  obtain ⟨perturbed, s₁, hperturbed, hrest⟩ := Attempt.lift_bind_inv h
  obtain ⟨⟨answer, search⟩, s₂, hload, hrest'⟩ := Attempt.lift_bind_inv hrest
  obtain ⟨scores, rfl, hcalls⟩ := Attempt.ofExcept_bind_inv hrest'
  obtain ⟨hloaded, rfl⟩ := Draw.lift_inv hload
  exact ⟨perturbed, scores, search, s₁, hperturbed, hloaded, hcalls⟩

-- ---------------------------------------------------------------------------
-- Restarts
-- ---------------------------------------------------------------------------

/-- Some rounds of a restart, the first of them with the given number, with their entries in the
journal and the incumbent after the last of them. -/
inductive Rounds (σ : Type) [WordSource σ] (strategy : Strategy R) (g : Graph R)
    (config : Config) : Nat → Population R → Incumbent R → List RoundEntry → Incumbent R → Prop
  | none {round : Nat} {best : Population R} {incumbent : Incumbent R} :
    Rounds σ strategy g config round best incumbent [] incumbent
  | empty {round : Nat} {best after : Population R} {improved : List Nat} {s s' : σ}
    {incumbent last : Incumbent R} {entries : List RoundEntry}
    (h : (runRound strategy g config best).run.run s = .ok (.ok (improved, after), s'))
    (hbest : after.best = .none)
    (hrest : Rounds σ strategy g config (round + 1) after incumbent entries last) :
    Rounds σ strategy g config round best incumbent (⟨improved, false⟩ :: entries) last
  | offer {round : Nat} {best after : Population R} {improved : List Nat} {s s' : σ}
    {slot : Slot R} {newBest : Bool} {incumbent held last : Incumbent R}
    {entries : List RoundEntry}
    (h : (runRound strategy g config best).run.run s = .ok (.ok (improved, after), s'))
    (hbest : after.best = some slot) (hoffer : incumbent.offer round slot = (newBest, held))
    (hrest : Rounds σ strategy g config (round + 1) after held entries last) :
    Rounds σ strategy g config round best incumbent (⟨improved, newBest⟩ :: entries) last

theorem rounds_of_runRounds {before rounds round lastImproved : Nat} {best : Population R}
    {incumbent last : Incumbent R} {entries : List RoundEntry}
    (h : (runRounds strategy g config before rounds round lastImproved best incumbent).run.run s
      = .ok (.ok (entries, last), s')) :
    Rounds σ strategy g config (before + round) best incumbent entries last := by
  induction rounds generalizing round lastImproved best incumbent entries s with
  | zero =>
    cases h
    exact .none
  | succ rounds ih =>
    obtain ⟨⟨improved, after⟩, s₁, hround, hrest⟩ := Attempt.bind_inv h
    cases hbest : after.best with
    | none =>
      simp only [hbest, Option.map_none] at hrest
      obtain ⟨⟨others, final⟩, s₂, hothers, hend⟩ := Attempt.bind_inv hrest
      cases hend
      exact .empty hround hbest (ih hothers)
    | some slot =>
      simp only [hbest, Option.map_some] at hrest
      cases hoffer : incumbent.offer (before + round) slot with
      | mk taken held =>
        cases taken with
        | true =>
          simp only [hoffer] at hrest
          obtain ⟨⟨others, final⟩, s₂, hothers, hend⟩ := Attempt.bind_inv hrest
          cases hend
          exact .offer hround hbest hoffer (ih hothers)
        | false =>
          simp only [hoffer] at hrest
          obtain ⟨waited, s₂, -, hrest'⟩ := Attempt.bind_inv hrest
          split at hrest'
          · cases hrest'
            exact .offer hround hbest hoffer .none
          · obtain ⟨⟨others, final⟩, s₃, hothers, hend⟩ := Attempt.bind_inv hrest'
            cases hend
            exact .offer hround hbest hoffer (ih hothers)

/-- A restart scores random assignments and makes rounds from them. -/
theorem runRestart_inv {before : Nat} {incumbent last : Incumbent R} {entries : List RoundEntry}
    (h : (runRestart strategy g config before incumbent).run.run s
      = .ok (.ok (entries, last), s')) :
    ∃ start scores best s₁,
      (Draw.replicate config.numSlots (Assignment.random g.numNodes)).run s = .ok (start, s₁) ∧
      Population.empty.load strategy g start = .ok (.ok scores, best) ∧
      (runRounds strategy g config before config.numRounds 0 0 best incumbent).run.run s₁
        = .ok (.ok (entries, last), s') := by
  obtain ⟨start, s₁, hstart, hrest⟩ := Attempt.lift_bind_inv h
  obtain ⟨⟨answer, best⟩, s₂, hload, hrest'⟩ := Attempt.lift_bind_inv hrest
  obtain ⟨scores, rfl, hrounds⟩ := Attempt.ofExcept_bind_inv hrest'
  obtain ⟨hloaded, rfl⟩ := Draw.lift_inv hload
  exact ⟨start, scores, best, s₁, hstart, hloaded, hrounds⟩

end Parts

-- ---------------------------------------------------------------------------
-- Reports
-- ---------------------------------------------------------------------------

/-- A report shows the slot held by the incumbent. -/
theorem report_inv {journal : Journal} {incumbent : Incumbent R} {result : Result R}
    (h : report journal incumbent = .ok result) :
    incumbent.best = some ⟨result.solution, result.score⟩ ∧
      result.history = incumbent.history ∧ result.rounds = journal.rounds ∧
      result.searches = journal.searches := by
  unfold report at h
  split at h
  · cases h
  · next slot hslot =>
    cases h
    exact ⟨hslot, rfl, rfl, rfl⟩

end CutCover.LocalSearch
