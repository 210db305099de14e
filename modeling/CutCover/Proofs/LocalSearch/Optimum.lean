import CutCover.Proofs.LocalSearch.CarriesBest
import CutCover.Proofs.LocalSearch.Run

/-!
# CutCover — a run reports the best that it scored

No assignment that a run scores is better than the one it reports. Every part of a run, from one
search call to all restarts, carries the best along: what a search finds is merged into the best
population, a round begins with copies of the best slot, and what a round ends with is offered to
the incumbent. Ending a round or a restart early only leaves out what would come later.

* `IsScoredIn`                — an assignment is scored in a run.
* `carriesBest_searchCalls`, `carriesBest_runRound` — one round.
* `carriesBest_runRounds`, `carriesBest_runRestarts` — the rounds and the restarts.
* `runOn_reports_optimum`     — the run.
-/

namespace CutCover.LocalSearch

variable {R σ : Type} [Weight R] [Weight.Ordered R] [WordSource σ]
variable {strategy : Strategy R} {g : Graph R} {config : Config} {s s' : σ}

-- ---------------------------------------------------------------------------
-- Rounds
-- ---------------------------------------------------------------------------

/-- The slots of both populations. -/
def Pair.slots (pair : Pair R) : List (Slot R) :=
  pair.best.slots ++ pair.search.slots

/-- Searching once carries the best into the best population, where it stands up to what is
searched next. -/
theorem carriesBest_searchOnce {pair after : Pair R} {taken : Nat}
    (h : (searchOnce strategy g config pair).run.run s = .ok (.ok (taken, after), s')) :
    CarriesBest strategy g (fun strategy => (searchOnce strategy g config pair).run.run s)
        (.ok (taken, after), s') pair.slots after.slots ∧
      KeepsBest after.slots after.best.slots := by
  obtain ⟨report, hsearch, hmerge⟩ := searchOnce_inv h
  obtain ⟨hbest, hsettled⟩ := Population.keepsBest_merge hmerge
  have hfound := (Population.carriesBest_searchSlots hsearch).frame_left pair.best.slots
  -- what was searched stays at hand for the next call
  have hboth : KeepsBest (pair.best.slots ++ after.search.slots) after.slots := by
    refine hbest.mono_kept (fun slot hslot => List.mem_append_left _ hslot) ?_
    intro slot hslot
    rcases List.mem_append.mp hslot with hslot | hslot
    · exact hbest.mem_offered slot hslot
    · exact List.mem_append_right _ hslot
  refine ⟨?_, hsettled⟩
  refine (hfound.conseq (.refl _) hboth).attempt_lift.attempt_bind ?_
  refine .silent ?_ (fun _ => rfl) _
  simp only [hmerge]
  rfl

/-- The search calls of a round carry the best into the best population, if there is a call or the
best is there already. The round may end early after any call. -/
theorem carriesBest_searchCalls {calls call lastImproved : Nat} {pair : Pair R}
    {counts : List Nat} {best : Population R}
    (hsettled : 0 < calls ∨ KeepsBest pair.slots pair.best.slots)
    (h : (searchCalls strategy g config calls call lastImproved pair).run.run s
      = .ok (.ok (counts, best), s')) :
    CarriesBest strategy g
      (fun strategy => (searchCalls strategy g config calls call lastImproved pair).run.run s)
      (.ok (counts, best), s') pair.slots best.slots := by
  induction calls generalizing call lastImproved pair counts s with
  | zero =>
    rcases hsettled with hcalls | hsettled
    · exact absurd hcalls (Nat.lt_irrefl 0)
    · cases h
      exact (CarriesBest.silent rfl (fun _ => rfl) pair.slots).conseq (.refl _) hsettled
  | succ calls ih =>
    obtain ⟨⟨taken, after⟩, s₁, honce, hrest⟩ := Attempt.bind_inv h
    obtain ⟨hfirst, hafter⟩ := carriesBest_searchOnce honce
    refine hfirst.attempt_bind ?_
    -- from here on the best is in place, so that the round may end or go on
    by_cases htaken : 0 < taken
    · simp only [htaken, if_true] at hrest ⊢
      obtain ⟨⟨others, last⟩, s₂, hothers, hend⟩ := Attempt.bind_inv hrest
      cases hend
      exact (ih (.inr hafter) hothers).attempt_bind (.silent rfl (fun _ => rfl) _)
    · simp only [htaken, if_false] at hrest ⊢
      obtain ⟨waited, s₂, hwaited, hrest'⟩ := Attempt.bind_inv hrest
      refine (CarriesBest.silent hwaited (fun _ => rfl) after.slots).attempt_bind ?_
      by_cases hpatience : config.innerPatience < waited
      · simp only [hpatience, if_true] at hrest' ⊢
        cases hrest'
        exact (CarriesBest.silent rfl (fun _ => rfl) after.slots).conseq (.refl _) hafter
      · simp only [hpatience, if_false] at hrest' ⊢
        obtain ⟨⟨others, last⟩, s₃, hothers, hend⟩ := Attempt.bind_inv hrest'
        cases hend
        exact (ih (.inr hafter) hothers).attempt_bind (.silent rfl (fun _ => rfl) _)

/-- A round carries the best along: it begins with copies of the best slot. -/
theorem carriesBest_runRound {best after : Population R} {counts : List Nat}
    (hinner : 0 < config.numInner)
    (h : (runRound strategy g config best).run.run s = .ok (.ok (counts, after), s')) :
    CarriesBest strategy g (fun strategy => (runRound strategy g config best).run.run s)
      (.ok (counts, after), s') best.slots after.slots := by
  obtain ⟨perturbed, s₁, hperturbed, hrest⟩ := Attempt.bind_inv h
  obtain ⟨⟨answer, search⟩, s₂, hload, hrest'⟩ := Attempt.lift_bind_inv hrest
  obtain ⟨scores, hscores, hcalls⟩ := Attempt.ofExcept_bind_inv hrest'
  obtain ⟨hloaded, hsource⟩ := Draw.lift_inv hload
  rw [hscores] at hloaded
  have hfilled := (Population.carriesBest_load hloaded).frame_left best.copyBest.slots
  rw [List.append_nil] at hfilled
  have hround := carriesBest_searchCalls (.inl hinner) hcalls
  rw [← hsource] at hround
  refine CarriesBest.conseq ?_ (Population.keepsBest_copyBest best) (.refl after.slots)
  refine (CarriesBest.silent hperturbed (fun _ => rfl) _).attempt_bind ?_
  refine hfilled.draw_lift.attempt_lift.attempt_bind ?_
  exact hround

-- ---------------------------------------------------------------------------
-- Restarts
-- ---------------------------------------------------------------------------

/-- The rounds of a restart carry the best to the incumbent, if there is a round or the incumbent
holds it already. The restart may end early after any round. -/
theorem carriesBest_runRounds {before rounds round lastImproved : Nat} {best : Population R}
    {incumbent last : Incumbent R} {entries : List RoundEntry} (hinner : 0 < config.numInner)
    (hsettled : 0 < rounds ∨ KeepsBest (incumbent.slots ++ best.slots) incumbent.slots)
    (h : (runRounds strategy g config before rounds round lastImproved best incumbent).run.run s
      = .ok (.ok (entries, last), s')) :
    CarriesBest strategy g (fun strategy =>
        (runRounds strategy g config before rounds round lastImproved best incumbent).run.run s)
      (.ok (entries, last), s') (incumbent.slots ++ best.slots) last.slots := by
  induction rounds generalizing round lastImproved best incumbent entries s with
  | zero =>
    rcases hsettled with hrounds | hsettled
    · exact absurd hrounds (Nat.lt_irrefl 0)
    · cases h
      exact (CarriesBest.silent rfl (fun _ => rfl) _).conseq (.refl _) hsettled
  | succ rounds ih =>
    obtain ⟨⟨improved, after⟩, s₁, hround, hrest⟩ := Attempt.bind_inv h
    have hfirst := (carriesBest_runRound hinner hround).frame_left incumbent.slots
    refine hfirst.attempt_bind ?_
    cases hbest : after.best with
    | none =>
      simp only [hbest, Option.map_none] at hrest ⊢
      obtain ⟨⟨others, final⟩, s₂, hothers, hend⟩ := Attempt.bind_inv hrest
      cases hend
      -- without a best slot there are no slots, and nothing was offered
      have hempty := Population.slots_of_best_eq_none hbest
      have hheld : KeepsBest (incumbent.slots ++ after.slots) incumbent.slots := by
        rw [hempty, List.append_nil]
        exact .refl incumbent.slots
      exact (ih (.inr hheld) hothers).attempt_bind (.silent rfl (fun _ => rfl) _)
    | some slot =>
      cases hoffer : incumbent.offer (before + round) slot with
      | mk taken held =>
        obtain ⟨hcontinued, hheld⟩ := Incumbent.keepsBest_offer_best hbest hoffer
        refine CarriesBest.conseq ?_ hcontinued (.refl last.slots)
        cases taken with
        | true =>
          simp only [hbest, Option.map_some, hoffer] at hrest ⊢
          obtain ⟨⟨others, final⟩, s₂, hothers, hend⟩ := Attempt.bind_inv hrest
          cases hend
          exact (ih (.inr hheld) hothers).attempt_bind (.silent rfl (fun _ => rfl) _)
        | false =>
          simp only [hbest, Option.map_some, hoffer] at hrest ⊢
          obtain ⟨waited, s₂, hwaited, hrest'⟩ := Attempt.bind_inv hrest
          refine (CarriesBest.silent hwaited (fun _ => rfl) _).attempt_bind ?_
          by_cases hpatience : config.roundPatience < waited
          · simp only [hpatience, if_true] at hrest' ⊢
            cases hrest'
            exact (CarriesBest.silent rfl (fun _ => rfl) _).conseq (.refl _) hheld
          · simp only [hpatience, if_false] at hrest' ⊢
            obtain ⟨⟨others, final⟩, s₃, hothers, hend⟩ := Attempt.bind_inv hrest'
            cases hend
            exact (ih (.inr hheld) hothers).attempt_bind (.silent rfl (fun _ => rfl) _)

/-- A restart fills a population at random and makes rounds with it. -/
theorem carriesBest_runRestart {before : Nat} {incumbent last : Incumbent R}
    {entries : List RoundEntry} (hconfig : config.Positive)
    (h : (runRestart strategy g config before incumbent).run.run s
      = .ok (.ok (entries, last), s')) :
    CarriesBest strategy g
      (fun strategy => (runRestart strategy g config before incumbent).run.run s)
      (.ok (entries, last), s') incumbent.slots last.slots := by
  obtain ⟨start, s₁, hstart, hrest⟩ := Attempt.bind_inv h
  obtain ⟨⟨answer, best⟩, s₂, hload, hrest'⟩ := Attempt.lift_bind_inv hrest
  obtain ⟨scores, hscores, hrounds⟩ := Attempt.ofExcept_bind_inv hrest'
  obtain ⟨hloaded, hsource⟩ := Draw.lift_inv hload
  rw [hscores] at hloaded
  have hfilled := (Population.carriesBest_load hloaded).frame_left incumbent.slots
  rw [List.append_nil] at hfilled
  have hround := carriesBest_runRounds hconfig.numInner (.inl hconfig.numRounds) hrounds
  rw [← hsource] at hround
  refine (CarriesBest.silent hstart (fun _ => rfl) _).attempt_bind ?_
  refine hfilled.draw_lift.attempt_lift.attempt_bind ?_
  exact hround

theorem carriesBest_runRestarts {restarts before : Nat} {incumbent last : Incumbent R}
    {journal : Journal} (hconfig : config.Positive)
    (h : (runRestarts strategy g config restarts before incumbent).run.run s
      = .ok (.ok (journal, last), s')) :
    CarriesBest strategy g
      (fun strategy => (runRestarts strategy g config restarts before incumbent).run.run s)
      (.ok (journal, last), s') incumbent.slots last.slots := by
  induction restarts generalizing before incumbent journal s with
  | zero =>
    cases h
    exact .silent rfl (fun _ => rfl) _
  | succ restarts ih =>
    obtain ⟨⟨entries, held⟩, s₁, hrestart, hrest⟩ := Attempt.bind_inv h
    obtain ⟨⟨others, final⟩, s₂, hothers, hend⟩ := Attempt.bind_inv hrest
    cases hend
    refine (carriesBest_runRestart hconfig hrestart).attempt_bind ?_
    exact (ih hothers).attempt_bind (.silent rfl (fun _ => rfl) _)

-- ---------------------------------------------------------------------------
-- Runs
-- ---------------------------------------------------------------------------

/-- A run carries the best of all that it scores into its report. -/
theorem carriesBest_runOn {result : Result R}
    (h : (runOn strategy g config).run.run s = .ok (.ok result, s')) :
    CarriesBest strategy g (fun strategy => (runOn strategy g config).run.run s)
      (.ok result, s') [] [⟨result.solution, result.score⟩] := by
  obtain ⟨⟨journal, incumbent⟩, s₁, hexplore, hreport⟩ := Attempt.bind_inv h
  obtain ⟨⟨⟩, s₂, hchecked, hrestarts⟩ := Attempt.bind_inv hexplore
  obtain ⟨hconfig, -⟩ := checkRun_inv (Attempt.ofExcept_inv hchecked).1
  obtain ⟨hbest, -⟩ := report_inv (Attempt.ofExcept_inv hreport).1
  have hslots : incumbent.slots = [⟨result.solution, result.score⟩] := by
    rw [Incumbent.slots, hbest]
    rfl
  have hrun := carriesBest_runRestarts hconfig hrestarts
  rw [hslots] at hrun
  have hexplored : CarriesBest strategy g
      (fun strategy => (explore strategy g config).run.run s) (.ok (journal, incumbent), s₁)
      [] [⟨result.solution, result.score⟩] :=
    (CarriesBest.silent hchecked (fun _ => rfl) []).attempt_bind hrun
  exact hexplored.attempt_bind (.silent hreport (fun _ => rfl) _)

/-- The assignment is scored in the run: the run aborts if the strategy does when it is called upon
to score it. -/
def IsScoredIn (strategy : Strategy R) (g : Graph R) (config : Config) (source : σ)
    (x : Assignment) : Prop :=
  ∃ abort, (runOn (strategy.avoiding x) g config).run.run source = .error abort

/-- The score that a run reports is the highest of all that it computed, and that of the assignment
it reports: provided all of them are numbers, no assignment scored anywhere in the run scores
higher than the result. -/
theorem runOn_reports_optimum {result : Result R}
    (h : (runOn strategy g config).run.run s = .ok (.ok result, s'))
    (hnumber : ∀ x score, IsScoredIn strategy g config s x → strategy.score g x = .ok score →
      Weight.IsNumber score) :
    IsScoredIn strategy g config s result.solution ∧
    strategy.score g result.solution = .ok result.score ∧
    ∀ x, IsScoredIn strategy g config s x →
      ∃ score, strategy.score g x = .ok score ∧ score ≤ result.score := by
  obtain ⟨asked, hasks, hkeeps⟩ := carriesBest_runOn h
  rw [List.nil_append] at hkeeps
  have hscored : ∀ x, IsScoredIn strategy g config s x ↔ ∃ slot ∈ asked, slot.solution = x :=
    hasks.aborts_iff
  have hnumbers : ∀ slot ∈ asked, Weight.IsNumber slot.score := fun slot hslot =>
    hnumber slot.solution slot.score ((hscored slot.solution).mpr ⟨slot, hslot, rfl⟩)
      (hasks.scored slot hslot)
  have hresult := hkeeps.mem_offered _ (List.mem_singleton_self _)
  refine ⟨(hscored result.solution).mpr ⟨_, hresult, rfl⟩, hasks.scored _ hresult, ?_⟩
  intro x hx
  obtain ⟨slot, hslot, rfl⟩ := (hscored x).mp hx
  obtain ⟨held, hheld, hle⟩ := hkeeps.le_kept hnumbers slot hslot
  rw [List.mem_singleton.mp hheld] at hle
  exact ⟨slot.score, hasks.scored slot hslot, hle⟩

/-- One slot, one restart, one round and one search call of one flip round. -/
def Config.smallest : Config where
  numSlots := 1
  numRounds := 1
  numInner := 1
  numPerturb := 1
  numIters := 1
  numSpin := 2

/-- A run of one round on the single edge reports an assignment that cuts it, and nothing that the
run scored cuts more. -/
theorem runOn_reports_optimum_singleEdge :
    IsScoredIn Problem.maxCut.strategy (.singleEdge Float) .smallest (Tape.start [1, 2, 3, 4] 7)
      #[false, true] ∧
    Problem.maxCut.strategy.score (Graph.singleEdge Float) #[false, true] = .ok 1.0 ∧
    ∀ x, IsScoredIn Problem.maxCut.strategy (.singleEdge Float) .smallest
      (Tape.start [1, 2, 3, 4] 7) x → ∃ score,
        Problem.maxCut.strategy.score (Graph.singleEdge Float) x = .ok score ∧ score ≤ 1.0 := by
  have hrun : (runOn Problem.maxCut.strategy (.singleEdge Float) .smallest).run.run
      (Tape.start [1, 2, 3, 4] 7)
      = .ok (.ok ⟨#[false, true], 1.0, [(0, 1.0)], 1, 1⟩, ⟨[], .ofSeed 7, 4⟩) := by
    decide +kernel
  have hnumber : ∀ x score, Problem.maxCut.strategy.score (Graph.singleEdge Float) x = .ok score →
      Weight.IsNumber score := by
    intro x score h
    obtain ⟨cut, hcut, h⟩ := Checked.bind_inv h
    obtain ⟨keep, -, hcut⟩ := Checked.bind_inv hcut
    obtain ⟨kept, hkept, hcut⟩ := Checked.bind_inv hcut
    cases hkept
    cases hcut
    cases h
    cases keep <;> decide +kernel
  have hresult := runOn_reports_optimum hrun fun x score _ => hnumber x score
  exact hresult

end CutCover.LocalSearch
