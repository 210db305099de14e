import CutCover.Proofs.Annealing.Cover
import CutCover.Proofs.Annealing.Trades

/-!
# CutCover — refused annealing runs

After the checks before its first step, an annealing run can only be refused for want of a move. The
problems that trade labels need nodes of both; if the start has them, no sequence of trades uses one
label up, and if not, the first step is refused already. The other two problems are never refused.

* `Problem.propose_of_isUniform`   — with one label only there is nothing to trade.
* `Problem.exists_sustains`        — otherwise the start meets the invariant of the problem.
* `Problem.annealing_refused_iff`  — when a run is refused, and by which step.
-/

namespace CutCover.Problem

open Annealing (State Verdict Config Result Started runOn start_inv)

variable {R : Type} [Weight R] {g : Graph R} {x : Assignment} {σ : Type} [WordSource σ]

omit [Weight R] in
/-- With one label only a trade is refused before the first draw. -/
theorem propose_of_isUniform {problem : Problem R} (htrades : problem.TradesLabels)
    (h : x.IsUniform) (budget : Nat) :
    ∃ missing, ∀ source : σ, (problem.propose g x budget).run.run source
      = .ok (.error (.noCandidates missing), source) := by
  cases problem with
  | maxCut => rcases htrades with htrades | htrades <;> cases htrades
  | minimumVertexCover penalty => rcases htrades with htrades | htrades <;> cases htrades
  | graphPartitioning =>
    refine ⟨.toSwap, fun source => ?_⟩
    rw [propose, map_eq_pure_bind]
    exact Attempt.bind_of_refused (Move.randomSwap_of_isUniform h source)
  | maximumIndependentSet penalty =>
    obtain ⟨missing, hrefused⟩ := Move.randomExchange_of_isUniform (σ := σ) h
    refine ⟨missing, fun source => ?_⟩
    rw [propose, map_eq_pure_bind]
    exact Attempt.bind_of_refused (hrefused source)

omit [Weight R] in
theorem usualSteps_pos (problem : Problem R) (h : g.numNodes ≠ 0) : 0 < problem.usualSteps g := by
  cases problem <;> simp only [usualSteps] <;> omega

/-- Every other start meets an invariant of its problem. A search for a move may not end only if
there is something to trade. -/
theorem exists_sustains (problem : Problem R) (hg : g.IsBuilt) {config : Config} {start : State R}
    (hstarted : Started problem.strategy g x config start)
    (h : ¬(problem.TradesLabels ∧ x.IsUniform)) :
    ∃ inv proposed, problem.strategy.Sustains problem.TradesLabels g inv proposed ∧ inv x := by
  by_cases htrades : problem.TradesLabels
  · have hmixed : x.IsMixed := x.isMixed_iff.mpr fun huniform => h ⟨htrades, huniform⟩
    exact ⟨_, _, sustains_tradesLabels htrades hg htrades, hstarted.size, hmixed⟩
  · cases problem with
    | maxCut => exact ⟨_, _, sustains_maxCut hg hstarted.nodes, hstarted.size⟩
    | graphPartitioning => exact absurd (.inl rfl) htrades
    | minimumVertexCover penalty =>
      have hcover := (Graph.isCover_iff hg hstarted.size).mp (requireCover_inv hstarted.admitted)
      exact ⟨_, _, sustains_minimumVertexCover penalty hg hstarted.edges, hstarted.size, hcover⟩
    | maximumIndependentSet penalty => exact absurd (.inr rfl) htrades

/-- A start with one label only is refused by the first step, for want of a move and before any
draw, if the problem trades labels. -/
theorem runOn_of_isUniform {problem : Problem R} (htrades : problem.TradesLabels)
    (huniform : x.IsUniform) {score : R} {config : Config} {start : State R}
    (hstart : (State.start problem.strategy g x score config).run = .ok (.ok start)) :
    ∃ missing, ∀ source : σ,
      (start.step problem.strategy g).run source
        = .ok ((.error (.noCandidates missing), start.beginStep), source) ∧
      (runOn problem.strategy g x score config).run.run source
        = .ok (.error (.noCandidates missing), source) := by
  have hstarted := start_inv hstart
  have hpos := hstarted.numSteps_pos (problem.usualSteps_pos hstarted.nodes)
  have hbegun := hstarted.stepsBegun
  have hunfinished : start.finished = false := by
    rw [State.finished, decide_eq_false_iff_not]
    omega
  rw [← hstarted.current] at huniform
  obtain ⟨missing, hpropose⟩ := propose_of_isUniform (σ := σ) htrades huniform start.numSteps
  refine ⟨missing, fun source => ?_⟩
  have hstep : (start.step problem.strategy g).run source
      = .ok ((.error (.noCandidates missing), start.beginStep), source) :=
    State.step_of_refused hunfinished (hpropose source)
  exact ⟨hstep, Annealing.runOn_of_refused hstart hpos hstep⟩

/-- From any other start the steps are not refused: neither those of a run, nor one from a state
that any steps have led to. -/
theorem runOn_of_not_isUniform (problem : Problem R) (hg : g.IsBuilt)
    (h : ¬(problem.TradesLabels ∧ x.IsUniform)) {score : R} {config : Config} {start : State R}
    (hstart : (State.start problem.strategy g x score config).run = .ok (.ok start)) :
    (Attempt.Ensures problem.TradesLabels
      (runOn problem.strategy g x score config : Attempt σ (Result R)) fun result =>
        result.steps = start.numSteps) ∧
    ∀ s, start.Reaches problem.strategy g s → s.finished = false →
      Draw.Ensures problem.TradesLabels
        (s.step problem.strategy g : Draw σ (Except Refusal Verdict × State R))
        fun answer => ∃ verdict, answer.1 = .ok verdict := by
  have hstarted := start_inv hstart
  obtain ⟨inv, proposed, hs, hinv⟩ := problem.exists_sustains hg hstarted h
  constructor
  · exact (Annealing.runOn_ensures hs hstart hinv).mono fun result hresult => hresult.2
  · intro s hreach hunfinished
    rw [← hstarted.current] at hinv
    have hcurrent := hreach.sustained hs hinv
    exact (State.step_ensures hs hcurrent hunfinished).mono fun answer hanswer => hanswer.1

/-- A run that ends is refused just if its problem trades labels and its start has one label only.
Then its first step is refused for want of a move, and no word is drawn. Otherwise it makes all its
steps, and no steps lead to a state whose next step is refused; only where labels are traded may the
search for a move not end. -/
theorem annealing_refused_iff (problem : Problem R) (hg : g.IsBuilt) {score : R} {config : Config}
    {start : State R}
    (hstart : (State.start problem.strategy g x score config).run = .ok (.ok start)) :
    (∀ source : σ,
      (runOn problem.strategy g x score config).run.run source ≠ .error .endlessSampling →
      ((∃ refusal source', (runOn problem.strategy g x score config).run.run source
          = .ok (.error refusal, source')) ↔ problem.TradesLabels ∧ x.IsUniform)) ∧
    (problem.TradesLabels → x.IsUniform → ∃ missing, ∀ source : σ,
      (start.step problem.strategy g).run source
        = .ok ((.error (.noCandidates missing), start.beginStep), source) ∧
      (runOn problem.strategy g x score config).run.run source
        = .ok (.error (.noCandidates missing), source)) ∧
    (¬(problem.TradesLabels ∧ x.IsUniform) →
      (Attempt.Ensures problem.TradesLabels
        (runOn problem.strategy g x score config : Attempt σ (Result R)) fun result =>
          result.steps = start.numSteps) ∧
      ∀ s, start.Reaches problem.strategy g s → s.finished = false →
        Draw.Ensures problem.TradesLabels
          (s.step problem.strategy g : Draw σ (Except Refusal Verdict × State R))
          fun answer => ∃ verdict, answer.1 = .ok verdict) := by
  refine ⟨?_, fun htrades huniform => runOn_of_isUniform htrades huniform hstart,
    fun h => problem.runOn_of_not_isUniform hg h hstart⟩
  intro source hends
  constructor
  · rintro ⟨refusal, source', hrun⟩
    by_contra h
    rcases (problem.runOn_of_not_isUniform hg h hstart).1 source with
      ⟨_, source'', hanswer, result, rfl, -⟩ | ⟨-, hloop⟩
    · rw [hrun] at hanswer
      cases hanswer
    · exact hends hloop
  · rintro ⟨htrades, huniform⟩
    obtain ⟨missing, hrefused⟩ := runOn_of_isUniform (σ := σ) htrades huniform hstart
    exact ⟨_, source, (hrefused source).2⟩

/-- On the single edge partitioning is refused if both nodes have one label, and max-cut is not. If
they have different labels, partitioning makes its two steps, each of which has to look twice for
nodes to swap. -/
theorem annealing_refused_iff_singleEdge :
    (∃ missing, (runOn (graphPartitioning : Problem Float).strategy (Graph.singleEdge Float)
      #[true, true] 0.0 {}).run.run (Tape.start [] 0)
        = .ok (.error (.noCandidates missing), Tape.start [] 0)) ∧
    (∃ result source', (runOn (maxCut : Problem Float).strategy (Graph.singleEdge Float)
      #[true, true] 0.0 {}).run.run (Tape.start [] 0) = .ok (.ok result, source') ∧
        result.steps = 2) ∧
    ∃ result source', (runOn (graphPartitioning : Problem Float).strategy (Graph.singleEdge Float)
      #[true, false] 1.0 {}).run.run swapTwice = .ok (.ok result, source') ∧
        result.steps = 2 ∧ source'.drawn = 10 := by
  have hbuilt := Graph.isBuilt_singleEdge
  have hsame : Assignment.IsUniform #[true, true] := ⟨true, by simp⟩
  have hmixed : ¬ Assignment.IsUniform #[true, false] := by
    rw [Assignment.isUniform_iff]
    decide
  refine ⟨?_, ?_, ?_⟩
  · obtain ⟨start, hstart⟩ : ∃ start, (State.start (graphPartitioning : Problem Float).strategy
        (Graph.singleEdge Float) #[true, true] 0.0 {}).run = .ok (.ok start) := ⟨_, rfl⟩
    obtain ⟨-, hrefused, -⟩ := annealing_refused_iff (σ := Tape) graphPartitioning hbuilt hstart
    obtain ⟨missing, hmissing⟩ := hrefused (.inl rfl) hsame
    exact ⟨missing, (hmissing (Tape.start [] 0)).2⟩
  · obtain ⟨start, hstart, hsteps⟩ : ∃ start, (State.start (maxCut : Problem Float).strategy
        (Graph.singleEdge Float) #[true, true] 0.0 {}).run = .ok (.ok start) ∧
          start.numSteps = 2 := ⟨_, rfl, rfl⟩
    obtain ⟨-, -, hruns⟩ := annealing_refused_iff (σ := Tape) maxCut hbuilt hstart
    have hnot : ¬(maxCut : Problem Float).TradesLabels := by
      rintro (htrades | htrades) <;> cases htrades
    rcases (hruns fun h => hnot h.1).1 (Tape.start [] 0) with
      ⟨_, source', hrun, result, rfl, hresult⟩ | ⟨htrades, -⟩
    · exact ⟨result, source', hrun, hresult.trans hsteps⟩
    · exact absurd htrades hnot
  · obtain ⟨start, hstart, hsteps⟩ : ∃ start, (State.start
        (graphPartitioning : Problem Float).strategy (Graph.singleEdge Float) #[true, false] 1.0
          {}).run = .ok (.ok start) ∧ start.numSteps = 2 := ⟨_, rfl, rfl⟩
    have hdrawn : ((runOn (graphPartitioning : Problem Float).strategy (Graph.singleEdge Float)
        #[true, false] 1.0 {}).run.run swapTwice).map (fun answer => answer.2.drawn) = .ok 10 := by
      decide +kernel
    obtain ⟨-, -, hruns⟩ := annealing_refused_iff (σ := Tape) graphPartitioning hbuilt hstart
    rcases (hruns fun h => hmixed h.2).1 swapTwice with
      ⟨_, source', hrun, result, rfl, hresult⟩ | ⟨-, hloop⟩
    · rw [hrun] at hdrawn
      exact ⟨result, source', hrun, hresult.trans hsteps, Except.ok.inj hdrawn⟩
    · rw [hloop] at hdrawn
      cases hdrawn

end CutCover.Problem
