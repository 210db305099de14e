import CutCover.Proofs.LocalSearch.Slot

/-!
# CutCover — what a computation scores

A solver calls upon its strategy to score assignments, and leaves no record of which ones. They can
be told from outside: an assignment is scored in a computation if the computation aborts once the
strategy refuses to score it. `Asks` says of a computation that answers which assignments those
are, with their scores, and has a rule for each way of building one.

* `Strategy.avoiding`  — the strategy that does not score a given assignment.
* `Asks`               — what a computation answers, and what it scores on the way.
* `Asks.aborts_iff`    — the assignments listed are the ones that are scored.
* `Asks.bind`, `Asks.draw_bind`, `Asks.attempt_bind` — sequences.
* `Asks.of_eq`         — computations that score nothing.
-/

namespace CutCover

open LocalSearch (Slot)

variable {R σ α β : Type} {strategy : Strategy R} {g : Graph R} {asked asked' : List (Slot R)}

/-- The strategy that aborts when it is called upon to score `x`. -/
def Strategy.avoiding (strategy : Strategy R) (x : Assignment) : Strategy R :=
  { strategy with score := fun g y => if y = x then .error .emptyRange else strategy.score g y }

/-- The computation answers `a`, and scores just the assignments in `asked`, which are listed with
their scores. -/
structure Asks (strategy : Strategy R) (g : Graph R) (run : Strategy R → Checked α)
    (asked : List (Slot R)) (a : α) : Prop where
  answers : run strategy = .ok a
  scored : ∀ slot ∈ asked, slot.IsScored strategy g
  aborts : ∀ slot ∈ asked, run (strategy.avoiding slot.solution) = .error .emptyRange
  answers_avoiding : ∀ x, (∀ slot ∈ asked, slot.solution ≠ x) →
    run (strategy.avoiding x) = .ok a

namespace Asks

/-- What is scored can be told from where the computation aborts. -/
theorem aborts_iff {run : Strategy R → Checked α} {a : α} (h : Asks strategy g run asked a)
    (x : Assignment) :
    (∃ abort, run (strategy.avoiding x) = .error abort) ↔ ∃ slot ∈ asked, slot.solution = x := by
  constructor
  · rintro ⟨abort, habort⟩
    by_contra hx
    rw [h.answers_avoiding x fun slot hslot heq => hx ⟨slot, hslot, heq⟩] at habort
    cases habort
  · rintro ⟨slot, hslot, rfl⟩
    exact ⟨.emptyRange, h.aborts slot hslot⟩

/-- A computation that no scoring goes into. -/
theorem of_eq {run : Strategy R → Checked α} {a : α} (h : run strategy = .ok a)
    (heq : ∀ x, run (strategy.avoiding x) = run strategy) : Asks strategy g run [] a := by
  refine ⟨h, fun _ hslot => absurd hslot List.not_mem_nil,
    fun _ hslot => absurd hslot List.not_mem_nil, ?_⟩
  intro x _
  rw [heq, h]

/-- Scoring one assignment. -/
theorem score {x : Assignment} {score : R} (h : strategy.score g x = .ok score) :
    Asks strategy g (fun strategy => strategy.score g x) [⟨x, score⟩] score := by
  refine ⟨h, ?_, ?_, ?_⟩
  · intro slot hslot
    rw [List.mem_singleton.mp hslot]
    exact h
  · intro slot hslot
    rw [List.mem_singleton.mp hslot]
    simp [Strategy.avoiding]
  · intro y hy
    have hne : x ≠ y := hy ⟨x, score⟩ (List.mem_singleton_self _)
    simp [Strategy.avoiding, hne, h]

/-- A sequence scores what its parts do. -/
theorem bind {m : Strategy R → Checked α} {f : Strategy R → α → Checked β} {a : α} {b : β}
    (hm : Asks strategy g m asked a)
    (hf : Asks strategy g (fun strategy => f strategy a) asked' b) :
    Asks strategy g (fun strategy => m strategy >>= f strategy) (asked ++ asked') b := by
  refine ⟨?_, ?_, ?_, ?_⟩
  · rw [hm.answers]
    exact hf.answers
  · intro slot hslot
    rcases List.mem_append.mp hslot with hslot | hslot
    · exact hm.scored slot hslot
    · exact hf.scored slot hslot
  · intro slot hslot
    by_cases hfirst : ∃ other ∈ asked, other.solution = slot.solution
    · obtain ⟨other, hother, heq⟩ := hfirst
      rw [← heq, hm.aborts other hother]
      rfl
    · have hrest : slot ∈ asked' := by
        rcases List.mem_append.mp hslot with hslot | hslot
        · exact absurd ⟨slot, hslot, rfl⟩ hfirst
        · exact hslot
      rw [hm.answers_avoiding slot.solution fun other hother heq => hfirst ⟨other, hother, heq⟩]
      exact hf.aborts slot hrest
  · intro x hx
    rw [hm.answers_avoiding x fun slot hslot => hx slot (List.mem_append_left asked' hslot)]
    exact hf.answers_avoiding x fun slot hslot => hx slot (List.mem_append_right asked hslot)

/-- What is made of the answer does not matter. -/
theorem map {m : Strategy R → Checked α} {a : α} (k : α → β) (h : Asks strategy g m asked a) :
    Asks strategy g (fun strategy => m strategy >>= fun a => .ok (k a)) asked (k a) := by
  have hpure : Asks strategy g (fun _ => (.ok (k a) : Checked β)) [] (k a) := of_eq rfl fun _ => rfl
  simpa using h.bind (f := fun _ a => .ok (k a)) hpure

/-- Scoring assignments one by one. -/
theorem mapM_score {solutions : List Assignment} {scores : List R}
    (h : solutions.mapM (fun x => strategy.score g x) = .ok scores) :
    Asks strategy g (fun strategy => solutions.mapM fun x => strategy.score g x)
      (solutions.zipWith Slot.mk scores) scores := by
  induction solutions generalizing scores with
  | nil =>
    cases h
    exact of_eq rfl fun _ => rfl
  | cons x rest ih =>
    simp only [List.mapM_cons] at h ⊢
    obtain ⟨first, hfirst, h⟩ := Checked.bind_inv h
    obtain ⟨others, hothers, h⟩ := Checked.bind_inv h
    cases h
    exact (Asks.score hfirst).bind ((ih hothers).map fun others => first :: others)

-- ---------------------------------------------------------------------------
-- Draws and attempts
-- ---------------------------------------------------------------------------

variable {s s₁ : σ}

theorem draw_lift {m : Strategy R → Checked α} {a : α} (h : Asks strategy g m asked a) :
    Asks strategy g (fun strategy => (liftM (m strategy) : Draw σ α).run s) asked (a, s) :=
  h.map fun a => (a, s)

theorem draw_bind {m : Strategy R → Draw σ α} {f : Strategy R → α → Draw σ β} {a : α}
    {answer : β × σ} (hm : Asks strategy g (fun strategy => (m strategy).run s) asked (a, s₁))
    (hf : Asks strategy g (fun strategy => (f strategy a).run s₁) asked' answer) :
    Asks strategy g (fun strategy => (m strategy >>= f strategy).run s) (asked ++ asked') answer :=
  hm.bind (f := fun strategy (p : α × σ) => (f strategy p.1).run p.2) hf

theorem attempt_lift {m : Strategy R → Draw σ α} {a : α}
    (h : Asks strategy g (fun strategy => (m strategy).run s) asked (a, s₁)) :
    Asks strategy g (fun strategy => (liftM (m strategy) : Attempt σ α).run.run s) asked
      (.ok a, s₁) :=
  h.map fun (p : α × σ) => (Except.ok p.1, p.2)

theorem attempt_bind {m : Strategy R → Attempt σ α} {f : Strategy R → α → Attempt σ β} {a : α}
    {answer : Except Refusal β × σ}
    (hm : Asks strategy g (fun strategy => (m strategy).run.run s) asked (.ok a, s₁))
    (hf : Asks strategy g (fun strategy => (f strategy a).run.run s₁) asked' answer) :
    Asks strategy g (fun strategy => (m strategy >>= f strategy).run.run s) (asked ++ asked')
      answer := by
  simp only [ExceptT.run_bind, StateT.run_bind]
  exact hm.bind hf

end Asks

end CutCover
