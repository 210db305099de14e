import CutCover.Proofs.LocalSearch.KeepsBest
import CutCover.Proofs.Scoring

/-!
# CutCover — computations that lose no optimum

`CarriesBest` joins what a computation scores with what it keeps: of the slots held before and of
all that it scores on the way, the best are held afterwards. It composes like the computations do,
so that each part of local search needs to be looked at only once. Here are the parts that work on
slots and populations; `CutCover.Proofs.LocalSearch.Optimum` puts a run together from them.

* `CarriesBest` — of what was held and what is scored, the best is kept.
* `CarriesBest.bind`, `CarriesBest.frame_left`, `CarriesBest.conseq` — its rules.
* `carriesBest_search`, `carriesBest_load`, `carriesBest_searchSlots` — searching and filling.
-/

namespace CutCover.LocalSearch

variable {R σ α β : Type} [Weight R] {strategy : Strategy R} {g : Graph R}

/-- The computation answers `a`, and of the slots in `before` and those that it scores, it keeps
the best in `after`. -/
def CarriesBest (strategy : Strategy R) (g : Graph R) (run : Strategy R → Checked α) (a : α)
    (before after : List (Slot R)) : Prop :=
  ∃ asked, Asks strategy g run asked a ∧ KeepsBest (before ++ asked) after

namespace CarriesBest

variable {before after last : List (Slot R)} {s s₁ : σ}

-- ---------------------------------------------------------------------------
-- Rules
-- ---------------------------------------------------------------------------

/-- A computation that scores nothing leaves things as they are. -/
theorem silent {run : Strategy R → Checked α} {a : α} (h : run strategy = .ok a)
    (heq : ∀ x, run (strategy.avoiding x) = run strategy) (before : List (Slot R)) :
    CarriesBest strategy g run a before before := by
  refine ⟨[], .of_eq h heq, ?_⟩
  rw [List.append_nil]
  exact .refl before

/-- Slots that the computation does not touch are kept as they are. -/
theorem frame_left {run : Strategy R → Checked α} {a : α} (kept : List (Slot R))
    (h : CarriesBest strategy g run a before after) :
    CarriesBest strategy g run a (kept ++ before) (kept ++ after) := by
  obtain ⟨asked, hasks, hkeeps⟩ := h
  refine ⟨asked, hasks, ?_⟩
  rw [List.append_assoc]
  exact (KeepsBest.refl kept).append hkeeps

theorem frame_right {run : Strategy R → Checked α} {a : α} (kept : List (Slot R))
    (h : CarriesBest strategy g run a before after) :
    CarriesBest strategy g run a (before ++ kept) (after ++ kept) := by
  obtain ⟨asked, hasks, hkeeps⟩ := h
  refine ⟨asked, hasks, (hkeeps.append (.refl kept)).congr_offered ?_⟩
  intro slot
  simp only [List.mem_append]
  tauto

theorem draw_lift {m : Strategy R → Checked α} {a : α}
    (h : CarriesBest strategy g m a before after) :
    CarriesBest strategy g (fun strategy => (liftM (m strategy) : Draw σ α).run s) (a, s)
      before after := by
  obtain ⟨asked, hasks, hkeeps⟩ := h
  exact ⟨asked, hasks.draw_lift, hkeeps⟩

theorem attempt_lift {m : Strategy R → Draw σ α} {a : α}
    (h : CarriesBest strategy g (fun strategy => (m strategy).run s) (a, s₁) before after) :
    CarriesBest strategy g (fun strategy => (liftM (m strategy) : Attempt σ α).run.run s)
      (.ok a, s₁) before after := by
  obtain ⟨asked, hasks, hkeeps⟩ := h
  exact ⟨asked, hasks.attempt_lift, hkeeps⟩

variable [Weight.Ordered R]

/-- Other slots may be held before and afterwards, if none better are lost. -/
theorem conseq {run : Strategy R → Checked α} {a : α} {before' after' : List (Slot R)}
    (h : CarriesBest strategy g run a before after) (hbefore : KeepsBest before' before)
    (hafter : KeepsBest after after') : CarriesBest strategy g run a before' after' := by
  obtain ⟨asked, hasks, hkeeps⟩ := h
  exact ⟨asked, hasks, ((hbefore.append (.refl asked)).trans hkeeps).trans hafter⟩

theorem bind {m : Strategy R → Checked α} {f : Strategy R → α → Checked β} {a : α} {b : β}
    (hm : CarriesBest strategy g m a before after)
    (hf : CarriesBest strategy g (fun strategy => f strategy a) b after last) :
    CarriesBest strategy g (fun strategy => m strategy >>= f strategy) b before last := by
  obtain ⟨asked, hasks, hkeeps⟩ := hm
  obtain ⟨asked', hasks', hkeeps'⟩ := hf
  exact ⟨asked ++ asked', hasks.bind hasks', hkeeps.followed_by hkeeps'⟩

theorem draw_bind {m : Strategy R → Draw σ α} {f : Strategy R → α → Draw σ β} {a : α}
    {answer : β × σ}
    (hm : CarriesBest strategy g (fun strategy => (m strategy).run s) (a, s₁) before after)
    (hf : CarriesBest strategy g (fun strategy => (f strategy a).run s₁) answer after last) :
    CarriesBest strategy g (fun strategy => (m strategy >>= f strategy).run s) answer
      before last := by
  obtain ⟨asked, hasks, hkeeps⟩ := hm
  obtain ⟨asked', hasks', hkeeps'⟩ := hf
  exact ⟨asked ++ asked', hasks.draw_bind hasks', hkeeps.followed_by hkeeps'⟩

theorem attempt_bind {m : Strategy R → Attempt σ α} {f : Strategy R → α → Attempt σ β} {a : α}
    {answer : Except Refusal β × σ}
    (hm : CarriesBest strategy g (fun strategy => (m strategy).run.run s) (.ok a, s₁)
      before after)
    (hf : CarriesBest strategy g (fun strategy => (f strategy a).run.run s₁) answer after last) :
    CarriesBest strategy g (fun strategy => (m strategy >>= f strategy).run.run s) answer
      before last := by
  obtain ⟨asked, hasks, hkeeps⟩ := hm
  obtain ⟨asked', hasks', hkeeps'⟩ := hf
  exact ⟨asked ++ asked', hasks.attempt_bind hasks', hkeeps.followed_by hkeeps'⟩

end CarriesBest

-- ---------------------------------------------------------------------------
-- Slots
-- ---------------------------------------------------------------------------

namespace Slot

variable {τ : Type} [WordSource τ] {params : SearchParams}

theorem carriesBest_ofSolution {x : Assignment} {slot : Slot R}
    (h : ofSolution strategy g x = .ok slot) :
    CarriesBest strategy g (fun strategy => ofSolution strategy g x) slot [] [slot] := by
  obtain ⟨score, hscore, h⟩ := Checked.bind_inv h
  cases h
  refine ⟨[⟨x, score⟩], ?_, .refl [⟨x, score⟩]⟩
  exact (Asks.score hscore).map fun score => (⟨x, score⟩ : Slot R)

variable [Weight.Ordered R]

theorem carriesBest_tryFlip {slot tried : Slot R} {node : Nat}
    (h : tryFlip strategy g slot node = .ok tried) :
    CarriesBest strategy g (fun strategy => tryFlip strategy g slot node) tried
      [slot] [tried] := by
  obtain ⟨flipped, hflip, h⟩ := Checked.bind_inv h
  obtain ⟨challenger, hchallenger, h⟩ := Checked.bind_inv h
  cases h
  have hscored := (carriesBest_ofSolution hchallenger).frame_left [slot]
  have hkept : CarriesBest strategy g (fun _ => (.ok (slot.improve challenger) : Checked _))
      (slot.improve challenger) [slot, challenger] [slot.improve challenger] :=
    (CarriesBest.silent rfl (fun _ => rfl) _).conseq (.refl _) (keepsBest_improve slot challenger)
  exact (CarriesBest.silent hflip (fun _ => rfl) [slot]).bind (hscored.bind hkept)

/-- The flip rounds score one challenger each. -/
theorem carriesBest_flipRounds {rounds : Nat} {threshold? : Option Float}
    {slot searched : Slot R} {s s' : τ}
    (h : (flipRounds strategy g params rounds threshold? slot).run s = .ok (searched, s')) :
    CarriesBest strategy g
      (fun strategy => (flipRounds strategy g params rounds threshold? slot).run s)
      (searched, s') [slot] [searched] := by
  induction rounds generalizing threshold? slot s with
  | zero =>
    obtain ⟨rfl, rfl⟩ := Draw.pure_inv h
    exact .silent rfl (fun _ => rfl) [searched]
  | succ rounds ih =>
    obtain ⟨noisy, threshold, challenger, s₁, hnoisy, hthreshold, hchallenger, h⟩ :=
      flipRounds_succ_inv h
    have hscored := (carriesBest_ofSolution hchallenger).frame_left [slot]
    have hrest := (ih h).conseq (keepsBest_improve slot challenger) (.refl [searched])
    have hgains : CarriesBest strategy g
        (fun strategy => (slot.noisyGains strategy g params.noiseStd).run s) (noisy, s₁)
        [slot] [slot] := .silent hnoisy (fun _ => rfl) [slot]
    have hlevel : CarriesBest strategy g (fun _ => settleThreshold params.numSpin threshold? noisy)
        threshold [slot] [slot] := .silent hthreshold (fun _ => rfl) [slot]
    exact hgains.draw_bind (hlevel.draw_lift.draw_bind (hscored.draw_lift.draw_bind hrest))

/-- The sweep scores one flip for each node. -/
theorem carriesBest_sweep {slot searched : Slot R} (h : slot.sweep strategy g = .ok searched) :
    CarriesBest strategy g (fun strategy => slot.sweep strategy g) searched
      [slot] [searched] := by
  unfold sweep at h ⊢
  -- over any nodes, since the slot changes from one node to the next
  generalize List.range slot.solution.size = nodes at h ⊢
  induction nodes generalizing slot with
  | nil =>
    cases h
    exact .silent rfl (fun _ => rfl) [searched]
  | cons node rest ih =>
    obtain ⟨tried, htried, h⟩ := Checked.bind_inv h
    exact (carriesBest_tryFlip htried).bind (ih h)

theorem carriesBest_search {slot searched : Slot R} {s s' : τ}
    (h : (slot.search strategy g params).run s = .ok (searched, s')) :
    CarriesBest strategy g (fun strategy => (slot.search strategy g params).run s)
      (searched, s') [slot] [searched] := by
  obtain ⟨flipped, hflipped, hsweep⟩ := search_inv h
  exact (carriesBest_flipRounds hflipped).draw_bind (carriesBest_sweep hsweep).draw_lift

theorem carriesBest_searchSeeded {slot searched : Slot R} {seed : UInt64}
    (h : slot.searchSeeded strategy g params seed = .ok searched) :
    CarriesBest strategy g (fun strategy => slot.searchSeeded strategy g params seed) searched
      [slot] [searched] := by
  obtain ⟨s', hsearch⟩ := searchSeeded_inv h
  exact (carriesBest_search hsearch).bind (.silent rfl (fun _ => rfl) [searched])

end Slot

-- ---------------------------------------------------------------------------
-- Populations
-- ---------------------------------------------------------------------------

namespace Population

variable {params : SearchParams} {s s' : σ}

/-- Filling a population scores what it is filled with. -/
theorem carriesBest_load {solutions : List Assignment} {p q : Population R} {scores : List R}
    (h : p.load strategy g solutions = .ok (.ok scores, q)) :
    CarriesBest strategy g (fun strategy => p.load strategy g solutions) (.ok scores, q)
      [] q.slots := by
  unfold load at h ⊢
  cases hfind : solutions.find? fun x => x.size != g.numNodes with
  | some bad =>
    rw [hfind] at h
    cases h
  | none =>
    simp only [hfind] at h ⊢
    obtain ⟨loaded, hloaded, h⟩ := Checked.bind_inv h
    cases h
    have hasks := (Asks.mapM_score (g := g) hloaded).map fun loaded =>
      ((.ok loaded, ⟨solutions, loaded⟩) : Except Refusal (List R) × Population R)
    exact ⟨_, hasks, .refl _⟩

variable [Weight.Ordered R]

theorem carriesBest_mapM_searchSeeded {pairs : List (Slot R × UInt64)} {searched : List (Slot R)}
    (h : (pairs.mapM fun pair =>
      (liftM (pair.1.searchSeeded strategy g params pair.2) : Draw σ (Slot R))).run s
        = .ok (searched, s')) :
    CarriesBest strategy g (fun strategy => (pairs.mapM fun pair =>
      (liftM (pair.1.searchSeeded strategy g params pair.2) : Draw σ (Slot R))).run s)
      (searched, s') (pairs.map Prod.fst) searched := by
  induction pairs generalizing searched with
  | nil =>
    cases h
    exact .silent rfl (fun _ => rfl) []
  | cons pair rest ih =>
    simp only [List.mapM_cons] at h ⊢
    obtain ⟨found, hfound, h⟩ := Draw.lift_bind_inv h
    obtain ⟨others, s₁, hothers, h⟩ := Draw.bind_inv h
    cases h
    -- the first slot is searched while the others wait, and then the others while it waits
    have hfirst := (Slot.carriesBest_searchSeeded hfound).frame_right (rest.map Prod.fst)
    have hrest := (ih hothers).frame_left [found]
    exact hfirst.draw_lift.draw_bind (hrest.draw_bind (.silent rfl (fun _ => rfl) _))

variable [WordSource σ]

/-- A search call scores what its slots are searched with. -/
theorem carriesBest_searchSlots {p after : Population R} {report : SearchReport R}
    (h : (p.searchSlots strategy g params).run s = .ok ((.ok report, after), s')) :
    CarriesBest strategy g (fun strategy => (p.searchSlots strategy g params).run s)
      ((.ok report, after), s') p.slots after.slots := by
  unfold searchSlots at h ⊢
  cases hcheck : checkSearch g params with
  | error refusal =>
    rw [hcheck] at h
    cases h
  | ok _ =>
    simp only [hcheck] at h ⊢
    obtain ⟨seeds, s₁, hseeds, h⟩ := Draw.bind_inv h
    obtain ⟨searched, s₂, hsearched, h⟩ := Draw.bind_inv h
    have hdraw : CarriesBest strategy g
        (fun _ => (Draw.replicate p.size Draw.word).run s) (seeds, s₁)
        p.slots p.slots := .silent hseeds (fun _ => rfl) p.slots
    -- what was held is kept beside what the searches find, until both are merged
    have hcopy : KeepsBest p.slots (p.slots ++ (p.slots.zip seeds).map Prod.fst) := by
      refine (KeepsBest.refl p.slots).mono_kept ?_ ?_
      · exact fun slot hslot => List.mem_append_left _ hslot
      · intro slot hslot
        rcases List.mem_append.mp hslot with hslot | hslot
        · exact hslot
        · obtain ⟨pair, hpair, rfl⟩ := List.mem_map.mp hslot
          exact (List.of_mem_zip hpair).1
    have hfound := (carriesBest_mapM_searchSeeded hsearched).frame_left p.slots
    refine hdraw.draw_bind ((hfound.conseq hcopy (.refl _)).draw_bind ?_)
    cases hmerge : p.merge (ofSlots searched) with
    | mk verdict merged =>
      simp only [hmerge] at h ⊢
      cases verdict with
      | error refusal => cases h
      | ok numUpdated =>
        cases h
        obtain ⟨hmerged, -⟩ := keepsBest_merge hmerge
        rw [slots_ofSlots] at hmerged
        exact (CarriesBest.silent rfl (fun _ => rfl) _).conseq (.refl _) hmerged

end Population

end CutCover.LocalSearch
