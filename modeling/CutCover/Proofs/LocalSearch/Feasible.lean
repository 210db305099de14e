import CutCover.Proofs.LocalSearch.KeepsBest
import CutCover.Proofs.LocalSearch.Repair
import CutCover.Proofs.LocalSearch.Report
import CutCover.Proofs.Weight.Whole
import Mathlib.Data.UInt

/-!
# CutCover — when a run reports a violation

Every search call leaves slots that meet the constraint, but a restart begins with random ones, and
the best of them stays the best until a search finds a slot that scores strictly higher. It is not
swept itself: a round searches perturbed copies of it, and all of them may come out no better. At
the end of the first round it is offered to the incumbent in any case.

After that a violation has no way in. The best slot of a restart is the random one, which the
incumbent has seen, or one that a search has found. Without perturbation the first round searches
the random slot itself, and repairs it.

With the usual penalty scores are whole numbers, which binary64 holds exactly up to 53 digits, so
that all of this is true of the scores that a run computes with.

* `Constraint.wholeScore`, `paysRepairs_usual` — scores with the usual penalty.
* `Slot.Complies`, `Slot.Succeeds`             — slots that meet the constraint.
* `Calls.succeeds`, `complies_of_runRound`     — what a round does to the best slot.
* `Rounds.complies_of_settled`, `Rounds.complies_or_passesOn` — the rounds of a restart.
* `Journal.PassesOn`                           — restarts that pass on a random slot.
* `runOn_complies_unless_passesOn`             — the run.
-/

namespace CutCover

-- ---------------------------------------------------------------------------
-- Scores with the usual penalty
-- ---------------------------------------------------------------------------

namespace Constraint

/-- The kind of the problem with the constraint. -/
def kind : Constraint → Kind
  | cover => .minimumVertexCover
  | independence => .maximumIndependentSet

/-- The score with the usual penalty, as a whole number. -/
def wholeScore {R : Type} (g : Graph R) (x : Assignment) : Constraint → ℤ
  | cover => -x.countSelected - 2 * g.clashCount false x
  | independence => x.countSelected - 2 * g.clashCount true x

theorem problem_kind {R : Type} [Weight R] (c : Constraint) :
    (c.kind.problem : Problem R) = c.problem (Weight.ofNat 2) := by
  cases c <;> rfl

/-- A node that takes the label the constraint keeps apart is worth one more, less twice the edges
that clash at it then. -/
theorem wholeScore_set {R : Type} (c : Constraint) (g : Graph R) {x : Assignment} {node : Nat}
    (hnode : node < x.size) :
    c.wholeScore g (x.set node c.label hnode)
      = c.wholeScore g (x.set node (!c.label) hnode) + 1
        - 2 * g.clashesAt c.label (x.set node c.label hnode) node := by
  have hcount := Assignment.countSelected_set hnode
  have hclash := g.clashCount_set c.label hnode
  cases c with
  | cover =>
    simp only [wholeScore, label, Bool.not_false] at hclash ⊢
    omega
  | independence =>
    simp only [wholeScore, label, Bool.not_true] at hclash ⊢
    omega

/-- On a graph that is not too large the score computed in binary64 is the exact one. -/
theorem exists_score_isWhole (c : Constraint) {g : Graph Float} (hg : g.IsBuilt)
    (hsize : g.numNodes + 2 * g.numEdges < 2 ^ 53) {x : Assignment} (hx : x.size = g.numNodes) :
    ∃ score, (c.kind.problem : Problem Float).strategy.score g x = .ok score ∧
      Binary64.IsWhole score (c.wholeScore g x) := by
  have hselected := x.countSelected_le_size
  have hclashes (label : Bool) : g.clashCount label x ≤ g.numEdges := List.countP_le_length
  have htwo : Binary64.IsWhole (Float.ofNat 2) 2 := Binary64.isWhole_ofNat (by decide)
  have hcount : Binary64.IsWhole (Float.ofNat x.countSelected) x.countSelected :=
    Binary64.isWhole_ofNat (by omega)
  have hpenalties (label : Bool) : Binary64.IsWhole
      (Float.ofNat 2 * Float.ofNat (g.clashCount label x)) (2 * g.clashCount label x) := by
    have hle := hclashes label
    exact htwo.mul (Binary64.isWhole_ofNat (by omega)) (by omega)
  cases c with
  | cover =>
    have hle := hclashes false
    refine ⟨_, ?_, hcount.neg.sub (hpenalties false) (by omega)⟩
    show g.coverScore Graph.usualCoverPenalty x = _
    rw [Graph.coverScore, Graph.uncoveredCount_eq hg hx]
    rfl
  | independence =>
    have hle := hclashes true
    refine ⟨_, ?_, hcount.sub (hpenalties true) (by omega)⟩
    show g.independentScore Graph.usualConflictPenalty x = _
    rw [Graph.independentScore, Graph.conflictCount_eq hg hx]
    rfl

end Constraint

namespace LocalSearch

/-- With the usual penalty repairs pay. -/
theorem paysRepairs_usual (c : Constraint) {g : Graph Float} (hg : g.IsBuilt)
    (hsize : g.numNodes + 2 * g.numEdges < 2 ^ 53) :
    PaysRepairs c (Weight.ofNat 2 : Float) g where
  isNumber := by
    intro x score hx h
    obtain ⟨_, hscore, hwhole⟩ := c.exists_score_isWhole hg hsize hx
    rw [c.problem_kind, h] at hscore
    cases hscore
    exact hwhole.isNumber
  lt_of_clash := by
    intro x node hnode clashing repaired hx hclashing hrepaired h
    obtain ⟨_, hscore, hwhole⟩ := c.exists_score_isWhole hg hsize
      (show (x.set node c.label).size = g.numNodes by rw [Array.size_set, hx])
    obtain ⟨_, hscore', hwhole'⟩ := c.exists_score_isWhole hg hsize
      (show (x.set node (!c.label)).size = g.numNodes by rw [Array.size_set, hx])
    rw [c.problem_kind, hclashing] at hscore
    rw [c.problem_kind, hrepaired] at hscore'
    cases hscore
    cases hscore'
    have hdifference := c.wholeScore_set g hnode
    exact hwhole.lt_of_lt hwhole' (by omega)

variable {σ : Type} [WordSource σ] {R : Type} [Weight R] [Weight.Ordered R]
variable {c : Constraint} {penalty : R} {g : Graph R} {config : Config} {s s' : σ}

-- ---------------------------------------------------------------------------
-- Search calls
-- ---------------------------------------------------------------------------

/-- The assignment meets the constraint. -/
def Slot.Complies (c : Constraint) (g : Graph R) (slot : Slot R) : Prop :=
  c.isMet g slot.solution = .ok true

/-- The slot is the one that a round began with, or complies and scores strictly higher. -/
def Slot.Succeeds (c : Constraint) (g : Graph R) (slot start : Slot R) : Prop :=
  slot = start ∨ slot.Complies c g ∧ start.score < slot.score

/-- What scores higher than a successor scores higher than the slot succeeded. -/
theorem Slot.Succeeds.lt_of_lt {slot start other : Slot R} (h : slot.Succeeds c g start)
    (hlt : slot.score < other.score) : start.score < other.score := by
  rcases h with rfl | ⟨-, h⟩
  · exact hlt
  · exact Weight.StrictlyOrdered.lt_trans h hlt

omit [Weight.Ordered R] in
theorem Population.isNumber_of_mem (hpays : PaysRepairs c penalty g) {p : Population R}
    (hp : p.IsConsistent (c.problem penalty).strategy g) :
    ∀ slot ∈ p.slots, Weight.IsNumber slot.score :=
  fun slot hslot => hpays.isNumber (hp.size_eq slot hslot) (hp.scored slot hslot)

section Rounds

variable {pair after : Pair R} {start : Slot R} {counts : List Nat} {taken : Nat}
variable (hpays : PaysRepairs c penalty g) (hg : g.IsBuilt)
variable (hconfig : config.Positive) (hspin : config.numSpin ≤ g.numNodes)
include hpays hg

/-- What a search call takes over complies. -/
theorem succeeds_searchOnce (hpair : pair.IsFilled (c.problem penalty).strategy g config.numSlots)
    (hbest : ∀ slot ∈ pair.best.slots, slot.Succeeds c g start)
    (h : (searchOnce (c.problem penalty).strategy g config pair).run.run s
      = .ok (.ok (taken, after), s')) :
    ∀ slot ∈ after.best.slots, slot.Succeeds c g start := by
  obtain ⟨report, hsearch, hmerge⟩ := searchOnce_inv h
  have hfound := Population.isMet_of_searchSlots hpays hg hpair.search.consistent hsearch
  rw [(Population.merge_inv hmerge).2.1]
  intro slot hslot
  rcases Population.mem_zipWith_improve hslot with hheld | ⟨hoffered, other, hother, hlt⟩
  · exact hbest slot hheld
  · exact .inr ⟨hfound slot hoffered, (hbest other hother).lt_of_lt hlt⟩

/-- Searching a slot that does not comply finds one that scores strictly higher. -/
theorem exists_lt_of_searchSlots {p found : Population R} {report : SearchReport R}
    {params : SearchParams} (hp : p.IsConsistent (c.problem penalty).strategy g)
    (h : (p.searchSlots (c.problem penalty).strategy g params).run s
      = .ok ((.ok report, found), s'))
    (hstart : start ∈ p.slots) (hviolated : ¬ start.Complies c g) :
    ∃ slot ∈ found.slots, start.score < slot.score := by
  obtain ⟨slot, hslot, seed, hseed⟩ :=
    exists_of_mem_forall₂ (Population.searched_of_searchSlots h).found.flip hstart
  obtain ⟨_, hsearched⟩ := Slot.searchSeeded_inv hseed
  rcases Slot.search_eq_or_lt hsearched with rfl | hlt
  · exact absurd (Population.isMet_of_searchSlots hpays hg hp h slot hslot) hviolated
  · exact ⟨slot, hslot, hlt⟩

include hconfig hspin

/-- A slot that was beaten stays beaten. It is beaten by a search call that improves a slot, or
that finds it in the population searched if it does not comply. -/
theorem exists_lt_of_searchOnce
    (hpair : pair.IsFilled (c.problem penalty).strategy g config.numSlots)
    (hbest : ∀ slot ∈ pair.best.slots, slot.Succeeds c g start)
    (hstart : Weight.IsNumber start.score)
    (h : (searchOnce (c.problem penalty).strategy g config pair).run.run s
      = .ok (.ok (taken, after), s'))
    (hbeaten : (∃ slot ∈ pair.best.slots, start.score < slot.score) ∨ taken ≠ 0 ∨
      start ∈ pair.search.slots ∧ ¬ start.Complies c g) :
    ∃ slot ∈ after.best.slots, start.score < slot.score := by
  obtain ⟨report, hsearch, hmerge⟩ := searchOnce_inv h
  have hafter : after.IsFilled (c.problem penalty).strategy g config.numSlots :=
    (searchOnce_meets hconfig hspin hpair).of_run h
  have hnumber : ∀ slot ∈ pair.best.slots ++ after.search.slots, Weight.IsNumber slot.score := by
    intro slot hslot
    rcases List.mem_append.mp hslot with hslot | hslot
    · exact Population.isNumber_of_mem hpays hpair.best.consistent slot hslot
    · exact Population.isNumber_of_mem hpays hafter.search.consistent slot hslot
  refine (Population.keepsBest_merge hmerge).1.exists_lt hnumber hstart ?_
  rcases hbeaten with ⟨slot, hslot, hlt⟩ | htaken | ⟨hmem, hviolated⟩
  · exact ⟨slot, List.mem_append_left _ hslot, hlt⟩
  · rw [(Population.merge_inv hmerge).2.2, ← Nat.pos_iff_ne_zero, List.countP_pos_iff] at htaken
    obtain ⟨⟨held, slot⟩, hzip, hlt⟩ := htaken
    obtain ⟨hheld, hslot⟩ := List.of_mem_zip hzip
    have hlt' := (hbest held hheld).lt_of_lt (of_decide_eq_true hlt)
    exact ⟨slot, List.mem_append_right _ hslot, hlt'⟩
  · obtain ⟨slot, hslot, hlt⟩ :=
      exists_lt_of_searchSlots hpays hg hpair.search.consistent hsearch hmem hviolated
    exact ⟨slot, List.mem_append_right _ hslot, hlt⟩

/-- What is in the best population after some search calls succeeds the slot the round began with;
and if that was beaten at first or a call improved a slot, it is beaten at last. -/
theorem Calls.succeeds {best : Population R}
    (hcalls : Calls σ (c.problem penalty).strategy g config pair counts best)
    (hpair : pair.IsFilled (c.problem penalty).strategy g config.numSlots)
    (hbest : ∀ slot ∈ pair.best.slots, slot.Succeeds c g start)
    (hstart : Weight.IsNumber start.score) :
    (∀ slot ∈ best.slots, slot.Succeeds c g start) ∧
    ((∃ slot ∈ pair.best.slots, start.score < slot.score) ∨ (∃ taken ∈ counts, taken ≠ 0) →
      ∃ slot ∈ best.slots, start.score < slot.score) := by
  induction hcalls with
  | none =>
    refine ⟨hbest, ?_⟩
    rintro (hbeaten | ⟨taken, htaken, -⟩)
    · exact hbeaten
    · exact absurd htaken List.not_mem_nil
  | call h _ ih =>
    have hafter := succeeds_searchOnce hpays hg hpair hbest h
    obtain ⟨hlast, hbeaten⟩ := ih ((searchOnce_meets hconfig hspin hpair).of_run h) hafter
    have honce := exists_lt_of_searchOnce hpays hg hconfig hspin hpair hbest hstart h
    refine ⟨hlast, ?_⟩
    rintro (hfirst | ⟨taken, htaken, hne⟩)
    · exact hbeaten (.inl (honce (.inl hfirst)))
    · rcases List.mem_cons.mp htaken with rfl | htaken
      · exact hbeaten (.inl (honce (.inr (.inl hne))))
      · exact hbeaten (.inr ⟨taken, htaken, hne⟩)

-- ---------------------------------------------------------------------------
-- Rounds
-- ---------------------------------------------------------------------------

/-- The best slot after a round complies, or it is the one before it. In the latter case no search
call improved a slot, and the slots searched were perturbed. -/
theorem complies_of_runRound {best after : Population R} {improved : List Nat}
    {held kept : Slot R}
    (hbest : best.IsFilled (c.problem penalty).strategy g config.numSlots)
    (h : (runRound (c.problem penalty).strategy g config best).run.run s
      = .ok (.ok (improved, after), s'))
    (hheld : best.best = some held) (hkept : after.best = some kept) :
    kept.Complies c g ∨
      kept = held ∧ config.numPerturb ≠ 0 ∧ ∀ taken ∈ improved, taken = 0 := by
  obtain ⟨perturbed, scores, search, s₁, hperturbed, hload, hsearched⟩ := runRound_inv h
  obtain ⟨hcalls, hsome⟩ := calls_of_searchCalls hsearched
  have hafter := isFilled_of_runRound hconfig hspin hbest h
  have hpair : Pair.IsFilled (c.problem penalty).strategy g config.numSlots
      ⟨best.copyBest, search⟩ := by
    have hsearch := (Population.isFilled_of_load hload).1
    rw [((perturbCopies_ensures hconfig hspin hbest).of_run hperturbed).1] at hsearch
    exact ⟨hbest.copyBest, hsearch⟩
  have hnumber := Population.isNumber_of_mem hpays hbest.consistent held (Population.best_mem hheld)
  have hcopies : ∀ slot ∈ best.copyBest.slots, slot.Succeeds c g held :=
    fun slot hslot => .inl (Population.eq_of_mem_copyBest hheld hslot)
  obtain ⟨hlast, hbeaten⟩ := hcalls.succeeds hpays hg hconfig hspin hpair hcopies hnumber
  rcases hlast kept (Population.best_mem hkept) with rfl | ⟨hcomplies, -⟩
  · by_cases hviolated : kept.Complies c g
    · exact .inl hviolated
    -- it is the best slot still, so that none has beaten it
    have hunbeaten : ¬ ∃ slot ∈ after.slots, kept.score < slot.score := by
      intro hsome
      obtain ⟨slot, hslot, hlt⟩ := (Population.keepsBest_best hkept).exists_lt
        (Population.isNumber_of_mem hpays hafter.consistent) hnumber hsome
      rw [List.mem_singleton.mp hslot] at hlt
      exact Weight.StrictlyOrdered.lt_irrefl _ hlt
    refine .inr ⟨rfl, fun hzero => hunbeaten ?_, fun taken htaken => ?_⟩
    · rw [hzero, Assignment.perturbAll_zero] at hperturbed
      obtain ⟨rfl, -⟩ := Draw.pure_inv hperturbed
      have hmem := hbest.mem_of_load_copyBest hconfig.numSlots hheld hload
      cases hcalls with
      | none => exact absurd rfl (hsome hconfig.numInner)
      | call honce hrest =>
        have hfirst := exists_lt_of_searchOnce hpays hg hconfig hspin hpair hcopies hnumber honce
          (.inr (.inr ⟨hmem, hviolated⟩))
        exact (hrest.succeeds hpays hg hconfig hspin
          ((searchOnce_meets hconfig hspin hpair).of_run honce)
          (succeeds_searchOnce hpays hg hpair hcopies honce) hnumber).2 (.inl hfirst)
    · by_contra hne
      exact hunbeaten (hbeaten (.inr ⟨taken, htaken, hne⟩))
  · exact .inl hcomplies

end Rounds

-- ---------------------------------------------------------------------------
-- Restarts
-- ---------------------------------------------------------------------------

/-- The slot held complies. -/
def Incumbent.Complies (c : Constraint) (g : Graph R) (incumbent : Incumbent R) : Prop :=
  ∃ slot, incumbent.best = some slot ∧ slot.Complies c g

/-- The slot held was taken in the given round. -/
def Incumbent.IsFrom (round : Nat) (incumbent : Incumbent R) : Prop :=
  ∃ slot, incumbent.best = some slot ∧
    incumbent.improvements.head? = some (round, slot.score)

/-- The incumbent would not take a violation: the slot complies, or is declined. -/
def Incumbent.Settles (c : Constraint) (g : Graph R) (incumbent : Incumbent R) (slot : Slot R) :
    Prop :=
  slot.Complies c g ∨ ∃ held, incumbent.best = some held ∧ slot.score ≤ held.score

/-- The round passes on the slot it began with: it brought a new best, though no search call of it
improved a slot. -/
structure RoundEntry.PassesOn (entry : RoundEntry) : Prop where
  newBest : entry.newBest = true
  unimproved : ∀ taken ∈ entry.improved, taken = 0

/-- A restart begins with the given round, and this round passes on the slot it began with. -/
inductive Journal.PassesOn : Journal → (round : Nat) → Prop
  | first {entry : RoundEntry} {rest : List RoundEntry} {others : Journal} (h : entry.PassesOn) :
    PassesOn ((entry :: rest) :: others) 0
  | later {entries : List RoundEntry} {others : Journal} {round : Nat}
    (h : PassesOn others round) : PassesOn (entries :: others) (entries.length + round)

section Restarts

variable (hpays : PaysRepairs c penalty g) (hg : g.IsBuilt)
variable (hconfig : config.Positive) (hspin : config.numSpin ≤ g.numNodes)
include hpays hg hconfig hspin

/-- Rounds from a best slot that was settled let no violation in. -/
theorem Rounds.complies_of_settled {round : Nat} {best : Population R}
    {incumbent last : Incumbent R} {entries : List RoundEntry} {slot : Slot R}
    (hrounds : Rounds σ (c.problem penalty).strategy g config round best incumbent entries last)
    (hbest : best.IsFilled (c.problem penalty).strategy g config.numSlots)
    (hslot : best.best = some slot) (hsettled : incumbent.Settles c g slot) :
    last = incumbent ∨ last.Complies c g := by
  induction hrounds generalizing slot with
  | none => exact .inl rfl
  | empty h hnone _ _ =>
    have hafter := isFilled_of_runRound hconfig hspin hbest h
    exact absurd hnone (hafter.best_ne_none hconfig.numSlots)
  | @offer round best after _ _ _ kept _ incumbent held _ _ h hkept hoffer _ ih =>
    have hafter := isFilled_of_runRound hconfig hspin hbest h
    have hsettled' : incumbent.Settles c g kept := by
      rcases complies_of_runRound hpays hg hconfig hspin hbest h hslot hkept with
        hcomplies | ⟨rfl, -⟩
      · exact .inl hcomplies
      · exact hsettled
    rcases incumbent.offer_cases round kept with ⟨-, hdeclined⟩ | ⟨hbeats, htaken⟩
    · rw [hdeclined] at hoffer
      cases hoffer
      exact ih hafter hkept hsettled'
    · rw [htaken] at hoffer
      cases hoffer
      rcases hsettled' with hcomplies | ⟨other, hother, hle⟩
      · rcases ih hafter hkept (.inl hcomplies) with rfl | hlast
        · exact .inr ⟨kept, rfl, hcomplies⟩
        · exact .inr hlast
      · exact absurd hle (hbeats other hother)

/-- What a restart leaves as the incumbent is the one before it, or complies, or was taken in the
first round, which passed on the best of the random slots. -/
theorem Rounds.complies_or_passesOn {round : Nat} {best : Population R}
    {incumbent last : Incumbent R} {entries : List RoundEntry}
    (hrounds : Rounds σ (c.problem penalty).strategy g config round best incumbent entries last)
    (hbest : best.IsFilled (c.problem penalty).strategy g config.numSlots) :
    last = incumbent ∨ last.Complies c g ∨
      config.numPerturb ≠ 0 ∧ last.IsFrom round ∧
        ∃ entry rest, entries = entry :: rest ∧ entry.PassesOn := by
  cases hrounds with
  | none => exact .inl rfl
  | empty h hnone hrest =>
    have hafter := isFilled_of_runRound hconfig hspin hbest h
    exact absurd hnone (hafter.best_ne_none hconfig.numSlots)
  | @offer _ _ after _ _ _ kept _ _ held _ _ h hkept hoffer hrest =>
    have hafter := isFilled_of_runRound hconfig hspin hbest h
    obtain ⟨start, hstart, -⟩ := hbest.exists_best hconfig.numSlots
    rcases incumbent.offer_cases round kept with ⟨hdeclines, hdeclined⟩ | ⟨-, htaken⟩
    · rw [hdeclined] at hoffer
      cases hoffer
      rcases hrest.complies_of_settled hpays hg hconfig hspin hafter hkept (.inr hdeclines) with
        hsame | hlast
      · exact .inl hsame
      · exact .inr (.inl hlast)
    · rw [htaken] at hoffer
      cases hoffer
      have hnumber : kept.score ≤ kept.score :=
        Population.isNumber_of_mem hpays hafter.consistent kept (Population.best_mem hkept)
      rcases hrest.complies_of_settled hpays hg hconfig hspin hafter hkept
        (.inr ⟨kept, rfl, hnumber⟩) with rfl | hlast
      · right
        rcases complies_of_runRound hpays hg hconfig hspin hbest h hstart hkept with
          hcomplies | ⟨-, hperturb, hpasses⟩
        · exact .inl ⟨kept, rfl, hcomplies⟩
        · exact .inr ⟨hperturb, ⟨kept, rfl, rfl⟩, _, _, rfl, rfl, hpasses⟩
      · exact .inr (.inl hlast)

/-- The same of all restarts: a violation comes from one whose first round passes it on. -/
theorem complies_or_passesOn {restarts before : Nat} {incumbent last : Incumbent R}
    {journal : Journal}
    (h : (runRestarts (c.problem penalty).strategy g config restarts before incumbent).run.run s
      = .ok (.ok (journal, last), s')) :
    last = incumbent ∨ last.Complies c g ∨
      config.numPerturb ≠ 0 ∧ ∃ round, last.IsFrom (before + round) ∧ journal.PassesOn round := by
  induction restarts generalizing before incumbent journal s with
  | zero =>
    cases h
    exact .inl rfl
  | succ restarts ih =>
    obtain ⟨⟨entries, held⟩, s₁, hrestart, hrest⟩ := Attempt.bind_inv h
    obtain ⟨⟨others, final⟩, s₂, hothers, hend⟩ := Attempt.bind_inv hrest
    cases hend
    rcases ih hothers with rfl | hcomplies | ⟨hperturb, round, hfrom, hpasses⟩
    · obtain ⟨start, scores, best, s₃, hstart, hload, hrounds⟩ := runRestart_inv hrestart
      have hbest := (Population.isFilled_of_load hload).1
      rw [(Draw.replicate_inv hstart).1] at hbest
      rcases (rounds_of_runRounds hrounds).complies_or_passesOn hpays hg hconfig hspin hbest with
        hsame | hcomplies | ⟨hperturb, hfrom, entry, rest, rfl, hpasses⟩
      · exact .inl hsame
      · exact .inr (.inl hcomplies)
      · exact .inr (.inr ⟨hperturb, 0, hfrom, .first hpasses⟩)
    · exact .inr (.inl hcomplies)
    · rw [Nat.add_assoc] at hfrom
      exact .inr (.inr ⟨hperturb, _, hfrom, hpasses.later⟩)

end Restarts

-- ---------------------------------------------------------------------------
-- Runs
-- ---------------------------------------------------------------------------

/-- With the usual penalty, and on a graph that is not too large, a run reports an assignment that
meets the constraint, unless slots are perturbed and the last new best came in the first round of a
restart, which passed on the best of the random slots. -/
theorem runOn_complies_unless_passesOn (c : Constraint) {g : Graph Float} (hg : g.IsBuilt)
    (hsize : g.numNodes + 2 * g.numEdges < 2 ^ 53) {result : Result Float}
    (h : (runOn (c.kind.problem : Problem Float).strategy g config).run.run s
      = .ok (.ok result, s')) :
    c.isMet g result.solution = .ok true ∨
    config.numPerturb ≠ 0 ∧ ∃ journal incumbent s₁ round,
      (explore (c.kind.problem : Problem Float).strategy g config).run.run s
        = .ok (.ok (journal, incumbent), s₁) ∧
      journal.PassesOn round ∧ result.history.getLast? = some (round, result.score) := by
  obtain ⟨⟨journal, incumbent⟩, s₁, hexplore, hreport⟩ := Attempt.bind_inv h
  obtain ⟨hbest, hhistory, -⟩ := report_inv (Attempt.ofExcept_inv hreport).1
  obtain ⟨⟨⟩, hcheck, hrestarts⟩ := Attempt.ofExcept_bind_inv hexplore
  obtain ⟨hconfig, -, hspin⟩ := checkRun_inv hcheck
  have hpays := paysRepairs_usual c hg hsize
  rw [c.problem_kind] at hrestarts
  rcases complies_or_passesOn hpays hg hconfig hspin hrestarts with
    rfl | ⟨slot, hslot, hcomplies⟩ | ⟨hperturb, round, ⟨slot, hslot, hlast⟩, hpasses⟩
  · cases hbest
  · rw [hbest] at hslot
    cases hslot
    exact .inl hcomplies
  · rw [hbest] at hslot
    cases hslot
    rw [Nat.zero_add] at hlast
    rw [hhistory, Incumbent.history, List.getLast?_reverse]
    exact .inr ⟨hperturb, journal, incumbent, s₁, round, hexplore, hpasses, hlast⟩

/-- A path of four nodes. -/
def path : Graph Float where
  numNodes := 4
  edges := [⟨0, 1, 1.0⟩, ⟨1, 2, 1.0⟩, ⟨2, 3, 1.0⟩]
  offsets := #[0, 1, 3, 5, 6]
  adjacency := #[⟨1, 1.0⟩, ⟨0, 1.0⟩, ⟨2, 1.0⟩, ⟨1, 1.0⟩, ⟨3, 1.0⟩, ⟨2, 1.0⟩]
  weightedDegrees := #[1.0, 2.0, 2.0, 1.0]

/-- One slot and one search call without flip rounds, of the best slot with some nodes flipped. -/
def Config.single (numPerturb : Nat) : Config where
  numSlots := 1
  numRounds := 1
  roundPatience := 0
  numInner := 1
  innerPatience := 0
  numPerturb := numPerturb
  numIters := 0
  numSpin := 1
  noiseStd := 0.0

/-- Without perturbation the search covers what the random assignment `0010` left uncovered. -/
theorem runOn_complies_unless_passesOn_path :
    Constraint.cover.isMet path #[true, false, true, false] = .ok true := by
  have hbuilt : path.IsBuilt := by
    decide +kernel
  have hrun : (runOn (Constraint.cover.kind.problem : Problem Float).strategy path
      (.single 0)).run.run (Tape.start [2 ^ 63, 2 ^ 63, 0, 2 ^ 63, 2 ^ 63] 7)
      = .ok (.ok ⟨#[true, false, true, false], -2.0, [(0, -2.0)], 1, 1⟩, ⟨[], .ofSeed 7, 5⟩) := by
    decide +kernel
  have hsize : path.numNodes + 2 * path.numEdges < 2 ^ 53 := by
    decide
  rcases runOn_complies_unless_passesOn .cover hbuilt hsize hrun with hmet | ⟨hperturb, -⟩
  · exact hmet
  · exact absurd rfl hperturb

/-- With one node flipped the searches find `1110` and `0001`, which score as high as the random
assignments `0010` and `1011`. The latter are reported, with an edge uncovered and a conflict. -/
theorem runOn_reports_violation_path :
    (∃ result source', (runOn (Kind.minimumVertexCover.problem : Problem Float).strategy path
        (.single 1)).run.run (Tape.start [2 ^ 63, 2 ^ 63, 0, 2 ^ 63, 2 ^ 63, 0] 7)
        = .ok (.ok result, source') ∧
      result.solution = #[false, false, true, false] ∧
      path.isCover result.solution = .ok false) ∧
    ∃ result source', (runOn (Kind.maximumIndependentSet.problem : Problem Float).strategy path
        (.single 1)).run.run (Tape.start [0, 2 ^ 63, 0, 0, 2 ^ 62, 0] 7)
        = .ok (.ok result, source') ∧
      result.solution = #[true, false, true, true] ∧
      path.isIndependent result.solution = .ok false := by
  refine ⟨⟨⟨#[false, false, true, false], -3.0, [(0, -3.0)], 1, 1⟩, ⟨[], .ofSeed 7, 6⟩, ?_⟩,
    ⟨#[true, false, true, true], 1.0, [(0, 1.0)], 1, 1⟩, ⟨[], .ofSeed 7, 6⟩, ?_⟩
  · decide +kernel
  · decide +kernel

end LocalSearch

end CutCover
