import CutCover.Proofs.Exchanges
import CutCover.Proofs.Graph.Targets

/-!
# CutCover — sampling by rejection

Three searches draw until they find something: one for two nodes with different labels, one for two
different candidates, and one for a new target among the ends of a growing graph. None of them is
begun, or gets, where nothing can be found. Before the first two stands a test of the labels, which
is passed just if a pair can be found; of the third it is an invariant that the ends mention more
nodes than targets are looked for.

* `Move.accepts_swapOf?_iff`, `Move.accepts_exchangeTwoOf?_iff` — when there is a pair to be found.
* `Move.canEnd_swapTrial`, `Move.canEnd_exchangeTwoTrial` — the searches for a pair.
* `rejectionLoops_canEnd`    — the three searches.
-/

namespace CutCover

open Draw (Accepts CanEnd Reaches pairsBelow repeatUntil)

namespace Move

variable {x : Assignment}

-- ---------------------------------------------------------------------------
-- Swaps
-- ---------------------------------------------------------------------------

/-- Two nodes with different labels can be swapped. -/
theorem swapOf?_of_label {a b : Nat} {label : Bool} (ha : x[a]? = some label)
    (hb : x[b]? = some !label) : swapOf? x a b = .ok (some (.swap a b)) := by
  obtain ⟨hlta, hlabela⟩ := Array.getElem?_eq_some_iff.mp ha
  obtain ⟨hltb, hlabelb⟩ := Array.getElem?_eq_some_iff.mp hb
  unfold swapOf?
  rw [Assignment.label_of_lt hlta, Assignment.label_of_lt hltb, hlabela, hlabelb]
  cases label <;> rfl

/-- Some pair of nodes can be swapped just if both labels occur. -/
theorem accepts_swapOf?_iff :
    Accepts (pairsBelow x.size) (Function.uncurry (swapOf? x)) ↔ x.IsMixed := by
  constructor
  · rintro ⟨⟨a, b⟩, ⟨ha, hb⟩, move, hmove⟩
    obtain ⟨answer, hanswer, hswaps⟩ := swapOf?_swaps ha hb
    obtain ⟨a, b, label, hlabela, hlabelb, -⟩ :=
      hswaps move (Except.ok.inj (hanswer.symm.trans hmove))
    intro sought
    rcases Bool.eq_or_eq_not sought label with rfl | rfl
    · exact ⟨a, hlabela⟩
    · exact ⟨b, hlabelb⟩
  · intro hmixed
    obtain ⟨a, hlabela⟩ := hmixed true
    obtain ⟨b, hlabelb⟩ := hmixed false
    have ha := (Array.getElem?_eq_some_iff.mp hlabela).1
    have hb := (Array.getElem?_eq_some_iff.mp hlabelb).1
    exact ⟨(a, b), ⟨ha, hb⟩, _, swapOf?_of_label hlabela hlabelb⟩

variable {σ : Type} [WordSource σ]

/-- While both labels occur, every round of the search for a swap can be the last. -/
theorem canEnd_swapTrial (h : x.IsMixed) :
    CanEnd (swapTrial x : Draw σ _) (pairsBelow x.size) (Function.uncurry (swapOf? x)) := by
  refine (accepts_swapOf?_iff.mpr h).canEnd (Draw.decides_pair h.size_pos ?_)
  intro a ha b hb
  obtain ⟨answer, hanswer, -⟩ := swapOf?_swaps ha hb
  exact ⟨answer, hanswer⟩

-- ---------------------------------------------------------------------------
-- Exchanges
-- ---------------------------------------------------------------------------

omit [WordSource σ] in
/-- Two candidates can be found just if there are two. -/
theorem accepts_exchangeTwoOf?_iff {out : Nat} {candidates : Array Nat} :
    Accepts (pairsBelow candidates.size) (Function.uncurry (exchangeTwoOf? out candidates)) ↔
      2 ≤ candidates.size := by
  constructor
  · rintro ⟨⟨a, b⟩, ⟨ha, hb⟩, move, hmove⟩
    have hdiffer : a ≠ b := by
      rintro rfl
      have hanswer := (exchangeTwoOf?_of_lt out ha hb).symm.trans hmove
      rw [if_pos rfl] at hanswer
      cases hanswer
    rw [Set.mem_Iio] at ha hb
    omega
  · intro htwo
    have hone : 0 < candidates.size := Nat.zero_lt_of_lt htwo
    exact ⟨(0, 1), ⟨hone, htwo⟩, _, exchangeTwoOf?_of_lt out hone htwo⟩

/-- With two candidates, every round of the search for them can be the last. -/
theorem canEnd_exchangeTwoTrial {candidates : Array Nat} (h : 2 ≤ candidates.size) (out : Nat) :
    CanEnd (exchangeTwoTrial out candidates : Draw σ _) (pairsBelow candidates.size)
      (Function.uncurry (exchangeTwoOf? out candidates)) := by
  refine (accepts_exchangeTwoOf?_iff.mpr h).canEnd (Draw.decides_pair (Nat.zero_lt_of_lt h) ?_)
  exact fun a ha b hb => ⟨_, exchangeTwoOf?_of_lt out ha hb⟩

end Move

-- ---------------------------------------------------------------------------
-- The three searches
-- ---------------------------------------------------------------------------

open CutCover.Graph (Growth Searching StopsOnlySearching preferentialAttachment targetAt?
  targetTrial)
open Move (SearchesTwo exchangeTwoOf? exchangeTwoTrial exchangeWords oneOfThree randomExchange
  randomSwap swapOf? swapTrial)

/-- No search by rejection is begun, or gets, where nothing can be found. In whatever state of the
source a round begins, it draws from choices of which one at least ends the search, and the search
ends with the first such choice that is drawn; if the choices are counted by words, some words lead
the round, and so the search, to an answer.

A swap is refused, before anything is drawn, just if no pair of nodes would end the search for one.
An exchange is refused if there is no node to move out or in, and otherwise it searches for two nodes
to move in only if there are two. In every state of a search for targets in which some are missing,
whatever was drawn before, the ends mention more nodes than targets are looked for, and some place
of the ends holds a new one; a run of preferential attachment that does not answer gives up in such
a state. -/
theorem rejectionLoops_canEnd {σ : Type} [WordSource σ] (s : σ) :
    (∀ x : Assignment,
      (x.IsUniform → (randomSwap x).run.run s = .ok (.error (.noCandidates .toSwap), s) ∧
        ¬ Accepts (pairsBelow x.size) (Function.uncurry (swapOf? x))) ∧
      (¬ x.IsUniform →
        (randomSwap x : Attempt σ Move) = liftM (repeatUntil (swapTrial x) : Draw σ Move) ∧
        CanEnd (swapTrial x : Draw σ _) (pairsBelow x.size) (Function.uncurry (swapOf? x)) ∧
        (x.size ≤ wordRange → ∃ move, Reaches (swapTrial x) (some move) ∧
          Reaches (repeatUntil (swapTrial x)) move))) ∧
    (∀ x : Assignment,
      (x.selected = [] ∨ x.unselected = [] → ∃ missing,
        (randomExchange x).run.run s = .ok (.error (.noCandidates missing), s)) ∧
      (x.selected ≠ [] → x.unselected ≠ [] →
        ((¬ ∃ out s', SearchesTwo x s out s') → ∃ out s₁ into s',
          (Draw.pick x.selected.toArray).run s = .ok (out, s₁) ∧
          (randomExchange x).run.run s = .ok (.ok (.exchange out into), s')) ∧
        ∀ out s', SearchesTwo x s out s' →
          (randomExchange x).run.run s = (liftM (repeatUntil
            (exchangeTwoTrial out x.unselected.toArray) : Draw σ Move) :
              Attempt σ Move).run.run s' ∧
          CanEnd (exchangeTwoTrial out x.unselected.toArray : Draw σ _)
            (pairsBelow x.unselected.toArray.size)
            (Function.uncurry (exchangeTwoOf? out x.unselected.toArray)) ∧
          (x.unselected.toArray.size ≤ wordRange → ∃ move,
            Reaches (exchangeTwoTrial out x.unselected.toArray) (some move) ∧
            Reaches (repeatUntil (exchangeTwoTrial out x.unselected.toArray)) move))) ∧
    (∀ numNodes count,
      (count = 0 ∨ numNodes ≤ count →
        ((preferentialAttachment numNodes count : Attempt σ (Graph Float)).run).run s
          = .ok (.error (.invalidConfig (.attachmentCount numNodes count)), s)) ∧
      (0 < count → count < numNodes →
        (∀ (growth : Growth) (chosen : List Nat) (s' : σ),
          Searching numNodes count s growth chosen s' → chosen.length < count →
          count + 1 ≤ growth.ends.toList.toFinset.card ∧
          CanEnd (targetTrial growth.ends chosen : Draw σ _) (Set.Iio growth.ends.size)
            (targetAt? growth.ends chosen) ∧
          (growth.ends.size ≤ wordRange → ∃ t, Reaches (targetTrial growth.ends chosen) (some t) ∧
            Reaches (repeatUntil (targetTrial growth.ends chosen)) t)) ∧
        StopsOnlySearching numNodes count s
          (preferentialAttachment numNodes count : Attempt σ (Graph Float)).run s
          fun answer _ => ∃ g, answer = .ok g ∧ g.IsPreferential numNodes count)) := by
  refine ⟨fun x => ⟨?_, ?_⟩, fun x => ⟨?_, ?_⟩,
    fun numNodes count => ⟨fun hbad => Graph.preferentialAttachment_of_bad hbad s, ?_⟩⟩
  · intro huniform
    refine ⟨Move.randomSwap_of_isUniform huniform s, ?_⟩
    rw [Move.accepts_swapOf?_iff, x.isMixed_iff, not_not]
    exact huniform
  · intro hnot
    have hmixed := x.isMixed_iff.mpr hnot
    have hcanEnd := Move.canEnd_swapTrial (σ := σ) hmixed
    exact ⟨Move.randomSwap_eq hmixed, hcanEnd, hcanEnd.accepts.exists_reaches_pair⟩
  · intro hnone
    by_cases hselected : x.selected = []
    · exact ⟨_, Move.randomExchange_of_selected hselected s⟩
    · exact ⟨_, Move.randomExchange_of_unselected hselected (hnone.resolve_left hselected) s⟩
  · intro hselected hunselected
    refine ⟨Move.exists_exchange_of_not_searchesTwo hselected hunselected, ?_⟩
    intro out s' hsearches
    have htwo : 2 ≤ x.unselected.toArray.size := by
      obtain ⟨_, _, _, _, hbranch⟩ := hsearches
      exact Nat.le_of_not_lt (not_or.mp hbranch).2
    have hcanEnd := Move.canEnd_exchangeTwoTrial (σ := σ) htwo out
    exact ⟨Move.randomExchange_of_searchesTwo hselected hunselected hsearches, hcanEnd,
      hcanEnd.accepts.exists_reaches_pair⟩
  · intro hpos hcount
    refine ⟨?_, Graph.preferentialAttachment_stopsOnlySearching rfl hpos hcount s⟩
    intro growth chosen s' hsearching hshort
    obtain ⟨arrived, harrived, hattached⟩ := hsearching.isAttached hpos
    have hcanEnd := hsearching.canEnd hpos hshort
    exact ⟨hattached.lt_card_ends hpos harrived, hcanEnd, hcanEnd.accepts.exists_reaches_below⟩

/-- Words with which a fourth node, to be joined to two others, finds node `1` twice. -/
def targetWords : Tape :=
  .start [0x4000000000000000, 0x4000000000000000, 0x8000000000000000] 7

/-- With one of three nodes selected, all searches for swaps and exchanges can end, and so can the
search for targets with one of two targets found for a fourth node. -/
theorem rejectionLoops_canEnd_oneOfThree :
    (¬ oneOfThree.IsUniform ∧
      CanEnd (swapTrial oneOfThree : Draw Tape _) (pairsBelow 3)
        (Function.uncurry (swapOf? oneOfThree)) ∧
      ∃ move, Reaches (repeatUntil (swapTrial oneOfThree)) move) ∧
    (SearchesTwo oneOfThree exchangeWords 0 ⟨[0, 0, 0, 0x8000000000000000], .ofSeed 7, 2⟩ ∧
      CanEnd (exchangeTwoTrial 0 #[1, 2] : Draw Tape _) (pairsBelow 2)
        (Function.uncurry (exchangeTwoOf? 0 #[1, 2]))) ∧
    (Searching 4 2 targetWords (Graph.star 2) [1] ⟨[0x8000000000000000], .ofSeed 7, 2⟩ ∧
      CanEnd (targetTrial (Graph.star 2).ends [1] : Draw Tape _) (Set.Iio 4)
        (targetAt? (Graph.star 2).ends [1])) := by
  have hnot : ¬ oneOfThree.IsUniform := by
    rw [Assignment.isUniform_iff]
    decide
  have hsearches : SearchesTwo oneOfThree exchangeWords 0
      ⟨[0, 0, 0, 0x8000000000000000], .ofSeed 7, 2⟩ := by
    refine ⟨⟨[0x8000000000000000, 0, 0, 0, 0x8000000000000000], .ofSeed 7, 1⟩, 0.5, ?_, ?_, ?_⟩ <;>
      decide +kernel
  have hentered : Searching 4 2 targetWords (Graph.star 2) [] targetWords :=
    .entered (show 2 + 1 + 0 < 4 by decide) rfl
  have hfound : Searching 4 2 targetWords (Graph.star 2) [1]
      ⟨[0x4000000000000000, 0x8000000000000000], .ofSeed 7, 1⟩ :=
    hentered.found (by decide) (by decide +kernel)
  have hrejected : Searching 4 2 targetWords (Graph.star 2) [1]
      ⟨[0x8000000000000000], .ofSeed 7, 2⟩ :=
    hfound.rejected (by decide) (by decide +kernel)
  obtain ⟨-, hswap, hreaches⟩ := ((rejectionLoops_canEnd targetWords).1 oneOfThree).2 hnot
  obtain ⟨move, -, hmove⟩ := hreaches (by decide)
  obtain ⟨-, htwo, -⟩ := (((rejectionLoops_canEnd exchangeWords).2.1 oneOfThree).2
    (by decide) (by decide)).2 0 _ hsearches
  obtain ⟨-, htarget, -⟩ := (((rejectionLoops_canEnd targetWords).2.2 4 2).2
    (by decide) (by decide)).1 _ _ _ hrejected (by decide)
  exact ⟨⟨hnot, hswap, move, hmove⟩, ⟨hsearches, htwo⟩, hrejected, htarget⟩

end CutCover
