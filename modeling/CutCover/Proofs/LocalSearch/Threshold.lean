import CutCover.Proofs.Exchanges
import CutCover.Proofs.Graph.Gains
import CutCover.Proofs.LocalSearch.Rank
import CutCover.Proofs.LocalSearch.Slot
import CutCover.Random.Tape

/-!
# CutCover — the threshold of the flip rounds

The first flip round chooses the threshold as a number of a given rank among its noisy gains, so
that no more nodes than asked for lie above it, and just as many if no two gains are equal. All of
them are flipped, and nothing but them: those with the largest gains. The rounds after it keep the
threshold, whatever their own gains are.

* `nodesAbove`, `toggles_flipAbove` — the nodes that a flip round flips.
* `TakesLargest`                — nodes with the largest gains, as many as asked for or fewer.
* `takesLargest_nodesAbove`     — those above the threshold are such nodes.
* `Slot.flipRoundsAt`           — flip rounds with one threshold for all.
* `Slot.search_flips_largest`   — ranks, the first round of a search, and the rounds after it.
-/

namespace CutCover.LocalSearch

open Binary64

-- ---------------------------------------------------------------------------
-- Nodes above the threshold
-- ---------------------------------------------------------------------------

/-- The nodes whose noisy gain lies above the threshold. -/
def nodesAbove (threshold : Float) (noisy : List Float) : List Nat :=
  noisy.findIdxs fun gain => threshold < gain

theorem mem_nodesAbove {threshold : Float} {noisy : List Float} {node : Nat} :
    node ∈ nodesAbove threshold noisy ↔ ∃ gain, noisy[node]? = some gain ∧ threshold < gain := by
  rw [nodesAbove, List.mem_findIdxs_iff_exists_getElem_pos]
  constructor
  · rintro ⟨hnode, habove⟩
    exact ⟨noisy[node], List.getElem?_eq_getElem hnode, of_decide_eq_true habove⟩
  · rintro ⟨gain, hgain, habove⟩
    obtain ⟨hnode, rfl⟩ := List.getElem?_eq_some_iff.mp hgain
    exact ⟨hnode, decide_eq_true habove⟩

/-- A flip round flips the nodes above the threshold, and no others. -/
theorem toggles_flipAbove {threshold : Float} {noisy : List Float} {x : Assignment}
    (h : noisy.length = x.size) :
    x.Toggles (nodesAbove threshold noisy) (flipAbove threshold noisy x) := by
  have hread (node : Nat) : (flipAbove threshold noisy x)[node]?
      = (x[node]?.map fun label gain => if threshold < gain then !label else label).bind
          fun flipped => noisy[node]?.map flipped := by
    rw [flipAbove, List.getElem?_toArray, List.getElem?_zipWith', Array.getElem?_toList]
  refine ⟨size_flipAbove h, ?_, ?_⟩
  · intro node hnode
    obtain ⟨gain, hgain, habove⟩ := mem_nodesAbove.mp hnode
    have hlt : node < x.size := h ▸ (List.getElem?_eq_some_iff.mp hgain).1
    refine ⟨x[node], Array.getElem?_eq_getElem hlt, ?_⟩
    rw [hread, hgain, Array.getElem?_eq_getElem hlt]
    simp only [Option.map_some, Option.bind_some, habove, if_true]
  · intro node hnode
    rw [hread]
    by_cases hlt : node < x.size
    · have hgain : noisy[node]? = some noisy[node] := List.getElem?_eq_getElem (h.symm ▸ hlt)
      have hbelow : ¬ threshold < noisy[node] := fun habove =>
        hnode (mem_nodesAbove.mpr ⟨_, hgain, habove⟩)
      rw [hgain, Array.getElem?_eq_getElem hlt]
      simp only [Option.map_some, Option.bind_some, hbelow, if_false]
    · rw [Array.getElem?_eq_none (Nat.le_of_not_lt hlt)]
      rfl

-- ---------------------------------------------------------------------------
-- The largest gains
-- ---------------------------------------------------------------------------

/-- Nodes whose gains lie strictly above those of all others; `count` of them if no two gains are
equal, and otherwise no more than that. -/
structure TakesLargest (count : Nat) (gains : List Float) (nodes : List Nat) : Prop where
  nodup : nodes.Nodup
  length_le : nodes.length ≤ count
  length_eq : gains.Pairwise (fun a b => (a == b) = false) → nodes.length = count
  largest : ∀ node ∈ nodes, ∀ other ∉ nodes, ∀ gain otherGain,
    gains[node]? = some gain → gains[other]? = some otherGain → otherGain < gain

/-- Nothing finite is as low as negative infinity. -/
theorem negativeInfinity_lt {a : Float} (ha : a.isFinite = true) : negativeInfinity < a := by
  have hplace : placeOf negativeInfinity = toLex (-2, toLex (0, 0)) := by
    decide +kernel
  rw [lt_iff_placeOf (by decide +kernel) (isNaN_of_isFinite ha), hplace, placeOf]
  change a.toModel.unpack.isFinite = true at ha
  rcases hread : a.toModel.unpack with _ | _ | _ | ⟨sign, _, _, _⟩ <;> rw [hread] at ha
  · cases ha
  · cases ha
  · exact Prod.Lex.toLex_lt_toLex.mpr (.inl (show (-2 : ℤ) < 0 by decide))
  · cases sign with
    | negative => exact Prod.Lex.toLex_lt_toLex.mpr (.inl (show (-2 : ℤ) < -1 by decide))
    | positive => exact Prod.Lex.toLex_lt_toLex.mpr (.inl (show (-2 : ℤ) < 1 by decide))

/-- Whatever lies above a number is larger than what does not. -/
theorem takesLargest_nodesAbove {count : Nat} {noisy : List Float} {threshold : Float}
    (hthreshold : threshold.isNaN = false) (hnumbers : ∀ gain ∈ noisy, gain.isNaN = false)
    (hle : noisy.countP (fun gain => threshold < gain) ≤ count)
    (heq : noisy.Pairwise (fun a b => (a == b) = false) →
      noisy.countP (fun gain => threshold < gain) = count) :
    TakesLargest count noisy (nodesAbove threshold noisy) := by
  have hlength : (nodesAbove threshold noisy).length
      = noisy.countP (fun gain => threshold < gain) :=
    List.length_findIdxs
  refine ⟨List.nodup_findIdxs, hlength.trans_le hle, fun hdistinct => hlength.trans (heq hdistinct),
    ?_⟩
  intro node hnode other hother gain otherGain hgain hotherGain
  obtain ⟨_, hgain', habove⟩ := mem_nodesAbove.mp hnode
  rw [hgain] at hgain'
  obtain rfl := Option.some_inj.mp hgain'
  have hbelow : ¬ threshold < otherGain := fun hlt =>
    hother (mem_nodesAbove.mpr ⟨otherGain, hotherGain, hlt⟩)
  have hnumber := hnumbers gain (List.mem_of_getElem? hgain)
  have hotherNumber := hnumbers otherGain (List.mem_of_getElem? hotherGain)
  rw [lt_iff_placeOf hthreshold hnumber] at habove
  rw [lt_iff_placeOf hthreshold hotherNumber, not_lt] at hbelow
  rw [lt_iff_placeOf hotherNumber hnumber]
  exact hbelow.trans_lt habove

/-- There is a threshold to choose, and above it lie the largest gains, as many as asked for. Its
rank is that of the largest gain that is not to be above, unless all are. -/
theorem exists_chooseThreshold {numSpin : Nat} {noisy : List Float}
    (hspin : numSpin ≤ noisy.length) (hfinite : ∀ gain ∈ noisy, gain.isFinite = true) :
    ∃ threshold, chooseThreshold numSpin noisy = .ok threshold ∧
      (numSpin < noisy.length → IsOfRank noisy (noisy.length - numSpin) threshold) ∧
      TakesLargest numSpin noisy (nodesAbove threshold noisy) := by
  have hnumbers : ∀ gain ∈ noisy, gain.isNaN = false := fun gain hgain =>
    isNaN_of_isFinite (hfinite gain hgain)
  rw [chooseThreshold, difference_of_le hspin]
  by_cases hall : numSpin = noisy.length
  · -- the rank is zero, and everything finite lies above
    have hcount : noisy.countP (fun gain => negativeInfinity < gain) = numSpin := by
      rw [hall, List.countP_eq_length]
      exact fun gain hgain => decide_eq_true (negativeInfinity_lt (hfinite gain hgain))
    refine ⟨negativeInfinity, ?_, by omega, ?_⟩
    · rw [hall, Nat.sub_self]
      rfl
    · exact takesLargest_nodesAbove (by decide +kernel) hnumbers hcount.le fun _ => hcount
  · have hpos : 1 ≤ noisy.length - numSpin := by omega
    obtain ⟨threshold, hthreshold, hrank⟩ := exists_isOfRank hpos (Nat.sub_le _ _)
    refine ⟨threshold, hthreshold, fun _ => hrank, ?_⟩
    refine takesLargest_nodesAbove (hnumbers threshold hrank.mem) hnumbers ?_ ?_
    · have hle := hrank.countP_above_le hnumbers
      omega
    · intro hdistinct
      have heq := hrank.countP_above_eq hpos hnumbers hdistinct
      omega

-- ---------------------------------------------------------------------------
-- The rounds of a search
-- ---------------------------------------------------------------------------

namespace Slot

variable {R : Type} [Weight R] {τ : Type} [WordSource τ]
variable {strategy : Strategy R} {g : Graph R} {params : SearchParams}

/-- Flip rounds with one threshold for all of them. -/
def flipRoundsAt (strategy : Strategy R) (g : Graph R) (noiseStd threshold : Float) :
    (rounds : Nat) → Slot R → Draw τ (Slot R)
  | 0, slot => return slot
  | rounds + 1, slot => do
    let noisy ← slot.noisyGains strategy g noiseStd
    let challenger ← ofSolution strategy g (flipAbove threshold noisy slot.solution)
    flipRoundsAt strategy g noiseStd threshold rounds (slot.improve challenger)

/-- A threshold that is there is used in all rounds. -/
theorem flipRounds_some (threshold : Float) (rounds : Nat) (slot : Slot R) :
    (slot.flipRounds strategy g params rounds (some threshold) : Draw τ (Slot R))
      = slot.flipRoundsAt strategy g params.noiseStd threshold rounds := by
  induction rounds generalizing slot with
  | zero => rfl
  | succ rounds ih =>
    rw [flipRounds, flipRoundsAt]
    refine bind_congr fun noisy => ?_
    refine StateT.ext fun s => ?_
    have hsettled : settleThreshold params.numSpin (some threshold) noisy = .ok threshold := rfl
    rw [Draw.lift_bind_of_ok hsettled]
    simp only [ih]

/-- The first round of a search flips what lies above the threshold that it chooses, and the later
ones use the same. -/
theorem search_of_chooseThreshold {slot : Slot R} {s s₁ : τ} {noisy : List Float}
    {threshold : Float} (hiters : 1 ≤ params.numIters)
    (hnoisy : (slot.noisyGains strategy g params.noiseStd).run s = .ok (noisy, s₁))
    (hthreshold : chooseThreshold params.numSpin noisy = .ok threshold) :
    (slot.search strategy g params).run s = (do
      let challenger ← ofSolution strategy g (flipAbove threshold noisy slot.solution)
      let searched ← (slot.improve challenger).flipRoundsAt strategy g params.noiseStd threshold
        (params.numIters - 1)
      searched.sweep strategy g : Draw τ (Slot R)).run s₁ := by
  obtain ⟨rounds, hrounds⟩ := Nat.exists_eq_add_of_le' hiters
  rw [search, hrounds, Nat.add_sub_cancel, flipRounds, bind_assoc, Draw.bind_of_run hnoisy,
    bind_assoc, Draw.lift_bind_of_ok (show settleThreshold _ none noisy = _ from hthreshold),
    bind_assoc]
  simp only [flipRounds_some]

/-- A rank from one to the number of values is that of one of them, with no more below it and above
it in the total order than the rank allows. So the first flip round of a search flips no more nodes
than asked for, just as many if no two noisy gains are equal, and those with the largest gains; and
all later rounds of the search compare with the threshold of the first. -/
theorem search_flips_largest :
    (∀ (values : List Float) (k : Nat), 1 ≤ k → k ≤ values.length →
      ∃ value, ofRank values k = .ok value ∧ IsOfRank values k value) ∧
    ∀ {R τ : Type} [Weight R] [WordSource τ] (strategy : Strategy R) (g : Graph R)
      (params : SearchParams) (slot : Slot R) (s s₁ : τ) (noisy : List Float),
      1 ≤ params.numIters → params.numSpin ≤ slot.solution.size →
      (slot.noisyGains strategy g params.noiseStd).run s = .ok (noisy, s₁) →
      (∀ gain ∈ noisy, gain.isFinite = true) →
      ∃ threshold, chooseThreshold params.numSpin noisy = .ok threshold ∧
        (params.numSpin < noisy.length →
          IsOfRank noisy (noisy.length - params.numSpin) threshold) ∧
        TakesLargest params.numSpin noisy (nodesAbove threshold noisy) ∧
        slot.solution.Toggles (nodesAbove threshold noisy)
          (flipAbove threshold noisy slot.solution) ∧
        (slot.search strategy g params).run s = (do
          let challenger ← ofSolution strategy g (flipAbove threshold noisy slot.solution)
          let searched ← (slot.improve challenger).flipRoundsAt strategy g params.noiseStd
            threshold (params.numIters - 1)
          searched.sweep strategy g : Draw τ (Slot R)).run s₁ := by
  refine ⟨fun values k hpos hle => exists_isOfRank hpos hle, ?_⟩
  intro R τ _ _ strategy g params slot s s₁ noisy hiters hspin hnoisy hfinite
  have hlength := noisyGains_inv hnoisy
  rw [← hlength] at hspin
  obtain ⟨threshold, hthreshold, hrank, hlargest⟩ := exists_chooseThreshold hspin hfinite
  exact ⟨threshold, hthreshold, hrank, hlargest, toggles_flipAbove hlength,
    search_of_chooseThreshold hiters hnoisy hthreshold⟩

/-- From the gains `-1/2`, `3/2` and `2`, noise makes the first the second largest, and it is
flipped along with the third. -/
theorem search_flips_largest_doubledPath :
    ((⟨#[false, false, false], 0⟩ : Slot Rat).noisyGains Problem.maxCut.strategy
        Graph.doubledPath 0.3).run
        (Tape.start [0xC000000000000001, 0x4000000000000001, 0x8000000000000000] 7)
      = .ok ([0.8703073320103782, 0.12969266798962176, 2.0], ⟨[], .ofSeed 7, 3⟩) ∧
    TakesLargest 2 [0.8703073320103782, 0.12969266798962176, 2.0] [0, 2] ∧
    Assignment.Toggles #[false, false, false] [0, 2] #[true, false, true] := by
  have hnoisy : ((⟨#[false, false, false], 0⟩ : Slot Rat).noisyGains Problem.maxCut.strategy
      Graph.doubledPath 0.3).run
      (Tape.start [0xC000000000000001, 0x4000000000000001, 0x8000000000000000] 7)
      = .ok ([0.8703073320103782, 0.12969266798962176, 2.0], ⟨[], .ofSeed 7, 3⟩) := by
    decide +kernel
  have hsorted : [0.8703073320103782, 0.12969266798962176, 2.0].mergeSort
      (fun a b => orderKey a ≤ orderKey b) = [0.12969266798962176, 0.8703073320103782, 2.0] := by
    have hswap : ¬ orderKey 0.8703073320103782 ≤ orderKey 0.12969266798962176 := by decide +kernel
    have hlast : orderKey 0.12969266798962176 ≤ orderKey 2.0 := by decide +kernel
    have hlast' : orderKey 0.8703073320103782 ≤ orderKey 2.0 := by decide +kernel
    simp [List.mergeSort, List.MergeSort.Internal.splitInTwo, hswap, hlast, hlast']
  have hchosen : chooseThreshold 2 [0.8703073320103782, 0.12969266798962176, 2.0]
      = .ok 0.12969266798962176 := by
    show ofRank _ 1 = _
    rw [ofRank, hsorted]
    rfl
  have habove : nodesAbove 0.12969266798962176 [0.8703073320103782, 0.12969266798962176, 2.0]
      = [0, 2] := by
    decide +kernel
  have hflipped : flipAbove 0.12969266798962176 [0.8703073320103782, 0.12969266798962176, 2.0]
      #[false, false, false] = #[true, false, true] := by
    decide +kernel
  obtain ⟨threshold, hthreshold, -, hlargest, htoggles, -⟩ :=
    search_flips_largest.2 Problem.maxCut.strategy Graph.doubledPath ⟨2, 2, 0.3⟩
      ⟨#[false, false, false], 0⟩ _ _ _ (by decide) (by decide) hnoisy (by decide +kernel)
  obtain rfl := Except.ok.inj (hchosen.symm.trans hthreshold)
  rw [habove] at hlargest htoggles
  rw [hflipped] at htoggles
  exact ⟨hnoisy, hlargest, htoggles⟩

end Slot

end CutCover.LocalSearch
