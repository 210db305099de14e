import CutCover.Move.Sample
import CutCover.Proofs.Draws
import CutCover.Proofs.Graph.Neighbors
import CutCover.Proofs.Labels

/-!
# CutCover — proposed moves

What each generator of moves proposes, and when it is refused. Swaps and exchanges *trade* labels:
they need nodes of both labels and leave nodes of both, so that after one there is a next. On an
assignment with one label only, their generators are refused before the first draw.

* `Move.Trades`, `Move.Trades.exists_apply` — moves that trade labels, and what they lead to.
* `Move.Flips`, `Move.randomFlip_ensures`      — flips.
* `Move.Removes`, `Move.randomRemoval_ensures` — removals.
* `Move.Swaps`, `Move.randomSwap_ensures`, `Move.randomSwap_of_isUniform` — swaps, and their
  refusal.
* `Move.Exchanges`, `Move.randomExchange_ensures`, `Move.randomExchange_of_isUniform` — exchanges,
  and their refusal.
-/

namespace CutCover.Move

open Assignment (setLabel_of_lt ne_of_label_ne isMixed_set)

variable {x : Assignment}

-- ---------------------------------------------------------------------------
-- Trades
-- ---------------------------------------------------------------------------

/-- The move brings some node of either label to the other one. -/
inductive Trades (x : Assignment) : Move → Prop where
  | swap {a b : Nat} (label : Bool) (ha : x[a]? = some label) (hb : x[b]? = some !label) :
    Trades x (.swap a b)
  | exchange {out into : Nat} (hout : x[out]? = some true) (hinto : x[into]? = some false) :
    Trades x (.exchange out into)
  | exchangeTwo {out first second : Nat} (hout : x[out]? = some true)
    (hfirst : x[first]? = some false) (hsecond : x[second]? = some false)
    (hne : first ≠ second) : Trades x (.exchangeTwo out first second)

/-- A trade can be made, and leaves nodes of both labels. -/
theorem Trades.exists_apply {move : Move} (h : Trades x move) :
    ∃ y, move.apply x = .ok y ∧ y.size = x.size ∧ y.IsMixed := by
  cases h with
  | @swap a b label ha hb =>
    have hne := ne_of_label_ne ha hb
    obtain ⟨hlta, hlabela⟩ := Array.getElem?_eq_some_iff.mp ha
    obtain ⟨hltb, hlabelb⟩ := Array.getElem?_eq_some_iff.mp hb
    refine ⟨_, Assignment.exchange_of_lt hlta hltb, by simp, ?_⟩
    refine isMixed_set _ hne.symm ?_
    rw [Array.getElem?_set_self, hlabela, hlabelb]
  | @exchange out into hout hinto =>
    have hne := ne_of_label_ne hout hinto
    obtain ⟨hltout, -⟩ := Array.getElem?_eq_some_iff.mp hout
    obtain ⟨hltinto, -⟩ := Array.getElem?_eq_some_iff.mp hinto
    have hltinto' : into < (x.set out false).size := by simpa using hltinto
    refine ⟨(x.set out false).set into true, ?_, by simp, ?_⟩
    · rw [apply, setLabel_of_lt _ hltout]
      exact setLabel_of_lt _ hltinto'
    · exact isMixed_set hltinto' hne.symm (Array.getElem?_set_self _)
  | @exchangeTwo out first second hout hfirst hsecond hne =>
    have hnefirst := ne_of_label_ne hout hfirst
    have hnesecond := ne_of_label_ne hout hsecond
    obtain ⟨hltout, -⟩ := Array.getElem?_eq_some_iff.mp hout
    obtain ⟨hltfirst, -⟩ := Array.getElem?_eq_some_iff.mp hfirst
    obtain ⟨hltsecond, -⟩ := Array.getElem?_eq_some_iff.mp hsecond
    have hltfirst' : first < (x.set out false).size := by simpa using hltfirst
    have hltsecond' : second < ((x.set out false).set first true).size := by simpa using hltsecond
    refine ⟨((x.set out false).set first true).set second true, ?_, by simp, ?_⟩
    · rw [apply, setLabel_of_lt _ hltout]
      show (Assignment.setLabel (x.set out false) first true >>= _) = _
      rw [setLabel_of_lt _ hltfirst']
      exact setLabel_of_lt _ hltsecond'
    · -- the node moved out is neither of the two moved in
      refine isMixed_set hltsecond' hnesecond.symm ?_
      rw [Array.getElem?_set_ne hltfirst' hnefirst.symm]
      exact Array.getElem?_set_self _

-- ---------------------------------------------------------------------------
-- Flips
-- ---------------------------------------------------------------------------

variable {σ : Type} [WordSource σ] {mayLoop : Prop}

/-- The move flips some node. -/
def Flips (x : Assignment) (move : Move) : Prop :=
  ∃ node < x.size, move = .flip node

theorem randomFlip_ensures (h : 0 < x.size) :
    Attempt.Ensures mayLoop (randomFlip x : Attempt σ Move) (Flips x) := by
  have hempty : x.isEmpty = false := by simpa using Nat.ne_of_gt h
  rw [randomFlip]
  simp only [hempty, Bool.false_eq_true, if_false]
  refine (Attempt.Ensures.lift (Draw.below_ensures h)).bind fun node hnode => ?_
  exact .pure ⟨node, hnode, rfl⟩

-- ---------------------------------------------------------------------------
-- Swaps
-- ---------------------------------------------------------------------------

/-- The move swaps two nodes with different labels. -/
def Swaps (x : Assignment) (move : Move) : Prop :=
  ∃ a b label, x[a]? = some label ∧ x[b]? = some (!label) ∧ move = .swap a b

theorem Swaps.trades {move : Move} (h : Swaps x move) : Trades x move := by
  obtain ⟨a, b, label, ha, hb, rfl⟩ := h
  exact .swap label ha hb

/-- Two nodes are swapped only if their labels differ. -/
theorem swapOf?_swaps {a b : Nat} (ha : a < x.size) (hb : b < x.size) :
    ∃ answer, swapOf? x a b = .ok answer ∧ ∀ move, answer = some move → Swaps x move := by
  rw [swapOf?, Assignment.label_of_lt ha, Assignment.label_of_lt hb]
  refine ⟨_, rfl, ?_⟩
  intro move hmove
  rw [Option.ite_none_right_eq_some, bne_iff_ne] at hmove
  obtain ⟨hne, hmove⟩ := hmove
  cases hmove
  refine ⟨a, b, x[a], Array.getElem?_eq_getElem ha, ?_, rfl⟩
  rw [Array.getElem?_eq_getElem hb, Bool.not_eq.mpr hne]

/-- With both labels, a swap is searched for. -/
theorem randomSwap_eq (h : x.IsMixed) :
    (randomSwap x : Attempt σ Move) = liftM (Draw.repeatUntil (swapTrial x) : Draw σ Move) := by
  have hboth := x.isMixed_iff.mp h
  rw [Assignment.isUniform_iff] at hboth
  unfold randomSwap
  rw [if_neg hboth]

/-- With both labels there is a swap, unless the search for a pair of nodes does not end. -/
theorem randomSwap_ensures (hloop : mayLoop) (h : x.IsMixed) :
    Attempt.Ensures mayLoop (randomSwap x : Attempt σ Move) (Swaps x) := by
  rw [randomSwap_eq h]
  refine .lift (Draw.repeatUntil_ensures hloop ?_)
  refine (Draw.below_ensures h.size_pos).bind fun a ha => ?_
  refine (Draw.below_ensures h.size_pos).bind fun b hb => ?_
  obtain ⟨answer, hanswer, hswaps⟩ := swapOf?_swaps ha hb
  exact .lift hanswer hswaps

/-- With one label only there is no swap. -/
theorem randomSwap_of_isUniform (h : x.IsUniform) (s : σ) :
    (randomSwap x).run.run s = .ok (.error (.noCandidates .toSwap), s) := by
  rw [Assignment.isUniform_iff] at h
  rw [randomSwap]
  simp only [h, if_true]
  rfl

-- ---------------------------------------------------------------------------
-- Removals
-- ---------------------------------------------------------------------------

variable {R : Type} [Weight R] {g : Graph R}

/-- The move deselects a redundant node. -/
def Removes (g : Graph R) (x : Assignment) (move : Move) : Prop :=
  ∃ node, x[node]? = some true ∧ g.isRedundant x node = .ok true ∧ move = .remove node

/-- A search among selected nodes brings none or a redundant one. -/
theorem sampleRedundant_ensures (hg : g.IsBuilt) (hx : x.size = g.numNodes)
    {candidates : Array Nat} (hpos : 0 < candidates.size)
    (hall : ∀ node ∈ candidates, x[node]? = some true) (budget : Nat) :
    Draw.Ensures mayLoop (sampleRedundant g x candidates budget : Draw σ (Option Move))
      fun answer => ∀ move, answer = some move → Removes g x move := by
  induction budget with
  | zero => exact .pure fun _ hmove => by cases hmove
  | succ budget ih =>
    refine (Draw.pick_ensures hpos).bind fun node hnode => ?_
    have hselected := hall node hnode
    have hlt : node < g.numNodes := by
      have := (Array.getElem?_eq_some_iff.mp hselected).1
      omega
    have htest := Graph.isRedundant_eq hg hx hlt
    refine (Draw.Ensures.lift htest rfl).bind fun redundant hredundant => ?_
    subst hredundant
    split
    · next hzero =>
      refine .pure ?_
      rintro move ⟨⟩
      exact ⟨node, hselected, by rw [htest, hzero], rfl⟩
    · exact ih

/-- While nodes are selected there is no refusal, and every move removes a redundant one. -/
theorem randomRemoval_ensures (hg : g.IsBuilt) (hx : x.size = g.numNodes)
    (h : ∃ node : Nat, x[node]? = some true) (budget : Nat) :
    Attempt.Ensures mayLoop (randomRemoval g x budget : Attempt σ (Option Move)) fun answer =>
      ∀ move, answer = some move → Removes g x move := by
  obtain ⟨node, hnode⟩ := h
  have hmem := List.mem_toArray.mpr (Assignment.mem_nodesLabelled.mpr hnode)
  have hpos := Array.size_pos_of_mem hmem
  have hempty : (x.nodesLabelled true).toArray.isEmpty = false := by
    simpa using Nat.ne_of_gt hpos
  rw [randomRemoval, Assignment.selected]
  simp only [hempty, Bool.false_eq_true, if_false]
  refine .lift (sampleRedundant_ensures hg hx hpos ?_ budget)
  intro other hother
  exact Assignment.mem_nodesLabelled.mp (List.mem_toArray.mp hother)

-- ---------------------------------------------------------------------------
-- Exchanges
-- ---------------------------------------------------------------------------

/-- The move deselects one node and selects one or two others. -/
inductive Exchanges (x : Assignment) : Move → Prop where
  | one {out into : Nat} (hout : x[out]? = some true) (hinto : x[into]? = some false) :
    Exchanges x (.exchange out into)
  | two {out first second : Nat} (hout : x[out]? = some true) (hfirst : x[first]? = some false)
    (hsecond : x[second]? = some false) (hne : first ≠ second) :
    Exchanges x (.exchangeTwo out first second)

theorem Exchanges.trades {move : Move} (h : Exchanges x move) : Trades x move := by
  cases h with
  | one hout hinto => exact .exchange hout hinto
  | two hout hfirst hsecond hne => exact .exchangeTwo hout hfirst hsecond hne

theorem exchangeTwoOf?_of_lt (out : Nat) {candidates : Array Nat} {a b : Nat}
    (ha : a < candidates.size) (hb : b < candidates.size) :
    exchangeTwoOf? out candidates a b
      = .ok (if a = b then none else some (.exchangeTwo out candidates[a] candidates[b])) := by
  unfold exchangeTwoOf?
  rw [fetch_of_lt ha, fetch_of_lt hb]
  split
  · rfl
  · rfl

/-- Two unselected nodes are moved in only if they differ. -/
theorem exchangeTwoOf?_exchanges {out a b : Nat} (hout : x[out]? = some true)
    (ha : a < x.unselected.toArray.size) (hb : b < x.unselected.toArray.size) :
    ∃ answer, exchangeTwoOf? out x.unselected.toArray a b = .ok answer ∧
      ∀ move, answer = some move → Exchanges x move := by
  refine ⟨_, exchangeTwoOf?_of_lt out ha hb, ?_⟩
  intro move hmove
  rw [Option.ite_none_left_eq_some] at hmove
  obtain ⟨hdiffer, hmove⟩ := hmove
  cases hmove
  have hnodup := x.nodup_nodesLabelled false
  have hfirst := List.getElem_mem (l := x.unselected) (by simpa using ha)
  have hsecond := List.getElem_mem (l := x.unselected) (by simpa using hb)
  refine .two hout (Assignment.mem_nodesLabelled.mp hfirst)
    (Assignment.mem_nodesLabelled.mp hsecond) ?_
  intro heq
  exact hdiffer (hnodup.getElem_inj_iff.mp heq)

/-- With both labels there is an exchange, unless the search for two nodes does not end. A single
unselected node is moved in alone. -/
theorem randomExchange_ensures (hloop : mayLoop) (h : x.IsMixed) :
    Attempt.Ensures mayLoop (randomExchange x : Attempt σ Move) (Exchanges x) := by
  have hpos : ∀ label, 0 < (x.nodesLabelled label).toArray.size := by
    intro label
    obtain ⟨node, hnode⟩ := h.exists_mem_nodesLabelled label
    exact Array.size_pos_of_mem (List.mem_toArray.mpr hnode)
  have hsome : ∀ label, (x.nodesLabelled label).toArray.isEmpty = false := by
    intro label
    simpa using Nat.ne_of_gt (hpos label)
  rw [randomExchange, Assignment.selected, Assignment.unselected]
  simp only [hsome, Bool.false_eq_true, if_false]
  refine (Attempt.Ensures.lift (Draw.pick_ensures (hpos true))).bind fun out hmem => ?_
  have hout := Assignment.mem_nodesLabelled.mp (List.mem_toArray.mp hmem)
  refine (Attempt.Ensures.lift Draw.unit_ensures).bind fun r _ => ?_
  split
  · refine (Attempt.Ensures.lift (Draw.pick_ensures (hpos false))).bind fun into hinto => ?_
    exact .pure (.one hout (Assignment.mem_nodesLabelled.mp (List.mem_toArray.mp hinto)))
  · refine .lift (Draw.repeatUntil_ensures hloop ?_)
    refine (Draw.below_ensures (hpos false)).bind fun a ha => ?_
    refine (Draw.below_ensures (hpos false)).bind fun b hb => ?_
    obtain ⟨answer, hanswer, hexchanges⟩ := exchangeTwoOf?_exchanges hout ha hb
    exact .lift hanswer hexchanges

/-- With one label only there is no exchange: nothing to move out, or nothing to move in. -/
theorem randomExchange_of_isUniform (h : x.IsUniform) :
    ∃ missing, ∀ s : σ, (randomExchange x).run.run s = .ok (.error (.noCandidates missing), s) := by
  obtain ⟨label, hall⟩ := h
  have hnone : x.nodesLabelled (!label) = [] := by
    rw [List.eq_nil_iff_forall_not_mem]
    intro node hnode
    have hheld := hall _ (Array.mem_of_getElem? (Assignment.mem_nodesLabelled.mp hnode))
    cases label <;> cases hheld
  rw [randomExchange, Assignment.selected, Assignment.unselected]
  cases label with
  | false =>
    rw [Bool.not_false] at hnone
    rw [hnone]
    exact ⟨.toMoveOut, fun _ => rfl⟩
  | true =>
    rw [Bool.not_true] at hnone
    rw [hnone]
    by_cases hselected : (x.nodesLabelled true).toArray.isEmpty = true
    · rw [if_pos hselected]
      exact ⟨.toMoveOut, fun _ => rfl⟩
    · rw [if_neg hselected]
      exact ⟨.toMoveIn, fun _ => rfl⟩

end CutCover.Move
