import CutCover.Proofs.Moves
import CutCover.Random.Tape
import Mathlib.Data.List.Perm.Subperm

/-!
# CutCover — swaps and exchanges change what they name

A swap names two nodes with different labels, an exchange one selected node and one or two that are
not. Made from the assignment they were proposed for, both toggle the nodes they name and leave all
others alone. What is proposed depends on words drawn, but whether anything is depends on the labels
alone: a swap is refused if there is one label only, an exchange if there is nothing to move out, or
else nothing to move in, and a refusal draws nothing.

* `Assignment.Toggles`           — the nodes whose labels differ.
* `Move.nodes`, `Move.Trades.toggles` — what a move names, and what it changes.
* `Move.randomExchange_of_selected`, `Move.randomExchange_of_unselected` — refusals of exchanges.
* `Move.SearchesTwo`, `Move.exists_exchange_of_not_searchesTwo` — when an exchange has a loop.
* `Move.proposedTrades_exact`    — both generators, from every source.
-/

namespace CutCover

-- ---------------------------------------------------------------------------
-- Toggled nodes
-- ---------------------------------------------------------------------------

namespace Assignment

variable {x y : Assignment} {nodes : List Nat} {node : Nat} {label : Bool}

/-- In `y` the nodes named have the other label than in `x`, and all others the same. -/
structure Toggles (x : Assignment) (nodes : List Nat) (y : Assignment) : Prop where
  size : y.size = x.size
  toggles : ∀ node ∈ nodes, ∃ label, x[node]? = some label ∧ y[node]? = some (!label)
  keeps : ∀ node, node ∉ nodes → y[node]? = x[node]?

theorem toggles_nil (x : Assignment) : x.Toggles [] x :=
  ⟨rfl, fun _ hnode => absurd hnode List.not_mem_nil, fun _ _ => rfl⟩

/-- One more node can be given the other label. -/
theorem Toggles.setLabel (h : x.Toggles nodes y) (hlabel : x[node]? = some label)
    (hnew : node ∉ nodes) :
    ∃ z, y.setLabel node (!label) = .ok z ∧ x.Toggles (nodes ++ [node]) z := by
  obtain ⟨hnode, -⟩ := Array.getElem?_eq_some_iff.mp hlabel
  have hlt : node < y.size := by
    rw [h.size]
    exact hnode
  refine ⟨_, setLabel_of_lt _ hlt, (Array.size_set hlt).trans h.size, ?_, ?_⟩
  · intro other hother
    rcases List.mem_append.mp hother with hother | hother
    · have hne : node ≠ other := fun heq => hnew (heq ▸ hother)
      rw [Array.getElem?_set_ne hlt hne]
      exact h.toggles other hother
    · rw [List.mem_singleton.mp hother]
      exact ⟨label, hlabel, Array.getElem?_set_self hlt⟩
  · intro other hother
    rw [List.mem_append, List.mem_singleton, not_or] at hother
    rw [Array.getElem?_set_ne hlt (Ne.symm hother.2)]
    exact h.keeps other hother.1

end Assignment

namespace Move

open Assignment (setLabel_of_lt exchange_of_lt ne_of_label_ne toggles_nil)

variable {x : Assignment} {move : Move}

-- ---------------------------------------------------------------------------
-- Moves
-- ---------------------------------------------------------------------------

/-- The nodes that a move names. -/
def nodes : Move → List Nat
  | flip node => [node]
  | swap a b => [a, b]
  | remove node => [node]
  | exchange out into => [out, into]
  | exchangeTwo out first second => [out, first, second]

/-- The move can be made, names no node twice, and changes the labels of those it names only. -/
def ChangesExactly (x : Assignment) (move : Move) : Prop :=
  move.nodes.Nodup ∧ ∃ y, move.apply x = .ok y ∧ x.Toggles move.nodes y

/-- A trade toggles the nodes it names. -/
theorem Trades.changesExactly (h : Trades x move) : ChangesExactly x move := by
  cases h with
  | @swap a b label ha hb =>
    have hne := ne_of_label_ne ha hb
    obtain ⟨hlta, hlabela⟩ := Array.getElem?_eq_some_iff.mp ha
    obtain ⟨hltb, hlabelb⟩ := Array.getElem?_eq_some_iff.mp hb
    have hnodup : [a, b].Nodup := by simpa using hne
    obtain ⟨y, hy, hfirst⟩ := (toggles_nil x).setLabel ha List.not_mem_nil
    obtain ⟨z, hz, hboth⟩ := hfirst.setLabel hb (by simpa using hne.symm)
    refine ⟨hnodup, z, ?_, hboth⟩
    rw [Bool.not_not] at hz
    rw [apply, Assignment.exchange, Assignment.label_of_lt hlta, Assignment.label_of_lt hltb,
      hlabela, hlabelb]
    show (x.setLabel a (!label) >>= fun y => y.setLabel b label) = _
    rw [hy]
    exact hz
  | @exchange out into hout hinto =>
    have hne := ne_of_label_ne hout hinto
    have hnodup : [out, into].Nodup := by simpa using hne
    obtain ⟨y, hy, hfirst⟩ := (toggles_nil x).setLabel hout List.not_mem_nil
    obtain ⟨z, hz, hboth⟩ := hfirst.setLabel hinto (by simpa using hne.symm)
    refine ⟨hnodup, z, ?_, hboth⟩
    rw [apply, show x.setLabel out false = .ok y from hy]
    exact hz
  | @exchangeTwo out first second hout hfirst hsecond hne =>
    have hnefirst := ne_of_label_ne hout hfirst
    have hnesecond := ne_of_label_ne hout hsecond
    have hnodup : [out, first, second].Nodup := by simp [hne, hnefirst, hnesecond]
    obtain ⟨y, hy, hone⟩ := (toggles_nil x).setLabel hout List.not_mem_nil
    obtain ⟨z, hz, htwo⟩ := hone.setLabel hfirst (by simpa using hnefirst.symm)
    obtain ⟨w, hw, hthree⟩ := htwo.setLabel hsecond (by simp [hne.symm, hnesecond.symm])
    refine ⟨hnodup, w, ?_, hthree⟩
    rw [apply, show x.setLabel out false = .ok y from hy]
    show (y.setLabel first true >>= fun z => z.setLabel second true) = _
    rw [show y.setLabel first true = .ok z from hz]
    exact hw

-- ---------------------------------------------------------------------------
-- Proposals
-- ---------------------------------------------------------------------------

/-- Two nodes are moved in only if two are unselected. -/
theorem Exchanges.single_or_two_le (h : Exchanges x move) :
    (∃ out into, move = .exchange out into) ∨ 2 ≤ x.unselected.length := by
  cases h with
  | @one out into _ _ => exact .inl ⟨out, into, rfl⟩
  | @two out first second _ hfirst hsecond hne =>
    have hsubset : [first, second] ⊆ x.unselected := by
      simp only [List.cons_subset, List.nil_subset, and_true]
      exact ⟨Assignment.mem_nodesLabelled.mpr hfirst, Assignment.mem_nodesLabelled.mpr hsecond⟩
    have hnodup : [first, second].Nodup := by simpa using hne
    exact .inr (List.subperm_of_subset hnodup hsubset).length_le

/-- With nodes to move out and nodes to move in, both labels occur. -/
theorem isMixed_of_ne_nil (hselected : x.selected ≠ []) (hunselected : x.unselected ≠ []) :
    x.IsMixed := by
  intro label
  have hne : x.nodesLabelled label ≠ [] := by
    cases label with
    | true => exact hselected
    | false => exact hunselected
  obtain ⟨node, hnode⟩ := List.exists_mem_of_ne_nil _ hne
  exact ⟨node, Assignment.mem_nodesLabelled.mp hnode⟩

variable {σ : Type} [WordSource σ]

/-- Without a selected node there is nothing to move out. -/
theorem randomExchange_of_selected (h : x.selected = []) (s : σ) :
    (randomExchange x).run.run s = .ok (.error (.noCandidates .toMoveOut), s) := by
  rw [randomExchange, h]
  rfl

/-- Without an unselected node there is nothing to move in. -/
theorem randomExchange_of_unselected (hselected : x.selected ≠ []) (h : x.unselected = [])
    (s : σ) : (randomExchange x).run.run s = .ok (.error (.noCandidates .toMoveIn), s) := by
  have hsome : ¬ x.selected.toArray.isEmpty = true := by simpa using hselected
  rw [randomExchange, h, if_neg hsome]
  rfl

omit [WordSource σ] in
/-- What proposes a move, or does not end, is not refused. -/
theorem not_refused {m : Attempt σ Move} {s : σ} {post : Move → Prop}
    (h : m.run.run s = .error .endlessSampling ∨
      ∃ move s', m.run.run s = .ok (.ok move, s') ∧ post move) :
    ¬ ∃ refusal s', m.run.run s = .ok (.error refusal, s') := by
  rintro ⟨refusal, s', hrefused⟩
  rw [hrefused] at h
  rcases h with hloop | ⟨move, s₁, hrun, -⟩
  · cases hloop
  · cases hrun

/-- With both labels, what is proposed is a swap. -/
theorem randomSwap_of_isMixed (h : x.IsMixed) (s : σ) :
    (randomSwap x).run.run s = .error .endlessSampling ∨
    ∃ move s', (randomSwap x).run.run s = .ok (.ok move, s') ∧
      Swaps x move ∧ ChangesExactly x move := by
  rcases randomSwap_ensures trivial h s with ⟨_, s', hrun, move, rfl, hswaps⟩ | ⟨-, hloop⟩
  · exact .inr ⟨move, s', hrun, hswaps, hswaps.trades.changesExactly⟩
  · exact .inl hloop

/-- An exchange draws the node to move out and a number, and for this number goes on to search for
two nodes to move in, from the source that is left. -/
def SearchesTwo (x : Assignment) (s : σ) (out : Nat) (s' : σ) : Prop :=
  ∃ s₁ r, (Draw.pick x.selected.toArray).run s = .ok (out, s₁) ∧ Draw.unit.run s₁ = .ok (r, s') ∧
    ¬(r < singleExchangeChance ∨ x.unselected.toArray.size < 2)

/-- An exchange goes on from the node to move out and the number that are drawn. -/
theorem randomExchange_of_draws (hselected : x.selected ≠ []) (hunselected : x.unselected ≠ [])
    {s s₁ s₂ : σ} {out : Nat} {r : Float} (hpick : (Draw.pick x.selected.toArray).run s = .ok (out, s₁))
    (hunit : Draw.unit.run s₁ = .ok (r, s₂)) :
    (randomExchange x).run.run s
      = (if r < singleExchangeChance ∨ x.unselected.toArray.size < 2 then do
          let into ← (Draw.pick x.unselected.toArray : Draw σ Nat)
          return .exchange out into
        else (Draw.repeatUntil (exchangeTwoTrial out x.unselected.toArray) : Draw σ Move) :
          Attempt σ Move).run.run s₂ := by
  unfold randomExchange
  rw [if_neg (by simpa using hselected), if_neg (by simpa using hunselected)]
  rw [Attempt.lift_bind_of_run hpick, Attempt.lift_bind_of_run hunit]

theorem randomExchange_of_searchesTwo (hselected : x.selected ≠ [])
    (hunselected : x.unselected ≠ []) {s s' : σ} {out : Nat} (h : SearchesTwo x s out s') :
    (randomExchange x).run.run s
      = (liftM (Draw.repeatUntil (exchangeTwoTrial out x.unselected.toArray) : Draw σ Move) :
          Attempt σ Move).run.run s' := by
  obtain ⟨s₁, r, hpick, hunit, hbranch⟩ := h
  rw [randomExchange_of_draws hselected hunselected hpick hunit, if_neg hbranch]

/-- Where it does not search for two nodes, it moves in a single one for the node that is drawn. -/
theorem exists_exchange_of_not_searchesTwo (hselected : x.selected ≠ [])
    (hunselected : x.unselected ≠ []) {s : σ} (h : ¬ ∃ out s', SearchesTwo x s out s') :
    ∃ out s₁ into s', (Draw.pick x.selected.toArray).run s = .ok (out, s₁) ∧
      (randomExchange x).run.run s = .ok (.ok (.exchange out into), s') := by
  have hout : 0 < x.selected.toArray.size := by
    simpa [List.length_pos_iff] using hselected
  have hinto : 0 < x.unselected.toArray.size := by
    simpa [List.length_pos_iff] using hunselected
  obtain ⟨out, s₁, hpick, -⟩ := (Draw.pick_ensures hout).answers s
  obtain ⟨r, s₂, hunit, -⟩ := Draw.unit_ensures.answers s₁
  have hbranch : r < singleExchangeChance ∨ x.unselected.toArray.size < 2 := by
    by_contra hnot
    exact h ⟨out, s₂, s₁, r, hpick, hunit, hnot⟩
  obtain ⟨into, s', hrun, -⟩ := (Draw.pick_ensures hinto).answers s₂
  refine ⟨out, s₁, into, s', hpick, ?_⟩
  rw [randomExchange_of_draws hselected hunselected hpick hunit, if_pos hbranch,
    Attempt.lift_bind_of_run hrun]
  rfl

/-- With both labels, what is proposed is an exchange. Only a search for two nodes may not end. -/
theorem randomExchange_of_isMixed (hselected : x.selected ≠ []) (hunselected : x.unselected ≠ [])
    (s : σ) :
    ((randomExchange x).run.run s = .error .endlessSampling ∧ ∃ out s', SearchesTwo x s out s') ∨
    ∃ move s', (randomExchange x).run.run s = .ok (.ok move, s') ∧
      Exchanges x move ∧ ChangesExactly x move ∧
      ((∃ out into, move = .exchange out into) ∨ 2 ≤ x.unselected.length) := by
  have hmixed := isMixed_of_ne_nil hselected hunselected
  rcases randomExchange_ensures trivial hmixed s with ⟨_, s', hrun, move, rfl, hexchanges⟩ |
    ⟨-, hloop⟩
  · exact .inr ⟨move, s', hrun, hexchanges, hexchanges.trades.changesExactly,
      hexchanges.single_or_two_le⟩
  · refine .inl ⟨hloop, ?_⟩
    by_contra hnot
    obtain ⟨out, s₁, into, s', -, hrun⟩ :=
      exists_exchange_of_not_searchesTwo hselected hunselected hnot
    rw [hrun] at hloop
    cases hloop

/-- Both generators either are refused for the labels alone, before the first draw, or propose a
trade that changes exactly the labels of the nodes it names, unless their rejection loop does not
end. A swap is refused just if all labels are the same, and is one of two nodes with different
labels. An exchange is refused just if no node is selected or none is unselected; it moves out a
selected node and moves in one that is not, or two if there are two. It has a loop only where it
searches for these two. -/
theorem proposedTrades_exact (x : Assignment) {σ : Type} [WordSource σ] (s : σ) :
    (((∃ refusal s', (randomSwap x).run.run s = .ok (.error refusal, s')) ↔ x.IsUniform) ∧
      (x.IsUniform → (randomSwap x).run.run s = .ok (.error (.noCandidates .toSwap), s)) ∧
      (¬ x.IsUniform → (randomSwap x).run.run s = .error .endlessSampling ∨
        ∃ move s', (randomSwap x).run.run s = .ok (.ok move, s') ∧
          Swaps x move ∧ ChangesExactly x move)) ∧
    ((∃ refusal s', (randomExchange x).run.run s = .ok (.error refusal, s')) ↔
        x.selected = [] ∨ x.unselected = []) ∧
      (x.selected = [] →
        (randomExchange x).run.run s = .ok (.error (.noCandidates .toMoveOut), s)) ∧
      (x.selected ≠ [] → x.unselected = [] →
        (randomExchange x).run.run s = .ok (.error (.noCandidates .toMoveIn), s)) ∧
      (x.selected ≠ [] → x.unselected ≠ [] →
        ((randomExchange x).run.run s = .error .endlessSampling ∧
          ∃ out s', SearchesTwo x s out s') ∨
        ∃ move s', (randomExchange x).run.run s = .ok (.ok move, s') ∧
          Exchanges x move ∧ ChangesExactly x move ∧
          ((∃ out into, move = .exchange out into) ∨ 2 ≤ x.unselected.length)) := by
  refine ⟨⟨⟨?_, ?_⟩, ?_, ?_⟩, ⟨?_, ?_⟩, ?_, ?_, ?_⟩
  · intro hrefused
    by_contra hnot
    exact not_refused (randomSwap_of_isMixed (x.isMixed_iff.mpr hnot) s) hrefused
  · exact fun huniform => ⟨_, s, randomSwap_of_isUniform huniform s⟩
  · exact fun huniform => randomSwap_of_isUniform huniform s
  · exact fun hnot => randomSwap_of_isMixed (x.isMixed_iff.mpr hnot) s
  · intro hrefused
    by_contra hnot
    obtain ⟨hselected, hunselected⟩ := not_or.mp hnot
    exact not_refused ((randomExchange_of_isMixed hselected hunselected s).imp_left And.left)
      hrefused
  · intro hnone
    by_cases hselected : x.selected = []
    · exact ⟨_, s, randomExchange_of_selected hselected s⟩
    · exact ⟨_, s, randomExchange_of_unselected hselected (hnone.resolve_left hselected) s⟩
  · exact fun hnone => randomExchange_of_selected hnone s
  · exact fun hselected hnone => randomExchange_of_unselected hselected hnone s
  · exact fun hselected hunselected => randomExchange_of_isMixed hselected hunselected s

/-- One selected node among three. -/
def oneOfThree : Assignment :=
  #[true, false, false]

/-- Words that find nodes `1` and `2`, with one label, before nodes `0` and `1`. -/
def swapWords : Tape :=
  .start [0x6000000000000000, 0xc000000000000000, 0, 0x6000000000000000] 7

/-- Words with which an exchange of two nodes for node `0` finds the first of them twice before it
finds both. -/
def exchangeWords : Tape :=
  .start [0, 0x8000000000000000, 0, 0, 0, 0x8000000000000000] 7

/-- From these words both generators end, in their second round, with a swap and with an exchange
that moves in two nodes. -/
theorem proposedTrades_exact_oneOfThree :
    ((randomSwap oneOfThree).run.run swapWords = .ok (.ok (.swap 0 1), ⟨[], .ofSeed 7, 4⟩) ∧
      Swaps oneOfThree (.swap 0 1) ∧ ChangesExactly oneOfThree (.swap 0 1)) ∧
    (randomExchange oneOfThree).run.run exchangeWords
        = .ok (.ok (.exchangeTwo 0 1 2), ⟨[], .ofSeed 7, 6⟩) ∧
      Exchanges oneOfThree (.exchangeTwo 0 1 2) ∧ ChangesExactly oneOfThree (.exchangeTwo 0 1 2) := by
  have hswap : (randomSwap oneOfThree).run.run swapWords
      = .ok (.ok (.swap 0 1), ⟨[], .ofSeed 7, 4⟩) := by
    decide +kernel
  have hexchange : (randomExchange oneOfThree).run.run exchangeWords
      = .ok (.ok (.exchangeTwo 0 1 2), ⟨[], .ofSeed 7, 6⟩) := by
    decide +kernel
  have hnot : ¬ oneOfThree.IsUniform := by
    rw [Assignment.isUniform_iff]
    decide
  refine ⟨⟨hswap, ?_⟩, hexchange, ?_⟩
  · rcases (proposedTrades_exact oneOfThree swapWords).1.2.2 hnot with hloop | ⟨move, s', hrun, h⟩
    · rw [hswap] at hloop
      cases hloop
    · rw [hswap] at hrun
      cases hrun
      exact h
  · rcases (proposedTrades_exact oneOfThree exchangeWords).2.2.2.2 (by decide) (by decide) with
      ⟨hloop, -⟩ | ⟨move, s', hrun, hexchanges, hchanges, -⟩
    · rw [hexchange] at hloop
      cases hloop
    · rw [hexchange] at hrun
      cases hrun
      exact ⟨hexchanges, hchanges⟩

end Move

end CutCover
