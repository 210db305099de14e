import CutCover.Proofs.Annealing.Run
import CutCover.Proofs.Annealing.Sustained
import CutCover.Random.Tape

/-!
# CutCover — what annealing does to the number of selected nodes

Graph partitioning and independent set anneal by trading labels: a node of one label takes on the
other, and nodes of the other label take on the first. A swap trades one for one, so that the sides
keep their sizes; an exchange trades one selected node for one or two others, so that the selected
nodes never get fewer. This is true of every step from every state, since a generator proposes
nothing but trades, and steps that make no move leave the labels alone.

* `Assignment.Trade`              — one node deselected, others selected, nothing else changed.
* `Trade.countSelected_eq`        — what a trade does to the number of selected nodes.
* `Move.Swaps.apply_inv`, `Move.Exchanges.apply_inv` — swaps and exchanges are trades.
* `State.step_cases`              — a step makes the move proposed, or none.
* `Problem.TradesTo`, `Problem.Balances` — what a step and what many steps do to the labels.
* `Problem.annealing_trades_labels` — every state reached, every step and every result.
-/

namespace CutCover

-- ---------------------------------------------------------------------------
-- Trades
-- ---------------------------------------------------------------------------

namespace Assignment

variable {x y : Assignment} {out : Nat} {into : List Nat}

/-- In `y` the node `out`, selected in `x`, is deselected, the nodes `into`, which are not selected
in `x`, are, and every other node has the label it has in `x`. -/
structure Trade (x : Assignment) (out : Nat) (into : List Nat) (y : Assignment) : Prop where
  size : y.size = x.size
  selected : x[out]? = some true
  unselected : ∀ node ∈ into, x[node]? = some false
  nodup : into.Nodup
  deselects : y[out]? = some false
  selects : ∀ node ∈ into, y[node]? = some true
  keeps : ∀ node, node ≠ out → node ∉ into → y[node]? = x[node]?

/-- A trade changes the number of selected nodes by those it selects, less one. -/
theorem Trade.countSelected_eq (h : x.Trade out into y) :
    y.countSelected + 1 = x.countSelected + into.length := by
  -- the nodes moved in are taken back one by one
  induction into generalizing y with
  | nil =>
    obtain ⟨hlt, -⟩ := Array.getElem?_eq_some_iff.mp h.selected
    have hy : y = x.set out false := by
      refine Array.ext_getElem? fun node => ?_
      by_cases hnode : node = out
      · rw [hnode, h.deselects, Array.getElem?_set_self]
      · rw [h.keeps node hnode List.not_mem_nil, Array.getElem?_set_ne hlt (Ne.symm hnode)]
    rw [hy, countSelected_deselect h.selected hlt, List.length_nil, Nat.add_zero]
  | cons node rest ih =>
    obtain ⟨hnode, hrest⟩ := List.nodup_cons.mp h.nodup
    have hselected := h.selects node List.mem_cons_self
    obtain ⟨hlt, -⟩ := Array.getElem?_eq_some_iff.mp hselected
    have hunselected := h.unselected node List.mem_cons_self
    have hback : x.Trade out rest (y.set node false) := by
      refine ⟨by simpa using h.size, h.selected, fun other hother => ?_, hrest, ?_, ?_, ?_⟩
      · exact h.unselected other (List.mem_cons_of_mem _ hother)
      · rw [Array.getElem?_set_ne hlt (ne_of_label_ne h.selected hunselected).symm, h.deselects]
      · intro other hother
        have hne : node ≠ other := fun heq => hnode (heq ▸ hother)
        rw [Array.getElem?_set_ne hlt hne, h.selects other (List.mem_cons_of_mem _ hother)]
      · intro other hout hother
        by_cases hsame : node = other
        · subst hsame
          rw [Array.getElem?_set_self, hunselected]
        · rw [Array.getElem?_set_ne hlt hsame]
          refine h.keeps other hout fun hmem => ?_
          rcases List.mem_cons.mp hmem with heq | hmem
          · exact hsame heq.symm
          · exact hother hmem
    have hcount := ih hback
    have hone := countSelected_deselect hselected hlt
    rw [List.length_cons]
    omega

/-- One label for one keeps both sides at their sizes. -/
theorem Trade.sideSizes_eq {node : Nat} (h : x.Trade out [node] y) : y.sideSizes = x.sideSizes := by
  have hcount : y.countSelected = x.countSelected := Nat.succ.inj h.countSelected_eq
  rw [sideSizes, sideSizes, hcount, h.size]

/-- A trade that selects a node leaves both labels. -/
theorem Trade.isMixed {node : Nat} (h : x.Trade out into y) (hnode : node ∈ into) : y.IsMixed := by
  rintro (_ | _)
  · exact ⟨out, h.deselects⟩
  · exact ⟨node, h.selects node hnode⟩

-- ---------------------------------------------------------------------------
-- Making a trade
-- ---------------------------------------------------------------------------

theorem trade_deselect (h : x[out]? = some true) (hlt : out < x.size) :
    x.Trade out [] (x.set out false hlt) where
  size := Array.size_set hlt
  selected := h
  unselected _ hnode := absurd hnode List.not_mem_nil
  nodup := List.nodup_nil
  deselects := Array.getElem?_set_self hlt
  selects _ hnode := absurd hnode List.not_mem_nil
  keeps _ hnode _ := Array.getElem?_set_ne hlt hnode.symm

/-- A trade may go on with one more node. -/
theorem Trade.select {node : Nat} (h : x.Trade out into y) (hnode : x[node]? = some false)
    (hnew : node ∉ into) (hlt : node < y.size) :
    x.Trade out (node :: into) (y.set node true hlt) where
  size := (Array.size_set hlt).trans h.size
  selected := h.selected
  unselected := List.forall_mem_cons.mpr ⟨hnode, h.unselected⟩
  nodup := List.nodup_cons.mpr ⟨hnew, h.nodup⟩
  deselects := by
    rw [Array.getElem?_set_ne hlt (ne_of_label_ne h.selected hnode).symm, h.deselects]
  selects := by
    refine List.forall_mem_cons.mpr ⟨Array.getElem?_set_self hlt, fun other hother => ?_⟩
    have hne : node ≠ other := fun heq => hnew (heq ▸ hother)
    rw [Array.getElem?_set_ne hlt hne, h.selects other hother]
  keeps other hout hother := by
    obtain ⟨hne, hother⟩ := List.ne_and_not_mem_of_not_mem_cons hother
    rw [Array.getElem?_set_ne hlt hne.symm, h.keeps other hout hother]

end Assignment

-- ---------------------------------------------------------------------------
-- Moves
-- ---------------------------------------------------------------------------

namespace Move

open Assignment (setLabel_of_lt exchange_of_lt ne_of_label_ne trade_deselect)

variable {x y : Assignment} {move : Move}

/-- A swap trades the one of its nodes that is selected for the other. -/
theorem Swaps.apply_inv (h : Swaps x move) (happly : move.apply x = .ok y) :
    ∃ out into, x.Trade out [into] y := by
  obtain ⟨a, b, label, ha, hb, rfl⟩ := h
  have hne := ne_of_label_ne ha hb
  obtain ⟨hlta, hlabela⟩ := Array.getElem?_eq_some_iff.mp ha
  obtain ⟨hltb, hlabelb⟩ := Array.getElem?_eq_some_iff.mp hb
  rw [apply, exchange_of_lt hlta hltb, hlabela, hlabelb] at happly
  cases happly
  cases label with
  | true => exact ⟨a, b, (trade_deselect ha hlta).select hb List.not_mem_nil _⟩
  | false =>
    rw [Array.set_comm _ _ hne]
    exact ⟨b, a, (trade_deselect hb hltb).select ha List.not_mem_nil _⟩

/-- An exchange trades one node for one or two others. -/
theorem Exchanges.apply_inv (h : Exchanges x move) (happly : move.apply x = .ok y) :
    ∃ out into, x.Trade out into y ∧ (into.length = 1 ∨ into.length = 2) := by
  cases h with
  | @one out into hout hinto =>
    obtain ⟨hltout, -⟩ := Array.getElem?_eq_some_iff.mp hout
    obtain ⟨hltinto, -⟩ := Array.getElem?_eq_some_iff.mp hinto
    have hlt : into < (x.set out false).size := by simpa using hltinto
    rw [apply, setLabel_of_lt _ hltout] at happly
    obtain ⟨_, ⟨⟩, happly⟩ := Checked.bind_inv happly
    rw [setLabel_of_lt _ hlt] at happly
    cases happly
    exact ⟨out, [into], (trade_deselect hout hltout).select hinto List.not_mem_nil hlt, .inl rfl⟩
  | @two out first second hout hfirst hsecond hne =>
    obtain ⟨hltout, -⟩ := Array.getElem?_eq_some_iff.mp hout
    obtain ⟨hltfirst, -⟩ := Array.getElem?_eq_some_iff.mp hfirst
    obtain ⟨hltsecond, -⟩ := Array.getElem?_eq_some_iff.mp hsecond
    have hlt : first < (x.set out false).size := by simpa using hltfirst
    have hlt' : second < ((x.set out false).set first true).size := by simpa using hltsecond
    rw [apply, setLabel_of_lt _ hltout] at happly
    obtain ⟨_, ⟨⟩, happly⟩ := Checked.bind_inv happly
    rw [setLabel_of_lt _ hlt] at happly
    obtain ⟨_, ⟨⟩, happly⟩ := Checked.bind_inv happly
    rw [setLabel_of_lt _ hlt'] at happly
    cases happly
    have hone := (trade_deselect hout hltout).select hfirst List.not_mem_nil hlt
    have hnew : second ∉ [first] := fun hmem => hne (List.mem_singleton.mp hmem).symm
    exact ⟨out, [second, first], hone.select hsecond hnew hlt', .inr rfl⟩

-- ---------------------------------------------------------------------------
-- Proposals
-- ---------------------------------------------------------------------------

variable {σ : Type} [WordSource σ] {source source' : σ}

/-- Whatever the assignment, a swap that is proposed is one of nodes with different labels. -/
theorem randomSwap_inv (h : (randomSwap x).run.run source = .ok (.ok move, source')) :
    Swaps x move := by
  by_cases hmixed : x.IsMixed
  · obtain ⟨_, ⟨⟩, hswaps⟩ := (randomSwap_ensures trivial hmixed).of_run h
    exact hswaps
  · rw [Assignment.isMixed_iff, not_not] at hmixed
    rw [randomSwap_of_isUniform hmixed] at h
    cases h

theorem randomExchange_inv (h : (randomExchange x).run.run source = .ok (.ok move, source')) :
    Exchanges x move := by
  by_cases hmixed : x.IsMixed
  · obtain ⟨_, ⟨⟩, hexchanges⟩ := (randomExchange_ensures trivial hmixed).of_run h
    exact hexchanges
  · rw [Assignment.isMixed_iff, not_not] at hmixed
    obtain ⟨missing, hrefused⟩ := randomExchange_of_isUniform (σ := σ) hmixed
    rw [hrefused] at h
    cases h

end Move

-- ---------------------------------------------------------------------------
-- Steps
-- ---------------------------------------------------------------------------

namespace Annealing.State

variable {R : Type} [Weight R] {strategy : Strategy R} {g : Graph R} {s start after last : State R}
  {σ : Type} [WordSource σ] {source source' : σ} {answer : Except Refusal Verdict}

/-- A candidate is accepted, and is then what the move makes of the assignment, or dropped. -/
theorem current_consider {move : Move} {verdict : Verdict}
    (h : (s.consider strategy g move).run source = .ok ((verdict, after), source')) :
    (∃ improving, verdict = .accepted improving ∧ move.apply s.current = .ok after.current) ∨
    verdict = .rejected ∧ after.current = s.current := by
  obtain ⟨candidate, hcandidate, h⟩ := Draw.lift_bind_inv h
  obtain ⟨score, -, h⟩ := Draw.lift_bind_inv h
  obtain ⟨accepted, source₁, -, h⟩ := Draw.bind_inv h
  cases accepted with
  | true =>
    cases h
    exact .inl ⟨_, rfl, hcandidate⟩
  | false =>
    cases h
    exact .inr ⟨rfl, rfl⟩

/-- An accepted step makes the move that was proposed; every other one leaves the assignment. -/
theorem step_cases (h : (s.step strategy g).run source = .ok ((answer, after), source')) :
    (∃ improving move source₁, answer = .ok (.accepted improving) ∧
      (strategy.propose g s.current s.numSteps).run.run source = .ok (.ok (some move), source₁) ∧
      move.apply s.current = .ok after.current) ∨
    (∀ improving, answer ≠ .ok (.accepted improving)) ∧ after.current = s.current := by
  cases hfinished : s.finished with
  | true =>
    rw [step_of_finished hfinished] at h
    cases h
    exact .inr ⟨fun _ => by simp, rfl⟩
  | false =>
    rw [step] at h
    simp only [hfinished, Bool.false_eq_true, if_false] at h
    obtain ⟨proposal, source₁, hpropose, h⟩ := Draw.bind_inv h
    rcases proposal with refusal | _ | move
    · cases h
      exact .inr ⟨fun _ => by simp, rfl⟩
    · obtain ⟨accepted, source₂, -, h⟩ := Draw.bind_inv h
      cases h
      exact .inr ⟨fun _ => by simp, idle_current _ _⟩
    · obtain ⟨⟨verdict, after'⟩, source₂, hconsider, h⟩ := Draw.bind_inv h
      cases h
      rcases current_consider hconsider with ⟨improving, rfl, happly⟩ | ⟨rfl, hsame⟩
      · exact .inl ⟨improving, move, source₁, rfl, hpropose, happly⟩
      · exact .inr ⟨fun _ => by simp, hsame⟩

/-- The last state of a run is reached by its steps. -/
theorem advance_reaches {steps : Nat} (hreach : start.Reaches strategy g s)
    (h : (s.advance strategy g steps).run.run source = .ok (.ok last, source')) :
    start.Reaches strategy g last := by
  induction steps generalizing s source with
  | zero =>
    cases h
    exact hreach
  | succ steps ih =>
    obtain ⟨⟨answer, after⟩, source₁, hstep, h⟩ := Attempt.lift_bind_inv h
    obtain ⟨verdict, rfl, h⟩ := Attempt.ofExcept_bind_inv h
    exact ih (.step hreach hstep) h

end Annealing.State

-- ---------------------------------------------------------------------------
-- The two problems
-- ---------------------------------------------------------------------------

namespace Problem

open Annealing (State Verdict Config Result start_inv runOn runOn_of_start)

variable {R : Type} {problem : Problem R} {x y z : Assignment}

/-- The trades of the problem: one node for one other, or, for independent set, for two others. -/
def TradesTo (problem : Problem R) (x y : Assignment) : Prop :=
  ∃ out into, x.Trade out into y ∧
    (into.length = 1 ∨ problem.kind = .maximumIndependentSet ∧ into.length = 2)

/-- What no sequence of trades changes: the sizes of the sides for graph partitioning, and for
independent set that at least as many nodes are selected as at first. Labels are not used up. -/
structure Balances (problem : Problem R) (x y : Assignment) : Prop where
  size : y.size = x.size
  sides : problem.kind = .graphPartitioning → y.sideSizes = x.sideSizes
  selected : problem.kind = .maximumIndependentSet → x.countSelected ≤ y.countSelected
  mixed : x.IsMixed → y.IsMixed

theorem Balances.refl (problem : Problem R) (x : Assignment) : problem.Balances x x :=
  ⟨rfl, fun _ => rfl, fun _ => Nat.le_refl _, id⟩

theorem Balances.trans (h : problem.Balances x y) (h' : problem.Balances y z) :
    problem.Balances x z where
  size := h'.size.trans h.size
  sides hkind := (h'.sides hkind).trans (h.sides hkind)
  selected hkind := Nat.le_trans (h.selected hkind) (h'.selected hkind)
  mixed hmixed := h'.mixed (h.mixed hmixed)

theorem TradesTo.countSelected (h : problem.TradesTo x y) :
    x.countSelected ≤ y.countSelected ∧ y.countSelected ≤ x.countSelected + 1 := by
  obtain ⟨out, into, htrade, hlength⟩ := h
  have hcount := htrade.countSelected_eq
  omega

theorem TradesTo.balances (h : problem.TradesTo x y) : problem.Balances x y where
  size := by
    obtain ⟨out, into, htrade, -⟩ := h
    exact htrade.size
  sides hkind := by
    obtain ⟨out, into, htrade, hlength | ⟨hother, -⟩⟩ := h
    · obtain ⟨node, rfl⟩ := List.length_eq_one_iff.mp hlength
      exact htrade.sideSizes_eq
    · rw [hkind] at hother
      cases hother
  selected _ := h.countSelected.1
  mixed _ := by
    obtain ⟨out, into, htrade, hlength⟩ := h
    have hne : into ≠ [] := by
      rintro rfl
      simp at hlength
    obtain ⟨node, hnode⟩ := List.exists_mem_of_ne_nil into hne
    exact htrade.isMixed hnode

variable [Weight R] {g : Graph R} {score : R} {config : Config} {start s after : State R}
  {σ : Type} [WordSource σ] {source source' : σ}

omit [Weight R] in
/-- Whatever is proposed is a trade of the problem. -/
theorem tradesTo_of_propose (htrades : problem.TradesLabels) {budget : Nat} {move : Move}
    (hpropose : (problem.propose g x budget).run.run source = .ok (.ok (some move), source'))
    (happly : move.apply x = .ok y) : problem.TradesTo x y := by
  cases problem with
  | maxCut => rcases htrades with htrades | htrades <;> cases htrades
  | minimumVertexCover penalty => rcases htrades with htrades | htrades <;> cases htrades
  | graphPartitioning =>
    rw [propose, map_eq_pure_bind] at hpropose
    obtain ⟨swap, source₁, hswap, hpure⟩ := Attempt.bind_inv hpropose
    cases hpure
    obtain ⟨out, into, htrade⟩ := (Move.randomSwap_inv hswap).apply_inv happly
    exact ⟨out, [into], htrade, .inl rfl⟩
  | maximumIndependentSet penalty =>
    rw [propose, map_eq_pure_bind] at hpropose
    obtain ⟨exchange, source₁, hexchange, hpure⟩ := Attempt.bind_inv hpropose
    cases hpure
    obtain ⟨out, into, htrade, hlength⟩ := (Move.randomExchange_inv hexchange).apply_inv happly
    exact ⟨out, into, htrade, hlength.imp_right fun htwo => ⟨rfl, htwo⟩⟩

/-- A step that accepts makes a trade; any other leaves the labels alone. -/
theorem step_trades (htrades : problem.TradesLabels) {answer : Except Refusal Verdict}
    (h : (s.step problem.strategy g).run source = .ok ((answer, after), source')) :
    (∃ improving, answer = .ok (.accepted improving)) ∧ problem.TradesTo s.current after.current ∨
    (∀ improving, answer ≠ .ok (.accepted improving)) ∧ after.current = s.current := by
  rcases State.step_cases h with ⟨improving, move, source₁, hanswer, hpropose, happly⟩ | hother
  · exact .inl ⟨⟨improving, hanswer⟩, tradesTo_of_propose htrades hpropose happly⟩
  · exact .inr hother

/-- The labels stay in balance in every state that steps lead to. -/
theorem balances_of_reaches (htrades : problem.TradesLabels)
    (h : start.Reaches problem.strategy g s) : problem.Balances start.current s.current := by
  induction h with
  | start => exact .refl problem _
  | step _ hstep ih =>
    rcases step_trades htrades hstep with ⟨-, htrade⟩ | ⟨-, hsame⟩
    · exact ih.trans htrade.balances
    · rwa [hsame]

/-- Whatever the words, the labels stay in balance from the start on, in every state reached and in
every result. A step makes a trade just if it accepts, and so never deselects more nodes than it
selects, and selects at most one more than it deselects. -/
theorem annealing_trades_labels (htrades : problem.TradesLabels)
    (hstart : (State.start problem.strategy g x score config).run = .ok (.ok start)) :
    (∀ s, start.Reaches problem.strategy g s → problem.Balances x s.current ∧
      ∀ {σ : Type} [WordSource σ] {source source' : σ} {answer : Except Refusal Verdict}
        {after : State R}, (s.step problem.strategy g).run source = .ok ((answer, after), source') →
        ((∃ improving, answer = .ok (.accepted improving)) →
          problem.TradesTo s.current after.current) ∧
        ((∀ improving, answer ≠ .ok (.accepted improving)) → after.current = s.current) ∧
        s.current.countSelected ≤ after.current.countSelected ∧
        after.current.countSelected ≤ s.current.countSelected + 1) ∧
    ∀ {σ : Type} [WordSource σ] {source source' : σ} {result : Result R},
      (runOn problem.strategy g x score config).run.run source = .ok (.ok result, source') →
      problem.Balances x result.solution := by
  have hcurrent := (start_inv hstart).current
  refine ⟨fun s hreach => ⟨?_, ?_⟩, ?_⟩
  · have hbalances := balances_of_reaches htrades hreach
    rwa [hcurrent] at hbalances
  · intro σ _ source source' answer after hstep
    rcases step_trades htrades hstep with ⟨⟨improving, rfl⟩, htrade⟩ | ⟨hanswer, hsame⟩
    · exact ⟨fun _ => htrade, fun hnot => absurd rfl (hnot improving), htrade.countSelected⟩
    · refine ⟨fun haccepted => ?_, fun _ => hsame, ?_⟩
      · obtain ⟨improving, haccepted⟩ := haccepted
        exact absurd haccepted (hanswer improving)
      · rw [hsame]
        exact ⟨Nat.le_refl _, Nat.le_succ _⟩
  · intro σ _ source source' result hrun
    rw [runOn_of_start hstart] at hrun
    obtain ⟨last, source₁, hadvance, hreport⟩ := Attempt.bind_inv hrun
    cases hreport
    have hbalances := balances_of_reaches htrades (State.advance_reaches .start hadvance)
    rwa [hcurrent] at hbalances

/-- Words for two swaps of the nodes `0` and `1`. Each is found in the second round, since the first
one takes node `0` twice, and is then put to the test with one word more. -/
def swapTwice : Tape :=
  .start [0, 0, 0, 0x8000000000000000, 0, 0, 0, 0, 0x8000000000000000, 0] 7

/-- With one selected node on the single edge, the sides stay as large as each other in every state
of partitioning, a run with two swaps included. The first step of independent set makes an
exchange. -/
theorem annealing_trades_labels_singleEdge :
    (∃ start, (State.start (graphPartitioning : Problem Float).strategy (Graph.singleEdge Float)
        #[true, false] 0.0 {}).run = .ok (.ok start) ∧
      ∀ s, start.Reaches (graphPartitioning : Problem Float).strategy (Graph.singleEdge Float) s →
        s.current.sideSizes = (1, 1)) ∧
    (∃ result after, (runOn (graphPartitioning : Problem Float).strategy (Graph.singleEdge Float)
        #[true, false] 1.0 {}).run.run swapTwice = .ok (.ok result, after) ∧
      after.drawn = 10 ∧ result.solution.sideSizes = (1, 1)) ∧
    ∃ start after source', (State.start (maximumIndependentSet 2.0 : Problem Float).strategy
        (Graph.singleEdge Float) #[true, false] 0.0 {}).run = .ok (.ok start) ∧
      (start.step (maximumIndependentSet 2.0).strategy (Graph.singleEdge Float)).run
        (Tape.start [0, 0, 0] 0) = .ok ((.ok (.accepted true), after), source') ∧
      (maximumIndependentSet 2.0 : Problem Float).TradesTo start.current after.current := by
  refine ⟨?_, ?_, ?_⟩
  · obtain ⟨start, hstart⟩ : ∃ start, (State.start (graphPartitioning : Problem Float).strategy
        (Graph.singleEdge Float) #[true, false] 0.0 {}).run = .ok (.ok start) := ⟨_, rfl⟩
    refine ⟨start, hstart, fun s hreach => ?_⟩
    exact ((annealing_trades_labels (.inl rfl) hstart).1 s hreach).1.sides rfl
  · obtain ⟨start, hstart⟩ : ∃ start, (State.start (graphPartitioning : Problem Float).strategy
        (Graph.singleEdge Float) #[true, false] 1.0 {}).run = .ok (.ok start) := ⟨_, rfl⟩
    have hends : ((runOn (graphPartitioning : Problem Float).strategy (Graph.singleEdge Float)
        #[true, false] 1.0 {}).run.run swapTwice).toOption.map
          (fun answer => (answer.1.toOption.isSome, answer.2.drawn)) = some (true, 10) := by
      decide +kernel
    rcases hrun : (runOn (graphPartitioning : Problem Float).strategy (Graph.singleEdge Float)
        #[true, false] 1.0 {}).run.run swapTwice with _ | ⟨_ | result, after⟩ <;> rw [hrun] at hends
    · cases hends
    · cases hends
    · obtain ⟨-, hdrawn⟩ := Prod.mk.inj (Option.some_inj.mp hends)
      have hsides := ((annealing_trades_labels (.inl rfl) hstart).2 hrun).sides rfl
      exact ⟨result, after, rfl, hdrawn, hsides⟩
  · obtain ⟨start, after, source', hstart, hstep⟩ : ∃ start after source',
        (State.start (maximumIndependentSet 2.0 : Problem Float).strategy (Graph.singleEdge Float)
          #[true, false] 0.0 {}).run = .ok (.ok start) ∧
        (start.step (maximumIndependentSet 2.0).strategy (Graph.singleEdge Float)).run
          (Tape.start [0, 0, 0] 0) = .ok ((.ok (.accepted true), after), source') :=
      ⟨_, _, _, rfl, rfl⟩
    obtain ⟨-, hsteps⟩ := (annealing_trades_labels (.inr rfl) hstart).1 start .start
    exact ⟨start, after, source', hstart, hstep, (hsteps hstep).1 ⟨true, rfl⟩⟩

end Problem

end CutCover
