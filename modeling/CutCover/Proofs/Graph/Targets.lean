import CutCover.Proofs.Graph.Attachment
import CutCover.Proofs.Rejection

/-!
# CutCover — the search for targets

Preferential attachment looks for the targets of a node one by one, by drawing from the ends until
it finds a node that is not among them yet. All nodes that have arrived are in the ends, and they are
more than the targets to be found, so that in every state of the search some place of the ends holds
a new one. The states are described step by step, by what a trial does to the targets found so far.
A run that does not answer gives up in one of them.

* `Growth.IsAttached.lt_card_ends`      — more nodes in the ends than targets to be found.
* `Growth.IsAttached.accepts_targetAt?` — a new target, while some are missing.
* `Searching`                           — the states of the search, in the course of a run.
* `Searching.isAttached`, `Searching.canEnd` — what is searched, and that the search can go on.
* `preferentialAttachment_stopsOnlySearching` — a run answers or gives up while it searches.
-/

namespace CutCover.Graph

variable {σ : Type} [WordSource σ] {numNodes count arrived : Nat} {start s : σ} {growth : Growth}
  {chosen : List Nat}

-- ---------------------------------------------------------------------------
-- New targets
-- ---------------------------------------------------------------------------

namespace Growth.IsAttached

/-- The nodes in the ends are those that have arrived. -/
theorem toFinset_ends (h : growth.IsAttached count arrived) (hpos : 0 < count) :
    growth.ends.toList.toFinset = Finset.range arrived := by
  ext node
  rw [List.mem_toFinset, Array.mem_toList_iff, h.mem_ends_iff hpos, Finset.mem_range]

/-- They are more than a new node has targets. -/
theorem lt_card_ends (h : growth.IsAttached count arrived) (hpos : 0 < count)
    (hcount : count < arrived) : count < growth.ends.toList.toFinset.card := by
  rwa [h.toFinset_ends hpos, Finset.card_range]

/-- While targets are missing, some place of the ends holds a new one. -/
theorem accepts_targetAt? (h : growth.IsAttached count arrived) (hpos : 0 < count)
    (hcount : count < arrived) (hshort : chosen.length < count) :
    Draw.Accepts (Set.Iio growth.ends.size) (targetAt? growth.ends chosen) := by
  have hfew : chosen.toFinset.card < growth.ends.toList.toFinset.card :=
    calc chosen.toFinset.card
      _ ≤ chosen.length := chosen.toFinset_card_le
      _ < count := hshort
      _ < growth.ends.toList.toFinset.card := h.lt_card_ends hpos hcount
  obtain ⟨t, ht, hnew⟩ := Finset.exists_mem_notMem_of_card_lt_card hfew
  rw [List.mem_toFinset] at ht hnew
  obtain ⟨place, hplace, rfl⟩ := Array.mem_iff_getElem.mp (Array.mem_toList_iff.mp ht)
  exact ⟨place, hplace, _, (targetAt?_eq_some_iff hplace).mpr ⟨rfl, hnew⟩⟩

end Growth.IsAttached

/-- A trial draws a place of the ends. -/
theorem decides_targetTrial {ends : Array Nat} (hends : 0 < ends.size) (chosen : List Nat) :
    Draw.Decides (targetTrial ends chosen : Draw σ _) (Set.Iio ends.size)
      (targetAt? ends chosen) :=
  Draw.decides_below hends fun _ hplace => ⟨_, targetAt?_of_lt chosen hplace⟩

-- ---------------------------------------------------------------------------
-- The states of the search
-- ---------------------------------------------------------------------------

/-- In the course of a run that began with `start`, the ends of this growth are searched for the
targets of one more node, and these have been found so far. -/
inductive Searching (numNodes count : Nat) (start : σ) : Growth → List Nat → σ → Prop where
  | entered {arrivals : Nat} {growth : Growth} {s : σ} (hmore : count + 1 + arrivals < numNodes)
    (hgrown : (growthAfter count arrivals).run start = .ok (growth, s)) :
    Searching numNodes count start growth [] s
  | rejected {growth : Growth} {chosen : List Nat} {s s' : σ}
    (h : Searching numNodes count start growth chosen s) (hshort : chosen.length < count)
    (htrial : (targetTrial growth.ends chosen).run s = .ok (none, s')) :
    Searching numNodes count start growth chosen s'
  | found {growth : Growth} {chosen : List Nat} {s s' : σ} {t : Nat}
    (h : Searching numNodes count start growth chosen s) (hshort : chosen.length < count)
    (htrial : (targetTrial growth.ends chosen).run s = .ok (some t, s')) :
    Searching numNodes count start growth (chosen ++ [t]) s'

/-- The search does not change what has grown. -/
theorem Searching.isAttached (hpos : 0 < count)
    (h : Searching numNodes count start growth chosen s) :
    ∃ arrived, count < arrived ∧ growth.IsAttached count arrived := by
  induction h with
  | entered _ hgrown =>
    exact ⟨_, Nat.lt_add_right _ count.lt_succ_self, (growthAfter_ensures hpos _).of_run hgrown⟩
  | rejected _ _ _ ih => exact ih
  | found _ _ _ ih => exact ih

/-- While targets are missing, the search can go on. -/
theorem Searching.canEnd (hpos : 0 < count)
    (h : Searching numNodes count start growth chosen s) (hshort : chosen.length < count) :
    Draw.CanEnd (targetTrial growth.ends chosen : Draw σ _) (Set.Iio growth.ends.size)
      (targetAt? growth.ends chosen) := by
  obtain ⟨arrived, hcount, hattached⟩ := h.isAttached hpos
  have haccepts := hattached.accepts_targetAt? hpos hcount hshort
  have hends : 0 < growth.ends.size := by
    obtain ⟨place, hplace, -⟩ := haccepts
    exact Nat.zero_lt_of_lt hplace
  exact haccepts.canEnd (decides_targetTrial hends chosen)

-- ---------------------------------------------------------------------------
-- Runs
-- ---------------------------------------------------------------------------

/-- The draw answers, in such a way that `post` holds, unless it gives up in a state of the search
in which targets are missing. -/
def StopsOnlySearching {α : Type} (numNodes count : Nat) (start : σ) (m : Draw σ α) (s : σ)
    (post : α → σ → Prop) : Prop :=
  (∃ a s', m.run s = .ok (a, s') ∧ post a s') ∨
  (m.run s = .error .endlessSampling ∧ ∃ growth chosen s',
    Searching numNodes count start growth chosen s' ∧ chosen.length < count)

namespace StopsOnlySearching

variable {α β : Type} {m : Draw σ α} {f : α → Draw σ β} {pre : α → σ → Prop} {post : β → σ → Prop}

theorem bind (hm : StopsOnlySearching numNodes count start m s pre)
    (hf : ∀ a s', m.run s = .ok (a, s') → pre a s' →
      StopsOnlySearching numNodes count start (f a) s' post) :
    StopsOnlySearching numNodes count start (m >>= f) s post := by
  unfold StopsOnlySearching
  rcases hm with ⟨a, s', hrun, hpre⟩ | ⟨hstops, hsearching⟩
  · rw [Draw.bind_of_run hrun]
    exact hf a s' hrun hpre
  · rw [StateT.run_bind, hstops]
    exact .inr ⟨rfl, hsearching⟩

end StopsOnlySearching

/-- A target is found, or the search for it goes on to the end of the attempts. -/
theorem retry_stopsOnlySearching (hpos : 0 < count)
    (h : Searching numNodes count start growth chosen s) (hshort : chosen.length < count)
    (rounds : Nat) :
    StopsOnlySearching numNodes count start (Draw.retry (targetTrial growth.ends chosen) rounds) s
      fun t s' => Searching numNodes count start growth (chosen ++ [t]) s' := by
  induction rounds generalizing s with
  | zero => exact .inr ⟨rfl, growth, chosen, s, h, hshort⟩
  | succ rounds ih =>
    obtain ⟨-, -, answer, s', -, htrial⟩ := (h.canEnd hpos hshort).decides s
    unfold Draw.retry StopsOnlySearching
    rw [Draw.bind_of_run htrial]
    cases answer with
    | none => exact ih (h.rejected hshort htrial)
    | some t => exact .inl ⟨t, s', rfl, h.found hshort htrial⟩

theorem chooseTargets_stopsOnlySearching (hpos : 0 < count) {more : Nat}
    (h : Searching numNodes count start growth chosen s) (hmore : chosen.length + more = count) :
    StopsOnlySearching numNodes count start (chooseTargets growth.ends more chosen) s
      fun _ _ => True := by
  induction more generalizing chosen s with
  | zero => exact .inl ⟨chosen, s, rfl, trivial⟩
  | succ more ih =>
    unfold chooseTargets
    refine (retry_stopsOnlySearching hpos h (by omega) _).bind ?_
    intro t s' _ hfound
    refine ih hfound ?_
    rw [List.length_append, List.length_singleton]
    omega

theorem growthAfter_succ (count arrivals : Nat) :
    (growthAfter count (arrivals + 1) : Draw σ Growth)
      = growthAfter count arrivals >>= fun growth =>
          attach count growth (count + 1 + arrivals) := by
  unfold growthAfter
  rw [List.range'_concat, List.foldlM_append, Nat.one_mul]
  simp only [List.foldlM_cons, List.foldlM_nil, bind_pure]

/-- So many nodes arrive, unless the search for the targets of one goes on. -/
theorem growthAfter_stopsOnlySearching (hpos : 0 < count) (start : σ) {arrivals : Nat}
    (hle : count + arrivals < numNodes) :
    StopsOnlySearching numNodes count start (growthAfter count arrivals) start
      fun _ _ => True := by
  induction arrivals with
  | zero => exact .inl ⟨star count, start, rfl, trivial⟩
  | succ arrivals ih =>
    rw [growthAfter_succ]
    refine (ih (by omega)).bind ?_
    intro growth s hgrown _
    have hentered : Searching numNodes count start growth [] s := .entered (by omega) hgrown
    unfold attach
    refine (chooseTargets_stopsOnlySearching hpos hentered (Nat.zero_add count)).bind ?_
    exact fun targets s' _ _ => .inl ⟨_, s', rfl, trivial⟩

/-- A run that is not refused answers, unless the search for a target goes on. -/
theorem preferentialAttachment_stopsOnlySearching {R : Type} [Weight R]
    (hone : Weight.isFinite (Weight.ofNat 1 : R) = true) (hpos : 0 < count)
    (hcount : count < numNodes) (start : σ) :
    StopsOnlySearching numNodes count start
      (preferentialAttachment numNodes count : Attempt σ (Graph R)).run start
      fun answer _ => ∃ g, answer = .ok g ∧ g.IsPreferential numNodes count := by
  have hall : count + (numNodes - (count + 1)) < numNodes := by omega
  rw [preferentialAttachment_of_good (by omega), ExceptT.run_bind, ExceptT.run_liftM,
    map_eq_pure_bind, bind_assoc]
  refine (growthAfter_stopsOnlySearching hpos start hall).bind fun growth s hgrown _ => ?_
  have hattached := (growthAfter_ensures hpos _).of_run hgrown
  rw [Nat.add_sub_cancel' hcount] at hattached
  exact .inl ((ofEdges_edges_ensures hone hattached hpos hcount).answers s)

end CutCover.Graph
