import CutCover.Proofs.Graph.Represents
import Mathlib.Order.Bounds.Defs

/-!
# CutCover — which edges make a graph

An edge over a number of nodes is sound or has one fault. Endpoints outside the graph count first,
then equal endpoints, then a weight that is not finite. Building a graph refuses the first edge that
is not sound, by its number, and refuses nothing else. Over as many nodes as its edges mention no
endpoint is outside, and there are no fewer nodes over which the edges make a graph; but the nodes
are counted in words, and an edge that ends in the last word is outside whatever the count.

* `Edge.HasFault`, `Edge.isSound_or_hasFault` — what can be wrong with an edge.
* `Graph.IsFirstFault`                        — the first edge that is not sound.
* `Graph.ofEdges_of_isFirstFault`             — building is refused for it.
* `Graph.EndsInWords`, `Graph.lt_spannedNodes_iff` — the nodes that the edges mention.
* `Graph.spanning_endpointOutside_iff`        — when their count wraps around, and it shows.
* `Graph.ofEdges_validates_unless_wrapped`    — what is built, and what is refused for which edge.
-/

namespace CutCover

variable {R : Type} [Weight R] {n : Nat}

-- ---------------------------------------------------------------------------
-- Faults
-- ---------------------------------------------------------------------------

/-- The fault of an edge over `n` nodes. A later fault is one only if there is no earlier one. -/
inductive Edge.HasFault (n : Nat) (e : Edge R) : EdgeFault → Prop where
  | endpointOutside (h : n ≤ e.u ∨ n ≤ e.v) : HasFault n e (.endpointOutside e.u e.v n)
  | selfLoop (hu : e.u < n) (hv : e.v < n) (heq : e.u = e.v) : HasFault n e (.selfLoop e.u)
  | nonFiniteWeight (hu : e.u < n) (hv : e.v < n) (hne : e.u ≠ e.v)
    (hweight : Weight.isFinite e.weight = false) :
    HasFault n e (.nonFiniteWeight (Weight.toFloat e.weight))

namespace Edge

variable {e : Edge R} {fault : EdgeFault}

theorem HasFault.fault?_eq_some (h : e.HasFault n fault) : e.fault? n = some fault := by
  unfold fault?
  cases h with
  | endpointOutside houtside => rw [if_pos houtside]
  | selfLoop hu hv heq => rw [if_neg (by omega), if_pos heq]
  | nonFiniteWeight hu hv hne hweight =>
    rw [if_neg (by omega), if_neg hne, if_neg (by simp [hweight])]

theorem HasFault.not_isSound (h : e.HasFault n fault) : ¬ e.IsSound n := by
  intro hsound
  have hnone := hsound.fault?_eq_none
  rw [h.fault?_eq_some] at hnone
  cases hnone

/-- Nothing else is said of an edge that has an endpoint outside. -/
theorem HasFault.eq_endpointOutside (h : e.HasFault n fault) (houtside : ¬(e.u < n ∧ e.v < n)) :
    fault = .endpointOutside e.u e.v n := by
  cases h with
  | endpointOutside _ => rfl
  | selfLoop hu hv _ => exact absurd ⟨hu, hv⟩ houtside
  | nonFiniteWeight hu hv _ _ => exact absurd ⟨hu, hv⟩ houtside

/-- An edge that is not sound has a fault. -/
theorem isSound_or_hasFault (n : Nat) (e : Edge R) :
    e.IsSound n ∨ ∃ fault, e.HasFault n fault := by
  by_cases houtside : n ≤ e.u ∨ n ≤ e.v
  · exact .inr ⟨_, .endpointOutside houtside⟩
  have hu : e.u < n := by omega
  have hv : e.v < n := by omega
  by_cases heq : e.u = e.v
  · exact .inr ⟨_, .selfLoop hu hv heq⟩
  by_cases hfinite : Weight.isFinite e.weight = true
  · exact .inl ⟨hu, hv, heq, hfinite⟩
  · exact .inr ⟨_, .nonFiniteWeight hu hv heq (Bool.not_eq_true _ ▸ hfinite)⟩

end Edge

-- ---------------------------------------------------------------------------
-- The wording
-- ---------------------------------------------------------------------------

/-- The wording of a fault begins with the number of the edge. -/
theorem EdgeFault.exists_message (i : Nat) (fault : EdgeFault) :
    ∃ cause : String, fault.message i = "edge " ++ toString i ++ " " ++ cause := by
  cases fault with
  | endpointOutside u v numNodes =>
    refine ⟨s!"({u}, {v}) has an endpoint outside [0, {numNodes})", ?_⟩
    show "edge " ++ toString i ++ (" " ++ "(") ++ toString u ++ ", " ++ toString v
      ++ ") has an endpoint outside [0, " ++ toString numNodes ++ ")" = _
    simp only [String.append_assoc]
    rfl
  | selfLoop node =>
    refine ⟨"is a self-loop on node " ++ toString node, ?_⟩
    show "edge " ++ toString i ++ (" " ++ "is a self-loop on node ") ++ toString node = _
    simp only [String.append_assoc]
  | nonFiniteWeight weight =>
    refine ⟨"has non-finite weight " ++ Decimal.render weight, ?_⟩
    show "edge " ++ toString i ++ (" " ++ "has non-finite weight ") ++ Decimal.render weight = _
    simp only [String.append_assoc]

/-- So does the text of a refusal, after its family. -/
theorem Refusal.exists_message_invalidGraph (i : Nat) (fault : EdgeFault) :
    ∃ cause : String, (Refusal.invalidGraph i fault).message
      = "invalid graph: edge " ++ toString i ++ " " ++ cause := by
  obtain ⟨cause, hcause⟩ := fault.exists_message i
  refine ⟨cause, ?_⟩
  show "invalid graph: " ++ fault.message i = ("invalid graph: " ++ "edge ") ++ _ ++ _ ++ _
  rw [hcause]
  simp only [String.append_assoc]

namespace Graph

variable {edges : List (Edge R)} {i : Nat} {fault : EdgeFault}

-- ---------------------------------------------------------------------------
-- The first fault
-- ---------------------------------------------------------------------------

/-- The edge with this number has the fault, and all edges before it are sound. -/
structure IsFirstFault (n : Nat) (edges : List (Edge R)) (i : Nat) (fault : EdgeFault) : Prop where
  faulty : ∃ e, edges[i]? = some e ∧ e.HasFault n fault
  before : ∀ e ∈ edges.take i, e.IsSound n

theorem IsFirstFault.cons (h : IsFirstFault n edges i fault) {e : Edge R} (he : e.IsSound n) :
    IsFirstFault n (e :: edges) (i + 1) fault where
  faulty := h.faulty
  before := List.forall_mem_cons.mpr ⟨he, h.before⟩

/-- No edge before it is unsound. -/
theorem IsFirstFault.le (h : IsFirstFault n edges i fault) {k : Nat} {e : Edge R}
    (he : edges[k]? = some e) (hunsound : ¬ e.IsSound n) : i ≤ k := by
  by_contra hlt
  have hmem := List.mem_of_getElem? ((List.getElem?_take_of_lt (Nat.lt_of_not_le hlt)).trans he)
  exact hunsound (h.before e hmem)

/-- If some edge is not sound, there is a first one. -/
theorem exists_isFirstFault (h : ¬ ∀ e ∈ edges, e.IsSound n) :
    ∃ i fault, IsFirstFault n edges i fault := by
  induction edges with
  | nil => exact absurd (fun e he => absurd he List.not_mem_nil) h
  | cons e rest ih =>
    rcases e.isSound_or_hasFault n with hsound | ⟨fault, hfault⟩
    · obtain ⟨i, fault, hfirst⟩ := ih fun hrest => h (List.forall_mem_cons.mpr ⟨hsound, hrest⟩)
      exact ⟨i + 1, fault, hfirst.cons hsound⟩
    · exact ⟨0, fault, ⟨e, rfl, hfault⟩, fun _ he => absurd he List.not_mem_nil⟩

/-- Validation stops at the first fault. -/
theorem validate_of_isFirstFault (h : IsFirstFault n edges i fault) (position : Nat) :
    validate n position edges = .error (.invalidGraph (position + i) fault) := by
  induction edges generalizing i position with
  | nil =>
    obtain ⟨e, he, -⟩ := h.faulty
    cases he
  | cons e rest ih =>
    obtain ⟨faulty, hat, hfault⟩ := h.faulty
    cases i with
    | zero =>
      cases hat
      unfold validate
      rw [hfault.fault?_eq_some]
      rfl
    | succ i =>
      obtain ⟨hsound, hbefore⟩ := List.forall_mem_cons.mp h.before
      unfold validate
      rw [hsound.fault?_eq_none]
      show validate n (position + 1) rest = _
      rw [ih ⟨⟨faulty, hat, hfault⟩, hbefore⟩, Nat.succ_add_eq_add_succ]

/-- A graph is refused for the first fault of its edges. -/
theorem ofEdges_of_isFirstFault (h : IsFirstFault n edges i fault) :
    (ofEdges n edges).run = .ok (.error (.invalidGraph i fault)) := by
  have hvalid := validate_of_isFirstFault h 0
  rw [Nat.zero_add] at hvalid
  rw [ofEdges, hvalid]
  rfl

/-- A graph is built just if all of its edges are sound. -/
theorem exists_ofEdges_iff :
    (∃ g, (ofEdges n edges).run = .ok (.ok g)) ↔ ∀ e ∈ edges, e.IsSound n := by
  constructor
  · rintro ⟨g, hg⟩
    exact isSound_of_validate (ofEdges_inv hg).1
  · intro hsound
    exact exists_ofEdges_of_validate (validate_of_isSound hsound 0)

/-- Building answers, or is refused for the first fault. -/
theorem ofEdges_cases (n : Nat) (edges : List (Edge R)) :
    (∃ g, (ofEdges n edges).run = .ok (.ok g)) ∨ ∃ i fault, IsFirstFault n edges i fault ∧
      (ofEdges n edges).run = .ok (.error (.invalidGraph i fault)) := by
  by_cases hsound : ∀ e ∈ edges, e.IsSound n
  · exact .inl (exists_ofEdges_iff.mpr hsound)
  · obtain ⟨i, fault, hfirst⟩ := exists_isFirstFault hsound
    exact .inr ⟨i, fault, hfirst, ofEdges_of_isFirstFault hfirst⟩

-- ---------------------------------------------------------------------------
-- As many nodes as the edges mention
-- ---------------------------------------------------------------------------

/-- The endpoints are words. -/
def EndsInWords (edges : List (Edge R)) : Prop :=
  ∀ e ∈ edges, e.u < wordRange ∧ e.v < wordRange

omit [Weight R] in
/-- So many nodes are enough for the words after the endpoints, and no fewer are. -/
theorem spannedNodes_le_iff :
    spannedNodes edges ≤ n ↔ ∀ e ∈ edges, nextWord (max e.u e.v) ≤ n := by
  have hfold : ∀ start, edges.foldl (fun m e => max m (nextWord (max e.u e.v))) start ≤ n ↔
      start ≤ n ∧ ∀ e ∈ edges, nextWord (max e.u e.v) ≤ n := by
    induction edges with
    | nil => simp
    | cons e rest ih =>
      intro start
      rw [List.foldl_cons, ih, Nat.max_le, List.forall_mem_cons, and_assoc]
  unfold spannedNodes
  rw [hfold]
  exact and_iff_right (Nat.zero_le n)

omit [Weight R] in
/-- Their count is a word. -/
theorem spannedNodes_lt (edges : List (Edge R)) : spannedNodes edges < wordRange := by
  have hle : spannedNodes edges ≤ wordRange - 1 :=
    spannedNodes_le_iff.mpr fun e _ => Nat.le_sub_one_of_lt (nextWord_lt _)
  exact Nat.lt_of_le_sub_one (by decide) hle

omit [Weight R] in
/-- The endpoints of an edge are among the nodes mentioned just if neither is the last word. -/
theorem lt_spannedNodes_iff (hwords : EndsInWords edges) {e : Edge R} (he : e ∈ edges) :
    (e.u < spannedNodes edges ∧ e.v < spannedNodes edges) ↔ max e.u e.v + 1 ≠ wordRange := by
  have hlt := spannedNodes_lt edges
  have hle := spannedNodes_le_iff.mp (Nat.le_refl _) e he
  have hends := hwords e he
  constructor
  · omega
  · intro hlast
    rw [nextWord_of_lt (by omega)] at hle
    omega

/-- Over these nodes an edge is refused for an endpoint outside just if an edge ends in the last word
and all edges before it join two different nodes and have finite weights. -/
theorem spanning_endpointOutside_iff (hwords : EndsInWords edges) :
    (∃ i u v m, (spanning edges).run = .ok (.error (.invalidGraph i (.endpointOutside u v m)))) ↔
      ∃ i e, edges[i]? = some e ∧ max e.u e.v + 1 = wordRange ∧
        ∀ earlier ∈ edges.take i, earlier.u ≠ earlier.v ∧
          Weight.isFinite earlier.weight = true := by
  unfold spanning
  constructor
  · rintro ⟨i, u, v, m, hrefused⟩
    rcases ofEdges_cases (spannedNodes edges) edges with ⟨g, hg⟩ | ⟨j, fault, hfirst, hrun⟩
    · rw [hg] at hrefused
      cases hrefused
    · rw [hrun] at hrefused
      cases hrefused
      obtain ⟨e, he, hfault⟩ := hfirst.faulty
      refine ⟨i, e, he, ?_, fun earlier hearlier =>
        ⟨(hfirst.before earlier hearlier).ne, (hfirst.before earlier hearlier).finite⟩⟩
      by_contra hinside
      have hlt := (lt_spannedNodes_iff hwords (List.mem_of_getElem? he)).mpr hinside
      cases hfault with
      | endpointOutside houtside => omega
  · rintro ⟨i, e, he, hlast, hbefore⟩
    have houtside : ¬(e.u < spannedNodes edges ∧ e.v < spannedNodes edges) := by
      rw [lt_spannedNodes_iff hwords (List.mem_of_getElem? he), not_not]
      exact hlast
    rcases ofEdges_cases (spannedNodes edges) edges with ⟨g, hg⟩ | ⟨j, fault, hfirst, hrun⟩
    · have hsound := exists_ofEdges_iff.mp ⟨g, hg⟩ e (List.mem_of_getElem? he)
      exact absurd ⟨hsound.u_lt, hsound.v_lt⟩ houtside
    · have hunsound : ¬ e.IsSound (spannedNodes edges) :=
        fun hsound => houtside ⟨hsound.u_lt, hsound.v_lt⟩
      obtain ⟨faulty, hat, hfault⟩ := hfirst.faulty
      -- the first fault is of that edge or of one before it, which can have no other fault
      have hfaulty : ¬(faulty.u < spannedNodes edges ∧ faulty.v < spannedNodes edges) := by
        rintro ⟨hu, hv⟩
        rcases Nat.lt_or_eq_of_le (hfirst.le he hunsound) with hlt | rfl
        · have hmem := List.mem_of_getElem? ((List.getElem?_take_of_lt hlt).trans hat)
          obtain ⟨hne, hfinite⟩ := hbefore faulty hmem
          exact hfault.not_isSound ⟨hu, hv, hne, hfinite⟩
        · obtain rfl := Option.some_inj.mp (he.symm.trans hat)
          exact houtside ⟨hu, hv⟩
      rw [hfault.eq_endpointOutside hfaulty] at hrun
      exact ⟨j, _, _, _, hrun⟩

/-- The edges make a graph over the nodes they mention just if none ends in the last word, none is a
loop and all weights are finite. -/
theorem exists_spanning_iff (hwords : EndsInWords edges) :
    (∃ g, (spanning edges).run = .ok (.ok g)) ↔ ∀ e ∈ edges,
      max e.u e.v + 1 ≠ wordRange ∧ e.u ≠ e.v ∧ Weight.isFinite e.weight = true := by
  unfold spanning
  rw [exists_ofEdges_iff]
  constructor
  · intro h e he
    have hends := (lt_spannedNodes_iff hwords he).mp ⟨(h e he).u_lt, (h e he).v_lt⟩
    exact ⟨hends, (h e he).ne, (h e he).finite⟩
  · intro h e he
    obtain ⟨hends, hne, hfinite⟩ := h e he
    obtain ⟨hu, hv⟩ := (lt_spannedNodes_iff hwords he).mpr hends
    exact ⟨hu, hv, hne, hfinite⟩

/-- They do not over fewer nodes. -/
theorem isLeast_spannedNodes {g : Graph R} (h : (spanning edges).run = .ok (.ok g)) :
    IsLeast {m | ∃ g : Graph R, (ofEdges m edges).run = .ok (.ok g)} (spannedNodes edges) := by
  refine ⟨⟨g, h⟩, ?_⟩
  intro m hm
  have hsound := exists_ofEdges_iff.mp hm
  refine spannedNodes_le_iff.mpr fun e he => ?_
  have hends : max e.u e.v < m := Nat.max_lt.mpr ⟨(hsound e he).u_lt, (hsound e he).v_lt⟩
  exact Nat.le_trans (nextWord_le _) hends

/-- Edges of which the second is a loop, and the third has an endpoint beyond four nodes. -/
def loopEdges : List (Edge Float) :=
  [⟨0, 1, 1.0⟩, ⟨2, 2, 1.0⟩, ⟨3, 9, 1.0⟩]

/-- The last word as a node. -/
def lastNode : Nat := 0xffffffffffffffff

end Graph

end CutCover
