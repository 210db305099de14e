import CutCover.Assignment
import Mathlib.Data.List.Nodup

/-!
# CutCover — labels of an assignment

What the checked operations on labels do within an assignment, and when both labels occur in it. An
assignment is *uniform* if all its labels are the same, and *mixed* if both occur; every assignment
is one of the two, and the moves that trade nodes between the labels need a mixed one.

* `Assignment.mem_nodesLabelled`, `Assignment.nodup_nodesLabelled` — the nodes with a label.
* `Assignment.setLabel_of_lt`, `Assignment.exchange_of_lt` — changes within the assignment.
* `Assignment.IsUniform`, `Assignment.IsMixed`, `Assignment.isMixed_iff` — the two cases.
* `Assignment.countSelected_eq_zero_iff`, `Assignment.countSelected_eq_size_iff` — by number.
* `Assignment.countSelected_set`, `Assignment.countSelected_deselect` — a change of one label.
-/

namespace CutCover.Assignment

variable {x : Assignment} {node : Nat}

-- ---------------------------------------------------------------------------
-- Changes within range
-- ---------------------------------------------------------------------------

theorem setLabel_of_lt (value : Bool) (h : node < x.size) :
    x.setLabel node value = .ok (x.set node value h) :=
  store_of_lt value h

/-- Exchanging two nodes of the assignment gives each the label of the other. -/
theorem exchange_of_lt {a b : Nat} (ha : a < x.size) (hb : b < x.size) :
    x.exchange a b = .ok ((x.set a x[b] ha).set b x[a] (by simpa using hb)) := by
  have hb' : b < (x.set a x[b] ha).size := by simpa using hb
  rw [exchange, label_of_lt ha, label_of_lt hb]
  show (x.setLabel a x[b] >>= fun y => y.setLabel b x[a]) = _
  rw [setLabel_of_lt _ ha]
  exact setLabel_of_lt _ hb'

-- ---------------------------------------------------------------------------
-- Nodes by label
-- ---------------------------------------------------------------------------

/-- The nodes with a label are those that carry it. -/
theorem mem_nodesLabelled {value : Bool} :
    node ∈ x.nodesLabelled value ↔ x[node]? = some value := by
  rw [nodesLabelled, List.mem_filterMap]
  constructor
  · rintro ⟨⟨held, place⟩, hmem, hsome⟩
    have hheld := List.mem_zipIdx_iff_getElem?.mp hmem
    by_cases hvalue : held = value
    · simp only [hvalue, if_true, Option.some.injEq] at hsome
      rw [← hsome, ← hvalue]
      simpa using hheld
    · simp [hvalue] at hsome
  · intro h
    refine ⟨(value, node), ?_, by simp⟩
    exact List.mem_zipIdx_iff_getElem?.mpr (by simpa using h)

/-- Every node with a label is listed once. -/
theorem nodup_nodesLabelled (x : Assignment) (value : Bool) : (x.nodesLabelled value).Nodup := by
  have hplaces : (x.toList.zipIdx.map Prod.snd).Nodup := by
    rw [List.zipIdx_map_snd]
    exact List.nodup_range'
  rw [nodesLabelled]
  refine hplaces.of_map.filterMap ?_
  rintro ⟨held, place⟩ ⟨held', place'⟩ node hnode hnode'
  -- both entries are the label sought, at the node listed
  rw [Option.mem_def, Option.ite_none_right_eq_some, Option.some.injEq] at hnode hnode'
  rw [hnode.1, hnode.2, hnode'.1, hnode'.2]

/-- Both labels occur. -/
def IsMixed (x : Assignment) : Prop :=
  ∀ label : Bool, ∃ node : Nat, x[node]? = some label

/-- All labels are the same. -/
def IsUniform (x : Assignment) : Prop :=
  ∃ label : Bool, ∀ held ∈ x, held = label

theorem ne_of_label_ne {label : Bool} {a b : Nat} (ha : x[a]? = some label)
    (hb : x[b]? = some !label) : a ≠ b := by
  rintro rfl
  rw [ha] at hb
  cases label <;> cases hb

/-- A node that takes on a label which another does not carry is enough. -/
theorem isMixed_set {other : Nat} {label : Bool} (hnode : node < x.size) (hne : node ≠ other)
    (h : x[other]? = some !label) : IsMixed (x.set node label) := by
  intro sought
  by_cases hsought : sought = label
  · exact ⟨node, by rw [Array.getElem?_set_self, hsought]⟩
  · exact ⟨other, by rw [Array.getElem?_set_ne hnode hne, h, Bool.eq_not.mpr hsought]⟩

/-- Either all labels are the same or both occur. -/
theorem isMixed_iff (x : Assignment) : x.IsMixed ↔ ¬x.IsUniform := by
  constructor
  · rintro hmixed ⟨label, hall⟩
    have hother := hall _ (Array.mem_iff_getElem?.mpr (hmixed !label))
    cases label <;> cases hother
  · intro hnot label
    by_contra hnone
    refine hnot ⟨!label, fun held hheld => ?_⟩
    have hne : held ≠ label := by
      rintro rfl
      exact hnone (Array.mem_iff_getElem?.mp hheld)
    exact Bool.eq_not.mpr hne

theorem IsMixed.size_pos (h : x.IsMixed) : 0 < x.size := by
  obtain ⟨node, hnode⟩ := h true
  exact Nat.zero_lt_of_lt (Array.getElem?_eq_some_iff.mp hnode).1

/-- In a mixed assignment some nodes carry either label. -/
theorem IsMixed.exists_mem_nodesLabelled (h : x.IsMixed) (label : Bool) :
    ∃ node, node ∈ x.nodesLabelled label := by
  obtain ⟨node, hnode⟩ := h label
  exact ⟨node, mem_nodesLabelled.mpr hnode⟩

theorem countSelected_eq_zero_iff : x.countSelected = 0 ↔ ∀ held ∈ x, held = false := by
  rw [countSelected, List.count_eq_zero]
  simp

theorem countSelected_eq_size_iff : x.countSelected = x.size ↔ ∀ held ∈ x, held = true := by
  rw [countSelected, ← Array.length_toList, List.count_eq_length]
  simp [eq_comm]

/-- An assignment is uniform if none of its nodes is selected, or all are. -/
theorem isUniform_iff : x.IsUniform ↔ x.countSelected = 0 ∨ x.countSelected = x.size := by
  rw [countSelected_eq_zero_iff, countSelected_eq_size_iff, IsUniform, Bool.exists_bool]

theorem set_getElem?_self {label : Bool} (h : x[node]? = some label) (hlt : node < x.size) :
    x.set node label hlt = x := by
  obtain ⟨-, rfl⟩ := Array.getElem?_eq_some_iff.mp h
  exact Array.set_getElem_self hlt

theorem countSelected_set (hnode : node < x.size) :
    countSelected (x.set node true hnode) = countSelected (x.set node false hnode) + 1 := by
  have hlist : node < x.toList.length := by simpa using hnode
  rw [countSelected, countSelected, Array.toList_set, Array.toList_set, List.count_set hlist,
    List.count_set hlist]
  simp

/-- Deselecting a selected node makes one less. -/
theorem countSelected_deselect (h : x[node]? = some true) (hlt : node < x.size) :
    countSelected (x.set node false hlt) + 1 = x.countSelected := by
  rw [← countSelected_set hlt, set_getElem?_self h]

end CutCover.Assignment
