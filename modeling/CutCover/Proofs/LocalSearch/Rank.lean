import CutCover.LocalSearch.Rank
import CutCover.Proofs.Weight.Bits

/-!
# CutCover — numbers of a given rank

The number of rank `k` is found in the total order of binary64 numbers, while flips compare numbers
as such. Both orders agree but for the two zeros, so that a rank bounds the count of numbers that
lie strictly above, and settles it where no two numbers are equal.

* `orderKey_lt_iff`   — the total order against comparison of numbers.
* `IsOfRank`, `exists_isOfRank` — there is a number of every rank.
* `IsOfRank.countP_above_le`, `IsOfRank.countP_above_eq` — the numbers strictly above it.
-/

namespace CutCover.LocalSearch

open Binary64

-- ---------------------------------------------------------------------------
-- The total order
-- ---------------------------------------------------------------------------

/-- The order key of a number, read off its signed bits. -/
theorem toNat_orderKey {a : Float} (ha : a.isNaN = false) :
    ((orderKey a).toNat : ℤ)
      = signedBits a + if a.toBits.toNat < 2 ^ 63 then 2 ^ 63 else 2 ^ 63 - 1 := by
  have hlt := a.toBits.toNat_lt
  have hhigh : a.toBits >>> 63 = 0 ↔ a.toBits.toNat < 2 ^ 63 := by
    rw [← UInt64.toNat_inj, UInt64.toNat_shiftRight, Nat.shiftRight_eq_div_pow]
    show a.toBits.toNat / 2 ^ 63 = 0 ↔ _
    omega
  unfold orderKey signedBits
  simp only [ha, Bool.false_eq_true, if_false, hhigh]
  split
  · next hsign =>
    have hor := Nat.two_pow_add_eq_or_of_lt hsign 1
    rw [UInt64.toNat_or, Nat.or_comm]
    show ((2 ^ 63 ||| a.toBits.toNat : Nat) : ℤ) = _
    rw [Nat.mul_one] at hor
    omega
  · rw [UInt64.toNat_not]
    show ((2 ^ 64 - 1 - a.toBits.toNat : Nat) : ℤ) = _
    omega

/-- Numbers have their order keys in order, and of the two zeros the negative one comes first. -/
theorem orderKey_lt_iff {a b : Float} (ha : a.isNaN = false) (hb : b.isNaN = false) :
    orderKey a < orderKey b ↔
      a < b ∨ a.toBits = 0x8000000000000000 ∧ b.toBits = 0 := by
  have hkey := toNat_orderKey ha
  have hkey' := toNat_orderKey hb
  rw [lt_iff_signedBits ha hb, UInt64.lt_iff_toNat_lt, ← UInt64.toNat_inj, ← UInt64.toNat_inj,
    UInt64.toNat_ofNat, UInt64.toNat_zero]
  unfold signedBits at *
  split_ifs at * <;> omega

-- ---------------------------------------------------------------------------
-- Ranks
-- ---------------------------------------------------------------------------

/-- A number among `values` with at most `k - 1` of them below it in the total order, and at most
as many above it as there are beyond the first `k`. -/
structure IsOfRank (values : List Float) (k : Nat) (value : Float) : Prop where
  mem : value ∈ values
  below : values.countP (fun other => orderKey other < orderKey value) ≤ k - 1
  above : values.countP (fun other => orderKey value < orderKey other) ≤ values.length - k

/-- In a list in order, a number has the rank of its place. -/
theorem isOfRank_of_pairwise {before later : List Float} {value : Float}
    (h : (before ++ value :: later).Pairwise fun a b => orderKey a ≤ orderKey b) :
    IsOfRank (before ++ value :: later) (before.length + 1) value := by
  rw [List.pairwise_append, List.pairwise_cons] at h
  obtain ⟨-, ⟨hlater, -⟩, hbefore⟩ := h
  refine ⟨by simp, ?_, ?_⟩
  · have hnone : (value :: later).countP (fun other => orderKey other < orderKey value) = 0 := by
      rw [List.countP_eq_zero]
      intro other hother
      rcases List.mem_cons.mp hother with rfl | hother
      · simp
      · simpa using hlater other hother
    rw [List.countP_append, hnone]
    exact List.countP_le_length
  · have hnone : (before ++ [value]).countP (fun other => orderKey value < orderKey other) = 0 := by
      rw [List.countP_eq_zero]
      intro other hother
      rcases List.mem_append.mp hother with hother | hother
      · simpa using hbefore other hother value List.mem_cons_self
      · simp [List.mem_singleton.mp hother]
    rw [List.append_cons, List.countP_append, hnone, List.length_append, List.length_append,
      List.length_singleton, Nat.zero_add, Nat.add_sub_cancel_left]
    exact List.countP_le_length

/-- There is a number of every rank from the first to the last. -/
theorem exists_isOfRank {values : List Float} {k : Nat} (hpos : 1 ≤ k) (hle : k ≤ values.length) :
    ∃ value, ofRank values k = .ok value ∧ IsOfRank values k value := by
  obtain ⟨k, rfl⟩ := Nat.exists_eq_add_of_le' hpos
  have hperm := List.mergeSort_perm values fun a b => orderKey a ≤ orderKey b
  have hpairs : (values.mergeSort fun a b => orderKey a ≤ orderKey b).Pairwise
      fun a b => orderKey a ≤ orderKey b := by
    simpa using @List.pairwise_mergeSort Float (fun a b => orderKey a ≤ orderKey b)
      (by simpa using fun a b c => UInt64.le_trans) (by simpa using fun a b => UInt64.le_total _ _)
      values
  rw [ofRank]
  generalize (values.mergeSort fun a b => orderKey a ≤ orderKey b) = sorted at hperm hpairs ⊢
  have hlt : k < sorted.length := by
    rw [hperm.length_eq]
    omega
  have hsplit : sorted = sorted.take k ++ sorted[k] :: sorted.drop (k + 1) := by
    rw [List.getElem_cons_drop, List.take_append_drop]
  have hrank : IsOfRank sorted (k + 1) sorted[k] := by
    rw [hsplit] at hpairs
    have hlength : (sorted.take k).length = k := List.length_take_of_le hlt.le
    have h := isOfRank_of_pairwise hpairs
    rwa [← hsplit, hlength] at h
  refine ⟨sorted[k], fetch_of_lt hlt, hperm.mem_iff.mp hrank.mem, ?_, ?_⟩
  · rw [← hperm.countP_eq]
    exact hrank.below
  · rw [← hperm.countP_eq, ← hperm.length_eq]
    exact hrank.above

-- ---------------------------------------------------------------------------
-- Numbers above
-- ---------------------------------------------------------------------------

variable {values : List Float} {k : Nat} {value : Float}

/-- No more numbers lie strictly above the one of rank `k` than there are beyond the first `k`. -/
theorem IsOfRank.countP_above_le (h : IsOfRank values k value)
    (hnumbers : ∀ other ∈ values, other.isNaN = false) :
    values.countP (fun other => value < other) ≤ values.length - k := by
  refine (List.countP_mono_left ?_).trans h.above
  intro other hother habove
  have hlt := (orderKey_lt_iff (hnumbers value h.mem) (hnumbers other hother)).mpr
    (.inl (of_decide_eq_true habove))
  exact decide_eq_true hlt

/-- Nor do more than `k - 1` lie strictly below it. -/
theorem IsOfRank.countP_below_le (h : IsOfRank values k value)
    (hnumbers : ∀ other ∈ values, other.isNaN = false) :
    values.countP (fun other => other < value) ≤ k - 1 := by
  refine (List.countP_mono_left ?_).trans h.below
  intro other hother hbelow
  have hlt := (orderKey_lt_iff (hnumbers other hother) (hnumbers value h.mem)).mpr
    (.inl (of_decide_eq_true hbelow))
  exact decide_eq_true hlt

/-- Numbers are below, equal to or above a number. -/
theorem length_le_countP (hnumbers : ∀ other ∈ values, other.isNaN = false)
    (hvalue : value.isNaN = false) :
    values.length ≤ values.countP (fun other => other < value)
      + values.countP (fun other => other == value)
      + values.countP (fun other => value < other) := by
  induction values with
  | nil => exact Nat.zero_le _
  | cons first rest ih =>
    have hrest := ih fun other hother => hnumbers other (List.mem_cons_of_mem first hother)
    have hfirst := hnumbers first List.mem_cons_self
    simp only [List.length_cons, List.countP_cons, decide_eq_true_eq,
      lt_iff_placeOf hfirst hvalue, beq_iff_placeOf hfirst hvalue, lt_iff_placeOf hvalue hfirst]
    rcases lt_trichotomy (placeOf first) (placeOf value) with hlt | heq | hgt
    · rw [if_pos hlt]
      omega
    · rw [if_pos heq]
      omega
    · rw [if_pos hgt]
      omega

/-- Where no two numbers are equal, a number is equal to one of them at most. -/
theorem countP_beq_le_one (hnumbers : ∀ other ∈ values, other.isNaN = false)
    (hvalue : value.isNaN = false) (hdistinct : values.Pairwise fun a b => (a == b) = false) :
    values.countP (fun other => other == value) ≤ 1 := by
  rw [List.countP_eq_length_filter]
  have hfilter : ∀ other ∈ values.filter (fun other => other == value),
      other.isNaN = false ∧ placeOf other = placeOf value := by
    intro other hother
    obtain ⟨hmem, hbeq⟩ := List.mem_filter.mp hother
    have hnumber := hnumbers other hmem
    exact ⟨hnumber, (beq_iff_placeOf hnumber hvalue).mp hbeq⟩
  have hpairs := hdistinct.filter fun other => other == value
  match values.filter (fun other => other == value), hfilter, hpairs with
  | [], _, _ => exact Nat.zero_le 1
  | [_], _, _ => exact Nat.le_refl 1
  | first :: second :: rest, hfilter, hpairs =>
    obtain ⟨hfirst, hplace⟩ := hfilter first List.mem_cons_self
    obtain ⟨hsecond, hplace'⟩ := hfilter second (List.mem_cons_of_mem _ List.mem_cons_self)
    have hequal := (beq_iff_placeOf hfirst hsecond).mpr (hplace.trans hplace'.symm)
    have hdiffer := List.rel_of_pairwise_cons hpairs List.mem_cons_self
    exact absurd hequal (by simp [hdiffer])

/-- Where no two numbers are equal, all beyond the first `k` lie strictly above the one of rank
`k`. -/
theorem IsOfRank.countP_above_eq (h : IsOfRank values k value) (hpos : 1 ≤ k)
    (hnumbers : ∀ other ∈ values, other.isNaN = false)
    (hdistinct : values.Pairwise fun a b => (a == b) = false) :
    values.countP (fun other => value < other) = values.length - k := by
  have hvalue := hnumbers value h.mem
  have habove := h.countP_above_le hnumbers
  have hbelow := h.countP_below_le hnumbers
  have hequal := countP_beq_le_one hnumbers hvalue hdistinct
  have htotal := length_le_countP hnumbers hvalue
  omega

end CutCover.LocalSearch
