import CutCover.Base64
import Mathlib.Data.List.Basic
import Mathlib.Data.List.Induction
import Mathlib.Data.List.TakeWhile
import Mathlib.Data.Nat.Digits.Defs

/-!
# CutCover — the number behind a written assignment

An assignment and its digits are two positional representations of one number, to base two and to
base sixty-four, both with the most significant digit first. A digit is exactly six labels, so that
splitting a digit or grouping labels does not change the number; leading zeros do not change it
either, and representations of one length are equal if their numbers are.

* `binaryValue_append`, `binaryValue_lt`, `binaryValue_inj` — numbers of labels.
* `digitsValue`, `digitsValue_inj`                          — numbers of digits.
* `binaryValue_digitBits`, `binaryValue_flatMap_digitBits`  — a digit is six labels.
* `flatMap_groupDigits`, `digitsValue_groupDigits`          — six labels are a digit.
-/

namespace CutCover.Base64

-- ---------------------------------------------------------------------------
-- Base two
-- ---------------------------------------------------------------------------

theorem binaryValue_concat (bits : List Bool) (bit : Bool) :
    binaryValue (bits ++ [bit]) = 2 * binaryValue bits + bit.toNat := by
  simp [binaryValue]

/-- Read from its last label on, an assignment is a list of binary digits. -/
theorem binaryValue_eq_ofDigits (bits : List Bool) :
    binaryValue bits = Nat.ofDigits 2 (bits.map Bool.toNat).reverse := by
  induction bits using List.reverseRecOn with
  | nil => rfl
  | append_singleton bits bit ih =>
    rw [binaryValue_concat, ih, List.map_append, List.reverse_append, List.map_singleton,
      List.reverse_singleton, List.singleton_append, Nat.ofDigits_cons]
    omega

theorem toNat_lt_two_of_mem (bits : List Bool) : ∀ d ∈ (bits.map Bool.toNat).reverse, d < 2 := by
  intro d hd
  obtain ⟨bit, -, rfl⟩ := List.mem_map.mp (List.mem_reverse.mp hd)
  exact bit.toNat_lt

theorem binaryValue_append (bits others : List Bool) :
    binaryValue (bits ++ others) = binaryValue bits * 2 ^ others.length + binaryValue others := by
  simp only [binaryValue_eq_ofDigits, List.map_append, List.reverse_append, Nat.ofDigits_append,
    List.length_reverse, List.length_map]
  rw [Nat.mul_comm, Nat.add_comm]

theorem binaryValue_lt (bits : List Bool) : binaryValue bits < 2 ^ bits.length := by
  rw [binaryValue_eq_ofDigits]
  simpa using Nat.ofDigits_lt_base_pow_length Nat.one_lt_two (toNat_lt_two_of_mem bits)

/-- Lists of labels of one length are equal if their numbers are. -/
theorem binaryValue_inj {bits others : List Bool} (hlength : bits.length = others.length)
    (h : binaryValue bits = binaryValue others) : bits = others := by
  rw [binaryValue_eq_ofDigits, binaryValue_eq_ofDigits] at h
  have hreverse := Nat.ofDigits_inj_of_len_eq Nat.one_lt_two (by simpa using hlength)
    (toNat_lt_two_of_mem bits) (toNat_lt_two_of_mem others) h
  refine (List.map_inj_right ?_).mp (List.reverse_injective hreverse)
  decide

theorem binaryValue_replicate_false (count : Nat) :
    binaryValue (List.replicate count false) = 0 := by
  simp [binaryValue_eq_ofDigits, Nat.ofDigits_replicate_zero]

/-- Labels that are not selected do not count in front. -/
theorem binaryValue_replicate_append (count : Nat) (bits : List Bool) :
    binaryValue (List.replicate count false ++ bits) = binaryValue bits := by
  rw [binaryValue_append, binaryValue_replicate_false, Nat.zero_mul, Nat.zero_add]

/-- A selected label counts. -/
theorem binaryValue_pos {bits : List Bool} (h : true ∈ bits) : 0 < binaryValue bits := by
  obtain ⟨before, after, rfl⟩ := List.append_of_mem h
  have hone : binaryValue (true :: after) = 2 ^ after.length + binaryValue after := by
    simpa [binaryValue] using binaryValue_append [true] after
  have hpos : 0 < 2 ^ after.length := Nat.two_pow_pos after.length
  rw [binaryValue_append, hone]
  omega

-- ---------------------------------------------------------------------------
-- Base sixty-four
-- ---------------------------------------------------------------------------

/-- The number with the given base-64 digits, the most significant first. -/
def digitsValue (values : List Nat) : Nat :=
  Nat.ofDigits 64 values.reverse

theorem digitsValue_concat (values : List Nat) (value : Nat) :
    digitsValue (values ++ [value]) = value + 64 * digitsValue values := by
  simp [digitsValue, Nat.ofDigits_cons]

/-- Zeros do not count in front. -/
theorem digitsValue_replicate_append (count : Nat) (values : List Nat) :
    digitsValue (List.replicate count 0 ++ values) = digitsValue values := by
  rw [digitsValue, List.reverse_append, List.reverse_replicate,
    Nat.ofDigits_append_replicate_zero, digitsValue]

theorem digitsValue_dropWhile (values : List Nat) :
    digitsValue (values.dropWhile (· == 0)) = digitsValue values := by
  have hzeros : values.takeWhile (· == 0)
      = List.replicate (values.takeWhile (· == 0)).length 0 := by
    refine List.eq_replicate_iff.mpr ⟨rfl, ?_⟩
    intro value hvalue
    simpa using List.mem_takeWhile_imp hvalue
  conv_rhs => rw [← List.takeWhile_append_dropWhile (p := (· == 0)) (l := values), hzeros]
  rw [digitsValue_replicate_append]

/-- Lists of digits of one length are equal if their numbers are. -/
theorem digitsValue_inj {values others : List Nat} (hlength : values.length = others.length)
    (hvalues : ∀ value ∈ values, value < 64) (hothers : ∀ value ∈ others, value < 64)
    (h : digitsValue values = digitsValue others) : values = others := by
  have hreverse := Nat.ofDigits_inj_of_len_eq (by decide : 1 < 64) (by simpa using hlength)
    (fun value hvalue => hvalues value (List.mem_reverse.mp hvalue))
    (fun value hvalue => hothers value (List.mem_reverse.mp hvalue)) h
  exact List.reverse_injective hreverse

-- ---------------------------------------------------------------------------
-- Digits and labels
-- ---------------------------------------------------------------------------

/-- The six labels of a digit are its binary digits. -/
theorem binaryValue_digitBits {value : Nat} (h : value < 64) :
    binaryValue (digitBits value) = value := by
  revert value
  decide

/-- Splitting all digits into labels does not change the number. -/
theorem binaryValue_flatMap_digitBits {values : List Nat} (h : ∀ value ∈ values, value < 64) :
    binaryValue (values.flatMap digitBits) = digitsValue values := by
  induction values using List.reverseRecOn with
  | nil => rfl
  | append_singleton values value ih =>
    have hvalue := h value (by simp)
    have hsplit : binaryValue ((values ++ [value]).flatMap digitBits)
        = binaryValue (values.flatMap digitBits) * 2 ^ 6 + binaryValue (digitBits value) := by
      rw [List.flatMap_append, binaryValue_append]
      rfl
    rw [hsplit, ih fun other hother => h other (by simp [hother]), binaryValue_digitBits hvalue,
      digitsValue_concat]
    omega

/-- Where no whole group of labels is left, there are fewer than six. -/
theorem length_lt_of_no_group {bits : List Bool}
    (h : ∀ a b c d e f rest, bits = a :: b :: c :: d :: e :: f :: rest → False) :
    bits.length < 6 := by
  by_contra hle
  match bits, Nat.le_of_not_lt hle with
  | a :: b :: c :: d :: e :: f :: rest, _ => exact h a b c d e f rest rfl

/-- Splitting undoes grouping. -/
theorem digitBits_binaryValue (a b c d e f : Bool) :
    digitBits (binaryValue [a, b, c, d, e, f]) = [a, b, c, d, e, f] := by
  revert a b c d e f
  decide

theorem flatMap_groupDigits {bits : List Bool} (h : bits.length % 6 = 0) :
    (groupDigits bits).flatMap digitBits = bits := by
  fun_induction groupDigits bits with
  | case1 a b c d e f rest ih =>
    have hrest : rest.length % 6 = 0 := by
      simp only [List.length_cons] at h
      omega
    rw [List.flatMap_cons, digitBits_binaryValue, ih hrest]
    rfl
  | case2 bits hshort =>
    have hlt := length_lt_of_no_group hshort
    have hempty : bits = [] := List.eq_nil_of_length_eq_zero (by omega)
    rw [hempty]
    rfl

theorem length_groupDigits (bits : List Bool) :
    (groupDigits bits).length = bits.length / 6 := by
  fun_induction groupDigits bits with
  | case1 a b c d e f rest ih =>
    simp only [List.length_cons, ih]
    omega
  | case2 bits hshort =>
    have hlt := length_lt_of_no_group hshort
    rw [List.length_nil]
    omega

theorem lt_of_mem_groupDigits {bits : List Bool} : ∀ value ∈ groupDigits bits, value < 64 := by
  fun_induction groupDigits bits with
  | case1 a b c d e f rest ih =>
    intro value hvalue
    rcases List.mem_cons.mp hvalue with rfl | hvalue
    · exact binaryValue_lt [a, b, c, d, e, f]
    · exact ih value hvalue
  | case2 bits hshort => exact fun value hvalue => absurd hvalue List.not_mem_nil

/-- Grouping whole groups of labels into digits does not change the number. -/
theorem digitsValue_groupDigits {bits : List Bool} (h : bits.length % 6 = 0) :
    digitsValue (groupDigits bits) = binaryValue bits := by
  rw [← binaryValue_flatMap_digitBits lt_of_mem_groupDigits, flatMap_groupDigits h]

end CutCover.Base64
