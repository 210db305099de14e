import CutCover.Weight.Exact
import Mathlib.Algebra.Order.Ring.Int
import Mathlib.Algebra.Order.Ring.Unbundled.Rat
import Mathlib.Data.Prod.Lex

/-!
# CutCover — comparing weights

What statements about scores assume of the comparison of weights, and that both number systems of
the library meet it. Binary64 has one value that compares with nothing, itself included; all
others are numbers and totally ordered, with the two zeros in one place.

* `Weight.IsNumber`        — a weight that compares with itself.
* `Weight.StrictlyOrdered` — `<` is irreflexive and transitive.
* `Weight.Ordered`         — besides, any two numbers compare.
* `Binary64.place`         — the place of a binary64 number on the line.
* `isNumber_iff_isNaN`     — in binary64 the numbers are what is not NaN.
-/

namespace CutCover

-- ---------------------------------------------------------------------------
-- Laws
-- ---------------------------------------------------------------------------

namespace Weight

/-- A weight that compares with itself. -/
def IsNumber {R : Type} [Weight R] (a : R) : Prop :=
  a ≤ a

instance {R : Type} [Weight R] (a : R) : Decidable (IsNumber a) :=
  inferInstanceAs (Decidable (a ≤ a))

/-- Strict comparison is a strict partial order. -/
class StrictlyOrdered (R : Type) [Weight R] : Prop where
  lt_irrefl : ∀ a : R, ¬ a < a
  lt_trans : ∀ {a b c : R}, a < b → b < c → a < c

/-- Besides, any two numbers compare. -/
class Ordered (R : Type) [Weight R] : Prop extends StrictlyOrdered R where
  le_trans : ∀ {a b c : R}, a ≤ b → b ≤ c → a ≤ c
  le_of_lt : ∀ {a b : R}, a < b → a ≤ b
  le_iff_not_lt : ∀ {a b : R}, IsNumber a → IsNumber b → (a ≤ b ↔ ¬ b < a)

end Weight

-- ---------------------------------------------------------------------------
-- Rationals
-- ---------------------------------------------------------------------------

instance : Weight.Ordered Rat where
  lt_irrefl a := lt_irrefl a
  lt_trans := lt_trans
  le_trans := le_trans
  le_of_lt := le_of_lt
  le_iff_not_lt _ _ := not_lt.symm

-- ---------------------------------------------------------------------------
-- Binary64 numbers
-- ---------------------------------------------------------------------------

namespace Binary64

open Float.Model

/-- The place of a number on the line: first its sign, then its exponent, then its mantissa. What
is not a number is put at zero. -/
def place : UnpackedFloat → ℤ ×ₗ ℤ ×ₗ ℤ
  | .infinity .negative => toLex (-2, toLex (0, 0))
  | .finite .negative mantissa exponent _ => toLex (-1, toLex (-exponent, -(mantissa : ℤ)))
  | .zero _ => toLex (0, toLex (0, 0))
  | .finite .positive mantissa exponent _ => toLex (1, toLex (exponent, (mantissa : ℤ)))
  | .infinity .positive => toLex (2, toLex (0, 0))
  | .notANumber => toLex (0, toLex (0, 0))

theorem place_zero (sign : UnpackedFloat.Sign) : place (.zero sign) = toLex (0, toLex (0, 0)) :=
  rfl

theorem compare_sign_self (s : UnpackedFloat.Sign) : compare s s = .eq := by
  cases s <;> rfl

theorem compare_negative_positive :
    compare UnpackedFloat.Sign.negative UnpackedFloat.Sign.positive = .lt :=
  rfl

theorem compare_positive_negative :
    compare UnpackedFloat.Sign.positive UnpackedFloat.Sign.negative = .gt :=
  rfl

/-- Comparison answers for numbers and for them only. -/
theorem compare_eq_none_iff (a b : UnpackedFloat) :
    a.compare b = none ↔ a.isNaN = true ∨ b.isNaN = true := by
  rcases a with (_ | _) | _ | _ | ⟨_ | _, m₁, e₁, h₁⟩ <;>
    rcases b with (_ | _) | _ | _ | ⟨_ | _, m₂, e₂, h₂⟩ <;>
    unfold UnpackedFloat.compare UnpackedFloat.isNaN <;>
    simp

/-- A number compares below another if its place is before the other's. -/
theorem compare_eq_lt_iff {a b : UnpackedFloat} (ha : a.isNaN = false) (hb : b.isNaN = false) :
    a.compare b = some .lt ↔ place a < place b := by
  rcases a with (_ | _) | _ | _ | ⟨_ | _, m₁, e₁, h₁⟩ <;>
    rcases b with (_ | _) | _ | _ | ⟨_ | _, m₂, e₂, h₂⟩ <;>
    first
    | contradiction
    | unfold UnpackedFloat.compare place
      simp [Prod.Lex.toLex_lt_toLex, compare_sign_self, compare_negative_positive,
        compare_positive_negative, Ordering.then_eq_lt, Ordering.then_eq_gt, compare_lt_iff_lt,
        compare_gt_iff_gt]

/-- A number compares above another if its place is behind the other's. -/
theorem compare_eq_gt_iff {a b : UnpackedFloat} (ha : a.isNaN = false) (hb : b.isNaN = false) :
    a.compare b = some .gt ↔ place b < place a := by
  rcases a with (_ | _) | _ | _ | ⟨_ | _, m₁, e₁, h₁⟩ <;>
    rcases b with (_ | _) | _ | _ | ⟨_ | _, m₂, e₂, h₂⟩ <;>
    first
    | contradiction
    | unfold UnpackedFloat.compare place
      simp [Prod.Lex.toLex_lt_toLex, compare_sign_self, compare_negative_positive,
        compare_positive_negative, Ordering.then_eq_lt, Ordering.then_eq_gt, compare_lt_iff_lt,
        compare_gt_iff_gt, @eq_comm ℤ]

/-- The place of a binary64 number on the line. -/
def placeOf (a : Float) : ℤ ×ₗ ℤ ×ₗ ℤ :=
  place a.toModel.unpack

/-- Strict comparison holds between numbers, in the order of their places. -/
theorem lt_iff (a b : Float) :
    a < b ↔ a.isNaN = false ∧ b.isNaN = false ∧ placeOf a < placeOf b := by
  show decide ((a.toModel.unpack.compare b.toModel.unpack == some .lt) = true) = true ↔
    a.toModel.unpack.isNaN = false ∧ b.toModel.unpack.isNaN = false ∧ _
  rw [decide_eq_true_iff, beq_iff_eq]
  cases ha : a.toModel.unpack.isNaN with
  | true => simp [(compare_eq_none_iff _ b.toModel.unpack).mpr (.inl ha)]
  | false =>
    cases hb : b.toModel.unpack.isNaN with
    | true => simp [(compare_eq_none_iff a.toModel.unpack _).mpr (.inr hb)]
    | false => simp [compare_eq_lt_iff ha hb, placeOf]

/-- So does comparison that allows equality. -/
theorem le_iff (a b : Float) :
    a ≤ b ↔ a.isNaN = false ∧ b.isNaN = false ∧ placeOf a ≤ placeOf b := by
  show decide ((a.toModel.unpack.compare b.toModel.unpack).any (·.isLE) = true) = true ↔
    a.toModel.unpack.isNaN = false ∧ b.toModel.unpack.isNaN = false ∧ _
  rw [decide_eq_true_iff]
  cases hc : a.toModel.unpack.compare b.toModel.unpack with
  | none =>
    rcases (compare_eq_none_iff _ _).mp hc with hn | hn <;> simp [hn]
  | some order =>
    have hn : ¬ (a.toModel.unpack.isNaN = true ∨ b.toModel.unpack.isNaN = true) := by
      rw [← compare_eq_none_iff, hc]
      exact Option.some_ne_none order
    simp only [not_or, Bool.not_eq_true] at hn
    have hgt := compare_eq_gt_iff hn.1 hn.2
    rw [hc, Option.some_inj] at hgt
    rw [Option.any_some, ← Ordering.ne_gt_iff_isLE, hgt, not_lt]
    simp only [hn.1, hn.2, true_and, placeOf]

end Binary64

/-- In binary64 the numbers are what is not NaN. -/
theorem isNumber_iff_isNaN (a : Float) : Weight.IsNumber a ↔ a.isNaN = false := by
  rw [Weight.IsNumber, Binary64.le_iff]
  simp

instance : Weight.Ordered Float where
  lt_irrefl a h := lt_irrefl _ ((Binary64.lt_iff a a).mp h).2.2
  lt_trans {a b c} hab hbc := by
    obtain ⟨ha, -, hab⟩ := (Binary64.lt_iff a b).mp hab
    obtain ⟨-, hc, hbc⟩ := (Binary64.lt_iff b c).mp hbc
    exact (Binary64.lt_iff a c).mpr ⟨ha, hc, hab.trans hbc⟩
  le_trans {a b c} hab hbc := by
    obtain ⟨ha, -, hab⟩ := (Binary64.le_iff a b).mp hab
    obtain ⟨-, hc, hbc⟩ := (Binary64.le_iff b c).mp hbc
    exact (Binary64.le_iff a c).mpr ⟨ha, hc, hab.trans hbc⟩
  le_of_lt {a b} hab := by
    obtain ⟨ha, hb, hab⟩ := (Binary64.lt_iff a b).mp hab
    exact (Binary64.le_iff a b).mpr ⟨ha, hb, hab.le⟩
  le_iff_not_lt {a b} ha hb := by
    rw [isNumber_iff_isNaN] at ha hb
    show a ≤ b ↔ ¬ b < a
    rw [Binary64.le_iff, Binary64.lt_iff]
    simp only [ha, hb, true_and, not_lt]

end CutCover
