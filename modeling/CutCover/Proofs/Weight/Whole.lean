import CutCover.Proofs.Weight.Arithmetic

/-!
# CutCover — whole numbers in binary64

Whole numbers of up to 53 binary digits are binary64 numbers, and as long as results are that short
too, their differences and products are not rounded and they compare as they should. Scores that
count nodes and edges are therefore the exact ones on every graph that fits into a memory.

* `IsWhole`                       — a binary64 number that is a short whole number.
* `isWhole_ofNat`, `IsWhole.neg`, `IsWhole.sub`, `IsWhole.mul` — counts and exact results.
* `IsWhole.lt_of_lt`              — comparison.
-/

namespace CutCover.Binary64

open Float.Model Float.Model.UnpackedFloat

-- ---------------------------------------------------------------------------
-- Short mantissas
-- ---------------------------------------------------------------------------

namespace Normal

theorem log2_lt_of_lt {n : Nat} (h : 0 < n) (hlt : n < 2 ^ 53) : n.log2 ≤ 52 :=
  Nat.lt_succ_iff.mp ((Nat.log2_lt (Nat.ne_of_gt h)).mpr hlt)

/-- Whatever zeros are added to a short mantissa, and whatever zeros are cut off again, rounding
answers the number it stands for. -/
theorem round_ofShort {n m : Nat} {exponent : Int} {count : Nat} (h : 0 < n) (hlt : n < 2 ^ 53)
    (hm : m = n * 2 ^ (52 - n.log2 + count)) (he : exponent = -(52 - n.log2 + count : Nat))
    (henough : 52 ≤ m.log2) : round m exponent .exact henough = ofShort n 0 h hlt := by
  have hsplit : m = (ofShort n 0 h hlt).mantissa * 2 ^ count := by
    show m = n * 2 ^ (52 - n.log2) * 2 ^ count
    rw [hm, Nat.pow_add, Nat.mul_assoc]
  simp only [hsplit, round_exact]
  simp only [ofShort, Normal.mk.injEq, true_and]
  omega

/-- A short mantissa with zeros at its end. -/
theorem ofMantissa_mul_two_pow {n : Nat} (h : 0 < n) (hlt : n < 2 ^ 53) (count : Nat)
    (hpos : 0 < n * 2 ^ count) :
    ofMantissa (n * 2 ^ count) (-count) hpos = ofShort n 0 h hlt := by
  have hlog := log2_lt_of_lt h hlt
  have hlog' := log2_mul_two_pow (Nat.ne_of_gt h) count
  have hzeros : count + (52 - (n * 2 ^ count).log2)
      = 52 - n.log2 + (n.log2 + count - 52) := by omega
  have hm : n * 2 ^ count * 2 ^ (52 - (n * 2 ^ count).log2)
      = n * 2 ^ (52 - n.log2 + (n.log2 + count - 52)) := by
    rw [Nat.mul_assoc, ← Nat.pow_add, hzeros]
  exact round_ofShort h hlt hm (by omega) _

/-- The order of short mantissas. -/
theorem ofShort_lt {n n' : Nat} (h : 0 < n) (hlt : n < 2 ^ 53) (h' : 0 < n') (hlt' : n' < 2 ^ 53)
    (hless : n < n') :
    (ofShort n 0 h hlt).exponent < (ofShort n' 0 h' hlt').exponent ∨
    (ofShort n 0 h hlt).exponent = (ofShort n' 0 h' hlt').exponent ∧
      (ofShort n 0 h hlt).mantissa < (ofShort n' 0 h' hlt').mantissa := by
  have hlog := log2_lt_of_lt h' hlt'
  have hmono : n.log2 ≤ n'.log2 :=
    (Nat.le_log2 (Nat.ne_of_gt h')).mpr ((Nat.log2_self_le (Nat.ne_of_gt h)).trans hless.le)
  show (0 : Int) - (52 - n.log2 : Nat) < 0 - (52 - n'.log2 : Nat) ∨
    (0 : Int) - (52 - n.log2 : Nat) = 0 - (52 - n'.log2 : Nat) ∧
      n * 2 ^ (52 - n.log2) < n' * 2 ^ (52 - n'.log2)
  rcases Nat.lt_or_eq_of_le hmono with hshorter | hsame
  · exact .inl (by omega)
  · rw [hsame]
    exact .inr ⟨rfl, Nat.mul_lt_mul_of_pos_right hless (Nat.two_pow_pos _)⟩

end Normal

-- ---------------------------------------------------------------------------
-- Whole numbers
-- ---------------------------------------------------------------------------

/-- What a whole number of at most 53 digits is read as. -/
inductive Stands : UnpackedFloat → Int → Prop
  | zero (sign : Sign) : Stands (.zero sign) 0
  | nonzero (sign : Sign) {n : Nat} (h : 0 < n) (hlt : n < 2 ^ 53) :
    Stands ((Normal.ofShort n 0 h hlt).signed sign) (sign.apply n)

/-- The number is whole and has at most 53 digits. -/
def IsWhole (a : Float) (value : Int) : Prop :=
  Stands a.toModel.unpack value

namespace Stands

variable {a b : UnpackedFloat} {x y : Int}

/-- Whole numbers are stored as they are. -/
theorem unpack_pack (h : Stands a x) : (Float.Model.pack a).unpack = a := by
  cases h with
  | zero sign => cases sign <;> rfl
  | nonzero sign h hlt =>
    refine unpack_pack_normal sign ?_ ?_
    · show -1074 ≤ (0 : Int) - (52 - _ : Nat)
      omega
    · show (0 : Int) - (52 - _ : Nat) ≤ 971
      omega

theorem neg (h : Stands a x) : Stands a.neg (-x) := by
  cases h with
  | zero sign => exact .zero (-sign)
  | @nonzero sign n h hlt =>
    have hsign : (-sign).apply (n : Int) = -sign.apply n := by
      cases sign
      · exact (Int.neg_neg (n : Int)).symm
      · rfl
    rw [← hsign]
    exact .nonzero (-sign) h hlt

/-- A short mantissa with zeros at its end and either sign needs no rounding. -/
theorem round (sign : Sign) {n : Nat} (h : 0 < n) (hlt : n < 2 ^ 53) (count : Nat) :
    Stands (UnpackedFloat.round Format.binary64 sign (n * 2 ^ count) (-count)) (sign.apply n) := by
  have hpos : 0 < n * 2 ^ count := Nat.mul_pos h (Nat.two_pow_pos count)
  have hlog := log2_mul_two_pow (Nat.ne_of_gt h) count
  rw [round_eq sign hpos (by omega), Normal.ofMantissa_mul_two_pow h hlt count hpos]
  exact .nonzero sign h hlt

/-- Neither does a whole number. -/
theorem normalize {value : Int} (h : value.natAbs < 2 ^ 53) (count : Nat) :
    Stands (UnpackedFloat.normalize Format.binary64 (value * 2 ^ count) (-count) .positive)
      value := by
  have hpow : (0 : Int) < 2 ^ count := Int.pow_pos (by decide)
  rcases Int.lt_trichotomy value 0 with hneg | rfl | hpos
  · have hless : value * 2 ^ count < 0 := Int.mul_neg_of_neg_of_pos hneg hpow
    have hmagnitude : (-(value * 2 ^ count)).toNat = value.natAbs * 2 ^ count := by
      have hcast : ((value.natAbs * 2 ^ count : Nat) : Int) = -(value * 2 ^ count) := by
        rw [Int.natCast_mul, Int.natCast_pow, Int.ofNat_natAbs_of_nonpos hneg.le, Int.neg_mul]
        rfl
      omega
    have hvalue : Sign.negative.apply value.natAbs = value := by
      show -(value.natAbs : Int) = value
      omega
    have hround := round .negative (show 0 < value.natAbs by omega) h count
    rw [UnpackedFloat.normalize, compare_lt_iff_lt.mpr hless]
    rwa [hvalue, ← hmagnitude] at hround
  · rw [Int.zero_mul]
    exact .zero .positive
  · have hmagnitude : value * 2 ^ count = (value.natAbs * 2 ^ count : Nat) := by
      rw [Int.natCast_mul, Int.natCast_pow, Int.natAbs_of_nonneg hpos.le]
      rfl
    have hvalue : Sign.positive.apply value.natAbs = value := Int.natAbs_of_nonneg hpos.le
    have hround := round .positive (show 0 < value.natAbs by omega) h count
    rw [hmagnitude, normalize_of_pos (Nat.mul_pos (by omega) (Nat.two_pow_pos count))]
    rwa [hvalue] at hround

/-- A short mantissa brought to a smaller exponent. -/
theorem apply_decreaseExponent (sign : Sign) {n : Nat} (h : 0 < n) (hlt : n < 2 ^ 53)
    {exponent : Int} (he : exponent ≤ (Normal.ofShort n 0 h hlt).exponent) :
    sign.apply (decreaseExponent (Normal.ofShort n 0 h hlt).mantissa
        (Normal.ofShort n 0 h hlt).exponent exponent).1
      = sign.apply n * 2 ^ (-exponent).toNat := by
  have hzeros : 52 - n.log2 + ((0 : Int) - (52 - n.log2 : Nat) - exponent).toNat
      = (-exponent).toNat := by
    change exponent ≤ (0 : Int) - (52 - n.log2 : Nat) at he
    omega
  have hmantissa : (decreaseExponent (Normal.ofShort n 0 h hlt).mantissa
      (Normal.ofShort n 0 h hlt).exponent exponent).1 = n * 2 ^ (-exponent).toNat := by
    show (n * 2 ^ (52 - n.log2)) <<< ((0 : Int) - (52 - n.log2 : Nat) - exponent).toNat = _
    rw [Nat.shiftLeft_eq, Nat.mul_assoc, ← Nat.pow_add, hzeros]
  rw [hmantissa]
  cases sign <;> simp [Sign.apply]

/-- The difference of whole numbers is the exact one, if it is short. -/
theorem sub (ha : Stands a x) (hb : Stands b y) (h : (x - y).natAbs < 2 ^ 53) :
    Stands (UnpackedFloat.sub Format.binary64 a b) (x - y) := by
  cases ha with
  | zero sign =>
    cases hb with
    | zero sign' => cases sign <;> cases sign' <;> exact .zero _
    | nonzero sign' hn' hlt' =>
      rw [Int.zero_sub]
      exact (Stands.nonzero sign' hn' hlt').neg
  | @nonzero sign n hn hlt =>
    cases hb with
    | zero sign' =>
      rw [Int.sub_zero]
      exact .nonzero sign hn hlt
    | @nonzero sign' n' hn' hlt' =>
      -- both are brought to the smaller exponent, where they differ by the exact difference
      have hexact := normalize h
        (-min (Normal.ofShort n 0 hn hlt).exponent (Normal.ofShort n' 0 hn' hlt').exponent).toNat
      have hexponent : -((-min (Normal.ofShort n 0 hn hlt).exponent
          (Normal.ofShort n' 0 hn' hlt').exponent).toNat : Int)
          = min (Normal.ofShort n 0 hn hlt).exponent (Normal.ofShort n' 0 hn' hlt').exponent := by
        have hle : (Normal.ofShort n 0 hn hlt).exponent ≤ 0 := by
          show (0 : Int) - (52 - n.log2 : Nat) ≤ 0
          omega
        omega
      rw [hexponent, Int.sub_mul, ← apply_decreaseExponent sign hn hlt (by omega),
        ← apply_decreaseExponent sign' hn' hlt' (by omega)] at hexact
      exact hexact

/-- And so is the product. -/
theorem mul (ha : Stands a x) (hb : Stands b y) (h : (x * y).natAbs < 2 ^ 53) :
    Stands (UnpackedFloat.mul Format.binary64 a b) (x * y) := by
  cases ha with
  | zero sign =>
    rw [Int.zero_mul]
    cases hb with
    | zero sign' => exact .zero _
    | nonzero sign' hn' hlt' => exact .zero _
  | @nonzero sign n hn hlt =>
    cases hb with
    | zero sign' =>
      rw [Int.mul_zero]
      exact .zero _
    | @nonzero sign' n' hn' hlt' =>
      have hvalue : sign.apply n * sign'.apply n' = (sign * sign').apply (n * n' : Nat) := by
        rw [Int.natCast_mul]
        cases sign <;> cases sign'
        · exact Int.neg_mul_neg n n'
        · exact Int.neg_mul n n'
        · exact Int.mul_neg n n'
        · rfl
      have hpos : 0 < n * n' := Nat.mul_pos hn hn'
      have hshort : n * n' < 2 ^ 53 := by
        rw [hvalue] at h
        revert h
        cases sign * sign' <;> simp only [Sign.apply] <;> omega
      -- the product of the mantissas has all the digits, and zeros at its end
      have hlog := Normal.log2_lt_of_lt hn hlt
      have hlog' := Normal.log2_lt_of_lt hn' hlt'
      have hlog'' := Normal.log2_lt_of_lt hpos hshort
      have hdigits : n.log2 + n'.log2 ≤ (n * n').log2 := by
        rw [Nat.le_log2 (Nat.ne_of_gt hpos), Nat.pow_add]
        exact Nat.mul_le_mul (Nat.log2_self_le (Nat.ne_of_gt hn))
          (Nat.log2_self_le (Nat.ne_of_gt hn'))
      have hmantissa : n * 2 ^ (52 - n.log2) * (n' * 2 ^ (52 - n'.log2))
          = n * n' * 2 ^ (52 - (n * n').log2 + (52 + (n * n').log2 - n.log2 - n'.log2)) := by
        rw [Nat.mul_mul_mul_comm, ← Nat.pow_add]
        congr 2
        omega
      have htotal : (n * 2 ^ (52 - n.log2) * (n' * 2 ^ (52 - n'.log2))).log2
          = (n * n').log2 + (52 - (n * n').log2
            + (52 + (n * n').log2 - n.log2 - n'.log2)) := by
        rw [hmantissa, log2_mul_two_pow (Nat.ne_of_gt hpos)]
      have hrounded : UnpackedFloat.mul Format.binary64
          ((Normal.ofShort n 0 hn hlt).signed sign) ((Normal.ofShort n' 0 hn' hlt').signed sign')
          = (Normal.ofShort (n * n') 0 hpos hshort).signed (sign * sign') := by
        show roundWithAccuracy Format.binary64 _ (n * 2 ^ (52 - n.log2) * (n' * 2 ^ (52 - n'.log2)))
          (0 - (52 - n.log2 : Nat) + (0 - (52 - n'.log2 : Nat))) .exact = _
        rw [roundWithAccuracy_eq _ _ (by omega) (by omega),
          Normal.round_ofShort hpos hshort hmantissa (by omega)]
      rw [hvalue, hrounded]
      exact .nonzero _ hpos hshort

theorem place_lt (ha : Stands a x) (hb : Stands b y) (h : x < y) : place a < place b := by
  cases ha with
  | zero sign =>
    cases hb with
    | zero sign' => omega
    | @nonzero sign' n' h' hlt' =>
      cases sign' <;> simp only [Sign.apply] at h
      · omega
      · simp [place_zero, Normal.place_signed, Sign.apply, Prod.Lex.toLex_lt_toLex]
  | @nonzero sign n hn hlt =>
    cases hb with
    | zero sign' =>
      cases sign <;> simp only [Sign.apply] at h
      · simp [place_zero, Normal.place_signed, Sign.apply, Prod.Lex.toLex_lt_toLex]
      · omega
    | @nonzero sign' n' hn' hlt' =>
      cases sign <;> cases sign' <;> simp only [Sign.apply] at h
      · have hlex := Normal.ofShort_lt hn' hlt' hn hlt (by omega)
        simp only [Normal.place_signed, Sign.apply, Prod.Lex.toLex_lt_toLex, lt_self_iff_false,
          neg_lt_neg_iff, neg_inj, Nat.cast_lt, true_and, false_or]
        omega
      · simp [Normal.place_signed, Sign.apply, Prod.Lex.toLex_lt_toLex]
      · omega
      · have hlex := Normal.ofShort_lt hn hlt hn' hlt' (by omega)
        simp only [Normal.place_signed, Sign.apply, Prod.Lex.toLex_lt_toLex, lt_self_iff_false,
          Nat.cast_lt, true_and, false_or]
        omega

theorem isNaN_eq_false (h : Stands a x) : a.isNaN = false := by
  cases h <;> rfl

end Stands

-- ---------------------------------------------------------------------------
-- Arithmetic
-- ---------------------------------------------------------------------------

/-- Short counts are whole numbers. -/
theorem isWhole_ofNat {n : Nat} (h : n < 2 ^ 53) : IsWhole (Float.ofNat n) n := by
  rcases Nat.eq_zero_or_pos n with rfl | hpos
  · exact Stands.zero .positive
  · have hread := unpack_ofNat hpos (by omega)
    rw [Normal.ofNat_of_lt hpos h] at hread
    show Stands (Float.ofNat n).toModel.unpack n
    rw [hread]
    exact .nonzero .positive hpos h

namespace IsWhole

variable {a b : Float} {x y : Int}

theorem neg (h : IsWhole a x) : IsWhole (-a) (-x) := by
  show Stands (Float.Model.pack a.toModel.unpack.neg).unpack (-x)
  rw [(Stands.neg h).unpack_pack]
  exact Stands.neg h

theorem sub (ha : IsWhole a x) (hb : IsWhole b y) (h : (x - y).natAbs < 2 ^ 53) :
    IsWhole (a - b) (x - y) := by
  have hsub := Stands.sub ha hb h
  show Stands (Float.Model.pack (UnpackedFloat.sub Format.binary64 a.toModel.unpack
    b.toModel.unpack)).unpack (x - y)
  rwa [hsub.unpack_pack]

theorem mul (ha : IsWhole a x) (hb : IsWhole b y) (h : (x * y).natAbs < 2 ^ 53) :
    IsWhole (a * b) (x * y) := by
  have hmul := Stands.mul ha hb h
  show Stands (Float.Model.pack (UnpackedFloat.mul Format.binary64 a.toModel.unpack
    b.toModel.unpack)).unpack (x * y)
  rwa [hmul.unpack_pack]

theorem isNumber (h : IsWhole a x) : Weight.IsNumber a :=
  (isNumber_iff_isNaN a).mpr (Stands.isNaN_eq_false h)

/-- Whole numbers compare as they should. -/
theorem lt_of_lt (ha : IsWhole a x) (hb : IsWhole b y) (h : x < y) : a < b :=
  (Binary64.lt_iff a b).mpr
    ⟨Stands.isNaN_eq_false ha, Stands.isNaN_eq_false hb, Stands.place_lt ha hb h⟩

end IsWhole

end CutCover.Binary64
