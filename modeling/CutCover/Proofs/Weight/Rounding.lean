import CutCover.Proofs.Weight.Order

/-!
# CutCover — rounding to binary64

Sums, products and quotients of binary64 numbers are exact results rounded to 53 binary digits. A
result with digits enough is cut down to its first 53, with two bits for what is cut off, and these
two decide whether it is rounded up. Nothing is lost in comparisons that way: a larger number has no
smaller key, and rounding follows the key.

* `Normal`                   — a mantissa of 53 digits at an exponent, and the order of these.
* `unpack_pack_normal`       — normal numbers are stored as they are, or as infinity.
* `key`, `roundedMantissa_mono` — the order of cut-off numbers.
* `Normal.round`, `roundWithAccuracy_eq` — what rounding answers.
* `Normal.round_mono`, `Normal.round_exact` — it keeps the order, and what needs no rounding.
* `unpack_ofNat`             — counts as binary64 numbers.
-/

namespace CutCover.Binary64

open Float.Model Float.Model.UnpackedFloat

-- ---------------------------------------------------------------------------
-- Normal numbers
-- ---------------------------------------------------------------------------

/-- A mantissa of 53 binary digits at an exponent. -/
structure Normal where
  mantissa : Nat
  exponent : Int
  le_mantissa : 2 ^ 52 ≤ mantissa
  mantissa_lt : mantissa < 2 ^ 53

namespace Normal

/-- Numbers are in the order of their exponents, and of their mantissas at the same exponent. -/
instance : LE Normal where
  le a b := a.exponent < b.exponent ∨ a.exponent = b.exponent ∧ a.mantissa ≤ b.mantissa

/-- The number two to the power `52 + exponent`. -/
def power (exponent : Int) : Normal where
  mantissa := 2 ^ 52
  exponent
  le_mantissa := Nat.le_refl _
  mantissa_lt := by decide

theorem mantissa_pos (a : Normal) : 0 < a.mantissa :=
  Nat.lt_of_lt_of_le (Nat.two_pow_pos 52) a.le_mantissa

/-- The number with a sign. -/
def signed (sign : Sign) (a : Normal) : UnpackedFloat :=
  .finite sign a.mantissa a.exponent a.mantissa_pos

theorem place_signed (sign : Sign) (a : Normal) : place (a.signed sign)
    = toLex (sign.apply 1, toLex (sign.apply a.exponent, sign.apply a.mantissa)) := by
  cases sign <;> rfl

protected theorem le_trans {a b c : Normal} (hab : a ≤ b) (hbc : b ≤ c) : a ≤ c := by
  rcases hab with hab | hab <;> rcases hbc with hbc | hbc
  · exact .inl (by omega)
  · exact .inl (by omega)
  · exact .inl (by omega)
  · exact .inr (by omega)

theorem exponent_le {a b : Normal} (h : a ≤ b) : a.exponent ≤ b.exponent := by
  rcases h with h | h <;> omega

theorem power_le_power {e f : Int} (h : e ≤ f) : power e ≤ power f := by
  rcases Int.lt_or_eq_of_le h with hlt | rfl
  · exact .inl hlt
  · exact .inr ⟨rfl, Nat.le_refl _⟩

theorem log2_mantissa (a : Normal) : a.mantissa.log2 = 52 :=
  (Nat.log2_eq_iff (Nat.ne_of_gt a.mantissa_pos)).mpr ⟨a.le_mantissa, a.mantissa_lt⟩

end Normal

-- ---------------------------------------------------------------------------
-- Stored numbers
-- ---------------------------------------------------------------------------

theorem unpackSign_packComponents (sign : Sign) (exponent : BitVec 11) (mantissa : BitVec 52) :
    unpackSign (packComponents Format.binary64 sign exponent mantissa) = sign.toBitVec := by
  show (sign.toBitVec ++ exponent ++ mantissa).extractLsb' 63 1 = sign.toBitVec
  rw [BitVec.extractLsb'_append_eq_of_le (by decide), BitVec.extractLsb'_append_eq_of_le (by decide)]
  cases sign <;> rfl

/-- What is read from a sign, an exponent other than the two reserved ones, and a mantissa. -/
theorem unpack_packComponents (sign : Sign) {exponent : BitVec 11} (mantissa : BitVec 52)
    (hzero : exponent ≠ 0#11) (hones : exponent ≠ -1#11) :
    UnpackedFloat.unpack Format.binary64 (packComponents Format.binary64 sign exponent mantissa)
      = .finite sign (2 ^ 52 + mantissa.toNat) (exponent.toNat - 1075) (by omega) := by
  have hsign : Sign.ofBitVec sign.toBitVec = sign := by cases sign <;> rfl
  have hmantissa : (1#1 ++ mantissa).toNat = 2 ^ 52 + mantissa.toNat := by
    rw [BitVec.toNat_append]
    exact Nat.two_pow_add_eq_or_of_lt mantissa.isLt 1 |>.symm
  unfold UnpackedFloat.unpack
  dsimp only
  rw [unpackExponent_packComponents, if_neg hones, if_neg hzero, UnpackedFloat.finite.injEq,
    unpackSign_packComponents, unpackMantissa_packComponents, hsign, hmantissa]
  exact ⟨rfl, rfl, rfl⟩

/-- A normal number is stored as it is if its exponent is neither too small nor too large. -/
theorem unpack_pack_normal (sign : Sign) {a : Normal} (hlow : -1074 ≤ a.exponent)
    (hhigh : a.exponent ≤ 971) : (Float.Model.pack (a.signed sign)).unpack = a.signed sign := by
  have hlt := a.mantissa_lt
  have hle := a.le_mantissa
  have hbias : a.exponent + (Format.binary64.exponentBias : Int)
      + Format.binary64.mantissaBitsWithoutImplicit = a.exponent + 1075 := by
    show a.exponent + 1023 + 52 = a.exponent + 1075
    omega
  have htoNat : (BitVec.ofNat 11 (a.exponent + 1075).toNat).toNat = (a.exponent + 1075).toNat := by
    rw [BitVec.toNat_ofNat]
    omega
  have hmantissa : (BitVec.ofNat 52 a.mantissa).toNat = a.mantissa - 2 ^ 52 := by
    rw [BitVec.toNat_ofNat]
    omega
  have hpack : UnpackedFloat.pack Format.binary64 (a.signed sign)
      = packComponents Format.binary64 sign (BitVec.ofNat 11 (a.exponent + 1075).toNat)
          (BitVec.ofNat 52 a.mantissa) := by
    have hfits : ¬ 2 ^ Format.binary64.exponentBits ≤ (a.exponent + 1075).toNat + 1 := by
      show ¬ 2 ^ 11 ≤ (a.exponent + 1075).toNat + 1
      omega
    unfold Normal.signed UnpackedFloat.pack
    simp only [hbias, hfits, if_false, a.log2_mantissa]
    rfl
  show UnpackedFloat.unpack Format.binary64 (UnpackedFloat.pack Format.binary64 _) = _
  rw [hpack, unpack_packComponents]
  · unfold Normal.signed
    rw [UnpackedFloat.finite.injEq, htoNat, hmantissa]
    exact ⟨rfl, by omega, by omega⟩
  all_goals
    intro h
    have hnat := congrArg BitVec.toNat h
    rw [htoNat] at hnat
    simp only [BitVec.toNat_ofNat, BitVec.toNat_neg, Nat.reducePow, Nat.reduceMod,
      Nat.reduceSub] at hnat
    omega

/-- It is stored as infinity if its exponent is too large. -/
theorem unpack_pack_overflow (sign : Sign) {a : Normal} (h : 971 < a.exponent) :
    (Float.Model.pack (a.signed sign)).unpack = .infinity sign := by
  have hoverflow : 2 ^ Format.binary64.exponentBits
      ≤ (a.exponent + Format.binary64.exponentBias
          + Format.binary64.mantissaBitsWithoutImplicit).toNat + 1 := by
    show 2 ^ 11 ≤ (a.exponent + 1023 + 52).toNat + 1
    omega
  show UnpackedFloat.unpack Format.binary64 (UnpackedFloat.pack Format.binary64 _) = _
  unfold Normal.signed UnpackedFloat.pack
  simp only [hoverflow, if_true]
  cases sign <;> rfl

-- ---------------------------------------------------------------------------
-- Cut-off numbers
-- ---------------------------------------------------------------------------

/-- The digits kept and the two bits for the rest, as one number. -/
def key (em : ExtendedMantissa) : Nat :=
  4 * em.mantissa + 2 * em.roundBit.toNat + em.stickyBit.toNat

theorem key_shiftRightOne_mono {em other : ExtendedMantissa} (h : key em ≤ key other) :
    key em.shiftRightOne ≤ key other.shiftRightOne := by
  obtain ⟨m, r, s⟩ := em
  obtain ⟨m', r', s'⟩ := other
  have hround : ∀ n : Nat, (n % 2 != 0).toNat = n % 2 := by
    intro n
    rcases Nat.mod_two_eq_zero_or_one n with hn | hn <;> rw [hn] <;> rfl
  simp only [key, ExtendedMantissa.shiftRightOne, hround] at h ⊢
  cases r <;> cases s <;> cases r' <;> cases s' <;>
    simp only [Bool.toNat_true, Bool.toNat_false, Bool.or_true, Bool.or_false] at h ⊢ <;> omega

/-- Cutting off digits keeps the order. -/
theorem key_shiftRight_mono {em other : ExtendedMantissa} (h : key em ≤ key other) (count : Nat) :
    key (em >>> count) ≤ key (other >>> count) := by
  induction count with
  | zero => exact h
  | succ count ih => exact key_shiftRightOne_mono ih

/-- So does rounding. -/
theorem roundedMantissa_mono {em other : ExtendedMantissa} (h : key em ≤ key other) :
    em.roundedMantissa ≤ other.roundedMantissa := by
  obtain ⟨m, r, s⟩ := em
  obtain ⟨m', r', s'⟩ := other
  cases r <;> cases s <;> cases r' <;> cases s' <;>
    simp only [key, Bool.toNat_true, Bool.toNat_false, ExtendedMantissa.roundedMantissa,
      ExtendedMantissa.accuracy, Accuracy.roundToNearestEven] at h ⊢ <;> omega

/-- Rounding adds one to the digits kept, or nothing. -/
theorem roundedMantissa_cases (em : ExtendedMantissa) :
    em.roundedMantissa = em.mantissa ∨ em.roundedMantissa = em.mantissa + 1 := by
  obtain ⟨m, r, s⟩ := em
  cases r <;> cases s <;>
    simp [ExtendedMantissa.roundedMantissa, ExtendedMantissa.accuracy, Accuracy.roundToNearestEven]
  omega

theorem mantissa_shiftRight (em : ExtendedMantissa) (count : Nat) :
    (em >>> count).mantissa = em.mantissa / 2 ^ count := by
  induction count with
  | zero => exact (Nat.div_one _).symm
  | succ count ih =>
    show (em >>> count).mantissa / 2 = _
    rw [ih, Nat.div_div_eq_div_mul, Nat.pow_succ]

theorem mantissa_ofMantissaAndAccuracy (m : Nat) (accuracy : Accuracy) :
    (ExtendedMantissa.ofMantissaAndAccuracy m accuracy).mantissa = m := by
  rcases accuracy with _ | _ | _ | _ <;> rfl

theorem log2_mul_two_pow {m : Nat} (h : m ≠ 0) (count : Nat) :
    (m * 2 ^ count).log2 = m.log2 + count := by
  induction count with
  | zero => rw [Nat.pow_zero, Nat.mul_one, Nat.add_zero]
  | succ count ih =>
    have hne : m * 2 ^ count ≠ 0 := Nat.mul_ne_zero h (Nat.ne_of_gt (Nat.two_pow_pos count))
    rw [Nat.pow_succ, ← Nat.mul_assoc, Nat.mul_comm _ 2, Nat.log2_two_mul hne, ih, Nat.add_assoc]

/-- Nothing is lost where only zeros are cut off. -/
theorem exact_shiftRight (m count : Nat) :
    ExtendedMantissa.ofMantissaAndAccuracy (m * 2 ^ count) .exact >>> count
      = ⟨m, false, false⟩ := by
  induction count generalizing m with
  | zero => rw [Nat.pow_zero, Nat.mul_one]; rfl
  | succ count ih =>
    show (ExtendedMantissa.ofMantissaAndAccuracy (m * 2 ^ (count + 1)) .exact
      >>> count).shiftRightOne = _
    rw [Nat.pow_succ', ← Nat.mul_assoc, ih]
    simp [ExtendedMantissa.shiftRightOne]

-- ---------------------------------------------------------------------------
-- Rounding
-- ---------------------------------------------------------------------------

/-- The first 53 digits of a mantissa that has as many. -/
def leading (m : Nat) (accuracy : Accuracy) : ExtendedMantissa :=
  ExtendedMantissa.ofMantissaAndAccuracy m accuracy >>> (m.log2 - 52)

theorem leading_bounds {m : Nat} (h : 52 ≤ m.log2) (accuracy : Accuracy) :
    2 ^ 52 ≤ (leading m accuracy).mantissa ∧ (leading m accuracy).mantissa < 2 ^ 53 := by
  have hne : m ≠ 0 := by
    rintro rfl
    simp at h
  have hlow := Nat.log2_self_le hne
  have hhigh := Nat.lt_log2_self (n := m)
  have hsplit : m.log2 = 52 + (m.log2 - 52) := by omega
  rw [leading, mantissa_shiftRight, mantissa_ofMantissaAndAccuracy]
  constructor
  · rw [Nat.le_div_iff_mul_le (Nat.two_pow_pos _), ← Nat.pow_add, ← hsplit]
    exact hlow
  · rw [Nat.div_lt_iff_lt_mul (Nat.two_pow_pos _), ← Nat.pow_add]
    exact hhigh.trans_eq (by congr 1; omega)

/-- The normal number that 53 digits and the rest are rounded to. If all digits are ones and one is
added, there is one digit more, and the exponent grows. -/
def Normal.ofExtended (em : ExtendedMantissa) (exponent : Int) (hlow : 2 ^ 52 ≤ em.mantissa) :
    Normal :=
  if h : em.roundedMantissa < 2 ^ 53 then
    ⟨em.roundedMantissa, exponent, by rcases roundedMantissa_cases em with h | h <;> omega, h⟩
  else .power (exponent + 1)

/-- A number with 53 digits or more is rounded to a normal number. -/
def Normal.round (m : Nat) (exponent : Int) (accuracy : Accuracy) (h : 52 ≤ m.log2) : Normal :=
  .ofExtended (leading m accuracy) (exponent + (m.log2 - 52 : Nat)) (leading_bounds h accuracy).1

theorem targetExponent_eq (total : Int) :
    Format.binary64.targetExponent total = max (total - 53) (-1074) :=
  rfl

/-- Digits that are not too many are not shifted. -/
theorem shiftToTargetExponent_of_lt {m : Nat} {exponent : Int} (h : m < 2 ^ 53)
    (he : -1074 ≤ exponent) :
    shiftToTargetExponent Format.binary64 m exponent .exact = (⟨m, false, false⟩, exponent) := by
  have hlog : m.log2 ≤ 52 := by
    rcases Nat.eq_zero_or_pos m with rfl | hpos
    · decide
    · exact Nat.lt_succ_iff.mp ((Nat.log2_lt (Nat.ne_of_gt hpos)).mpr h)
  have hshift : (max (totalExponent m exponent - 53) (-1074) - exponent).toNat = 0 := by
    rw [totalExponent]
    omega
  rw [shiftToTargetExponent, targetExponent_eq, shiftToExponent, hshift]
  simp [ExtendedMantissa.ofMantissaAndAccuracy, HShiftRight.hShiftRight, Nat.repeat]

/-- If there is one digit more than fits, it is shifted out. -/
theorem shiftToTargetExponent_carry {exponent : Int} (he : -1074 ≤ exponent) :
    shiftToTargetExponent Format.binary64 (2 ^ 53) exponent .exact
      = (⟨2 ^ 52, false, false⟩, exponent + 1) := by
  have hshift : (max (totalExponent (2 ^ 53) exponent - 53) (-1074) - exponent).toNat = 1 := by
    rw [totalExponent, Nat.log2_two_pow]
    omega
  rw [shiftToTargetExponent, targetExponent_eq, shiftToExponent, hshift]
  rfl

/-- Rounding answers a normal number if there are digits enough, and the number is not too small. -/
theorem roundWithAccuracy_eq (sign : Sign) {m : Nat} {exponent : Int} (accuracy : Accuracy)
    (h : 52 ≤ m.log2) (he : -1074 ≤ exponent + (m.log2 - 52 : Nat)) :
    roundWithAccuracy Format.binary64 sign m exponent accuracy
      = (Normal.round m exponent accuracy h).signed sign := by
  have hfirst : shiftToTargetExponent Format.binary64 m exponent accuracy
      = (leading m accuracy, exponent + (m.log2 - 52 : Nat)) := by
    have hshift : (max (totalExponent m exponent - 53) (-1074) - exponent).toNat
        = m.log2 - 52 := by
      rw [totalExponent]
      omega
    rw [shiftToTargetExponent, targetExponent_eq, shiftToExponent, hshift, leading]
  obtain ⟨hlow, hhigh⟩ := leading_bounds h accuracy
  have hcases := roundedMantissa_cases (leading m accuracy)
  rw [roundWithAccuracy, hfirst, Normal.round, Normal.ofExtended]
  dsimp only
  by_cases hlt : (leading m accuracy).roundedMantissa < 2 ^ 53
  · have hpos : (leading m accuracy).roundedMantissa ≠ 0 := by omega
    rw [dif_pos hlt, shiftToTargetExponent_of_lt hlt he]
    exact dif_neg hpos
  · have hcarry : (leading m accuracy).roundedMantissa = 2 ^ 53 := by omega
    rw [dif_neg hlt, hcarry, shiftToTargetExponent_carry he]
    rfl

namespace Normal

/-- What is rounded stays between the two powers of two around it. -/
theorem power_le_round {m : Nat} (exponent : Int) (accuracy : Accuracy) (h : 52 ≤ m.log2) :
    power (exponent + (m.log2 - 52 : Nat)) ≤ round m exponent accuracy h := by
  rw [round, ofExtended]
  split
  · next hlt =>
    have hlow := (leading_bounds h accuracy).1
    refine .inr ⟨rfl, ?_⟩
    show 2 ^ 52 ≤ (leading m accuracy).roundedMantissa
    rcases roundedMantissa_cases (leading m accuracy) with hr | hr <;> omega
  · refine .inl ?_
    show exponent + _ < exponent + _ + 1
    omega

theorem round_le_power {m : Nat} (exponent : Int) (accuracy : Accuracy) (h : 52 ≤ m.log2) :
    round m exponent accuracy h ≤ power (exponent + (m.log2 - 52 : Nat) + 1) := by
  rw [round, ofExtended]
  split
  · refine .inl ?_
    show exponent + _ < exponent + _ + 1
    omega
  · exact .inr ⟨rfl, Nat.le_refl _⟩

/-- A larger exact result is not rounded to a smaller number. -/
theorem round_mono {m m' : Nat} {exponent : Int} (h : 52 ≤ m.log2) (h' : 52 ≤ m'.log2)
    (hle : m ≤ m') : round m exponent .exact h ≤ round m' exponent .exact h' := by
  have hne : m ≠ 0 := by
    rintro rfl
    simp at h
  have hlog : m.log2 ≤ m'.log2 :=
    (Nat.le_log2 (by omega)).mpr ((Nat.log2_self_le hne).trans hle)
  rcases Nat.lt_or_eq_of_le hlog with hlt | heq
  · -- a power of two lies between the two
    have hbetween := power_le_power (show exponent + (m.log2 - 52 : Nat) + 1
      ≤ exponent + (m'.log2 - 52 : Nat) by omega)
    exact Normal.le_trans (round_le_power _ _ h) (Normal.le_trans hbetween (power_le_round _ _ h'))
  · have hkey : key (leading m .exact) ≤ key (leading m' .exact) := by
      rw [leading, leading, heq]
      refine key_shiftRight_mono ?_ _
      simpa [key, ExtendedMantissa.ofMantissaAndAccuracy] using Nat.mul_le_mul_left 4 hle
    have hmono := roundedMantissa_mono hkey
    rw [round, round, ofExtended, ofExtended, heq]
    split
    · split
      · exact .inr ⟨rfl, hmono⟩
      · exact .inl (Int.lt_succ _)
    · next hcarry => rw [dif_neg (by omega)]; exact .inr ⟨rfl, Nat.le_refl _⟩

/-- Where only zeros are cut off, rounding changes nothing. -/
theorem round_exact (a : Normal) (count : Nat) (exponent : Int)
    (h : 52 ≤ (a.mantissa * 2 ^ count).log2) :
    round (a.mantissa * 2 ^ count) exponent .exact h
      = { a with exponent := exponent + count } := by
  have hlog : (a.mantissa * 2 ^ count).log2 = 52 + count := by
    rw [log2_mul_two_pow (Nat.ne_of_gt a.mantissa_pos), a.log2_mantissa]
  have hlead : leading (a.mantissa * 2 ^ count) .exact = ⟨a.mantissa, false, false⟩ := by
    rw [leading, hlog, Nat.add_sub_cancel_left, exact_shiftRight]
  have hrounded : (leading (a.mantissa * 2 ^ count) .exact).roundedMantissa = a.mantissa := by
    rw [hlead]
    rfl
  simp only [round, ofExtended, hrounded, a.mantissa_lt, dif_pos, hlog, Nat.add_sub_cancel_left]

/-- The normal number that a positive mantissa is rounded to. Digits are added at its end until
there are enough. -/
def ofMantissa (m : Nat) (exponent : Int) (h : 0 < m) : Normal :=
  round (m * 2 ^ (52 - m.log2)) (exponent - (52 - m.log2 : Nat)) .exact
    (by rw [log2_mul_two_pow (Nat.ne_of_gt h)]; omega)

theorem power_le_ofMantissa {m : Nat} (exponent : Int) (h : 0 < m) :
    power (exponent + m.log2 - 52) ≤ ofMantissa m exponent h := by
  refine Normal.le_trans (power_le_power ?_) (power_le_round _ _ _)
  rw [log2_mul_two_pow (Nat.ne_of_gt h)]
  omega

theorem ofMantissa_le_power {m : Nat} (exponent : Int) (h : 0 < m) :
    ofMantissa m exponent h ≤ power (exponent + m.log2 - 51) := by
  refine Normal.le_trans (round_le_power _ _ _) (power_le_power ?_)
  rw [log2_mul_two_pow (Nat.ne_of_gt h)]
  omega

/-- A positive mantissa of at most 53 digits, with zeros added at its end. -/
def ofShort (m : Nat) (exponent : Int) (h : 0 < m) (hlt : m < 2 ^ 53) : Normal :=
  have hlog := log2_mul_two_pow (Nat.ne_of_gt h) (52 - m.log2)
  have hshort := Nat.lt_succ_iff.mp ((Nat.log2_lt (Nat.ne_of_gt h)).mpr hlt)
  have hbounds := (Nat.log2_eq_iff (Nat.ne_of_gt (Nat.mul_pos h (Nat.two_pow_pos _)))).mp
    (hlog.trans (Nat.add_sub_of_le hshort))
  ⟨m * 2 ^ (52 - m.log2), exponent - (52 - m.log2 : Nat), hbounds.1, hbounds.2⟩

/-- It is not rounded. -/
theorem ofMantissa_of_lt {m : Nat} {exponent : Int} (h : 0 < m) (hlt : m < 2 ^ 53) :
    ofMantissa m exponent h = ofShort m exponent h hlt := by
  have hexact := round_exact (ofShort m exponent h hlt) 0 (exponent - (52 - m.log2 : Nat))
  simp only [Nat.pow_zero, Nat.mul_one, Nat.cast_zero, Int.add_zero] at hexact
  exact hexact (Nat.le_of_eq (log2_mantissa _).symm)

end Normal

/-- Rounding a mantissa of any length answers a normal number if it is not too small. -/
theorem round_eq (sign : Sign) {m : Nat} {exponent : Int} (h : 0 < m)
    (he : -1074 ≤ exponent + m.log2 - 52) :
    UnpackedFloat.round Format.binary64 sign m exponent
      = (Normal.ofMantissa m exponent h).signed sign := by
  have hlog := log2_mul_two_pow (Nat.ne_of_gt h) (52 - m.log2)
  have hshift : (exponent - max (totalExponent m exponent - 53) (-1074)).toNat = 52 - m.log2 := by
    rw [totalExponent]
    omega
  rw [UnpackedFloat.round, targetExponent_eq, decreaseExponent, hshift]
  simp only [Nat.shiftLeft_eq]
  exact roundWithAccuracy_eq sign .exact (by omega) (by omega)

theorem normalize_of_pos {m : Nat} (h : 0 < m) (exponent : Int) (zeroSign : Sign) :
    UnpackedFloat.normalize Format.binary64 m exponent zeroSign
      = UnpackedFloat.round Format.binary64 .positive m exponent := by
  have hcompare : compare (m : Int) 0 = .gt := compare_gt_iff_gt.mpr (by omega)
  rw [UnpackedFloat.normalize, hcompare]
  rfl

/-- Multiplying by a power of two shifts the exponent. -/
theorem mul_power (sign other : Sign) (a : Normal) {exponent : Int}
    (h : -1074 ≤ a.exponent + exponent + 52) :
    UnpackedFloat.mul Format.binary64 (a.signed sign) ((Normal.power exponent).signed other)
      = Normal.signed (sign * other) { a with exponent := a.exponent + exponent + 52 } := by
  have hlog : (a.mantissa * 2 ^ 52).log2 = 52 + 52 := by
    rw [log2_mul_two_pow (Nat.ne_of_gt a.mantissa_pos), a.log2_mantissa]
  show roundWithAccuracy Format.binary64 _ (a.mantissa * 2 ^ 52) (a.exponent + exponent) .exact = _
  rw [roundWithAccuracy_eq _ _ (by omega) (by omega), Normal.round_exact]
  rfl

-- ---------------------------------------------------------------------------
-- Counts
-- ---------------------------------------------------------------------------

/-- A count as a normal number. -/
def Normal.ofNat (n : Nat) (h : 0 < n) : Normal :=
  .round (n * 2 ^ 53) (-53) .exact (by rw [log2_mul_two_pow (Nat.ne_of_gt h)]; omega)

/-- Small counts are not rounded. -/
theorem Normal.ofNat_of_lt {n : Nat} (h : 0 < n) (hlt : n < 2 ^ 53) :
    Normal.ofNat n h = .ofShort n 0 h hlt := by
  have hshort := Nat.lt_succ_iff.mp ((Nat.log2_lt (Nat.ne_of_gt h)).mpr hlt)
  have hsplit : n * 2 ^ 53 = (Normal.ofShort n 0 h hlt).mantissa * 2 ^ (n.log2 + 1) := by
    show n * 2 ^ 53 = n * 2 ^ (52 - n.log2) * 2 ^ (n.log2 + 1)
    rw [Nat.mul_assoc, ← Nat.pow_add]
    congr 2
    omega
  simp only [Normal.ofNat, hsplit, Normal.round_exact]
  simp only [ofShort, Normal.mk.injEq, true_and]
  omega

theorem Normal.exponent_ofNat {n : Nat} (h : 0 < n) (hlt : n < 2 ^ 64) :
    -52 ≤ (Normal.ofNat n h).exponent ∧ (Normal.ofNat n h).exponent ≤ 12 := by
  have hlog := log2_mul_two_pow (Nat.ne_of_gt h) 53
  have hlt' := (Nat.log2_lt (Nat.ne_of_gt h)).mpr hlt
  have henough : 52 ≤ (n * 2 ^ 53).log2 := by omega
  have hlow := exponent_le (power_le_round (-53) .exact henough)
  have hhigh := exponent_le (round_le_power (-53) .exact henough)
  simp only [power] at hlow hhigh
  rw [Normal.ofNat]
  omega

/-- A larger count is no smaller number. -/
theorem Normal.ofNat_mono {n n' : Nat} (h : 0 < n) (h' : 0 < n') (hle : n ≤ n') :
    Normal.ofNat n h ≤ Normal.ofNat n' h' :=
  round_mono _ _ (Nat.mul_le_mul_right _ hle)

/-- The digits of a whole word as a number. -/
theorem unpack_toFloat {n : Nat} (h : 0 < n) (hlt : n < 2 ^ 53) :
    n.toUInt64.toFloat.toModel.unpack = (Normal.ofShort n 0 h hlt).signed .positive := by
  have hword : n.toUInt64.toNat = n := UInt64.toNat_ofNat_of_lt' (show n < 2 ^ 64 by omega)
  show (Float.Model.pack (UnpackedFloat.ofNat Format.binary64 n.toUInt64.toNat)).unpack = _
  rw [hword, UnpackedFloat.ofNat, UnpackedFloat.ofInt, normalize_of_pos h,
    round_eq _ h (by omega), Normal.ofMantissa_of_lt h hlt]
  refine unpack_pack_normal _ ?_ ?_
  · show -1074 ≤ (0 : Int) - (52 - n.log2 : Nat)
    omega
  · show (0 : Int) - (52 - n.log2 : Nat) ≤ 971
    omega

/-- A whole number without a decimal exponent is rounded to binary64. -/
theorem ofScientific_zero {n : Nat} (h : 0 < n) :
    UnpackedFloat.ofScientific Format.binary64 n 0
      = roundWithAccuracy Format.binary64 .positive (n * 2 ^ 53) (-53) .exact := by
  have hsmall : ¬ (0 : Int) < -((2 ^ Format.binary64.exponentBits : Int) + n.log2) := by
    show ¬ (0 : Int) < -((2 ^ 11 : Int) + n.log2)
    omega
  rw [UnpackedFloat.ofScientific, dif_neg (Nat.ne_of_gt h), if_neg (by decide), if_neg hsmall,
    if_pos (by decide)]
  show roundWithAccuracy Format.binary64 .positive (n <<< 53 * 1) (-53) .exact = _
  rw [Nat.mul_one, Nat.shiftLeft_eq]

/-- What is read from a count. -/
theorem unpack_ofNat {n : Nat} (h : 0 < n) (hlt : n < 2 ^ 64) :
    (Float.ofNat n).toModel.unpack = (Normal.ofNat n h).signed .positive := by
  obtain ⟨hlow, hhigh⟩ := Normal.exponent_ofNat h hlt
  -- small counts are converted from words, large ones from their decimal digits
  rcases Nat.lt_or_ge n (2 ^ 53) with hsmall | hlarge
  · have hfast : Float.ofNat n = n.toUInt64.toFloat * 1.0 := by
      show Float.ofScientific n false 0 = _
      rw [Float.ofScientific, dif_pos ⟨hsmall, by decide⟩]
      rfl
    have hone : (1.0 : Float).toModel.unpack = (Normal.power (-52)).signed .positive := rfl
    rw [Normal.ofNat_of_lt h hsmall] at hlow hhigh ⊢
    rw [hfast]
    show (Float.Model.pack (UnpackedFloat.mul _ n.toUInt64.toFloat.toModel.unpack
      (1.0 : Float).toModel.unpack)).unpack = _
    rw [unpack_toFloat h hsmall, hone, mul_power _ _ _ (by omega)]
    simp only [Int.neg_add_cancel_right]
    exact unpack_pack_normal .positive (a := .ofShort n 0 h hsmall) (by omega) (by omega)
  · have hslow : Float.ofNat n = .ofModel (Float.Model.ofScientific n 0) := by
      show Float.ofScientific n false 0 = _
      rw [Float.ofScientific, dif_neg (by omega)]
      rfl
    have hlog := log2_mul_two_pow (Nat.ne_of_gt h) 53
    rw [hslow]
    show (Float.Model.pack (UnpackedFloat.ofScientific Format.binary64 n 0)).unpack = _
    rw [ofScientific_zero h, roundWithAccuracy_eq _ _ (by omega) (by omega)]
    exact unpack_pack_normal .positive (a := .ofNat n h) (by omega) (by omega)

end CutCover.Binary64
