import CutCover.Proofs.Weight.Rounding

/-!
# CutCover — binary64 arithmetic

What is known of rounded differences, quotients, products and sums from the numbers they are made
of. A difference of ordered numbers is not negative, a quotient of ordered positive numbers is at
most one, and products and sums of numbers that are not negative are not negative either.

* `Normal.sub_of_le`    — differences.
* `Normal.div_of_le`    — quotients.
* `IsNonneg`, `isNonneg_mul` — products.
* `IsPositive`, `isPositive_add` — sums with a positive number.
-/

namespace CutCover.Binary64

open Float.Model Float.Model.UnpackedFloat

-- ---------------------------------------------------------------------------
-- Differences
-- ---------------------------------------------------------------------------

/-- The difference of two numbers is taken at the smaller exponent. -/
theorem Normal.sub_eq {a b : Normal} (h : b.exponent ≤ a.exponent) :
    UnpackedFloat.sub Format.binary64 (a.signed .positive) (b.signed .positive)
      = UnpackedFloat.normalize Format.binary64
          ((a.mantissa * 2 ^ (a.exponent - b.exponent).toNat : Nat) - (b.mantissa : Int))
          b.exponent .positive := by
  have hmin : min a.exponent b.exponent = b.exponent := by omega
  unfold Normal.signed UnpackedFloat.sub decreaseExponent
  dsimp only
  rw [hmin, Int.sub_self, Int.toNat_zero, Nat.shiftLeft_zero, Nat.shiftLeft_eq]
  rfl

/-- The difference of a number and one that is no larger is zero, or it is positive and has an
exponent within reach of theirs. -/
theorem Normal.sub_of_le {a b : Normal} (h : b ≤ a) (hlow : -1022 ≤ b.exponent) :
    UnpackedFloat.sub Format.binary64 (a.signed .positive) (b.signed .positive) = .zero .positive ∨
    ∃ c : Normal, UnpackedFloat.sub Format.binary64 (a.signed .positive) (b.signed .positive)
        = c.signed .positive ∧ -1074 ≤ c.exponent ∧ c.exponent ≤ a.exponent + 2 := by
  have hexp := exponent_le h
  have hb := b.mantissa_lt
  have ha := a.le_mantissa
  have hle : b.mantissa ≤ a.mantissa * 2 ^ (a.exponent - b.exponent).toNat := by
    rcases h with hlt | ⟨heq, hmantissa⟩
    · have htwo : 2 ^ 1 ≤ 2 ^ (a.exponent - b.exponent).toNat :=
        Nat.pow_le_pow_right (by decide) (by omega)
      have hmul := Nat.mul_le_mul ha htwo
      omega
    · exact hmantissa.trans (Nat.le_mul_of_pos_right _ (Nat.two_pow_pos _))
  obtain ⟨m, hm⟩ := Nat.exists_eq_add_of_le hle
  have hdifference : ((a.mantissa * 2 ^ (a.exponent - b.exponent).toNat : Nat) : Int) - b.mantissa
      = (m : Int) := by omega
  rw [Normal.sub_eq hexp, hdifference]
  rcases Nat.eq_zero_or_pos m with rfl | hpos
  · exact .inl rfl
  · have hlt : m < 2 ^ (53 + (a.exponent - b.exponent).toNat) := by
      have hmul := Nat.mul_lt_mul_of_pos_right a.mantissa_lt
        (Nat.two_pow_pos (a.exponent - b.exponent).toNat)
      rw [← Nat.pow_add] at hmul
      omega
    have hlog := (Nat.log2_lt (Nat.ne_of_gt hpos)).mpr hlt
    have hlow' := exponent_le (power_le_ofMantissa b.exponent hpos)
    have hhigh' := exponent_le (ofMantissa_le_power b.exponent hpos)
    simp only [power] at hlow' hhigh'
    refine .inr ⟨ofMantissa m b.exponent hpos, ?_, by omega, by omega⟩
    rw [normalize_of_pos hpos, round_eq _ hpos (by omega)]

-- ---------------------------------------------------------------------------
-- Quotients
-- ---------------------------------------------------------------------------

/-- Before rounding, a quotient has 53 digits or 54. -/
theorem Normal.divCore_eq {a b : Normal} (h : -1021 ≤ a.exponent - b.exponent) :
    divCore Format.binary64 a.mantissa a.exponent b.mantissa b.exponent
      = (a.mantissa * 2 ^ 53 / b.mantissa, a.exponent - b.exponent - 53,
          accuracyOfFraction (a.mantissa * 2 ^ 53 % b.mantissa) b.mantissa) := by
  have htarget : min (a.exponent - b.exponent) (Format.binary64.targetExponent
      (totalExponent a.mantissa a.exponent - totalExponent b.mantissa b.exponent))
      = a.exponent - b.exponent - 53 := by
    rw [targetExponent_eq, totalExponent, totalExponent, a.log2_mantissa, b.log2_mantissa]
    omega
  have hshift : (a.exponent - b.exponent - (a.exponent - b.exponent - 53)).toNat = 53 := by omega
  simp only [divCore, htarget, hshift, Nat.shiftLeft_eq]

theorem Normal.quotient_bounds (a b : Normal) :
    2 ^ 52 ≤ a.mantissa * 2 ^ 53 / b.mantissa ∧ a.mantissa * 2 ^ 53 / b.mantissa < 2 ^ 54 := by
  have ha := a.le_mantissa
  have ha' := a.mantissa_lt
  have hb := b.le_mantissa
  have hb' := b.mantissa_lt
  rw [Nat.le_div_iff_mul_le b.mantissa_pos, Nat.div_lt_iff_lt_mul b.mantissa_pos]
  omega

theorem Normal.div_eq {a b : Normal} (h : -1021 ≤ a.exponent - b.exponent) :
    UnpackedFloat.div Format.binary64 (a.signed .positive) (b.signed .positive)
      = roundWithAccuracy Format.binary64 .positive (a.mantissa * 2 ^ 53 / b.mantissa)
          (a.exponent - b.exponent - 53)
          (accuracyOfFraction (a.mantissa * 2 ^ 53 % b.mantissa) b.mantissa) := by
  unfold Normal.signed UnpackedFloat.div
  dsimp only
  rw [divCore_eq h]
  rfl

/-- The quotient of a number and a larger one has at most the digits of a number below one. -/
theorem Normal.log2_quotient_le {a b : Normal} (h : a ≤ b)
    (hne : ¬(a.exponent = b.exponent ∧ a.mantissa = b.mantissa)) :
    a.exponent - b.exponent + (a.mantissa * 2 ^ 53 / b.mantissa).log2 ≤ 52 := by
  obtain ⟨hle, hlt⟩ := Normal.quotient_bounds a b
  have hpos : a.mantissa * 2 ^ 53 / b.mantissa ≠ 0 := by omega
  rcases h with hexp | ⟨hexp, hmantissa⟩
  · have hlog := (Nat.log2_lt hpos).mpr hlt
    omega
  · have hbelow : a.mantissa * 2 ^ 53 / b.mantissa < 2 ^ 53 := by
      rw [Nat.div_lt_iff_lt_mul b.mantissa_pos]
      omega
    have hlog := (Nat.log2_lt hpos).mpr hbelow
    omega

/-- The quotient of a number and one that is no smaller is at most one. -/
theorem Normal.div_of_le {a b : Normal} (h : a ≤ b) (hlow : -969 ≤ a.exponent - b.exponent) :
    ∃ q : Normal, UnpackedFloat.div Format.binary64 (a.signed .positive) (b.signed .positive)
        = q.signed .positive ∧ q ≤ power (-52) ∧ -1022 ≤ q.exponent := by
  rw [div_eq (by omega)]
  by_cases hsame : a.exponent = b.exponent ∧ a.mantissa = b.mantissa
  · -- the quotient of a number and itself is one
    refine ⟨power (-52), ?_, .inr ⟨rfl, Nat.le_refl _⟩, by decide⟩
    have hexact : accuracyOfFraction 0 b.mantissa = .exact := if_pos rfl
    rw [hsame.1, hsame.2, Nat.mul_div_cancel_left _ b.mantissa_pos, Nat.mul_mod_right, hexact,
      Int.sub_self]
    rfl
  · have hpos : a.mantissa * 2 ^ 53 / b.mantissa ≠ 0 := by
      have hbounds := Normal.quotient_bounds a b
      omega
    have hlog := (Nat.le_log2 hpos).mpr (Normal.quotient_bounds a b).1
    have hdigits := Normal.log2_quotient_le h hsame
    refine ⟨_, roundWithAccuracy_eq _ _ hlog (by omega), ?_, ?_⟩
    · exact Normal.le_trans (round_le_power _ _ hlog) (power_le_power (by omega))
    · refine Int.le_trans ?_ (exponent_le (power_le_round _ _ hlog))
      simp only [power]
      omega

-- ---------------------------------------------------------------------------
-- Numbers that are not negative
-- ---------------------------------------------------------------------------

/-- A zero of either sign, a positive number, or positive infinity. -/
def IsNonneg : UnpackedFloat → Prop
  | .zero _ => True
  | .finite .positive _ _ _ => True
  | .infinity .positive => True
  | _ => False

/-- A positive number or positive infinity. -/
def IsPositive : UnpackedFloat → Prop
  | .finite .positive _ _ _ => True
  | .infinity .positive => True
  | _ => False

/-- What is read from a positive sign and an exponent other than the largest one. -/
theorem isNonneg_unpack_packComponents {exponent : BitVec 11} (mantissa : BitVec 52)
    (h : exponent ≠ -1#11) :
    IsNonneg (UnpackedFloat.unpack Format.binary64
      (packComponents Format.binary64 .positive exponent mantissa)) := by
  have hsign : Sign.ofBitVec Sign.positive.toBitVec = .positive := rfl
  unfold UnpackedFloat.unpack
  dsimp only
  rw [unpackExponent_packComponents, if_neg h, unpackSign_packComponents, hsign]
  refine iteInduction (motive := IsNonneg) (fun _ => ?_) (fun _ => trivial)
  by_cases hround :
      unpackMantissa (packComponents Format.binary64 .positive exponent mantissa) = 0#52
  · rw [dif_pos hround]
    trivial
  · rw [dif_neg hround]
    trivial

/-- Storing a number does not make it negative. -/
theorem isNonneg_unpack_pack {a : UnpackedFloat} (h : IsNonneg a) :
    IsNonneg (Float.Model.pack a).unpack := by
  rcases a with (_ | _) | _ | (_ | _) | ⟨_ | _, m, e, hm⟩
  case infinity.positive => trivial
  case zero.negative => trivial
  case zero.positive => trivial
  case finite.positive =>
    show IsNonneg (UnpackedFloat.unpack Format.binary64
      (UnpackedFloat.pack Format.binary64 (.finite .positive m e hm)))
    unfold UnpackedFloat.pack
    dsimp only
    by_cases hover : 2 ^ 11 ≤ (e + Format.binary64.exponentBias + (52 : Nat)).toNat + 1
    · rw [if_pos hover]
      trivial
    rw [if_neg hover]
    by_cases hfull : m.log2 + 1 = Format.binary64.mantissaBits
    · rw [if_pos hfull]
      refine isNonneg_unpack_packComponents _ ?_
      intro hones
      have hnat := congrArg BitVec.toNat hones
      simp only [BitVec.toNat_ofNat, BitVec.toNat_neg, Nat.reducePow, Nat.reduceMod,
        Nat.reduceSub] at hnat hover
      omega
    · rw [if_neg hfull]
      exact isNonneg_unpack_packComponents _ (by decide)
  all_goals exact h.elim

/-- Nor does it turn a normal number into zero. -/
theorem isPositive_unpack_pack {a : Normal} (h : -1074 ≤ a.exponent) :
    IsPositive (Float.Model.pack (a.signed .positive)).unpack := by
  rcases lt_or_ge 971 a.exponent with hover | hfits
  · rw [unpack_pack_overflow _ hover]
    trivial
  · rw [unpack_pack_normal _ h hfits]
    trivial

/-- Rounding keeps the sign. -/
theorem roundWithAccuracy_sign (sign : Sign) (m : Nat) (e : Int) (accuracy : Accuracy) :
    roundWithAccuracy Format.binary64 sign m e accuracy = .zero sign ∨
    ∃ m' e' h, roundWithAccuracy Format.binary64 sign m e accuracy = .finite sign m' e' h := by
  rw [roundWithAccuracy]
  rcases shiftToTargetExponent Format.binary64 m e accuracy with ⟨kept, e₁⟩
  dsimp only
  rcases shiftToTargetExponent Format.binary64 kept.roundedMantissa e₁ .exact with ⟨last, e₂⟩
  dsimp only
  by_cases hzero : last.mantissa = 0
  · exact .inl (dif_pos hzero)
  · exact .inr ⟨_, _, Nat.pos_of_ne_zero hzero, dif_neg hzero⟩

/-- Neither does multiplying, if no infinity meets a zero. -/
theorem isNonneg_mul {a b : UnpackedFloat} (ha : IsNonneg a) (hfinite : a.isFinite = true)
    (hb : b = .zero .positive ∨ ∃ c : Normal, b = c.signed .positive) :
    IsNonneg (UnpackedFloat.mul Format.binary64 a b) := by
  rcases a with (_ | _) | _ | (_ | _) | ⟨_ | _, m, e, hm⟩
  case zero.negative => rcases hb with rfl | ⟨c, rfl⟩ <;> trivial
  case zero.positive => rcases hb with rfl | ⟨c, rfl⟩ <;> trivial
  case finite.positive =>
    rcases hb with rfl | ⟨c, rfl⟩
    · trivial
    · show IsNonneg (roundWithAccuracy Format.binary64 .positive (m * c.mantissa)
        (e + c.exponent) .exact)
      rcases roundWithAccuracy_sign .positive (m * c.mantissa) (e + c.exponent) .exact
        with hzero | ⟨m', e', hm', hrounded⟩
      · rw [hzero]
        trivial
      · rw [hrounded]
        trivial
  case finite.negative => exact ha.elim
  all_goals cases hfinite

/-- The exact sum of two positive numbers, at the smaller exponent. -/
theorem exists_add_eq (m : Nat) (e : Int) (hm : 0 < m) (b : Normal) :
    ∃ total, 0 < total ∧ b.exponent - min e b.exponent + 52 ≤ total.log2 ∧
      UnpackedFloat.add Format.binary64 (.finite .positive m e hm) (b.signed .positive)
        = UnpackedFloat.normalize Format.binary64 (total : Nat) (min e b.exponent) .positive := by
  have hb : 2 ^ (52 + (b.exponent - min e b.exponent).toNat)
      ≤ b.mantissa * 2 ^ (b.exponent - min e b.exponent).toNat := by
    rw [Nat.pow_add]
    exact Nat.mul_le_mul_right _ b.le_mantissa
  have hpow := Nat.two_pow_pos (52 + (b.exponent - min e b.exponent).toNat)
  refine ⟨m * 2 ^ (e - min e b.exponent).toNat
    + b.mantissa * 2 ^ (b.exponent - min e b.exponent).toNat, by omega, ?_, ?_⟩
  · have hlog := (Nat.le_log2 (by omega)).mpr (hb.trans (Nat.le_add_left _
      (m * 2 ^ (e - min e b.exponent).toNat)))
    omega
  · unfold Normal.signed UnpackedFloat.add decreaseExponent
    dsimp only
    rw [Nat.shiftLeft_eq, Nat.shiftLeft_eq]
    rfl

/-- A sum with a number that is not negative is no less than a power of two. -/
theorem isPositive_add {a : UnpackedFloat} {b : Normal} (ha : IsNonneg a)
    (hlow : -1021 ≤ b.exponent) :
    IsPositive (Float.Model.pack (UnpackedFloat.add Format.binary64 a (b.signed .positive))).unpack := by
  rcases a with (_ | _) | _ | (_ | _) | ⟨_ | _, m, e, hm⟩
  case infinity.positive =>
    show IsPositive (Float.Model.pack (.infinity .positive)).unpack
    trivial
  case zero.negative => exact isPositive_unpack_pack (by omega)
  case zero.positive => exact isPositive_unpack_pack (by omega)
  case finite.positive =>
    obtain ⟨total, hpos, hlog, hadd⟩ := exists_add_eq m e hm b
    have hexp := Normal.exponent_le (Normal.power_le_ofMantissa (min e b.exponent) hpos)
    simp only [Normal.power] at hexp
    rw [hadd, normalize_of_pos hpos, round_eq _ hpos (by omega)]
    exact isPositive_unpack_pack (by omega)
  all_goals exact ha.elim

end CutCover.Binary64
