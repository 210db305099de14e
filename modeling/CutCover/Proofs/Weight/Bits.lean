import CutCover.Proofs.Weight.Order

/-!
# CutCover — the bits of binary64 numbers

As words, the bits of numbers without the sign grow with their distance from zero: first the zero,
then the numbers below the normal ones, then these by exponent and mantissa, and infinity last. Read
as a number with the sign in front, the bits are in the order of the numbers themselves.

* `unpack_eq_ofFields`     — bits are read by sign, exponent and mantissa.
* `ofMagnitude`            — the number with a sign and given bits behind it.
* `unpack_eq_ofMagnitude`  — every number is one of these.
* `signedBits`             — the bits as a number with a sign.
* `lt_iff_signedBits`      — they are in the order of the numbers.
* `lt_iff_placeOf`, `beq_iff_placeOf` — comparisons of numbers, by their places.
-/

namespace CutCover.Binary64

open Float.Model Float.Model.UnpackedFloat

-- ---------------------------------------------------------------------------
-- Numbers
-- ---------------------------------------------------------------------------

theorem isNaN_of_isFinite {a : Float} (h : a.isFinite = true) : a.isNaN = false := by
  change a.toModel.unpack.isFinite = true at h
  show a.toModel.unpack.isNaN = false
  cases hread : a.toModel.unpack <;> rw [hread] at h <;> first | rfl | cases h

theorem lt_iff_placeOf {a b : Float} (ha : a.isNaN = false) (hb : b.isNaN = false) :
    a < b ↔ placeOf a < placeOf b := by
  rw [lt_iff]
  simp only [ha, hb, true_and]

/-- Numbers are equal if they are at the same place, as the two zeros are. -/
theorem beq_iff_placeOf {a b : Float} (ha : a.isNaN = false) (hb : b.isNaN = false) :
    (a == b) = true ↔ placeOf a = placeOf b := by
  show (a.toModel.unpack.compare b.toModel.unpack == some .eq) = true ↔ _
  have hlt : a.toModel.unpack.compare b.toModel.unpack = some .lt ↔ placeOf a < placeOf b :=
    compare_eq_lt_iff ha hb
  have hgt : a.toModel.unpack.compare b.toModel.unpack = some .gt ↔ placeOf b < placeOf a :=
    compare_eq_gt_iff ha hb
  rcases hc : a.toModel.unpack.compare b.toModel.unpack with _ | (_ | _ | _)
  · rcases (compare_eq_none_iff _ _).mp hc with hn | hn
    · exact Bool.noConfusion (ha.symm.trans hn)
    · exact Bool.noConfusion (hb.symm.trans hn)
  · simp [(hlt.mp hc).ne]
  · rw [hc] at hlt hgt
    simp only [reduceCtorEq, Option.some.injEq, false_iff, not_lt] at hlt hgt
    simp [le_antisymm hgt hlt]
  · simp [(hgt.mp hc).ne']

-- ---------------------------------------------------------------------------
-- Reading bits
-- ---------------------------------------------------------------------------

/-- The bits of positive infinity, as a number. -/
def infinityBits : Nat :=
  2047 * 2 ^ 52

/-- The number with this sign and, after the sign, the bits of `n`. -/
def ofMagnitude (sign : Sign) (n : Nat) : UnpackedFloat :=
  if h : n = 0 then .zero sign
  else if n < 2 ^ 52 then .finite sign n (-1074) (Nat.pos_of_ne_zero h)
  else if n < infinityBits then
    .finite sign (2 ^ 52 + n % 2 ^ 52) ((n / 2 ^ 52 : Nat) - 1075) (by omega)
  else .infinity sign

theorem toNat_unpackExponent (bits : BitVec 64) :
    (@unpackExponent Format.binary64 bits).toNat = bits.toNat / 2 ^ 52 % 2 ^ 11 := by
  show bits.toNat >>> 52 % 2 ^ 11 = _
  rw [Nat.shiftRight_eq_div_pow]

theorem toNat_unpackMantissa (bits : BitVec 64) :
    (@unpackMantissa Format.binary64 bits).toNat = bits.toNat % 2 ^ 52 := by
  show bits.toNat >>> 0 % 2 ^ 52 = _
  rw [Nat.shiftRight_zero]

theorem ofBitVec_unpackSign (bits : BitVec 64) :
    Sign.ofBitVec (@unpackSign Format.binary64 bits)
      = if bits.toNat < 2 ^ 63 then .positive else .negative := by
  have htoNat : (@unpackSign Format.binary64 bits).toNat = bits.toNat / 2 ^ 63 := by
    show bits.toNat >>> 63 % 2 ^ 1 = _
    rw [Nat.shiftRight_eq_div_pow]
    omega
  have hiff : @unpackSign Format.binary64 bits = 0#1 ↔ bits.toNat < 2 ^ 63 := by
    rw [← BitVec.toNat_inj, htoNat, BitVec.toNat_ofNat]
    omega
  simp only [Sign.ofBitVec, hiff]

/-- The number with this sign, and with an exponent and a mantissa as they stand in its bits. -/
def ofFields (sign : Sign) (exponent mantissa : Nat) : UnpackedFloat :=
  if exponent = 2047 then
    if mantissa = 0 then .infinity sign else .notANumber
  else if exponent = 0 then
    if h : mantissa = 0 then .zero sign
    else .finite sign mantissa (-1074) (Nat.pos_of_ne_zero h)
  else .finite sign (2 ^ 52 + mantissa) (exponent - 1075) (by omega)

/-- Bits are read by their three fields. -/
theorem unpack_eq_ofFields (bits : BitVec 64) :
    unpack Format.binary64 bits
      = ofFields (if bits.toNat < 2 ^ 63 then .positive else .negative)
          (bits.toNat / 2 ^ 52 % 2 ^ 11) (bits.toNat % 2 ^ 52) := by
  have hexponent := toNat_unpackExponent bits
  have hmantissa := toNat_unpackMantissa bits
  have hreserved : @unpackExponent Format.binary64 bits = -1#11 ↔
      bits.toNat / 2 ^ 52 % 2 ^ 11 = 2047 := by
    rw [← BitVec.toNat_inj, hexponent]
    rfl
  have hsmall : @unpackExponent Format.binary64 bits = 0#11 ↔
      bits.toNat / 2 ^ 52 % 2 ^ 11 = 0 := by
    rw [← BitVec.toNat_inj, hexponent]
    rfl
  have hround : @unpackMantissa Format.binary64 bits = 0#52 ↔ bits.toNat % 2 ^ 52 = 0 := by
    rw [← BitVec.toNat_inj, hmantissa]
    rfl
  have himplicit : (1#1 ++ @unpackMantissa Format.binary64 bits).toNat
      = 2 ^ 52 + bits.toNat % 2 ^ 52 := by
    rw [BitVec.toNat_append, hmantissa]
    exact (Nat.two_pow_add_eq_or_of_lt (Nat.mod_lt _ (Nat.two_pow_pos 52)) 1).symm
  unfold UnpackedFloat.unpack ofFields
  dsimp only
  rw [ofBitVec_unpackSign]
  by_cases hones : bits.toNat / 2 ^ 52 % 2 ^ 11 = 2047
  · rw [if_pos (hreserved.mpr hones), if_pos hones]
    by_cases hzero : bits.toNat % 2 ^ 52 = 0
    · rw [if_pos (hround.mpr hzero), if_pos hzero]
    · rw [if_neg (hround.not.mpr hzero), if_neg hzero]
  rw [if_neg (hreserved.not.mpr hones), if_neg hones]
  by_cases hleast : bits.toNat / 2 ^ 52 % 2 ^ 11 = 0
  · rw [if_pos (hsmall.mpr hleast), if_pos hleast]
    by_cases hzero : bits.toNat % 2 ^ 52 = 0
    · rw [dif_pos (hround.mpr hzero), dif_pos hzero]
    · rw [dif_neg (hround.not.mpr hzero), dif_neg hzero, finite.injEq, hexponent, hleast]
      exact ⟨rfl, hmantissa, rfl⟩
  · rw [if_neg (hsmall.not.mpr hleast), if_neg hleast, finite.injEq, hexponent]
    exact ⟨rfl, himplicit, rfl⟩

/-- What is not NaN has the exponent and the mantissa of some magnitude, no larger than that of
infinity. -/
theorem ofFields_eq_ofMagnitude {sign : Sign} {n : Nat} (hn : n < 2 ^ 63)
    (h : (ofFields sign (n / 2 ^ 52) (n % 2 ^ 52)).isNaN = false) :
    n ≤ infinityBits ∧ ofFields sign (n / 2 ^ 52) (n % 2 ^ 52) = ofMagnitude sign n := by
  unfold ofFields at h ⊢
  unfold ofMagnitude infinityBits
  by_cases hones : n / 2 ^ 52 = 2047
  · by_cases hzero : n % 2 ^ 52 = 0
    · have hmagnitude : n = 2047 * 2 ^ 52 := by omega
      rw [if_pos hones, if_pos hzero, hmagnitude]
      exact ⟨Nat.le_refl _, rfl⟩
    · rw [if_pos hones, if_neg hzero] at h
      cases h
  · have hlt : n < 2047 * 2 ^ 52 := by omega
    refine ⟨hlt.le, ?_⟩
    rw [if_neg hones]
    by_cases hleast : n / 2 ^ 52 = 0
    · -- there is no implicit digit, and the exponent is the least there is
      have hsmall : n < 2 ^ 52 := by omega
      have hmod : n % 2 ^ 52 = n := Nat.mod_eq_of_lt hsmall
      rw [if_pos hleast]
      by_cases hzero : n = 0
      · rw [dif_pos (hmod.trans hzero), dif_pos hzero]
      · rw [dif_neg (hmod.trans_ne hzero), dif_neg hzero, if_pos hsmall, finite.injEq]
        exact ⟨rfl, hmod, rfl⟩
    · have hne : ¬ n = 0 := by omega
      have hnormal : ¬ n < 2 ^ 52 := by omega
      rw [if_neg hleast, dif_neg hne, if_neg hnormal, if_pos hlt]

/-- What is not NaN is read as a sign and a magnitude no larger than that of infinity. -/
theorem unpack_eq_ofMagnitude {bits : BitVec 64}
    (h : (unpack Format.binary64 bits).isNaN = false) :
    bits.toNat % 2 ^ 63 ≤ infinityBits ∧ unpack Format.binary64 bits
      = ofMagnitude (if bits.toNat < 2 ^ 63 then .positive else .negative)
          (bits.toNat % 2 ^ 63) := by
  have hexponent : bits.toNat / 2 ^ 52 % 2 ^ 11 = bits.toNat % 2 ^ 63 / 2 ^ 52 := by omega
  have hmantissa : bits.toNat % 2 ^ 52 = bits.toNat % 2 ^ 63 % 2 ^ 52 := by omega
  rw [unpack_eq_ofFields, hexponent, hmantissa] at h ⊢
  exact ofFields_eq_ofMagnitude (Nat.mod_lt _ (Nat.two_pow_pos 63)) h

-- ---------------------------------------------------------------------------
-- The order of bits
-- ---------------------------------------------------------------------------

/-- The place of the number with these bits. -/
theorem place_ofMagnitude (sign : Sign) (n : Nat) : place (ofMagnitude sign n) =
    (if n = 0 then toLex (0, toLex (0, 0))
    else if n < 2 ^ 52 then toLex (sign.apply 1, toLex (sign.apply (-1074), sign.apply n))
    else if n < infinityBits then
      toLex (sign.apply 1, toLex (sign.apply ((n / 2 ^ 52 : Nat) - 1075),
        sign.apply (2 ^ 52 + n % 2 ^ 52 : Nat)))
    else toLex (sign.apply 2, toLex (0, 0)) : ℤ ×ₗ ℤ ×ₗ ℤ) := by
  unfold ofMagnitude
  by_cases hzero : n = 0
  · rw [dif_pos hzero, if_pos hzero]
    rfl
  · rw [dif_neg hzero, if_neg hzero, apply_ite place, apply_ite place]
    cases sign <;> rfl

/-- Larger bits are further away from zero. -/
theorem place_ofMagnitude_lt {n m : Nat} (h : n < m) (hm : m ≤ infinityBits) :
    place (ofMagnitude .positive n) < place (ofMagnitude .positive m) ∧
      place (ofMagnitude .negative m) < place (ofMagnitude .negative n) := by
  have hinfinity : infinityBits = 2047 * 2 ^ 52 := rfl
  rw [place_ofMagnitude, place_ofMagnitude, place_ofMagnitude, place_ofMagnitude]
  split_ifs <;> simp [Prod.Lex.toLex_lt_toLex, Sign.apply] <;> omega

/-- The bits of a number as a number, with the sign that they begin with. -/
def signedBits (a : Float) : ℤ :=
  if a.toBits.toNat < 2 ^ 63 then a.toBits.toNat else 2 ^ 63 - a.toBits.toNat

/-- The number with these signed bits. -/
def ofSignedBits (z : ℤ) : UnpackedFloat :=
  if 0 ≤ z then ofMagnitude .positive z.natAbs else ofMagnitude .negative z.natAbs

theorem place_ofMagnitude_zero (sign : Sign) :
    place (ofMagnitude sign 0) = toLex (0, toLex (0, 0)) := by
  rw [place_ofMagnitude, if_pos rfl]

/-- Numbers with larger signed bits are placed later. -/
theorem place_ofSignedBits_lt {z w : ℤ} (hz : z.natAbs ≤ infinityBits)
    (hw : w.natAbs ≤ infinityBits) (hlt : z < w) :
    place (ofSignedBits z) < place (ofSignedBits w) := by
  by_cases hneg : z < 0 <;> by_cases hneg' : w < 0
  · simp only [ofSignedBits, if_neg (not_le.mpr hneg), if_neg (not_le.mpr hneg')]
    exact (place_ofMagnitude_lt (by omega) hz).2
  · -- zero lies in between
    simp only [ofSignedBits, if_neg (not_le.mpr hneg), if_pos (not_lt.mp hneg')]
    have hbelow := (place_ofMagnitude_lt (show 0 < z.natAbs by omega) hz).2
    rcases Nat.eq_zero_or_pos w.natAbs with hzero | hpos
    · rw [hzero, place_ofMagnitude_zero]
      exact hbelow
    · exact hbelow.trans ((place_ofMagnitude_lt hpos hw).1)
  · omega
  · simp only [ofSignedBits, if_pos (not_lt.mp hneg), if_pos (not_lt.mp hneg')]
    exact (place_ofMagnitude_lt (by omega) hw).1

/-- A number is placed as its signed bits are. -/
theorem placeOf_eq {a : Float} (ha : a.isNaN = false) :
    (signedBits a).natAbs ≤ infinityBits ∧ placeOf a = place (ofSignedBits (signedBits a)) := by
  have hlt := a.toBits.toNat_lt
  obtain ⟨hle, hread⟩ := @unpack_eq_ofMagnitude a.toBits.toBitVec ha
  rw [UInt64.toNat_toBitVec] at hle hread
  unfold placeOf Float.Model.unpack
  rw [show unpack Format.binary64 a.toModel.toBits.toBitVec = _ from hread]
  unfold signedBits ofSignedBits
  generalize a.toBits.toNat = n at *
  have hnonneg : (0 : ℤ) ≤ n := Int.natCast_nonneg n
  by_cases hsign : n < 2 ^ 63
  · have hmod : n % 2 ^ 63 = n := Nat.mod_eq_of_lt hsign
    rw [hmod] at hle ⊢
    simp only [hsign, if_true, hnonneg, Int.natAbs_natCast, hle, and_self]
  · -- a negative zero has the signed bits of the other one, and its place
    have hmod : n % 2 ^ 63 = ((2 : ℤ) ^ 63 - n).natAbs := by omega
    rw [hmod] at hle ⊢
    simp only [hsign, if_false]
    refine ⟨hle, ?_⟩
    split
    · have hzero : ((2 : ℤ) ^ 63 - n).natAbs = 0 := by omega
      rw [hzero, place_ofMagnitude_zero, place_ofMagnitude_zero]
    · rfl

/-- Numbers are in the order of their signed bits. -/
theorem lt_iff_signedBits {a b : Float} (ha : a.isNaN = false) (hb : b.isNaN = false) :
    a < b ↔ signedBits a < signedBits b := by
  obtain ⟨hle, hplace⟩ := placeOf_eq ha
  obtain ⟨hle', hplace'⟩ := placeOf_eq hb
  rw [lt_iff_placeOf ha hb, hplace, hplace']
  have hmono : StrictMonoOn (fun z => place (ofSignedBits z)) {z | z.natAbs ≤ infinityBits} :=
    fun z hz w hw hlt => place_ofSignedBits_lt hz hw hlt
  exact hmono.lt_iff_lt hle hle'

end CutCover.Binary64
