import CutCover.Annealing.Acceptance
import CutCover.Proofs.Draws
import CutCover.Proofs.Weight.Arithmetic

/-!
# CutCover — a candidate that loses nothing is accepted

A candidate with the score of the current state is accepted by a draw below the probability one, and
every draw is below one. That the probability is one, at every temperature of a run, is a fact about
rounding: of two counts, the smaller one divided by the larger one is at most one even when both and
the quotient are rounded, so that no temperature is negative, and adding the offset gives a positive
number to divide by.

* `Draw.unit_lt_one`       — draws are below one.
* `exists_unpack_ratio`    — a quotient of ordered counts is at most one.
* `isNonneg_temperatureAt` — the temperatures of a run.
* `acceptChance_zero`      — the probability of accepting a candidate that loses nothing.
* `metropolis_zero`        — it is accepted.
-/

namespace CutCover

open Float.Model Float.Model.UnpackedFloat

-- ---------------------------------------------------------------------------
-- Zero as a temperature sees it
-- ---------------------------------------------------------------------------

/-- The count zero is zero as a binary64 number. -/
class Weight.KeepsZero (R : Type) [Weight R] : Prop where
  toFloat_zero : Weight.toFloat (Weight.ofNat 0 : R) = 0.0

instance : Weight.KeepsZero Float where
  toFloat_zero := by decide

instance : Weight.KeepsZero Rat where
  toFloat_zero := by decide

-- ---------------------------------------------------------------------------
-- Draws are below one
-- ---------------------------------------------------------------------------

theorem Binary64.unpack_one : (1.0 : Float).toModel.unpack = (Normal.power (-52)).signed .positive :=
  rfl

namespace Draw

variable {σ : Type} [WordSource σ] {mayLoop : Prop}

/-- The number in `[1, 2)` whose fraction is the high 52 bits of a word. -/
def oneAndFraction (w : UInt64) : Binary64.Normal where
  mantissa := 2 ^ 52 + w.toNat / 2 ^ 12
  exponent := -52
  le_mantissa := Nat.le_add_right _ _
  mantissa_lt := by
    have hlt := w.toNat_lt
    omega

theorem unpack_oneAndFraction (w : UInt64) :
    (Float.ofBits ((w >>> 12) ||| 0x3ff0000000000000)).toModel.unpack
      = (oneAndFraction w).signed .positive := by
  have hlt := w.toNat_lt
  have hfraction : (BitVec.ofNat 52 (w.toNat / 2 ^ 12)).toNat = w.toNat / 2 ^ 12 := by
    rw [BitVec.toNat_ofNat]
    omega
  have hbits : ((w >>> 12) ||| 0x3ff0000000000000).toBitVec
      = packComponents Format.binary64 .positive 1023#11 (BitVec.ofNat 52 (w.toNat / 2 ^ 12)) := by
    refine BitVec.eq_of_toNat_eq ?_
    show (w.toNat >>> 12) ||| 0x3ff0000000000000
      = (0#1 ++ 1023#11 ++ BitVec.ofNat 52 (w.toNat / 2 ^ 12)).toNat
    rw [BitVec.toNat_append, hfraction, Nat.shiftRight_eq_div_pow, Nat.or_comm]
    rfl
  have hread : UnpackedFloat.unpack Format.binary64 (packComponents Format.binary64 .positive
      1023#11 (BitVec.ofNat 52 (w.toNat / 2 ^ 12))) = (oneAndFraction w).signed .positive := by
    rw [Binary64.unpack_packComponents _ _ (by decide) (by decide)]
    unfold Binary64.Normal.signed
    rw [UnpackedFloat.finite.injEq, hfraction]
    exact ⟨rfl, rfl, rfl⟩
  show (Float.Model.pack (UnpackedFloat.unpack Format.binary64 _)).unpack = _
  rw [hbits, hread]
  exact Binary64.unpack_pack_normal .positive (a := oneAndFraction w)
    (show -1074 ≤ (-52 : Int) by decide) (show (-52 : Int) ≤ 971 by decide)

/-- Taking one away leaves the fraction. -/
theorem sub_one_oneAndFraction (w : UInt64) :
    UnpackedFloat.sub Format.binary64 ((oneAndFraction w).signed .positive)
        ((Binary64.Normal.power (-52)).signed .positive)
      = UnpackedFloat.normalize Format.binary64 (w.toNat / 2 ^ 12 : Nat) (-52) .positive := by
  have hsub := Binary64.Normal.sub_eq (a := oneAndFraction w) (b := .power (-52)) (Int.le_refl _)
  have hdifference : (((2 ^ 52 + w.toNat / 2 ^ 12) * 2 ^ 0 : Nat) : Int) - (2 ^ 52 : Nat)
      = (w.toNat / 2 ^ 12 : Nat) := by omega
  rw [hsub, ← hdifference]
  rfl

/-- Which is zero, or has an exponent below that of one. -/
theorem unpack_fraction (w : UInt64) :
    (Float.Model.pack (UnpackedFloat.normalize Format.binary64 (w.toNat / 2 ^ 12 : Nat) (-52)
      .positive)).unpack = .zero .positive ∨
    ∃ a : Binary64.Normal, a.exponent < -52 ∧
      (Float.Model.pack (UnpackedFloat.normalize Format.binary64 (w.toNat / 2 ^ 12 : Nat) (-52)
        .positive)).unpack = a.signed .positive := by
  have hlt := w.toNat_lt
  rcases Nat.eq_zero_or_pos (w.toNat / 2 ^ 12) with hzero | hpos
  · rw [hzero]
    exact .inl rfl
  · have hshort : w.toNat / 2 ^ 12 < 2 ^ 53 := by omega
    have hlog : (w.toNat / 2 ^ 12).log2 < 52 := (Nat.log2_lt (Nat.ne_of_gt hpos)).mpr (by omega)
    have hexp : (Binary64.Normal.ofShort (w.toNat / 2 ^ 12) (-52) hpos hshort).exponent
        = -52 - (52 - (w.toNat / 2 ^ 12).log2 : Nat) := rfl
    refine .inr ⟨.ofShort (w.toNat / 2 ^ 12) (-52) hpos hshort, by omega, ?_⟩
    rw [Binary64.normalize_of_pos hpos, Binary64.round_eq _ hpos (by omega),
      Binary64.Normal.ofMantissa_of_lt hpos hshort,
      Binary64.unpack_pack_normal _ (by omega) (by omega)]

/-- Every draw is below one. -/
theorem unit_lt_one : Ensures mayLoop (unit : Draw σ Float) fun r => r < 1.0 := by
  refine word_ensures.bind fun w _ => .pure ?_
  have hunpack : (Float.ofBits ((w >>> 12) ||| 0x3ff0000000000000) - 1.0).toModel.unpack
      = (Float.Model.pack (UnpackedFloat.normalize Format.binary64 (w.toNat / 2 ^ 12 : Nat) (-52)
          .positive)).unpack := by
    show (Float.Model.pack (UnpackedFloat.sub _ (Float.ofBits _).toModel.unpack
      (1.0 : Float).toModel.unpack)).unpack = _
    rw [unpack_oneAndFraction, Binary64.unpack_one, sub_one_oneAndFraction]
  rw [Binary64.lt_iff, Binary64.placeOf, Binary64.placeOf, Binary64.unpack_one]
  show (Float.ofBits _ - 1.0).toModel.unpack.isNaN = false ∧ _
  rw [hunpack]
  refine ⟨?_, rfl, ?_⟩
  · rcases unpack_fraction w with hzero | ⟨a, -, ha⟩
    · rw [hzero]
      rfl
    · rw [ha]
      rfl
  · rcases unpack_fraction w with hzero | ⟨a, hexp, ha⟩
    · rw [hzero]
      simp [Binary64.place_zero, Binary64.Normal.place_signed, Sign.apply, Prod.Lex.toLex_lt_toLex]
    · rw [ha]
      simp [Binary64.Normal.place_signed, Sign.apply, Binary64.Normal.power,
        Prod.Lex.toLex_lt_toLex, hexp]

end Draw

-- ---------------------------------------------------------------------------
-- Temperatures
-- ---------------------------------------------------------------------------

namespace Annealing

open Binary64

/-- An initial temperature that a configuration may have is no negative number. -/
theorem isNonneg_initial {initial : Float} (hfinite : initial.isFinite = true)
    (hnonneg : ¬ initial < 0.0) : IsNonneg initial.toModel.unpack := by
  have hfinite' : initial.toModel.unpack.isFinite = true := hfinite
  have hzero : (0.0 : Float).toModel.unpack = .zero .positive := rfl
  rw [lt_iff, placeOf, placeOf, hzero] at hnonneg
  change ¬(initial.toModel.unpack.isNaN = false ∧ _) at hnonneg
  rcases hunpack : initial.toModel.unpack with (_ | _) | _ | _ | ⟨_ | _, m, e, hm⟩ <;>
    rw [hunpack] at hfinite' hnonneg
  case zero => trivial
  case finite.positive => trivial
  case finite.negative =>
    refine absurd ⟨rfl, rfl, ?_⟩ hnonneg
    exact Prod.Lex.toLex_lt_toLex.mpr (.inl (show (-1 : Int) < 0 by decide))
  all_goals cases hfinite'

/-- Of two counts, the smaller one divided by the larger one is at most one. -/
theorem exists_unpack_ratio {count total : Nat} (hpos : 0 < count) (hle : count ≤ total)
    (hlt : total < 2 ^ 64) :
    ∃ q : Normal, (Float.ofNat count / Float.ofNat total).toModel.unpack = q.signed .positive ∧
      q ≤ .power (-52) ∧ -1022 ≤ q.exponent := by
  have hpos' : 0 < total := by omega
  have hcount := Normal.exponent_ofNat hpos (show count < 2 ^ 64 by omega)
  have htotal := Normal.exponent_ofNat hpos' hlt
  obtain ⟨q, hdiv, hone, hlow⟩ :=
    Normal.div_of_le (Normal.ofNat_mono hpos hpos' hle) (by omega)
  have hhigh : q.exponent ≤ -52 := Normal.exponent_le hone
  refine ⟨q, ?_, hone, hlow⟩
  show (Float.Model.pack (UnpackedFloat.div _ (Float.ofNat count).toModel.unpack
    (Float.ofNat total).toModel.unpack)).unpack = _
  rw [unpack_ofNat hpos (by omega), unpack_ofNat hpos' hlt, hdiv,
    unpack_pack_normal _ (by omega) (by omega)]

/-- Before the end of a run, what is left of it is zero or a positive number. -/
theorem remaining_cases {step numSteps : Nat} (h : step < numSteps) (hlt : numSteps < 2 ^ 64) :
    (1.0 - Float.ofNat (step + 1) / Float.ofNat numSteps).toModel.unpack = .zero .positive ∨
    ∃ c : Normal, (1.0 - Float.ofNat (step + 1) / Float.ofNat numSteps).toModel.unpack
      = c.signed .positive := by
  obtain ⟨q, hq, hone, hlow⟩ := exists_unpack_ratio (Nat.succ_pos step) h hlt
  have hunpack : (1.0 - Float.ofNat (step + 1) / Float.ofNat numSteps).toModel.unpack
      = (Float.Model.pack (UnpackedFloat.sub Format.binary64 ((Normal.power (-52)).signed .positive)
          (q.signed .positive))).unpack := by
    rw [← hq]
    rfl
  rw [hunpack]
  rcases Normal.sub_of_le hone hlow with hzero | ⟨c, hc, hc', hc''⟩
  · rw [hzero]
    exact .inl rfl
  · have hhigh : c.exponent ≤ -52 + 2 := hc''
    rw [hc, unpack_pack_normal _ hc' (by omega)]
    exact .inr ⟨c, rfl⟩

/-- No temperature of a run is negative. -/
theorem isNonneg_temperatureAt {initial : Float} {step numSteps : Nat}
    (hfinite : initial.isFinite = true) (hnonneg : ¬ initial < 0.0) (h : step < numSteps)
    (hlt : numSteps < 2 ^ 64) : IsNonneg (temperatureAt initial step numSteps).toModel.unpack :=
  isNonneg_unpack_pack
    (isNonneg_mul (isNonneg_initial hfinite hnonneg) hfinite (remaining_cases h hlt))

-- ---------------------------------------------------------------------------
-- Acceptance
-- ---------------------------------------------------------------------------

/-- The offset as a normal number. -/
def offset : Normal where
  mantissa := 4722366482869645
  exponent := -72
  le_mantissa := by decide
  mantissa_lt := by decide

theorem unpack_temperatureOffset :
    temperatureOffset.toModel.unpack = offset.signed .positive :=
  rfl

/-- Zero divided by a positive number is zero, of either sign. -/
theorem neg_zero_div {divisor : Float} (h : IsPositive divisor.toModel.unpack) :
    -0.0 / divisor = -0.0 := by
  show Float.ofModel (Float.Model.pack (UnpackedFloat.div _ (-0.0 : Float).toModel.unpack
    divisor.toModel.unpack)) = _
  rcases hunpack : divisor.toModel.unpack with (_ | _) | _ | _ | ⟨_ | _, m, e, hm⟩ <;>
    rw [hunpack] at h
  case infinity.positive => rfl
  case finite.positive => rfl
  all_goals exact h.elim

/-- A candidate that loses nothing is accepted with probability one. -/
theorem acceptChance_zero {temperature : Float} (h : IsNonneg temperature.toModel.unpack) :
    acceptChance 0.0 temperature = 1.0 := by
  have hpositive : IsPositive (temperature + temperatureOffset).toModel.unpack := by
    show IsPositive (Float.Model.pack (UnpackedFloat.add _ temperature.toModel.unpack
      temperatureOffset.toModel.unpack)).unpack
    rw [unpack_temperatureOffset]
    exact isPositive_add h (by decide)
  have hnot : ¬ (0.0 : Float) < 0.0 := by decide
  rw [acceptChance, if_neg hnot, neg_zero_div hpositive, exponential_neg_zero]

variable {σ : Type} [WordSource σ] {R : Type} [Weight R] {mayLoop : Prop}

/-- And so it is accepted, whatever is drawn. -/
theorem metropolis_zero [Weight.KeepsZero R] {temperature : Float}
    (h : IsNonneg temperature.toModel.unpack) :
    Draw.Ensures mayLoop (metropolis (Weight.ofNat 0 : R) temperature : Draw σ Bool)
      fun accepted => accepted = true := by
  rw [metropolis]
  split
  · exact .pure rfl
  · refine Draw.unit_lt_one.bind fun r hr => .pure ?_
    rw [Weight.KeepsZero.toFloat_zero, acceptChance_zero h]
    exact decide_eq_true hr

end Annealing

end CutCover
