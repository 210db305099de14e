import CutCover.Proofs.Draws
import CutCover.Random.Tape
import Mathlib.Data.Set.Prod
import Mathlib.Order.Interval.Set.Defs

/-!
# CutCover — rejection loops that can end

A rejection loop repeats a trial until it answers, and nothing bounds the rounds: that it ends is a
matter of luck. What can be said of it is that there is luck to be had. A round draws one of several
choices, and a verdict on the choice decides whether the loop ends with it or goes on; the loop can
end if the verdict accepts some choice, whatever the rounds before have drawn.

* `Draw.Decides`, `Draw.CanEnd` — the rounds draw choices, a verdict decides, and some choice is
  accepted.
* `Draw.decides_below`, `Draw.decides_pair` — rounds that draw one number, or two.
* `Draw.Reaches`                — words that lead a draw to an answer.
* `Draw.Reaches.repeatUntil`    — words for a last round, and for the loop.
* `Draw.reaches_below`          — every number below a bound can be drawn.
* `Draw.Accepts.exists_reaches_below`, `Draw.Accepts.exists_reaches_pair` — loops that words lead to
  an answer.
-/

namespace CutCover.Draw

-- ---------------------------------------------------------------------------
-- Rounds
-- ---------------------------------------------------------------------------

section Rounds

variable {σ α ι : Type} {choices : Set ι} {n : Nat}

/-- From every source, a round draws a choice and answers the verdict on it. -/
def Decides (trial : Draw σ (Option α)) (choices : Set ι) (verdict : ι → Checked (Option α)) :
    Prop :=
  ∀ s, ∃ choice ∈ choices, ∃ answer s',
    verdict choice = .ok answer ∧ trial.run s = .ok (answer, s')

/-- The verdict accepts some choice. -/
def Accepts (choices : Set ι) (verdict : ι → Checked (Option α)) : Prop :=
  ∃ choice ∈ choices, ∃ a, verdict choice = .ok (some a)

variable [WordSource σ]

/-- Every round of the loop around the trial draws a choice, some choice is accepted, and the loop
ends with the first one drawn that is, if its attempts suffice. -/
structure CanEnd (trial : Draw σ (Option α)) (choices : Set ι)
    (verdict : ι → Checked (Option α)) : Prop where
  decides : Decides trial choices verdict
  accepts : Accepts choices verdict
  ends : ∀ s a s', (repeatUntil trial).run s = .ok (a, s') ↔
    ∃ rounds < WordSource.attempts σ, AnswersAfter trial rounds s a s'

theorem Accepts.canEnd {trial : Draw σ (Option α)} {verdict : ι → Checked (Option α)}
    (h : Accepts choices verdict) (hdecides : Decides trial choices verdict) :
    CanEnd trial choices verdict :=
  ⟨hdecides, h, fun _ _ _ => retry_eq_ok_iff⟩

/-- A round that draws one number. -/
theorem decides_below (hn : 0 < n) {verdict : Nat → Checked (Option α)}
    (h : ∀ i < n, ∃ answer, verdict i = .ok answer) :
    Decides (do
      let i ← below n
      (verdict i : Draw σ (Option α))) (Set.Iio n) verdict := by
  intro s
  obtain ⟨i, s₁, hi, hlt⟩ := (below_ensures hn).answers s
  obtain ⟨answer, hanswer⟩ := h i hlt
  refine ⟨i, hlt, answer, s₁, hanswer, ?_⟩
  rw [bind_of_run hi, hanswer]
  rfl

/-- The pairs of numbers below a bound. -/
def pairsBelow (n : Nat) : Set (Nat × Nat) :=
  Set.Iio n ×ˢ Set.Iio n

/-- A round that draws two numbers. -/
theorem decides_pair (hn : 0 < n) {verdict : Nat → Nat → Checked (Option α)}
    (h : ∀ a < n, ∀ b < n, ∃ answer, verdict a b = .ok answer) :
    Decides (do
      let a ← below n
      let b ← below n
      (verdict a b : Draw σ (Option α))) (pairsBelow n) (Function.uncurry verdict) := by
  intro s
  obtain ⟨a, s₁, ha, hlt⟩ := (below_ensures hn).answers s
  obtain ⟨b, hb, answer, s₂, hanswer, hrun⟩ := decides_below hn (h a hlt) s₁
  refine ⟨(a, b), ⟨hlt, hb⟩, answer, s₂, hanswer, ?_⟩
  rw [bind_of_run ha]
  exact hrun

end Rounds

-- ---------------------------------------------------------------------------
-- Words that lead to an answer
-- ---------------------------------------------------------------------------

variable {α β : Type} {n : Nat}

/-- Some words, as the next ones of a tape, lead the draw to the answer. -/
def Reaches (m : Draw Tape α) (a : α) : Prop :=
  ∃ words, ∀ rest generator drawn, m.run ⟨words ++ rest, generator, drawn⟩
    = .ok (a, ⟨rest, generator, drawn + words.length⟩)

namespace Reaches

variable {m : Draw Tape α} {f : α → Draw Tape β} {a : α} {b : β}

protected theorem pure (a : α) : Reaches (pure a) a :=
  ⟨[], fun _ _ _ => rfl⟩

theorem bind (hm : Reaches m a) (hf : Reaches (f a) b) : Reaches (m >>= f) b := by
  obtain ⟨words, hwords⟩ := hm
  obtain ⟨later, hlater⟩ := hf
  refine ⟨words ++ later, ?_⟩
  intro rest generator drawn
  rw [List.append_assoc, bind_of_run (hwords (later ++ rest) generator drawn), hlater,
    List.length_append, Nat.add_assoc]

/-- A computation without draws needs no words. -/
theorem lift {computation : Checked α} (h : computation = .ok a) :
    Reaches (liftM computation) a := by
  rw [h]
  exact .pure a

end Reaches

/-- If words lead a round to an answer, they lead the loop around it there. -/
theorem Reaches.repeatUntil {trial : Draw Tape (Option α)} {a : α}
    (h : Reaches trial (some a)) : Reaches (repeatUntil trial) a := by
  obtain ⟨words, hwords⟩ := h
  refine ⟨words, ?_⟩
  intro rest generator drawn
  exact retry_eq_ok_iff.mpr ⟨0, by decide, .accepted (hwords rest generator drawn)⟩

theorem reaches_word (w : UInt64) : Reaches word w :=
  ⟨[w], fun _ _ _ => rfl⟩

theorem reaches_halfWord (h : n < halfWordRange) : Reaches halfWord n := by
  refine (reaches_word (UInt64.ofNat (n * halfWordRange))).bind ?_
  have hhigh : (UInt64.ofNat (n * halfWordRange) >>> 32).toNat = n := by
    rw [UInt64.toNat_shiftRight, Nat.shiftRight_eq_div_pow, UInt64.toNat_ofNat']
    show n * halfWordRange % 2 ^ 64 / 2 ^ 32 = n
    rw [halfWordRange] at h ⊢
    omega
  rw [hhigh]
  exact .pure n

theorem reaches_wholeWord (h : n < wordRange) : Reaches wholeWord n := by
  refine (reaches_word (UInt64.ofNat n)).bind ?_
  rw [UInt64.toNat_ofNat_of_lt' h]
  exact .pure n

/-- A draw that reaches all numbers below a range, scaled, reaches all those below a bound within
it. -/
theorem reaches_scaled {range bound i : Nat} {draw : Draw Tape Nat}
    (hdraw : ∀ n < range, Reaches draw n) (hi : i < bound) (hbound : bound ≤ range) :
    Reaches (scaled range draw bound) i := by
  have hpos : 0 < bound := Nat.zero_lt_of_lt hi
  have hrange : 0 < range := Nat.lt_of_lt_of_le hpos hbound
  -- the least number whose product with the bound is past the `i`-th limit
  obtain ⟨high, hlow, hhigh⟩ : ∃ high, i * range ≤ high * bound ∧ high * bound < i * range + bound := by
    refine ⟨(i * range + (bound - 1)) / bound, ?_, ?_⟩
    · have := Nat.lt_div_mul_add (a := i * range + (bound - 1)) hpos
      omega
    · have := Nat.div_mul_le_self (i * range + (bound - 1)) bound
      omega
  have hlimit : (i + 1) * range ≤ bound * range := Nat.mul_le_mul_right range hi
  have hnext : (i + 1) * range = i * range + range := Nat.succ_mul i range
  have hlt : high < range := by
    refine Nat.lt_of_mul_lt_mul_right (a := bound) ?_
    rw [Nat.mul_comm range]
    omega
  have hquotient : high * bound / range = i := Nat.div_eq_of_lt_le hlow (by omega)
  have hrest : high * bound % range < range := Nat.mod_lt _ hrange
  unfold scaled
  refine (hdraw high hlt).bind ?_
  dsimp only
  -- a second draw, where one is needed, may be zero
  split
  · refine (hdraw 0 hrange).bind ?_
    rw [Nat.zero_mul, Nat.zero_div, Nat.add_zero, Nat.div_eq_of_lt hrest, hquotient]
    exact .pure i
  · rw [hquotient]
    exact .pure i

/-- Below a bound that is a word, every number can be drawn. -/
theorem reaches_below {bound i : Nat} (hi : i < bound) (hbound : bound ≤ wordRange) :
    Reaches (below bound) i := by
  have hne : bound ≠ 0 := Nat.ne_of_gt (Nat.zero_lt_of_lt hi)
  unfold below
  simp only [hne, if_false]
  split
  · next hhalf => exact reaches_scaled (fun _ => reaches_halfWord) hi (Nat.le_of_lt hhalf)
  · exact reaches_scaled (fun _ => reaches_wholeWord) hi hbound

/-- If a number is accepted, some words lead a round that draws one to an answer, and the loop. -/
theorem Accepts.exists_reaches_below (hn : n ≤ wordRange)
    {verdict : Nat → Checked (Option α)} (h : Accepts (Set.Iio n) verdict) :
    ∃ a, Reaches (do
        let i ← below n
        verdict i) (some a) ∧
      Reaches (repeatUntil do
        let i ← below n
        verdict i) a := by
  obtain ⟨i, hi, a, ha⟩ := h
  have hround : Reaches (do
      let i ← below n
      verdict i) (some a) := (reaches_below hi hn).bind (.lift ha)
  exact ⟨a, hround, hround.repeatUntil⟩

/-- If two numbers are, some words lead a round that draws two to an answer, and the loop. -/
theorem Accepts.exists_reaches_pair (hn : n ≤ wordRange)
    {verdict : Nat → Nat → Checked (Option α)}
    (h : Accepts (pairsBelow n) (Function.uncurry verdict)) :
    ∃ a, Reaches (do
        let a ← below n
        let b ← below n
        verdict a b) (some a) ∧
      Reaches (repeatUntil do
        let a ← below n
        let b ← below n
        verdict a b) a := by
  obtain ⟨⟨i, j⟩, ⟨hi, hj⟩, a, ha⟩ := h
  have hround : Reaches (do
      let a ← below n
      let b ← below n
      verdict a b) (some a) :=
    (reaches_below hi hn).bind ((reaches_below hj hn).bind (.lift ha))
  exact ⟨a, hround, hround.repeatUntil⟩

end CutCover.Draw
