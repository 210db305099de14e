import CutCover.Weight

/-!
# CutCover — exact weights

The rationals as a number system for weights and scores: sums do not depend on their order, every
number is finite and any two compare. A statement about scores "in exact arithmetic" is a statement
about the library's definitions at this instance.
-/

namespace CutCover

/-- Rational arithmetic, without rounding. -/
instance : Weight Rat where
  decidableLT := inferInstance
  decidableLE := inferInstance
  ofNat n := n
  noTerms := 0
  isFinite _ := true
  toFloat q := Float.ofInt q.num / Float.ofNat q.den

/-- A sum of exact weights with one more term in front. -/
theorem Weight.total_cons (q : Rat) (terms : List Rat) :
    Weight.total (q :: terms) = q + Weight.total terms := by
  have step : ∀ (start : Rat) (l : List Rat),
      l.foldl (· + ·) start = start + l.foldl (· + ·) 0 := by
    intro start l
    induction l generalizing start with
    | nil => exact (Rat.add_zero start).symm
    | cons r l ih =>
      rw [List.foldl_cons, List.foldl_cons, ih, ih (0 + r), Rat.zero_add, Rat.add_assoc]
  show (q :: terms).foldl (· + ·) 0 = q + terms.foldl (· + ·) 0
  rw [List.foldl_cons, Rat.zero_add, step]

end CutCover
