/-!
# CutCover — weights

The numbers that edges, penalties and scores are made of. Every algorithm of the library is
written for an arbitrary number system of this kind: it runs over binary64 numbers, and the same
definitions over the rationals (`CutCover.Weight.Exact`) say what it computes when nothing is
rounded.

A sum of no terms and the number zero are told apart: in binary64 the neutral element of addition
is `-0.0`, since `-0.0 + 0.0` is `0.0`, and sums start there.

* `Weight`       — the operations asked of a number system.
* `Weight.total` — the sum of a list, from the left.
-/

namespace CutCover

/-- A number system for weights and scores. Comparisons need not be total: a number may compare
with none, itself included. -/
class Weight (R : Type) extends Add R, Sub R, Mul R, Neg R, LT R, LE R where
  decidableLT : DecidableLT R
  decidableLE : DecidableLE R
  /-- A count as a number. -/
  ofNat : Nat → R
  /-- The sum of no terms. -/
  noTerms : R
  isFinite : R → Bool
  /-- The number as a binary64 one, for temperatures, noise and messages. -/
  toFloat : R → Float

namespace Weight

instance {R : Type} [Weight R] : DecidableLT R := decidableLT

instance {R : Type} [Weight R] : DecidableLE R := decidableLE

variable {R : Type} [Weight R]

/-- The sum of a list, added up from the left. -/
def total (terms : List R) : R :=
  terms.foldl (· + ·) noTerms

/-- Binary64 arithmetic, rounded to nearest. -/
instance : Weight Float where
  decidableLT := inferInstance
  decidableLE := inferInstance
  ofNat := Float.ofNat
  noTerms := -0.0
  isFinite := Float.isFinite
  toFloat := id

end Weight

end CutCover
