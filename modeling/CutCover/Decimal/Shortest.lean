/-!
# CutCover — shortest decimals

The shortest decimal that still denotes a given binary64 number. A finite number other than zero
is `mantissa * 2 ^ exponent`; the reals that round to it form an interval around it, which
contains its ends exactly when the mantissa is even (ties go to even). Of the grids of multiples
of a power of ten, the coarsest one with a point in that interval gives the fewest digits, and of
the points of that grid the one nearest to the number is taken.

* `Binary`, `Binary.ofBits` — sign, mantissa and exponent of a finite number.
* `Binary.holds`            — the points of a grid that denote the number.
* `Decimal`, `Binary.shortest` — the decimal chosen.
-/

namespace CutCover

/-- The number `digits * 10 ^ exponent`. -/
structure Decimal where
  digits : Nat
  exponent : Int
deriving DecidableEq, Repr

namespace Decimal

/-- The magnitude `mantissa * 2 ^ exponent`. `gapBelow` is the distance to the lower end of the
interval of reals that round to it, in quarters of the last place: two, or one where the numbers
below lie closer together. -/
structure Binary where
  mantissa : Nat
  exponent : Int
  gapBelow : Nat
deriving DecidableEq, Repr

/-- The magnitude of the finite number with these bits. -/
def Binary.ofBits (bits : UInt64) : Binary :=
  let fraction : Nat := bits.toNat % Nat.pow 2 52
  let biased : Nat := bits.toNat / Nat.pow 2 52 % Nat.pow 2 11
  if biased = 0 then ⟨fraction, -1074, 2⟩
  else ⟨Nat.pow 2 52 + fraction, (biased : Int) - 1075, if fraction = 0 ∧ 1 < biased then 1 else 2⟩

/-- Numerator of a quarter of the last place, measured in steps of the grid of multiples of
`10 ^ k`. -/
def Binary.quarter (b : Binary) (k : Int) : Nat :=
  Nat.pow 2 b.exponent.toNat * Nat.pow 10 (-k).toNat

/-- Denominator that goes with `Binary.quarter`. -/
def Binary.step (b : Binary) (k : Int) : Nat :=
  4 * Nat.pow 2 (-b.exponent).toNat * Nat.pow 10 k.toNat

/-- The point `j * 10 ^ k` rounds to the number. -/
def Binary.holds (b : Binary) (k : Int) (j : Nat) : Bool :=
  let low := (4 * b.mantissa - b.gapBelow) * b.quarter k
  let high := (4 * b.mantissa + 2) * b.quarter k
  let point := j * b.step k
  if b.mantissa % 2 = 0 then low ≤ point && point ≤ high else low < point && point < high

/-- The two points of the grid of multiples of `10 ^ k` next to the number, the nearer one first;
at equal distance the larger one comes first. -/
def Binary.neighbours (b : Binary) (k : Int) : List Nat :=
  let value := 4 * b.mantissa * b.quarter k
  let below := value / b.step k
  if 2 * (value % b.step k) < b.step k then [below, below + 1] else [below + 1, below]

/-- The coarsest grid among those of multiples of `10 ^ (n - 324)`, …, `10 ^ (-324)` that has a
point denoting the number. The last places of finite numbers are at least `2 ^ (-1074)`, which is
more than `10 ^ (-324)`, so the finest of these grids always has one. -/
def Binary.shortestFrom (b : Binary) : Nat → Decimal
  | 0 => ⟨(b.neighbours (-324)).headD 0, -324⟩
  | n + 1 =>
    let k : Int := ((n + 1 : Nat) : Int) - 324
    match (b.neighbours k).find? (b.holds k) with
    | some j => ⟨j, k⟩
    | none => b.shortestFrom n

/-- The shortest decimal that denotes the number, nearest to it among those. Finite numbers are
below `10 ^ 309`, so the search starts at that grid. -/
def Binary.shortest (b : Binary) : Decimal :=
  b.shortestFrom 633

end Decimal

end CutCover
