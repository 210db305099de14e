import CutCover.Outcome

/-!
# CutCover — ranks of binary64 numbers

A total order of binary64 numbers, which agrees with the numeric one where that is defined, puts
`-0.0` before `0.0`, and what is not a number before everything else; and the number of a given
rank in a list.

* `orderKey` — the place of a number in the total order.
* `ofRank`   — the number of rank `k`, counted from one.
-/

namespace CutCover.LocalSearch

/-- The lowest number there is. -/
def negativeInfinity : Float :=
  Float.ofBits 0xfff0000000000000

/-- The highest number there is. -/
def positiveInfinity : Float :=
  Float.ofBits 0x7ff0000000000000

/-- The place of a number in the total order. As words, the bits of positive numbers are in order,
and those of negative ones in reverse order with the sign bit on top. What is not a number comes
before all of them, as it does in the order of the words if its sign bit is set: this is how the
arithmetic of the usual machines makes it. With the sign bit clear it would come after them. -/
def orderKey (x : Float) : UInt64 :=
  let bits := x.toBits
  if x.isNaN then 0
  else if bits >>> 63 = 0 then bits ||| 0x8000000000000000
  else ~~~bits

/-- The number of rank `k` in the total order; negative infinity for `k = 0`, which everything
finite exceeds. Aborts if there are fewer than `k` numbers. -/
def ofRank (values : List Float) (k : Nat) : Checked Float :=
  match k with
  | 0 => .ok negativeInfinity
  | k + 1 => fetch (values.mergeSort fun a b => orderKey a ≤ orderKey b).toArray k

end CutCover.LocalSearch
