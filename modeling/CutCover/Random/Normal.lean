import CutCover.Random.Words
import CutCover.Random.Normal.Layers

/-!
# CutCover — normal draws

Standard normal numbers by the method of layers: a word picks a layer and a point of its
rectangle. Points under the layer above are under the curve and are taken at once; of the others
those in a higher layer are taken if a second draw puts them under the curve, and those of layer
`0` are replaced by a draw from the tail. Everything else is rejected and starts over.

* `exponential`      — the exponential function, with its value at both zeros made explicit.
* `Draw.openUnit`    — a number strictly between zero and one.
* `Draw.normalTail`  — a number beyond the start of the tail.
* `Draw.normal`      — a standard normal number.
-/

namespace CutCover

/-- The exponential function. At zero of either sign it is one. -/
def exponential (x : Float) : Float :=
  if x == 0.0 then 1.0 else Float.exp x

/-- The exponential of negative zero is one. -/
theorem exponential_neg_zero : exponential (-0.0) = 1.0 := by
  decide

namespace Draw

variable {σ : Type} [WordSource σ]

/-- A number strictly between zero and one, from the high 52 bits of a word. -/
def openUnit : Draw σ Float := do
  let w ← word
  return Float.ofBits ((w >>> 12) ||| 0x3ff0000000000000) - Float.ofBits 0x3fefffffffffffff

/-- A number in `[0, 1)` from the high 53 bits of a word. -/
def fineUnit : Draw σ Float := do
  let w ← word
  return (w >>> 11).toFloat * Float.ofBits 0x3ca0000000000000

/-- One attempt at the distance of a tail point from the start of the tail: an exponential number,
which is negative here, kept with the probability that the curve falls below it. -/
def tailTrial : Draw σ (Option Float) := do
  let a ← openUnit
  let c ← openUnit
  let x := a.log / Normal.tailStart
  let y := c.log
  return if -2.0 * y < x * x then none else some x

/-- A number beyond the start of the tail, on the negative side if `negative` holds. -/
def normalTail (negative : Bool) : Draw σ Float := do
  let x ← repeatUntil tailTrial
  return if negative then x - Normal.tailStart else Normal.tailStart - x

/-- One attempt at a standard normal number. -/
def normalTrial : Draw σ (Option Float) := do
  let w ← word
  let i := (w &&& 0xff).toNat
  let u := Float.ofBits ((w >>> 12) ||| 0x4000000000000000) - 3.0
  let x := u * (← Normal.edge i)
  if x.abs < (← Normal.edge (i + 1)) then
    return some x
  else if i = 0 then
    return some (← normalTail (u < 0.0))
  else
    let low ← Normal.density (i + 1)
    let high ← Normal.density i
    let height := low + (high - low) * (← fineUnit)
    return if height < exponential (-x * x / 2.0) then some x else none

/-- A standard normal number. -/
def normal : Draw σ Float :=
  repeatUntil normalTrial

end Draw

end CutCover
