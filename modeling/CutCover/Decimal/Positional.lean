import CutCover.Decimal.Shortest

/-!
# CutCover — positional numbers

The text of a number in messages: the shortest digits that denote it, written out positionally
whatever their exponent, without a fraction when there is none. A negative sign is kept on zero.
-/

namespace CutCover.Decimal

/-- Writes `digits * 10 ^ exponent` with a point where one is needed and every zero written out. -/
def positional (d : Decimal) : String :=
  let digits := Nat.toDigits 10 d.digits
  let places := (-d.exponent).toNat
  if places = 0 then
    String.ofList (digits ++ List.replicate d.exponent.toNat '0')
  else if digits.length ≤ places then
    "0." ++ String.ofList (List.replicate (places - digits.length) '0' ++ digits)
  else
    String.ofList (digits.take (digits.length - places)) ++ "." ++
      String.ofList (digits.drop (digits.length - places))

/-- The text of a number. -/
def render (x : Float) : String :=
  if x.isNaN then "NaN"
  else
    let sign := if x.toBits >>> 63 = 0 then "" else "-"
    let magnitude :=
      if x.isInf then "inf"
      else if x == 0.0 then "0"
      else (Binary.ofBits x.toBits).shortest.positional
    sign ++ magnitude

end CutCover.Decimal
