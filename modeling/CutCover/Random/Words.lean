import CutCover.Outcome

/-!
# CutCover — random words

Randomness enters as a source of 64-bit words. Nothing is assumed about the words: what is stated
of a random choice holds for every source, hence for every sequence of words.

* `WordSource` — a source: its next word and the source after it.
* `Draw`       — a computation that takes words and answers or aborts.
* `Draw.unit`, `Draw.coin`, `Draw.below`, `Draw.pick` — a number in `[0, 1)`, a label, a number
  below a bound, an entry of an array.
* `Draw.replicate`   — the same draw several times.
* `Draw.repeatUntil` — a rejection loop.
-/

namespace CutCover

/-- A source of 64-bit words. `attempts` bounds the rounds of a rejection loop on this source; a
loop that needs more counts as endless. -/
class WordSource (σ : Type) where
  next : σ → UInt64 × σ
  attempts : Nat

/-- A computation that takes words from a source of type `σ`, and answers or aborts. -/
abbrev Draw (σ : Type) := StateT σ Checked

namespace Draw

variable {σ : Type} [WordSource σ] {α : Type}

/-- The next word. -/
def word : Draw σ UInt64 := fun source =>
  .ok (WordSource.next source)

/-- The high half of the next word. -/
def halfWord : Draw σ Nat := do
  let w ← word
  return (w >>> 32).toNat

/-- A uniform binary64 number in `[0, 1)`: the high 52 bits of a word as a fraction. Placing them
after the point of a number in `[1, 2)` and subtracting one is exact. -/
def unit : Draw σ Float := do
  let w ← word
  return Float.ofBits ((w >>> 12) ||| 0x3ff0000000000000) - 1.0

/-- A label, each with probability one half: the highest bit of a word is clear. -/
def coin : Draw σ Bool := do
  let w ← word
  return w < 0x8000000000000000

/-- The number of values that a half word can take. -/
def halfWordRange : Nat := 0x100000000

/-- The next word, as a number. -/
def wholeWord : Draw σ Nat := do
  let w ← word
  return w.toNat

/-- A number below `bound`, from the product of a draw below `range` with the bound: the answer is
the part of the product above `range`. Where the part below leaves room for a carry, a second draw
decides it. -/
def scaled (range : Nat) (draw : Draw σ Nat) (bound : Nat) : Draw σ Nat := do
  let product := (← draw) * bound
  let low := product % range
  if range < low + bound then
    let carry := (low + (← draw) * bound / range) / range
    return product / range + carry
  return product / range

/-- A number below `bound`, from half words if they reach beyond the bound, and else from whole
words. Aborts if there is no number below `bound`. -/
def below (bound : Nat) : Draw σ Nat := do
  if bound = 0 then
    throw .emptyRange
  if bound < halfWordRange then
    scaled halfWordRange halfWord bound
  else
    scaled wordRange wholeWord bound

/-- A uniformly chosen entry; aborts if there is none. -/
def pick (xs : Array α) : Draw σ α := do
  let i ← below xs.size
  fetch xs i

/-- The answers of `count` draws, in order. -/
def replicate (count : Nat) (draw : Draw σ α) : Draw σ (List α) :=
  match count with
  | 0 => return []
  | count + 1 => do
    let first ← draw
    let rest ← replicate count draw
    return first :: rest

/-- Repeats `trial` until it answers, at most `rounds` times. -/
def retry (trial : Draw σ (Option α)) : Nat → Draw σ α
  | 0 => throw .endlessSampling
  | rounds + 1 => do
    match ← trial with
    | some answer => return answer
    | none => retry trial rounds

/-- Repeats `trial` until it answers. -/
def repeatUntil (trial : Draw σ (Option α)) : Draw σ α :=
  retry trial (WordSource.attempts σ)

end Draw

end CutCover
