import CutCover.Assignment
import CutCover.Refusal
import CutCover.Text.Blank

/-!
# CutCover — written assignments

An assignment is written as a number in base 64. Its labels are the binary digits of that number,
node 0 the most significant, so that one written digit stands for six labels, counted from the
last node. The text has as many digits as the nodes need, and one if there are none; it is cut
into lines of 120 digits, and a text of more than 64 digits starts with a line break so that it
stands on lines of its own.

Reading ignores blanks, accepts any number of leading zero digits, and refuses a value that needs
more labels than there are nodes.

* `Base64.alphabet`, `Base64.digitValue?`, `Base64.symbol` — the digits.
* `Base64.width`    — how many digits the nodes need.
* `Base64.encode`   — writes an assignment.
* `Base64.decode`   — reads one.
-/

namespace CutCover.Base64

-- ---------------------------------------------------------------------------
-- Digits
-- ---------------------------------------------------------------------------

/-- The 64 digits in order of value. -/
def alphabet : List Char :=
  "0123456789ABCDEFGHIJKLMNOPQRSTUVWXYZabcdefghijklmnopqrstuvwxyz_$".toList

/-- The value of a digit. -/
def digitValue? (c : Char) : Option Nat :=
  alphabet.idxOf? c

/-- The digit of a value below 64. -/
def symbol (value : Nat) : Char :=
  alphabet.getD value '0'

/-- How many labels one digit stands for. -/
def bitsPerDigit : Nat := 6

/-- The number with the given binary digits, the most significant first. -/
def binaryValue (bits : List Bool) : Nat :=
  bits.foldl (fun value bit => 2 * value + bit.toNat) 0

/-- The six binary digits of a value below 64, the most significant first. -/
def digitBits (value : Nat) : List Bool :=
  [value.testBit 5, value.testBit 4, value.testBit 3, value.testBit 2, value.testBit 1,
   value.testBit 0]

/-- The base-64 digits of a whole number of groups of six binary digits. -/
def groupDigits : List Bool → List Nat
  | a :: b :: c :: d :: e :: f :: rest => binaryValue [a, b, c, d, e, f] :: groupDigits rest
  | _ => []

/-- The digits needed for `numNodes` labels. -/
def width (numNodes : Nat) : Nat :=
  (numNodes + (bitsPerDigit - 1)) / bitsPerDigit

-- ---------------------------------------------------------------------------
-- Layout
-- ---------------------------------------------------------------------------

/-- Digits per line. -/
def lineWidth : Nat := 120

/-- Texts with more digits than this start with a line break. -/
def inlineLimit : Nat := 64

/-- Breaks the text before every digit whose number is a positive multiple of the line width, and
at the start if the text is long. -/
def wrap (symbols : List Char) : List Char :=
  (if inlineLimit < symbols.length then ['\n'] else []) ++
    symbols.zipIdx.flatMap fun (c, i) => if 0 < i ∧ i % lineWidth = 0 then ['\n', c] else [c]

-- ---------------------------------------------------------------------------
-- Writing and reading
-- ---------------------------------------------------------------------------

/-- The digits of an assignment: grouped by six from the last label, without leading zeros, then
padded with zeros to the width that the nodes need, and to one digit at least. -/
def digits (numNodes : Nat) (labels : List Bool) : List Nat :=
  let filled := labels.leftpad (bitsPerDigit * width labels.length) false
  ((groupDigits filled).dropWhile (· == 0)).leftpad (max 1 (width numNodes)) 0

/-- The text of an assignment to `numNodes` nodes. -/
def encode (numNodes : Nat) (x : Assignment) : String :=
  String.ofList (wrap ((digits numNodes x.toList).map symbol))

/-- The values of the digits of a text, blanks left out; refuses the first other character.
`position` is the number of characters before the text. -/
def readDigits (position : Nat) : List Char → Except Refusal (List Nat)
  | [] => .ok []
  | c :: rest =>
    if Text.isBlank c then readDigits (position + 1) rest
    else match digitValue? c with
      | none => .error (.invalidSymbol c position)
      | some value => do
        let values ← readDigits (position + 1) rest
        return value :: values

/-- Brings binary digits to the length `numNodes`, from the left: missing ones are zero,
superfluous ones have to be. -/
def fit (numNodes : Nat) (bits : List Bool) : Except Refusal (List Bool) :=
  let excess := bits.length - numNodes
  if (bits.take excess).any id then .error (.valueOverflow numNodes)
  else .ok ((bits.drop excess).leftpad numNodes false)

/-- The assignment to `numNodes` nodes that a text denotes. -/
def decode (numNodes : Nat) (text : String) : Except Refusal Assignment := do
  let values ← readDigits 0 text.toList
  let labels ← fit numNodes (values.flatMap digitBits)
  return labels.toArray

end CutCover.Base64
