import CutCover.Text.Printable

/-!
# CutCover — quoted text

How a character or a string of the input is shown inside a message: between quotes, with the
control characters that have a short escape written with it, and every other character that would
not show up as itself written by its code point. Each kind of quote is escaped only where it would
end the quotation.
-/

namespace CutCover.Text

/-- A code point as `u`, an opening brace, lowercase hexadecimal digits without padding and a
closing brace, after a backslash. -/
def escapeCodePoint (c : Char) : String :=
  "\\u\x7b" ++ String.ofList (Nat.toDigits 16 c.toNat) ++ "\x7d"

/-- The text of `c` inside quotation marks `quote`. -/
def escape (quote c : Char) : String :=
  if c = '\x00' then "\\0"
  else if c = '\t' then "\\t"
  else if c = '\r' then "\\r"
  else if c = '\n' then "\\n"
  else if c = '\x5c' ∨ c = quote then "\\" ++ String.singleton c
  else if isPrintable c then String.singleton c
  else escapeCodePoint c

/-- The quotation mark of characters. -/
def singleQuote : Char := Char.ofNat 0x27

/-- The quotation mark of strings. -/
def doubleQuote : Char := Char.ofNat 0x22

/-- A character between single quotes. -/
def quoteChar (c : Char) : String :=
  String.singleton singleQuote ++ escape singleQuote c ++ String.singleton singleQuote

/-- A string between double quotes. -/
def quoteString (s : String) : String :=
  String.singleton doubleQuote ++ String.join (s.toList.map (escape doubleQuote)) ++
    String.singleton doubleQuote

end CutCover.Text
