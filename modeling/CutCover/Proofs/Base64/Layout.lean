import CutCover.Proofs.Base64.RoundTrip
import Mathlib.Data.Nat.Digits.Lemmas

/-!
# CutCover — the text of a written assignment

An assignment is written as the base-64 digits of its number, as many as the nodes need. Stripping
the zeros in front and padding to the width come to the same as padding the digits of the number,
since lists of one length that denote one number are equal. Where the line breaks go depends only on
how many digits there are: numbering the digits and breaking before every 120th is cutting them into
lines of 120.

* `canonicalDigits`, `digits_eq_canonicalDigits` — the digits of an assignment.
* `AreLines`, `exists_lines` — digits in lines, and the lines that numbering them makes.
* `IsLayout`, `isLayout_wrap` — a text in lines.
* `encode_canonical`         — the text of every assignment.
-/

namespace CutCover.Base64

-- ---------------------------------------------------------------------------
-- Digits
-- ---------------------------------------------------------------------------

/-- The base-64 digits of the number that the labels are the binary digits of, the most significant
first, with zeros in front up to one digit for every six labels or part of six, and to one digit at
least. -/
def canonicalDigits (x : Assignment) : List Nat :=
  (Nat.digits 64 (binaryValue x.toList)).reverse.leftpad (max 1 ((x.size + 5) / 6)) 0

/-- The number of an assignment has no more digits than the nodes need. -/
theorem length_canonicalDigits (x : Assignment) :
    (canonicalDigits x).length = max 1 ((x.size + 5) / 6) := by
  have hlt : binaryValue x.toList < 2 ^ x.size := by simpa using binaryValue_lt x.toList
  have hpow : 2 ^ x.size ≤ 64 ^ ((x.size + 5) / 6) := by
    rw [show 64 = 2 ^ 6 from rfl, ← Nat.pow_mul]
    exact Nat.pow_le_pow_right Nat.two_pos (by omega)
  have hdigits := (Nat.digits_length_le_iff (by decide : 1 < 64) (binaryValue x.toList)).mpr
    (Nat.lt_of_lt_of_le hlt hpow)
  rw [canonicalDigits, List.length_leftpad, List.length_reverse]
  omega

theorem lt_of_mem_canonicalDigits {x : Assignment} : ∀ value ∈ canonicalDigits x, value < 64 := by
  intro value hvalue
  rcases List.mem_append.mp hvalue with hpad | hdigit
  · rw [(List.mem_replicate.mp hpad).2]
    decide
  · exact Nat.digits_lt_base (by decide) (List.mem_reverse.mp hdigit)

/-- An assignment is written with the digits of its number. -/
theorem digits_eq_canonicalDigits (x : Assignment) :
    digits x.size x.toList = canonicalDigits x := by
  refine digitsValue_inj ?_ lt_of_mem_digits lt_of_mem_canonicalDigits ?_
  · rw [length_digits Array.length_toList, length_canonicalDigits]
    rfl
  · rw [digitsValue_digits, canonicalDigits, List.leftpad, digitsValue_replicate_append,
      digitsValue, List.reverse_reverse, Nat.ofDigits_digits]

-- ---------------------------------------------------------------------------
-- Lines
-- ---------------------------------------------------------------------------

/-- Lines of exactly 120 symbols, except for the last one, which has at least one symbol and at most
as many. -/
inductive AreLines : List (List Char) → Prop where
  | last {line : List Char} (hne : line ≠ []) (hle : line.length ≤ 120) : AreLines [line]
  | full {line : List Char} {others : List (List Char)} (hline : line.length = 120)
    (hothers : AreLines others) : AreLines (line :: others)

namespace AreLines

variable {lines : List (List Char)}

theorem ne_nil (h : AreLines lines) : lines ≠ [] := by
  cases h <;> exact List.cons_ne_nil _ _

theorem flatten_ne_nil (h : AreLines lines) : lines.flatten ≠ [] := by
  cases h with
  | last hne _ => simpa using hne
  | full hline _ =>
    rw [List.flatten_cons]
    exact List.append_ne_nil_of_left_ne_nil (List.ne_nil_of_length_pos (by omega)) _

/-- A line before others ends with a line break. -/
theorem intercalate_cons (h : AreLines lines) (line : List Char) :
    ['\n'].intercalate (line :: lines) = line ++ ['\n'] ++ ['\n'].intercalate lines := by
  obtain ⟨first, others, rfl⟩ := List.exists_cons_of_ne_nil h.ne_nil
  exact List.intercalate_cons_cons

/-- The text begins with the first symbol. -/
theorem head?_intercalate (h : AreLines lines) :
    (['\n'].intercalate lines).head? = lines.flatten.head? := by
  cases h with
  | last _ _ => simp
  | @full line others hline hothers =>
    have hne : line ≠ [] := List.ne_nil_of_length_pos (by omega)
    rw [hothers.intercalate_cons, List.flatten_cons, List.append_assoc,
      List.head?_append_of_ne_nil _ hne, List.head?_append_of_ne_nil _ hne]

theorem intercalate_ne_nil (h : AreLines lines) : ['\n'].intercalate lines ≠ [] := by
  intro hempty
  have hhead := h.head?_intercalate
  rw [hempty, List.head?_nil, eq_comm, List.head?_eq_none_iff] at hhead
  exact h.flatten_ne_nil hhead

/-- The text ends with the last symbol. -/
theorem getLast?_intercalate (h : AreLines lines) :
    (['\n'].intercalate lines).getLast? = lines.flatten.getLast? := by
  induction h with
  | last _ _ => simp
  | @full line others _ hothers ih =>
    rw [hothers.intercalate_cons, List.flatten_cons,
      List.getLast?_append_of_ne_nil _ hothers.intercalate_ne_nil, ih,
      List.getLast?_append_of_ne_nil _ hothers.flatten_ne_nil]

end AreLines

-- ---------------------------------------------------------------------------
-- Numbered symbols
-- ---------------------------------------------------------------------------

/-- A symbol with its number, and a line break before it if the number calls for one. -/
def laid (place : Char × Nat) : List Char :=
  if 0 < place.2 ∧ place.2 % lineWidth = 0 then ['\n', place.1] else [place.1]

theorem wrap_eq (symbols : List Char) :
    wrap symbols = (if 64 < symbols.length then ['\n'] else []) ++ symbols.zipIdx.flatMap laid :=
  rfl

/-- Between two multiples of the line width there are no breaks. -/
theorem flatMap_laid_inside {line : List Char} {start : Nat}
    (h : ∀ i, start ≤ i → i < start + line.length → i % lineWidth ≠ 0) :
    (line.zipIdx start).flatMap laid = line := by
  have hlaid : ∀ place ∈ line.zipIdx start, laid place = [place.1] := by
    intro place hplace
    obtain ⟨hle, hlt, -⟩ := List.mem_zipIdx hplace
    exact if_neg fun hbreak => h _ hle hlt hbreak.2
  rw [List.flatMap_congr hlaid, ← List.map_eq_flatMap, List.zipIdx_map_fst]

/-- A line that begins at a multiple of the line width has its break in front, unless it is the
first one. -/
theorem flatMap_laid_line {line : List Char} {start : Nat} (hstart : start % lineWidth = 0)
    (hne : line ≠ []) (hle : line.length ≤ 120) :
    (line.zipIdx start).flatMap laid = (if 0 < start then ['\n'] else []) ++ line := by
  obtain ⟨c, rest, rfl⟩ := List.exists_cons_of_ne_nil hne
  rw [List.length_cons] at hle
  have hrest : (rest.zipIdx (start + 1)).flatMap laid = rest := by
    refine flatMap_laid_inside fun i hi hlt => ?_
    rw [lineWidth] at hstart ⊢
    omega
  rw [List.zipIdx_cons, List.flatMap_cons, hrest, laid]
  by_cases hpos : 0 < start <;> simp [hpos, hstart]

/-- Breaking before every number that is a positive multiple of the line width cuts the symbols into
lines. -/
theorem exists_lines {symbols : List Char} {start : Nat} (hne : symbols ≠ [])
    (hstart : start % lineWidth = 0) :
    ∃ lines, AreLines lines ∧ lines.flatten = symbols ∧
      (symbols.zipIdx start).flatMap laid
        = (if 0 < start then ['\n'] else []) ++ ['\n'].intercalate lines := by
  induction hlength : symbols.length using Nat.strong_induction_on generalizing symbols start with
  | _ length ih =>
    by_cases hle : symbols.length ≤ 120
    · refine ⟨[symbols], .last hne hle, by simp, ?_⟩
      rw [flatMap_laid_line hstart hne hle, List.intercalate_singleton]
    · obtain ⟨line, rest, rfl, hline⟩ :
          ∃ line rest, symbols = line ++ rest ∧ line.length = 120 := by
        refine ⟨symbols.take 120, symbols.drop 120, (List.take_append_drop 120 symbols).symm, ?_⟩
        rw [List.length_take]
        omega
      rw [List.length_append] at hle hlength
      have hrest : rest ≠ [] := List.ne_nil_of_length_pos (by omega)
      have hnext : (start + line.length) % lineWidth = 0 := by
        rw [hline]
        rw [lineWidth] at hstart ⊢
        omega
      -- the rest begins at a positive multiple, so that its break joins it to the first line
      obtain ⟨lines, hlines, hflatten, hlaid⟩ := ih rest.length (by omega) hrest hnext rfl
      refine ⟨line :: lines, .full hline hlines, by rw [List.flatten_cons, hflatten], ?_⟩
      have hfirst : line ≠ [] := List.ne_nil_of_length_pos (by omega)
      rw [List.zipIdx_append, List.flatMap_append,
        flatMap_laid_line hstart hfirst (Nat.le_of_eq hline), hlaid,
        if_pos (by omega : 0 < start + line.length), hlines.intercalate_cons]
      simp only [List.append_assoc]

-- ---------------------------------------------------------------------------
-- Texts in lines
-- ---------------------------------------------------------------------------

/-- The text is the symbols cut into lines, joined by single line breaks, with one more in front if
there are more than 64 symbols. -/
structure IsLayout (symbols text : List Char) : Prop where
  lines : ∃ lines, AreLines lines ∧ lines.flatten = symbols ∧
    text = (if 64 < symbols.length then ['\n'] else []) ++ ['\n'].intercalate lines
  /-- Without its line breaks the text is the symbols. -/
  filter_eq : (text.filter fun c => c ≠ '\n') = symbols
  begins : text.head? = some '\n' ↔ 64 < symbols.length
  ends : text.getLast? ≠ some '\n'

/-- Symbols without line breaks are laid out in lines. -/
theorem isLayout_wrap {symbols : List Char} (hne : symbols ≠ []) (h : '\n' ∉ symbols) :
    IsLayout symbols (wrap symbols) := by
  obtain ⟨lines, hlines, hflatten, hlaid⟩ := exists_lines hne (Nat.zero_mod lineWidth)
  have hwrap : wrap symbols
      = (if 64 < symbols.length then ['\n'] else []) ++ ['\n'].intercalate lines := by
    rw [wrap_eq, hlaid]
    rfl
  have hhead : (['\n'].intercalate lines).head? ≠ some '\n' := by
    rw [hlines.head?_intercalate, hflatten]
    exact fun hbreak => h (List.mem_of_head? hbreak)
  have hlast : (['\n'].intercalate lines).getLast? ≠ some '\n' := by
    rw [hlines.getLast?_intercalate, hflatten]
    exact fun hbreak => h (List.mem_of_getLast? hbreak)
  refine ⟨⟨lines, hlines, hflatten, hwrap⟩, ?_, ?_, ?_⟩
  · refine filter_wrap (by decide) fun c hc => ?_
    rw [decide_eq_true_eq]
    rintro rfl
    exact h hc
  · rw [hwrap]
    split
    · next hlong => simp [hlong]
    · next hshort => simpa [hshort] using hhead
  · rwa [hwrap, List.getLast?_append_of_ne_nil _ hlines.intercalate_ne_nil]

/-- One symbol more than a line holds. -/
example : wrap (List.replicate 121 '0')
    = '\n' :: (List.replicate 120 '0' ++ ['\n', '0']) := by
  decide +kernel

-- ---------------------------------------------------------------------------
-- Written assignments
-- ---------------------------------------------------------------------------

theorem symbol_mem_alphabet {value : Nat} (h : value < 64) : symbol value ∈ alphabet := by
  have hlt : value < alphabet.length := by rwa [alphabet_spec.1]
  simp [symbol, List.getD_eq_getElem?_getD, List.getElem?_eq_getElem hlt]

/-- An assignment is written in one way. The text is the base-64 digits of its number, the most
significant first, with zeros in front up to a digit for every six labels or part of six and to one
digit at least; they stand in lines of exactly 120, the last of 1 to 120, joined by single line
breaks, after one more line break if there are more than 64. There is no other character. -/
theorem encode_canonical (x : Assignment) :
    (canonicalDigits x).length = max 1 ((x.size + 5) / 6) ∧
    IsLayout ((canonicalDigits x).map symbol) (encode x.size x).toList ∧
    ∀ c ∈ (encode x.size x).toList, c = '\n' ∨ c ∈ alphabet := by
  have hsymbols : ∀ c ∈ (canonicalDigits x).map symbol, c ∈ alphabet := by
    intro c hc
    obtain ⟨value, hvalue, rfl⟩ := List.mem_map.mp hc
    exact symbol_mem_alphabet (lt_of_mem_canonicalDigits value hvalue)
  have hne : (canonicalDigits x).map symbol ≠ [] := by
    refine List.ne_nil_of_length_pos ?_
    rw [List.length_map, length_canonicalDigits]
    omega
  have hbreak : '\n' ∉ alphabet := by decide +kernel
  have hlayout : IsLayout ((canonicalDigits x).map symbol) (encode x.size x).toList := by
    rw [encode, digits_eq_canonicalDigits, String.toList_ofList]
    exact isLayout_wrap hne fun hmem => hbreak (hsymbols _ hmem)
  refine ⟨length_canonicalDigits x, hlayout, ?_⟩
  intro c hc
  by_cases hown : c = '\n'
  · exact .inl hown
  · refine .inr (hsymbols c ?_)
    rw [← hlayout.filter_eq]
    exact List.mem_filter.mpr ⟨hc, by simpa using hown⟩

end CutCover.Base64
