import CutCover.Proofs.Base64.RoundTrip

/-!
# CutCover — which texts denote an assignment

A text is refused for the first character that is neither blank nor a digit, wherever it stands and
whatever the digits come to. A text without such a character denotes the number of its digits, and
with it the one assignment that has this number; it is refused only if the number needs more labels
than there are nodes. Blanks and leading zeros do not change the number.

* `IsStray`, `textValue`   — what is refused, and what the rest denotes.
* `decode_of_stray`        — the first stray character is reported where it stands.
* `decode_cases`           — a text without one denotes its number, or overflows.
* `decode_spec`            — the texts that are read, and what each is read as.
-/

namespace CutCover.Base64

open Text (isBlank)

-- ---------------------------------------------------------------------------
-- Stray characters
-- ---------------------------------------------------------------------------

/-- A character that is neither blank nor a digit. -/
def IsStray (c : Char) : Prop :=
  isBlank c = false ∧ c ∉ alphabet

instance (c : Char) : Decidable (IsStray c) :=
  inferInstanceAs (Decidable (_ ∧ _))

/-- Of the characters that are not blank, the stray ones are those without a value. -/
theorem isStray_iff {c : Char} (h : isBlank c = false) : IsStray c ↔ digitValue? c = none := by
  rw [IsStray, digitValue?, List.idxOf?_eq_none_iff]
  exact and_iff_right h

/-- Reading stops at the first stray character, after all that stands before it was counted. -/
theorem readDigits_of_stray {before after : List Char} {c : Char} {position : Nat}
    (hc : IsStray c) (hbefore : ∀ d ∈ before, ¬ IsStray d) :
    readDigits position (before ++ c :: after)
      = .error (.invalidSymbol c (position + before.length)) := by
  induction before generalizing position with
  | nil => simp [readDigits, hc.1, (isStray_iff hc.1).mp hc]
  | cons d before ih =>
    obtain ⟨hd, hrest⟩ := List.forall_mem_cons.mp hbefore
    have hread : readDigits (position + 1) (before ++ c :: after)
        = .error (.invalidSymbol c (position + (d :: before).length)) := by
      rw [ih hrest, List.length_cons, Nat.add_assoc, Nat.add_comm 1]
    rw [List.cons_append, readDigits]
    cases hblank : isBlank d with
    | true => exact hread
    | false =>
      obtain ⟨value, hvalue⟩ := Option.ne_none_iff_exists'.mp (mt (isStray_iff hblank).mpr hd)
      simp only [Bool.false_eq_true, if_false, hvalue, hread]
      rfl

/-- A text is refused for its first stray character, with the number of characters before it. -/
theorem decode_of_stray {numNodes : Nat} {text : String} {before after : List Char} {c : Char}
    (htext : text.toList = before ++ c :: after) (hc : IsStray c)
    (hbefore : ∀ d ∈ before, ¬ IsStray d) :
    decode numNodes text = .error (.invalidSymbol c before.length) := by
  rw [decode, htext, readDigits_of_stray hc hbefore, Nat.zero_add]
  rfl

/-- Where there is a stray character, there is a first one. -/
theorem exists_first_stray {cs : List Char} (h : ∃ c ∈ cs, IsStray c) :
    ∃ before c after, cs = before ++ c :: after ∧ IsStray c ∧ ∀ d ∈ before, ¬ IsStray d := by
  obtain ⟨c, hfind⟩ := Option.isSome_iff_exists.mp
    (List.find?_isSome (p := fun c => decide (IsStray c)) |>.mpr (by simpa using h))
  obtain ⟨hc, before, after, hsplit, hbefore⟩ := List.find?_eq_some_iff_append.mp hfind
  exact ⟨before, c, after, hsplit, of_decide_eq_true hc, by simpa using hbefore⟩

-- ---------------------------------------------------------------------------
-- The number of a text
-- ---------------------------------------------------------------------------

/-- The number that the digits of a text denote, the most significant first; 0 if there are none. -/
def textValue (text : String) : Nat :=
  digitsValue ((ownDigits text).map fun c => alphabet.idxOf c)

/-- A character of the alphabet is the symbol of its place. -/
theorem symbol_idxOf {c : Char} (h : c ∈ alphabet) : symbol (alphabet.idxOf c) = c := by
  have hlt := List.idxOf_lt_length_iff.mpr h
  simp [symbol, List.getD_eq_getElem?_getD, List.getElem?_eq_getElem hlt]

/-- Without stray characters, all that is not blank is a digit. -/
theorem legible_iff {text : String} :
    (∀ c ∈ text.toList, ¬ IsStray c) ↔ ∀ c ∈ ownDigits text, c ∈ alphabet := by
  simp only [IsStray, ownDigits, List.mem_filter, Bool.not_eq_true', not_and, not_not, and_imp]

/-- Reading a text without stray characters answers the places of its digits in the alphabet. -/
theorem readDigits_of_legible {text : String} (h : ∀ c ∈ text.toList, ¬ IsStray c) :
    readDigits 0 text.toList = .ok ((ownDigits text).map fun c => alphabet.idxOf c) := by
  have hdigit := legible_iff.mp h
  have hsymbols : (ownDigits text).map (symbol ∘ fun c => alphabet.idxOf c)
      = (ownDigits text).map id :=
    List.map_congr_left fun c hc => symbol_idxOf (hdigit c hc)
  refine readDigits_eq_ok_iff.mpr ⟨?_, ?_⟩
  · rw [List.map_map, hsymbols, List.map_id, ownDigits]
  · intro value hvalue
    obtain ⟨c, hc, rfl⟩ := List.mem_map.mp hvalue
    rw [← alphabet_spec.1]
    exact List.idxOf_lt_length_iff.mpr (hdigit c hc)

/-- A text without stray characters denotes a number that needs more labels than there are nodes,
and is refused, or the number of the assignment that is answered. -/
theorem decode_cases (numNodes : Nat) {text : String} (h : ∀ c ∈ text.toList, ¬ IsStray c) :
    (2 ^ numNodes ≤ textValue text ∧ decode numNodes text = .error (.valueOverflow numNodes)) ∨
    ∃ x, decode numNodes text = .ok x ∧ x.size = numNodes ∧
      binaryValue x.toList = textValue text := by
  have hread := readDigits_of_legible h
  have hlt := (readDigits_eq_ok_iff.mp hread).2
  rw [textValue, ← binaryValue_flatMap_digitBits hlt, decode, hread]
  rcases fit_cases numNodes (((ownDigits text).map fun c => alphabet.idxOf c).flatMap digitBits)
    with ⟨hle, hfit⟩ | ⟨labels, hfit, hlength, hvalue⟩
  · refine .inl ⟨hle, ?_⟩
    show (fit _ _ >>= _) = _
    rw [hfit]
    rfl
  · refine .inr ⟨labels.toArray, ?_, by simpa using hlength, hvalue⟩
    show (fit _ _ >>= _) = _
    rw [hfit]
    rfl

/-- It denotes the assignments, one at most, whose number is that of its digits. -/
theorem decode_eq_ok_iff_textValue {numNodes : Nat} {text : String} {x : Assignment}
    (h : ∀ c ∈ text.toList, ¬ IsStray c) :
    decode numNodes text = .ok x ↔ x.size = numNodes ∧ binaryValue x.toList = textValue text := by
  rcases decode_cases numNodes h with ⟨hle, hread⟩ | ⟨y, hread, hsize, hvalue⟩
  · rw [hread]
    refine ⟨fun hx => (nomatch hx), ?_⟩
    rintro ⟨rfl, hvalue⟩
    have hlt := binaryValue_lt x.toList
    rw [hvalue, Array.length_toList] at hlt
    omega
  · rw [hread, Except.ok.injEq]
    constructor
    · rintro rfl
      exact ⟨hsize, hvalue⟩
    · rintro ⟨hsize', hvalue'⟩
      refine Array.toList_inj.mp (binaryValue_inj ?_ (hvalue.trans hvalue'.symm))
      rw [Array.length_toList, Array.length_toList, hsize, hsize']

/-- It is refused if its number needs more labels than there are nodes. -/
theorem decode_of_overflow {numNodes : Nat} {text : String} (h : ∀ c ∈ text.toList, ¬ IsStray c)
    (hle : 2 ^ numNodes ≤ textValue text) :
    decode numNodes text = .error (.valueOverflow numNodes) := by
  rcases decode_cases numNodes h with ⟨-, hread⟩ | ⟨x, -, rfl, hvalue⟩
  · exact hread
  · have hlt := binaryValue_lt x.toList
    rw [hvalue, Array.length_toList] at hlt
    omega

/-- And it denotes an assignment if the nodes have enough labels for its number. -/
theorem exists_decode_eq_ok {numNodes : Nat} {text : String} (h : ∀ c ∈ text.toList, ¬ IsStray c)
    (hlt : textValue text < 2 ^ numNodes) : ∃ x, decode numNodes text = .ok x := by
  rcases decode_cases numNodes h with ⟨hle, -⟩ | ⟨x, hread, -⟩
  · omega
  · exact ⟨x, hread⟩

/-- Zeros in front do not change the number of a text, and blanks do not count. -/
theorem textValue_of_zeros {text other : String} {zeros : Nat}
    (h : ownDigits other = List.replicate zeros '0' ++ ownDigits text) :
    textValue other = textValue text := by
  have hzero : alphabet.idxOf '0' = 0 := by decide
  rw [textValue, h, List.map_append, List.map_replicate, hzero, digitsValue_replicate_append,
    textValue]

/-- Blanks may stand anywhere and zeros in front: they change neither whether a text is read nor
what it is read as. -/
theorem decode_of_zeros {numNodes zeros : Nat} {text other : String}
    (htext : ∀ c ∈ text.toList, ¬ IsStray c)
    (h : ownDigits other = List.replicate zeros '0' ++ ownDigits text) :
    decode numNodes other = decode numNodes text := by
  have hother : ∀ c ∈ other.toList, ¬ IsStray c := by
    refine legible_iff.mpr ?_
    intro c hc
    rcases List.mem_append.mp (h ▸ hc) with hzero | hc
    · rw [(List.mem_replicate.mp hzero).2]
      decide
    · exact legible_iff.mp htext c hc
  have hsame := textValue_of_zeros h
  rcases Nat.lt_or_ge (textValue text) (2 ^ numNodes) with hlt | hle
  · obtain ⟨x, hread⟩ := exists_decode_eq_ok htext hlt
    obtain ⟨hsize, hvalue⟩ := (decode_eq_ok_iff_textValue htext).mp hread
    rw [hread, decode_eq_ok_iff_textValue hother]
    exact ⟨hsize, hvalue.trans hsame.symm⟩
  · rw [decode_of_overflow htext hle, decode_of_overflow hother (hle.trans_eq hsame.symm)]

-- ---------------------------------------------------------------------------
-- The language
-- ---------------------------------------------------------------------------

/-- What reading a text answers. If there are stray characters, the first of them is reported, with
the number of characters before it, whatever the digits come to. Otherwise the number of the digits
decides: if the nodes have enough labels for it, the text denotes the one assignment with this
number, and if not, it is refused. Any other text with these digits, its blanks placed in any way
and any number of zeros in front, is read alike. -/
theorem decode_spec (numNodes : Nat) (text : String) :
    ((∃ c ∈ text.toList, IsStray c) →
      ∃ before c after, text.toList = before ++ c :: after ∧ IsStray c ∧
        (∀ d ∈ before, ¬ IsStray d) ∧
        decode numNodes text = .error (.invalidSymbol c before.length)) ∧
    ((∀ c ∈ text.toList, ¬ IsStray c) →
      (textValue text < 2 ^ numNodes →
        ∃ x, decode numNodes text = .ok x ∧
          ∀ y : Assignment, y.size = numNodes ∧ binaryValue y.toList = textValue text ↔ y = x) ∧
      (2 ^ numNodes ≤ textValue text →
        decode numNodes text = .error (.valueOverflow numNodes)) ∧
      ∀ (other : String) (zeros : Nat),
        ownDigits other = List.replicate zeros '0' ++ ownDigits text →
          decode numNodes other = decode numNodes text) := by
  constructor
  · intro hstray
    obtain ⟨before, c, after, htext, hc, hbefore⟩ := exists_first_stray hstray
    exact ⟨before, c, after, htext, hc, hbefore, decode_of_stray htext hc hbefore⟩
  · intro hlegible
    refine ⟨?_, decode_of_overflow hlegible, fun other zeros h => decode_of_zeros hlegible h⟩
    intro hlt
    obtain ⟨x, hread⟩ := exists_decode_eq_ok hlegible hlt
    refine ⟨x, hread, fun y => ?_⟩
    rw [← decode_eq_ok_iff_textValue hlegible, hread, Except.ok.injEq, eq_comm]

/-- Among four nodes, a text with a wide blank before its stray character, one with the number
nine and one with the number sixteen. -/
theorem decode_spec_four :
    (∃ before c after, "$\u2003é#".toList = before ++ c :: after ∧ IsStray c ∧
      (∀ d ∈ before, ¬ IsStray d) ∧
      decode 4 "$\u2003é#" = .error (.invalidSymbol c before.length)) ∧
    (∃ x, decode 4 "0 9" = .ok x ∧
      ∀ y : Assignment, y.size = 4 ∧ binaryValue y.toList = textValue "0 9" ↔ y = x) ∧
    decode 4 "G" = .error (.valueOverflow 4) ∧
    decode 4 "000\t9\n" = decode 4 "0 9" := by
  have hlegible (text : String) (h : (text.toList.all fun c => decide ¬ IsStray c) = true) :
      ∀ c ∈ text.toList, ¬ IsStray c :=
    fun c hc => of_decide_eq_true (List.all_eq_true.mp h c hc)
  have hnine := hlegible "0 9" (by decide +kernel)
  have hsixteen := hlegible "G" (by decide +kernel)
  refine ⟨(decode_spec 4 _).1 ⟨'é', ?_, ?_⟩, ((decode_spec 4 _).2 hnine).1 ?_,
    ((decode_spec 4 _).2 hsixteen).2.1 ?_, ((decode_spec 4 _).2 hnine).2.2 _ 2 ?_⟩
  all_goals decide +kernel

end CutCover.Base64
