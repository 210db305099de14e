import CutCover.Proofs.Base64.Value

/-!
# CutCover — written assignments are read back

Reading a text yields the assignment with the number that the digits of the text denote, and writing
an assignment yields the digits of its number, in the fixed width that the nodes need. Hence what
was written is read back, and what was read is written with the same digits again, up to zeros in
front.

* `readDigits_eq_ok_iff`, `fit_eq_ok_iff`, `decode_eq_ok_iff` — what reading answers.
* `length_digits`, `digitsValue_digits`, `filter_wrap`        — what writing answers.
* `decode_encode`, `encode_of_decode`                         — the two round trips.
* `decode_encode_round_trip`                                  — both, and the canonical text.
-/

namespace CutCover.Base64

open Text (isBlank)

-- ---------------------------------------------------------------------------
-- Digits in a text
-- ---------------------------------------------------------------------------

/-- The characters of a text that are not blank. -/
def ownDigits (text : String) : List Char :=
  text.toList.filter fun c => !isBlank c

/-- There are 64 digits. Each symbol stands for the value it is the symbol of, and none is blank. -/
theorem alphabet_spec : alphabet.length = 64 ∧
    ∀ value < 64, digitValue? (symbol value) = some value ∧ isBlank (symbol value) = false := by
  decide +kernel

theorem isBlank_symbol {value : Nat} (h : value < 64) : isBlank (symbol value) = false :=
  (alphabet_spec.2 value h).2

/-- A digit is the symbol of its value. -/
theorem digitValue?_eq_some_iff {c : Char} {value : Nat} :
    digitValue? c = some value ↔ value < 64 ∧ c = symbol value := by
  constructor
  · intro h
    obtain ⟨hlt, hget, -⟩ := List.idxOf?_eq_some_iff.mp h
    refine ⟨by rwa [alphabet_spec.1] at hlt, ?_⟩
    simp [symbol, List.getD_eq_getElem?_getD, List.getElem?_eq_getElem hlt, hget]
  · rintro ⟨hlt, rfl⟩
    exact (alphabet_spec.2 value hlt).1

/-- Reading the digits of a text answers their values if there is nothing but digits and blanks. -/
theorem readDigits_eq_ok_iff {cs : List Char} {position : Nat} {values : List Nat} :
    readDigits position cs = .ok values ↔
      (cs.filter fun c => !isBlank c) = values.map symbol ∧ ∀ value ∈ values, value < 64 := by
  induction cs generalizing position values with
  | nil =>
    cases values <;> simp [readDigits]
  | cons c rest ih =>
    rw [readDigits]
    cases hblank : isBlank c with
    | true => simpa [hblank] using ih
    | false =>
      simp only [Bool.false_eq_true, if_false, List.filter_cons, hblank, Bool.not_false, if_true]
      constructor
      · intro h
        cases hvalue : digitValue? c with
        | none =>
          rw [hvalue] at h
          cases h
        | some first =>
          rw [hvalue] at h
          cases hrest : readDigits (position + 1) rest with
          | error refusal =>
            rw [hrest] at h
            cases h
          | ok others =>
            rw [hrest] at h
            cases h
            obtain ⟨hfirst, hsymbol⟩ := digitValue?_eq_some_iff.mp hvalue
            obtain ⟨hothers, hlt⟩ := ih.mp hrest
            refine ⟨by rw [List.map_cons, hsymbol, hothers], ?_⟩
            exact List.forall_mem_cons.mpr ⟨hfirst, hlt⟩
      · rintro ⟨hdigits, hlt⟩
        cases values with
        | nil => cases hdigits
        | cons first others =>
          obtain ⟨hfirst, hothers⟩ := List.forall_mem_cons.mp hlt
          rw [List.map_cons, List.cons.injEq] at hdigits
          rw [digitValue?_eq_some_iff.mpr ⟨hfirst, hdigits.1⟩, ih.mpr ⟨hdigits.2, hothers⟩]
          rfl

-- ---------------------------------------------------------------------------
-- Fitting a number to the nodes
-- ---------------------------------------------------------------------------

/-- Labels that are all unselected are as many times the same. -/
theorem eq_replicate_false {bits : List Bool} (h : bits.any id = false) :
    bits = List.replicate bits.length false := by
  refine List.eq_replicate_iff.mpr ⟨rfl, ?_⟩
  intro bit hbit
  simpa using List.any_eq_false.mp h bit hbit

/-- A number either needs more labels than there are nodes, and is refused, or is the number of one
assignment to them, which is answered. -/
theorem fit_cases (numNodes : Nat) (bits : List Bool) :
    (2 ^ numNodes ≤ binaryValue bits ∧ fit numNodes bits = .error (.valueOverflow numNodes)) ∨
    ∃ labels, fit numNodes bits = .ok labels ∧ labels.length = numNodes ∧
      binaryValue labels = binaryValue bits := by
  have hsplit := List.take_append_drop (bits.length - numNodes) bits
  have hvalue := binaryValue_append (bits.take (bits.length - numNodes))
    (bits.drop (bits.length - numNodes))
  rw [hsplit] at hvalue
  rw [fit]
  cases hany : (bits.take (bits.length - numNodes)).any id with
  | true =>
    refine .inl ⟨?_, by simp⟩
    obtain ⟨bit, hbit, hselected⟩ := List.any_eq_true.mp hany
    rw [show bit = true from hselected] at hbit
    have hpos := binaryValue_pos hbit
    -- there is a label in excess, so that all nodes have one of the others
    have hexcess : (bits.drop (bits.length - numNodes)).length = numNodes := by
      have hne : bits.length - numNodes ≠ 0 := by
        intro hzero
        rw [hzero] at hbit
        cases hbit
      rw [List.length_drop]
      omega
    rw [hvalue, hexcess]
    have hmul := Nat.mul_le_mul_right (2 ^ numNodes) hpos
    omega
  | false =>
    refine .inr ⟨(bits.drop (bits.length - numNodes)).leftpad numNodes false, ?_, ?_, ?_⟩
    · simp
    · rw [List.length_leftpad, List.length_drop]
      omega
    · rw [List.leftpad, binaryValue_replicate_append, hvalue, eq_replicate_false hany,
        binaryValue_replicate_false, Nat.zero_mul, Nat.zero_add]

theorem fit_eq_ok_iff {numNodes : Nat} {bits labels : List Bool} :
    fit numNodes bits = .ok labels ↔
      labels.length = numNodes ∧ binaryValue labels = binaryValue bits := by
  rcases fit_cases numNodes bits with ⟨hle, hfit⟩ | ⟨fitted, hfit, hlength, hvalue⟩
  · rw [hfit]
    constructor
    · intro h
      cases h
    · rintro ⟨hlength, hvalue⟩
      have hlt := binaryValue_lt labels
      rw [hlength, hvalue] at hlt
      omega
  · rw [hfit]
    constructor
    · intro h
      cases h
      exact ⟨hlength, hvalue⟩
    · rintro ⟨hlength', hvalue'⟩
      rw [binaryValue_inj (hlength'.trans hlength.symm) (hvalue'.trans hvalue.symm)]

/-- A text denotes the assignment with the number that its digits denote. -/
theorem decode_eq_ok_iff {numNodes : Nat} {text : String} {x : Assignment} :
    decode numNodes text = .ok x ↔ ∃ values, ownDigits text = values.map symbol ∧
      (∀ value ∈ values, value < 64) ∧ x.size = numNodes ∧
      binaryValue x.toList = digitsValue values := by
  constructor
  · intro h
    unfold decode at h
    cases hvalues : readDigits 0 text.toList with
    | error refusal =>
      rw [hvalues] at h
      cases h
    | ok values =>
      rw [hvalues] at h
      cases hlabels : fit numNodes (values.flatMap digitBits) with
      | error refusal =>
        simp [hlabels, bind, Except.bind] at h
      | ok labels =>
        simp only [hlabels, bind, Except.bind, pure, Except.pure] at h
        cases h
        obtain ⟨hown, hlt⟩ := readDigits_eq_ok_iff.mp hvalues
        obtain ⟨hlength, hvalue⟩ := fit_eq_ok_iff.mp hlabels
        refine ⟨values, hown, hlt, by simpa using hlength, ?_⟩
        rw [hvalue, binaryValue_flatMap_digitBits hlt]
  · rintro ⟨values, hown, hlt, hsize, hvalue⟩
    have hfit : fit numNodes (values.flatMap digitBits) = .ok x.toList := by
      refine fit_eq_ok_iff.mpr ⟨by simpa using hsize, ?_⟩
      rw [hvalue, binaryValue_flatMap_digitBits hlt]
    have hread : readDigits 0 text.toList = .ok values := readDigits_eq_ok_iff.mpr ⟨hown, hlt⟩
    rw [decode, hread]
    show (fit numNodes (values.flatMap digitBits) >>= _) = _
    rw [hfit]
    rfl

-- ---------------------------------------------------------------------------
-- The digits of an assignment
-- ---------------------------------------------------------------------------

section Digits

variable {numNodes : Nat} {labels : List Bool}

/-- Filled up to whole groups, the labels come to as many as the digits stand for. -/
theorem length_filled (labels : List Bool) :
    (labels.leftpad (bitsPerDigit * width labels.length) false).length
      = 6 * width labels.length := by
  rw [List.length_leftpad, width, bitsPerDigit]
  omega

/-- The text has as many digits as the nodes need, and one at least. -/
theorem length_digits (h : labels.length = numNodes) :
    (digits numNodes labels).length = max 1 (width numNodes) := by
  have hgroups : (groupDigits (labels.leftpad (bitsPerDigit * width labels.length) false)).length
      = width numNodes := by
    rw [length_groupDigits, length_filled, h]
    omega
  have hdrop := (List.dropWhile_sublist (· == 0)
    (l := groupDigits (labels.leftpad (bitsPerDigit * width labels.length) false))).length_le
  rw [digits, List.length_leftpad]
  omega

theorem lt_of_mem_digits : ∀ value ∈ digits numNodes labels, value < 64 := by
  intro value hvalue
  rcases List.mem_append.mp hvalue with hpad | hrest
  · rw [(List.mem_replicate.mp hpad).2]
    omega
  · exact lt_of_mem_groupDigits value ((List.dropWhile_sublist _).mem hrest)

/-- The digits denote the number of the labels. -/
theorem digitsValue_digits : digitsValue (digits numNodes labels) = binaryValue labels := by
  have hwhole : (labels.leftpad (bitsPerDigit * width labels.length) false).length % 6 = 0 := by
    rw [length_filled]
    omega
  rw [digits, List.leftpad, digitsValue_replicate_append, digitsValue_dropWhile,
    digitsValue_groupDigits hwhole, List.leftpad, binaryValue_replicate_append]

end Digits

/-- A test that the digits pass and line breaks do not tells the two apart: nothing else is laid out
between the digits. -/
theorem filter_wrap {symbols : List Char} {isDigit : Char → Bool} (hbreak : isDigit '\n' = false)
    (h : ∀ c ∈ symbols, isDigit c = true) : (wrap symbols).filter isDigit = symbols := by
  have hstart : (if inlineLimit < symbols.length then ['\n'] else []).filter isDigit = [] := by
    split <;> simp [hbreak]
  have hlines : ∀ place ∈ symbols.zipIdx,
      (if 0 < place.2 ∧ place.2 % lineWidth = 0 then ['\n', place.1] else [place.1]).filter isDigit
        = [place.1] := by
    intro place hplace
    have hsymbol := h place.1 (List.fst_mem_of_mem_zipIdx hplace)
    split <;> simp [hbreak, hsymbol]
  rw [wrap, List.filter_append, hstart, List.nil_append, List.filter_flatMap,
    List.flatMap_congr hlines, ← List.map_eq_flatMap, List.zipIdx_map_fst]

theorem ownDigits_encode (numNodes : Nat) (x : Assignment) :
    ownDigits (encode numNodes x) = (digits numNodes x.toList).map symbol := by
  rw [ownDigits, encode, String.toList_ofList]
  refine filter_wrap (by decide) ?_
  intro c hc
  obtain ⟨value, hvalue, rfl⟩ := List.mem_map.mp hc
  simp [isBlank_symbol (lt_of_mem_digits value hvalue)]

-- ---------------------------------------------------------------------------
-- Round trips
-- ---------------------------------------------------------------------------

/-- What was written is read back. -/
theorem decode_encode {numNodes : Nat} {x : Assignment} (h : x.size = numNodes) :
    decode numNodes (encode numNodes x) = .ok x :=
  decode_eq_ok_iff.mpr ⟨digits numNodes x.toList, ownDigits_encode numNodes x, lt_of_mem_digits, h,
    digitsValue_digits.symm⟩

/-- Two lists of digits for one number are the same up to zeros in front of the shorter one. -/
theorem eq_replicate_append {values others : List Nat} (hvalues : ∀ value ∈ values, value < 64)
    (hothers : ∀ value ∈ others, value < 64) (h : digitsValue values = digitsValue others)
    (hlength : values.length ≤ others.length) :
    others = List.replicate (others.length - values.length) 0 ++ values := by
  refine digitsValue_inj ?_ hothers ?_ ?_
  · simp
    omega
  · intro value hvalue
    rcases List.mem_append.mp hvalue with hpad | hvalue
    · rw [(List.mem_replicate.mp hpad).2]
      omega
    · exact hvalues value hvalue
  · rw [digitsValue_replicate_append, h]

/-- What was read is written with the same digits, brought to the width that the nodes need by zeros
added or dropped in front. -/
theorem encode_of_decode {numNodes : Nat} {text : String} {x : Assignment}
    (h : decode numNodes text = .ok x) :
    ∃ symbols, symbols.length = max 1 (width numNodes) ∧
      (∃ zeros, symbols = List.replicate zeros '0' ++ ownDigits text ∨
        ownDigits text = List.replicate zeros '0' ++ symbols) ∧
      encode numNodes x = String.ofList (wrap symbols) := by
  obtain ⟨values, hown, hlt, hsize, hvalue⟩ := decode_eq_ok_iff.mp h
  have hlabels : x.toList.length = numNodes := by simpa using hsize
  have hsame : digitsValue values = digitsValue (digits numNodes x.toList) := by
    rw [digitsValue_digits, hvalue]
  have hzero : symbol 0 = '0' := by decide
  refine ⟨(digits numNodes x.toList).map symbol, ?_, ?_, rfl⟩
  · rw [List.length_map, length_digits hlabels]
  · rw [hown]
    -- zeros were added to the text, or dropped from it
    rcases Nat.le_total values.length (digits numNodes x.toList).length with hle | hle
    · have hpadded := congrArg (List.map symbol)
        (eq_replicate_append hlt lt_of_mem_digits hsame hle)
      rw [List.map_append, List.map_replicate, hzero] at hpadded
      exact ⟨_, .inl hpadded⟩
    · have hpadded := congrArg (List.map symbol)
        (eq_replicate_append lt_of_mem_digits hlt hsame.symm hle)
      rw [List.map_append, List.map_replicate, hzero] at hpadded
      exact ⟨_, .inr hpadded⟩

/-- Writing and reading undo each other. What was written is read back as it was. What was read is
written with the digits of the text, blanks left out, laid out anew after zeros were added or
dropped in front to reach the width that the nodes need. So two readable texts denote the same
assignment just if they are written anew as the same text. -/
theorem decode_encode_round_trip (numNodes : Nat) :
    (∀ x : Assignment, x.size = numNodes → decode numNodes (encode numNodes x) = .ok x) ∧
    (∀ (text : String) (x : Assignment), decode numNodes text = .ok x →
      ∃ symbols, symbols.length = max 1 ((numNodes + 5) / 6) ∧
        (∃ zeros, symbols = List.replicate zeros '0' ++ ownDigits text ∨
          ownDigits text = List.replicate zeros '0' ++ symbols) ∧
        encode numNodes x = String.ofList (wrap symbols)) ∧
    ∀ (text other : String) (x y : Assignment),
      decode numNodes text = .ok x → decode numNodes other = .ok y →
        (x = y ↔ encode numNodes x = encode numNodes y) := by
  refine ⟨fun x hx => decode_encode hx, fun text x h => encode_of_decode h, ?_⟩
  intro text other x y hx hy
  obtain ⟨-, -, -, hsize, -⟩ := decode_eq_ok_iff.mp hx
  obtain ⟨-, -, -, hsize', -⟩ := decode_eq_ok_iff.mp hy
  constructor
  · rintro rfl
    rfl
  · intro h
    have hread := decode_encode hsize
    rw [h, decode_encode hsize'] at hread
    exact (Except.ok.inj hread).symm

/-- Eight labels, written with too many digits on two lines, and written anew. -/
theorem decode_encode_round_trip_eight :
    ∃ symbols, symbols.length = max 1 ((8 + 5) / 6) ∧
      (∃ zeros, symbols = List.replicate zeros '0' ++ ownDigits "00\n 21" ∨
        ownDigits "00\n 21" = List.replicate zeros '0' ++ symbols) ∧
      encode 8 #[true, false, false, false, false, false, false, true]
        = String.ofList (wrap symbols) := by
  have hread : decode 8 "00\n 21"
      = .ok #[true, false, false, false, false, false, false, true] := by
    decide +kernel
  exact (decode_encode_round_trip 8).2.1 _ _ hread

end CutCover.Base64
