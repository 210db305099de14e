/-!
# CutCover — outcomes of a computation

A computation over assignments and graphs can stop in two ways besides answering. It can *refuse*
its input for a reason of the domain (`CutCover.Refusal`), which callers are meant to see, or it
can *abort* because a precondition of its own was broken: a label read past the end, a draw from
an empty range, a difference below zero. An abort is never part of a correct run; keeping it as a
value is what lets a statement say that none occurs.

Notions:

* `Abort`   — the broken preconditions.
* `Checked` — computations that answer or abort.
* `fetch`, `store`, `slice`, `difference` — the primitive operations that can abort.
* `nextWord` — counting in machine words, which wraps around.
* `selectWhere` — keeps the entries that pass a test which may itself abort.
-/

namespace CutCover

/-- A broken precondition. `endlessSampling` is the verdict on a rejection loop that used up the
attempts its word source allows. -/
inductive Abort where
  | indexOutOfRange (index size : Nat)
  | emptyRange
  | negativeDifference (minuend subtrahend : Nat)
  | endlessSampling
deriving DecidableEq, Repr

/-- A computation that answers or aborts. -/
abbrev Checked := Except Abort

variable {α : Type}

/-- The entry at `i`; aborts beyond the end. -/
@[inline]
def fetch (xs : Array α) (i : Nat) : Checked α :=
  if h : i < xs.size then .ok xs[i] else .error (.indexOutOfRange i xs.size)

/-- Replaces the entry at `i`; aborts beyond the end. -/
def store (xs : Array α) (i : Nat) (a : α) : Checked (Array α) :=
  if h : i < xs.size then .ok (xs.set i a h) else .error (.indexOutOfRange i xs.size)

/-- The entries from `lo` up to but not including `hi`; aborts unless `lo ≤ hi ≤ size`. -/
def slice (xs : Array α) (lo hi : Nat) : Checked (List α) :=
  if lo ≤ hi ∧ hi ≤ xs.size then .ok (xs.extract lo hi).toList
  else .error (.indexOutOfRange hi xs.size)

/-- The difference `a - b`; aborts when `b` exceeds `a`. -/
def difference (a b : Nat) : Checked Nat :=
  if b ≤ a then .ok (a - b) else .error (.negativeDifference a b)

/-- The number of values of a machine word. -/
def wordRange : Nat := 0x10000000000000000

/-- The word after `n`; after the last word comes zero. -/
def nextWord (n : Nat) : Nat :=
  (n + 1) % wordRange

/-- Keeps the entries that pass `test`, in order; aborts where a test does. -/
@[specialize]
def selectWhere (test : α → Checked Bool) : List α → Checked (List α)
  | [] => .ok []
  | a :: rest => do
    let keep ← test a
    let kept ← selectWhere test rest
    return if keep then a :: kept else kept

-- ---------------------------------------------------------------------------
-- Answers of the primitive operations
-- ---------------------------------------------------------------------------

/-- Within the array, `fetch` answers the entry. -/
theorem fetch_of_lt {xs : Array α} {i : Nat} (h : i < xs.size) : fetch xs i = .ok xs[i] := by
  simp [fetch, h]

/-- Within the array, `store` replaces the entry. -/
theorem store_of_lt {xs : Array α} {i : Nat} (a : α) (h : i < xs.size) :
    store xs i a = .ok (xs.set i a h) := by
  simp [store, h]

/-- Above the subtrahend, `difference` is the truncated difference. -/
theorem difference_of_le {a b : Nat} (h : b ≤ a) : difference a b = .ok (a - b) := by
  simp [difference, h]

/-- Below the last word, the next word is one more. -/
theorem nextWord_of_lt {n : Nat} (h : n + 1 < wordRange) : nextWord n = n + 1 :=
  Nat.mod_eq_of_lt h

theorem nextWord_le (n : Nat) : nextWord n ≤ n + 1 :=
  Nat.mod_le _ _

theorem nextWord_lt (n : Nat) : nextWord n < wordRange :=
  Nat.mod_lt _ (by decide)

/-- A test that always answers keeps what `List.filter` keeps. -/
theorem selectWhere_of_total {test : α → Checked Bool} {p : α → Bool} {xs : List α}
    (h : ∀ a ∈ xs, test a = .ok (p a)) : selectWhere test xs = .ok (xs.filter p) := by
  induction xs with
  | nil => rfl
  | cons a rest ih =>
    have ha := h a List.mem_cons_self
    have hrest := ih fun b hb => h b (List.mem_cons_of_mem a hb)
    simp only [selectWhere, ha, hrest, List.filter_cons, bind, Except.bind, pure, Except.pure]

-- ---------------------------------------------------------------------------
-- Sequences and traversals that answer
-- ---------------------------------------------------------------------------

/-- A sequence answers if its first part does and the rest does from there. -/
theorem Checked.bind_inv {α β : Type} {m : Checked α} {f : α → Checked β} {b : β}
    (h : (m >>= f) = .ok b) : ∃ a, m = .ok a ∧ f a = .ok b := by
  cases m with
  | error e => cases h
  | ok a => exact ⟨a, rfl, h⟩

/-- A traversal that answers has as many answers as there are entries. -/
theorem length_of_mapM {α β : Type} {f : α → Checked β} {xs : List α} {ys : List β}
    (h : xs.mapM f = .ok ys) : ys.length = xs.length := by
  induction xs generalizing ys with
  | nil =>
    cases h
    rfl
  | cons x rest ih =>
    rw [List.mapM_cons] at h
    obtain ⟨y, -, h⟩ := Checked.bind_inv h
    obtain ⟨others, hothers, h⟩ := Checked.bind_inv h
    cases h
    simp [ih hothers]

end CutCover
