import CutCover.Assignment.Random
import CutCover.Proofs.Answers

/-!
# CutCover — words by their place

What a draw answers may depend on the words it takes, but how many it takes often does not. Then the
words of a source can be told apart by their place, and a draw that is repeated finds those of its
own a fixed distance further on each time. `Draw.Takes` states all of this of a draw: it answers, it
takes so many words, and the answer is as described.

* `WordSource.skip`, `WordSource.wordAt` — the words of a source, by their place.
* `Draw.Takes`                           — a draw that takes a fixed number of words.
* `Draw.Takes.bind`, `Draw.Takes.replicate` — draws one after another, and the same repeatedly.
* `Draw.takes_replicate`                 — a draw of one word, repeated.
* `Draw.takes_words`                     — the next words.
* `Assignment.takes_random`              — random assignments, a word for each node.
-/

namespace CutCover

-- ---------------------------------------------------------------------------
-- Places
-- ---------------------------------------------------------------------------

namespace WordSource

variable {σ : Type} [WordSource σ]

/-- The source after so many words. -/
def skip (s : σ) : Nat → σ
  | 0 => s
  | count + 1 => (next (skip s count)).2

/-- The word at a place, the next one at place zero. -/
def wordAt (s : σ) (place : Nat) : UInt64 :=
  (next (skip s place)).1

theorem skip_add (s : σ) (a b : Nat) : skip s (a + b) = skip (skip s a) b := by
  induction b with
  | zero => rfl
  | succ b ih =>
    rw [← Nat.add_assoc, skip, skip, ih]

theorem wordAt_skip (s : σ) (a place : Nat) : wordAt (skip s a) place = wordAt s (a + place) := by
  rw [wordAt, wordAt, skip_add]

end WordSource

open WordSource (skip wordAt skip_add wordAt_skip)

-- ---------------------------------------------------------------------------
-- Draws of a fixed number of words
-- ---------------------------------------------------------------------------

variable {σ α β : Type} [WordSource σ]

/-- From this source the draw answers after so many words, and the answer meets `post`. -/
def Draw.Takes (m : Draw σ α) (s : σ) (count : Nat) (post : α → Prop) : Prop :=
  ∃ a, m.run s = .ok (a, skip s count) ∧ post a

namespace Draw

namespace Takes

variable {m : Draw σ α} {f : α → Draw σ β} {s : σ} {a b : Nat} {pre post : α → Prop}
  {post' : β → Prop}

theorem mono (h : Takes m s a pre) (himp : ∀ x, pre x → post x) : Takes m s a post := by
  obtain ⟨x, hx, hpre⟩ := h
  exact ⟨x, hx, himp x hpre⟩

protected theorem pure {x : α} (h : post x) : Takes (pure x : Draw σ α) s 0 post :=
  ⟨x, rfl, h⟩

theorem bind (hm : Takes m s a pre) (hf : ∀ x, pre x → Takes (f x) (skip s a) b post') :
    Takes (m >>= f) s (a + b) post' := by
  obtain ⟨x, hx, hpre⟩ := hm
  obtain ⟨y, hy, hpost⟩ := hf x hpre
  refine ⟨y, ?_, hpost⟩
  rw [bind_of_run hx, hy, skip_add]

/-- A computation without draws that answers. -/
theorem lift {computation : Checked α} {x : α} (hx : computation = .ok x) (h : post x) :
    Takes (liftM computation : Draw σ α) s 0 post := by
  rw [hx]
  exact ⟨x, rfl, h⟩

/-- A draw that is repeated takes the same number of words each time. -/
theorem replicate {count : Nat} {post : Nat → α → Prop}
    (h : ∀ i < count, Takes m (skip s (i * a)) a (post i)) :
    Takes (Draw.replicate count m) s (count * a) fun answers =>
      answers.length = count ∧ ∀ i x, answers[i]? = some x → post i x := by
  induction count generalizing s post with
  | zero =>
    rw [Nat.zero_mul]
    exact .pure ⟨rfl, by simp⟩
  | succ count ih =>
    rw [Nat.succ_mul, Nat.add_comm (count * a) a, Draw.replicate]
    have hfirst : Takes m s a (post 0) := by
      have hzero := h 0 (Nat.succ_pos count)
      rwa [Nat.zero_mul] at hzero
    refine hfirst.bind fun first hpost => ?_
    -- the repetitions that remain are counted from one, with the words of the first left out
    have hrest : ∀ i < count, Takes m (skip (skip s a) (i * a)) a (post (i + 1)) := by
      intro i hi
      have hnext := h (i + 1) (Nat.succ_lt_succ hi)
      rwa [Nat.succ_mul, Nat.add_comm (i * a) a, skip_add] at hnext
    refine (ih hrest).bind (b := 0) fun rest hrest => .pure ⟨?_, ?_⟩
    · rw [List.length_cons, hrest.1]
    · intro i x hx
      cases i with
      | zero =>
        obtain rfl := Option.some_inj.mp hx
        exact hpost
      | succ i => exact hrest.2 i x hx

/-- Where each answer is known, so is the list of them. -/
theorem replicate_eq {count : Nat} {answer : Nat → α}
    (h : ∀ i < count, Takes m (skip s (i * a)) a fun x => x = answer i) :
    Takes (Draw.replicate count m) s (count * a) fun answers =>
      answers = (List.range count).map answer := by
  refine (replicate h).mono ?_
  rintro answers ⟨hlength, hanswers⟩
  refine List.ext_getElem (by simp [hlength]) fun i hi _ => ?_
  rw [hanswers i _ (List.getElem?_eq_getElem hi)]
  simp

end Takes

variable {s : σ}

theorem takes_word : Takes (word : Draw σ UInt64) s 1 fun w => w = wordAt s 0 :=
  ⟨_, rfl, rfl⟩

/-- A draw that a single word decides, repeated, takes the next words, one after another. -/
theorem takes_replicate {m : Draw σ α} {answer : UInt64 → α}
    (h : ∀ s, Takes m s 1 fun x => x = answer (wordAt s 0)) (s : σ) (count : Nat) :
    Takes (Draw.replicate count m) s count fun answers =>
      answers = (List.range count).map fun i => answer (wordAt s i) := by
  have hall : ∀ i < count, Takes m (skip s (i * 1)) 1 fun x => x = answer (wordAt s i) := by
    intro i _
    refine (h (skip s (i * 1))).mono ?_
    rintro _ rfl
    rw [wordAt_skip, Nat.mul_one, Nat.add_zero]
  simpa only [Nat.mul_one] using Takes.replicate_eq hall

/-- The next words, one after another. -/
theorem takes_words (count : Nat) :
    Takes (Draw.replicate count (word : Draw σ UInt64)) s count fun words =>
      words = (List.range count).map (wordAt s) := by
  show Takes _ s count fun words => words = (List.range count).map fun i => id (wordAt s i)
  exact takes_replicate (fun _ => takes_word) s count

/-- The label that a word stands for. -/
def labelOf (w : UInt64) : Bool :=
  w < 0x8000000000000000

theorem takes_coin : Takes (coin : Draw σ Bool) s 1 fun label => label = labelOf (wordAt s 0) :=
  ⟨_, rfl, rfl⟩

/-- The number in `[0, 1)` that a word stands for. -/
def unitOf (w : UInt64) : Float :=
  Float.ofBits ((w >>> 12) ||| 0x3ff0000000000000) - 1.0

theorem takes_unit : Takes (unit : Draw σ Float) s 1 fun r => r = unitOf (wordAt s 0) :=
  ⟨_, rfl, rfl⟩

end Draw

-- ---------------------------------------------------------------------------
-- Random assignments
-- ---------------------------------------------------------------------------

namespace Assignment

/-- The assignment that words stand for, from a place on: one for each node, node 0 first. -/
def ofWords (s : σ) (start numNodes : Nat) : Assignment :=
  ((List.range numNodes).map fun node => Draw.labelOf (wordAt s (start + node))).toArray

theorem size_ofWords (s : σ) (start numNodes : Nat) :
    (ofWords s start numNodes).size = numNodes := by
  simp [ofWords]

/-- A random assignment is the one that the next words stand for. -/
theorem takes_random (s : σ) (start numNodes : Nat) :
    Draw.Takes (random numNodes : Draw σ Assignment) (skip s start) numNodes fun x =>
      x = ofWords s start numNodes := by
  have hall := Draw.takes_replicate (fun _ => Draw.takes_coin) (skip s start) numNodes
  simp only [wordAt_skip] at hall
  refine hall.bind (b := 0) ?_
  rintro _ rfl
  exact .pure rfl

end Assignment

end CutCover
