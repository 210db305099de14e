import CutCover.Random.Attempt
import Mathlib.Data.List.Forall2

/-!
# CutCover — computations that answered

What is known of the parts of a computation once it is known that the whole of it answered. Every
kind of computation has an inversion lemma for each way of building one: a sequence answered
because its first part did and the rest did from there, a lifted computation answered because the
computation itself did. Statements about a run are proved by taking the run apart with them.

* `Checked.bind_inv`, `Draw.bind_inv`, `Attempt.bind_inv` — sequences.
* `Draw.lift_inv`, `Attempt.lift_inv`, `Attempt.ofExcept_inv` — lifted computations, and the same
  at the head of a sequence.
* `exists_mapM`, `mapM_of_total`, `forall₂_of_mapM`, `Draw.mapM_lift_inv`, `foldlM_invariant` —
  traversals and folds.
* `Draw.replicate_inv` — repeated draws.
-/

namespace CutCover

variable {σ α β : Type}

-- ---------------------------------------------------------------------------
-- Draws
-- ---------------------------------------------------------------------------

namespace Draw

/-- A sequence of draws answers if its first part does and the rest does from there. -/
theorem bind_inv {m : Draw σ α} {f : α → Draw σ β} {s s' : σ} {b : β}
    (h : (m >>= f).run s = .ok (b, s')) :
    ∃ a s₁, m.run s = .ok (a, s₁) ∧ (f a).run s₁ = .ok (b, s') := by
  rw [StateT.run_bind] at h
  obtain ⟨⟨a, s₁⟩, ha, hb⟩ := Checked.bind_inv h
  exact ⟨a, s₁, ha, hb⟩

/-- A sequence of draws goes on from where its first part ends. -/
theorem bind_of_run {m : Draw σ α} {f : α → Draw σ β} {s s₁ : σ} {a : α}
    (h : m.run s = .ok (a, s₁)) : (m >>= f).run s = (f a).run s₁ := by
  rw [StateT.run_bind, h]
  rfl

theorem pure_inv {a b : α} {s s' : σ} (h : (pure a : Draw σ α).run s = .ok (b, s')) :
    b = a ∧ s = s' := by
  cases h
  exact ⟨rfl, rfl⟩

/-- A computation without draws leaves the source alone. -/
theorem lift_inv {m : Checked α} {s s' : σ} {a : α}
    (h : (liftM m : Draw σ α).run s = .ok (a, s')) : m = .ok a ∧ s = s' := by
  obtain ⟨b, hb, h⟩ := Checked.bind_inv (show (m >>= fun a => .ok (a, s)) = .ok (a, s') from h)
  cases h
  exact ⟨hb, rfl⟩

theorem lift_bind_of_ok {m : Checked α} {f : α → Draw σ β} {a : α} (h : m = .ok a) (s : σ) :
    ((liftM m : Draw σ α) >>= f).run s = (f a).run s := by
  rw [h]
  rfl

/-- A sequence whose first part makes no draws goes on with the same source. -/
theorem lift_bind_inv {m : Checked α} {f : α → Draw σ β} {s s' : σ} {b : β}
    (h : ((liftM m : Draw σ α) >>= f).run s = .ok (b, s')) :
    ∃ a, m = .ok a ∧ (f a).run s = .ok (b, s') := by
  obtain ⟨a, s₁, ha, hb⟩ := bind_inv h
  obtain ⟨hm, rfl⟩ := lift_inv ha
  exact ⟨a, hm, hb⟩

end Draw

-- ---------------------------------------------------------------------------
-- Attempts
-- ---------------------------------------------------------------------------

namespace Attempt

theorem bind_inv {m : Attempt σ α} {f : α → Attempt σ β} {s s' : σ} {b : β}
    (h : (m >>= f).run.run s = .ok (.ok b, s')) :
    ∃ a s₁, m.run.run s = .ok (.ok a, s₁) ∧ (f a).run.run s₁ = .ok (.ok b, s') := by
  rw [ExceptT.run_bind] at h
  obtain ⟨answer, s₁, ha, hb⟩ := Draw.bind_inv h
  cases answer with
  | ok a => exact ⟨a, s₁, ha, hb⟩
  | error refusal =>
    obtain ⟨h, -⟩ := Draw.pure_inv hb
    cases h

/-- A sequence is refused where its first part is. -/
theorem bind_of_refused {m : Attempt σ α} {f : α → Attempt σ β} {s s' : σ} {refusal : Refusal}
    (h : m.run.run s = .ok (.error refusal, s')) :
    (m >>= f).run.run s = .ok (.error refusal, s') := by
  rw [ExceptT.run_bind, StateT.run_bind, h]
  rfl

theorem lift_of_run {m : Draw σ α} {s s₁ : σ} {a : α} (h : m.run s = .ok (a, s₁)) :
    (liftM m : Attempt σ α).run.run s = .ok (.ok a, s₁) := by
  rw [ExceptT.run_liftM, map_eq_pure_bind, Draw.bind_of_run h]
  rfl

/-- A sequence goes on from where its first draw ends. -/
theorem lift_bind_of_run {m : Draw σ α} {f : α → Attempt σ β} {s s₁ : σ} {a : α}
    (h : m.run s = .ok (a, s₁)) :
    ((liftM m : Attempt σ α) >>= f).run.run s = (f a).run.run s₁ := by
  rw [ExceptT.run_bind, ExceptT.run_liftM, map_eq_pure_bind, StateT.run_bind, StateT.run_bind, h]
  rfl

/-- A draw is never refused. -/
theorem lift_inv {m : Draw σ α} {s s' : σ} {a : α}
    (h : (liftM m : Attempt σ α).run.run s = .ok (.ok a, s')) : m.run s = .ok (a, s') := by
  rw [ExceptT.run_liftM, map_eq_pure_bind] at h
  obtain ⟨b, s₁, hb, h⟩ := Draw.bind_inv h
  cases h
  exact hb

theorem lift_bind_inv {m : Draw σ α} {f : α → Attempt σ β} {s s' : σ} {b : β}
    (h : ((liftM m : Attempt σ α) >>= f).run.run s = .ok (.ok b, s')) :
    ∃ a s₁, m.run s = .ok (a, s₁) ∧ (f a).run.run s₁ = .ok (.ok b, s') := by
  obtain ⟨a, s₁, ha, hb⟩ := bind_inv h
  exact ⟨a, s₁, lift_inv ha, hb⟩

/-- A computation that may be refused leaves the source alone. -/
theorem ofFallible_run {m : Fallible α} {answer : Except Refusal α} (h : m.run = .ok answer)
    (s : σ) : (ofFallible m : Attempt σ α).run.run s = .ok (answer, s) := by
  show (liftM m.run : Draw σ _).run s = _
  rw [h]
  rfl

/-- A verdict without draws leaves the source alone. -/
theorem ofExcept_inv {verdict : Except Refusal α} {s s' : σ} {a : α}
    (h : (liftM verdict : Attempt σ α).run.run s = .ok (.ok a, s')) :
    verdict = .ok a ∧ s = s' := by
  cases verdict with
  | error refusal => cases h
  | ok b =>
    cases h
    exact ⟨rfl, rfl⟩

theorem ofExcept_bind_inv {verdict : Except Refusal α} {f : α → Attempt σ β} {s s' : σ} {b : β}
    (h : ((liftM verdict : Attempt σ α) >>= f).run.run s = .ok (.ok b, s')) :
    ∃ a, verdict = .ok a ∧ (f a).run.run s = .ok (.ok b, s') := by
  obtain ⟨a, s₁, ha, hb⟩ := bind_inv h
  obtain ⟨hverdict, rfl⟩ := ofExcept_inv ha
  exact ⟨a, hverdict, hb⟩

end Attempt

-- ---------------------------------------------------------------------------
-- Computations that may be refused
-- ---------------------------------------------------------------------------

namespace Fallible

theorem bind_inv {m : Fallible α} {f : α → Fallible β} {b : β}
    (h : (m >>= f).run = .ok (.ok b)) : ∃ a, m.run = .ok (.ok a) ∧ (f a).run = .ok (.ok b) := by
  rw [ExceptT.run_bind] at h
  obtain ⟨answer, hanswer, h⟩ := Checked.bind_inv h
  cases answer with
  | error refusal => cases h
  | ok a => exact ⟨a, hanswer, h⟩

theorem ofExcept_bind_inv {verdict : Except Refusal α} {f : α → Fallible β} {b : β}
    (h : ((liftM verdict : Fallible α) >>= f).run = .ok (.ok b)) :
    ∃ a, verdict = .ok a ∧ (f a).run = .ok (.ok b) := by
  cases verdict with
  | error refusal => cases h
  | ok a => exact ⟨a, rfl, h⟩

theorem lift_bind_inv {m : Checked α} {f : α → Fallible β} {b : β}
    (h : ((liftM m : Fallible α) >>= f).run = .ok (.ok b)) :
    ∃ a, m = .ok a ∧ (f a).run = .ok (.ok b) := by
  cases m with
  | error abort => cases h
  | ok a => exact ⟨a, rfl, h⟩

/-- A sequence goes on with the answer of its first part. -/
theorem ofExcept_bind_of_ok {verdict : Except Refusal α} {f : α → Fallible β} {a : α}
    (h : verdict = .ok a) : ((liftM verdict : Fallible α) >>= f).run = (f a).run := by
  rw [h]
  rfl

theorem lift_bind_of_ok {m : Checked α} {f : α → Fallible β} {a : α} (h : m = .ok a) :
    ((liftM m : Fallible α) >>= f).run = (f a).run := by
  rw [h]
  rfl

end Fallible

-- ---------------------------------------------------------------------------
-- Traversals
-- ---------------------------------------------------------------------------

theorem forall₂_of_mapM {f : α → Checked β} {xs : List α} {ys : List β}
    (h : xs.mapM f = .ok ys) : List.Forall₂ (fun x y => f x = .ok y) xs ys := by
  induction xs generalizing ys with
  | nil =>
    cases h
    exact .nil
  | cons x rest ih =>
    rw [List.mapM_cons] at h
    obtain ⟨y, hy, h⟩ := Checked.bind_inv h
    obtain ⟨others, hothers, h⟩ := Checked.bind_inv h
    cases h
    exact .cons hy (ih hothers)

/-- A traversal answers if it does at every entry. -/
theorem exists_mapM {f : α → Checked β} {xs : List α} (h : ∀ x ∈ xs, ∃ y, f x = .ok y) :
    ∃ ys, xs.mapM f = .ok ys := by
  induction xs with
  | nil => exact ⟨[], rfl⟩
  | cons x rest ih =>
    obtain ⟨y, hy⟩ := h x List.mem_cons_self
    obtain ⟨others, hothers⟩ := ih fun z hz => h z (List.mem_cons_of_mem x hz)
    refine ⟨y :: others, ?_⟩
    rw [List.mapM_cons, hy, hothers]
    rfl

/-- A traversal that always answers is `List.map`. -/
theorem mapM_of_total {f : α → Checked β} {answer : α → β} {xs : List α}
    (h : ∀ x ∈ xs, f x = .ok (answer x)) : xs.mapM f = .ok (xs.map answer) := by
  induction xs with
  | nil => rfl
  | cons x rest ih =>
    have hx := h x List.mem_cons_self
    have hrest := ih fun y hy => h y (List.mem_cons_of_mem x hy)
    rw [List.mapM_cons, hx, hrest]
    rfl

/-- What stands at the same place of both lists is related. -/
theorem getElem?_of_forall₂ {rel : α → β → Prop} {xs : List α} {ys : List β}
    (h : List.Forall₂ rel xs ys) {i : Nat} {x : α} (hx : xs[i]? = some x) :
    ∃ y, ys[i]? = some y ∧ rel x y := by
  induction h generalizing i with
  | nil => simp at hx
  | cons hrel _ ih =>
    cases i with
    | zero =>
      cases hx
      exact ⟨_, rfl, hrel⟩
    | succ i =>
      rw [List.getElem?_cons_succ] at hx ⊢
      exact ih hx

/-- Every entry of the second list is related to one of the first. -/
theorem exists_of_mem_forall₂ {rel : α → β → Prop} {xs : List α} {ys : List β}
    (h : List.Forall₂ rel xs ys) {y : β} (hy : y ∈ ys) : ∃ x ∈ xs, rel x y := by
  induction h with
  | nil => exact absurd hy List.not_mem_nil
  | cons hrel _ ih =>
    rcases List.mem_cons.mp hy with rfl | hy
    · exact ⟨_, List.mem_cons_self, hrel⟩
    · obtain ⟨x, hx, hrel⟩ := ih hy
      exact ⟨x, List.mem_cons_of_mem _ hx, hrel⟩

/-- What is related by way of a list of its own is related by way of some entry. -/
theorem forall₂_of_zip {γ : Type} (rel : α → β → γ → Prop) {xs : List α} {ys : List β}
    {zs : List γ} (hlength : ys.length = xs.length)
    (h : List.Forall₂ (fun pair z => rel pair.1 pair.2 z) (xs.zip ys) zs) :
    List.Forall₂ (fun x z => ∃ y, rel x y z) xs zs := by
  induction xs generalizing ys zs with
  | nil =>
    cases h
    exact .nil
  | cons x rest ih =>
    cases ys with
    | nil => simp at hlength
    | cons y others =>
      cases h with
      | cons hrel hrest => exact .cons ⟨y, hrel⟩ (ih (by simpa using hlength) hrest)

/-- An invariant of the rounds of a counted loop holds of its answer. -/
theorem foldlM_invariant (inv : Nat → β → Prop) {f : β → Nat → Checked β} {n : Nat} {b c : β}
    (hstep : ∀ k < n, ∀ b c, inv k b → f b k = .ok c → inv (k + 1) c)
    (hb : inv 0 b) (h : (List.range n).foldlM f b = .ok c) : inv n c := by
  induction n generalizing c with
  | zero =>
    cases h
    exact hb
  | succ n ih =>
    rw [List.range_succ, List.foldlM_append] at h
    obtain ⟨d, hd, h⟩ := Checked.bind_inv h
    obtain ⟨e, he, h⟩ := Checked.bind_inv h
    cases h
    have hinv := ih (fun k hk => hstep k (by omega)) hd
    exact hstep n (by omega) d c hinv he

/-- A test of all entries that always answers is `List.all`. -/
theorem allM_of_total {test : α → Checked Bool} {p : α → Bool} {xs : List α}
    (h : ∀ a ∈ xs, test a = .ok (p a)) : xs.allM test = .ok (xs.all p) := by
  induction xs with
  | nil => rfl
  | cons a rest ih =>
    have ha := h a List.mem_cons_self
    have hrest := ih fun b hb => h b (List.mem_cons_of_mem a hb)
    rw [List.allM, ha, List.all_cons]
    cases hp : p a with
    | true => exact hrest
    | false => rfl

/-- A traversal without draws answers entry by entry and leaves the source alone. -/
theorem Draw.mapM_lift_inv {f : α → Checked β} {xs : List α} {ys : List β} {s s' : σ}
    (h : (xs.mapM fun x => (liftM (f x) : Draw σ β)).run s = .ok (ys, s')) :
    List.Forall₂ (fun x y => f x = .ok y) xs ys ∧ s = s' := by
  induction xs generalizing ys with
  | nil =>
    cases h
    exact ⟨.nil, rfl⟩
  | cons x rest ih =>
    rw [List.mapM_cons] at h
    obtain ⟨y, hy, h⟩ := Draw.lift_bind_inv h
    obtain ⟨others, s₁, hothers, h⟩ := Draw.bind_inv h
    cases h
    obtain ⟨hrest, rfl⟩ := ih hothers
    exact ⟨.cons hy hrest, rfl⟩

/-- It answers if it does without the source. -/
theorem Draw.mapM_lift_of_ok {f : α → Checked β} {xs : List α} {ys : List β}
    (h : xs.mapM f = .ok ys) (s : σ) :
    (xs.mapM fun x => (liftM (f x) : Draw σ β)).run s = .ok (ys, s) := by
  induction xs generalizing ys with
  | nil =>
    cases h
    rfl
  | cons x rest ih =>
    rw [List.mapM_cons] at h ⊢
    obtain ⟨y, hy, h⟩ := Checked.bind_inv h
    obtain ⟨others, hothers, h⟩ := Checked.bind_inv h
    cases h
    rw [Draw.lift_bind_of_ok hy, Draw.bind_of_run (ih hothers)]
    rfl

/-- Repeated draws answer as often as asked, and each answer is one that the draw gives. -/
theorem Draw.replicate_inv {draw : Draw σ α} {count : Nat} {s s' : σ} {answers : List α}
    (h : (Draw.replicate count draw).run s = .ok (answers, s')) :
    answers.length = count ∧ ∀ a ∈ answers, ∃ s₁ s₂, draw.run s₁ = .ok (a, s₂) := by
  induction count generalizing s answers with
  | zero =>
    cases h
    exact ⟨rfl, fun a ha => absurd ha List.not_mem_nil⟩
  | succ count ih =>
    obtain ⟨first, s₁, hfirst, h⟩ := Draw.bind_inv h
    obtain ⟨rest, s₂, hrest, h⟩ := Draw.bind_inv h
    cases h
    obtain ⟨hlength, hall⟩ := ih hrest
    refine ⟨by simp [hlength], ?_⟩
    intro a ha
    rcases List.mem_cons.mp ha with rfl | ha
    · exact ⟨s, s₁, hfirst⟩
    · exact hall a ha

end CutCover
