import CutCover.Proofs.Answers

/-!
# CutCover — draws that do not abort

A draw aborts only if a precondition of its own is broken, or if the attempts of a rejection loop
run out. `Draw.Ensures` says of a draw that no precondition is: from every source it answers, with
an answer of the kind described, or a rejection loop does not end, where that is admitted. There is
a rule for each way of building a draw, and a statement about each primitive one.

* `Draw.Ensures`, `Attempt.Ensures`     — a draw answers; an attempt answers and is not refused.
* `Draw.Ensures.bind`, `Attempt.Ensures.bind` — sequences.
* `Draw.below_ensures`, `Draw.pick_ensures`   — draws below a bound and from an array.
* `Draw.repeatUntil_ensures`            — rejection loops.
* `Draw.AnswersAfter`, `Draw.retry_eq_ok_iff` — the round in which a rejection loop ends.
-/

namespace CutCover

variable {σ α β : Type} {mayLoop : Prop}

-- ---------------------------------------------------------------------------
-- Draws
-- ---------------------------------------------------------------------------

/-- The draw answers from every source, and every answer meets `post`; unless `mayLoop` holds and a
rejection loop does not end. -/
def Draw.Ensures (mayLoop : Prop) (m : Draw σ α) (post : α → Prop) : Prop :=
  ∀ s, (∃ a s', m.run s = .ok (a, s') ∧ post a) ∨ (mayLoop ∧ m.run s = .error .endlessSampling)

namespace Draw

namespace Ensures

variable {m : Draw σ α} {f : α → Draw σ β} {post pre : α → Prop} {post' : β → Prop}

/-- An answer that was given meets what is ensured. -/
theorem of_run (h : Ensures mayLoop m post) {s s' : σ} {a : α} (hrun : m.run s = .ok (a, s')) :
    post a := by
  rcases h s with ⟨b, s₁, hb, hpost⟩ | ⟨-, hloop⟩
  · rw [hrun] at hb
    cases hb
    exact hpost
  · rw [hrun] at hloop
    cases hloop

/-- Without rejection loops there is an answer. -/
theorem answers (h : Ensures False m post) (s : σ) : ∃ a s', m.run s = .ok (a, s') ∧ post a := by
  rcases h s with hanswer | ⟨hloop, -⟩
  · exact hanswer
  · exact hloop.elim

theorem mono (h : Ensures mayLoop m pre) (himp : ∀ a, pre a → post a) : Ensures mayLoop m post := by
  intro s
  rcases h s with ⟨a, s', ha, hpre⟩ | hloop
  · exact .inl ⟨a, s', ha, himp a hpre⟩
  · exact .inr hloop

protected theorem pure {a : α} (h : post a) : Ensures mayLoop (pure a : Draw σ α) post :=
  fun s => .inl ⟨a, s, rfl, h⟩

/-- A sequence answers if its first part does and the rest does after any answer to be expected. -/
theorem bind (hm : Ensures mayLoop m pre) (hf : ∀ a, pre a → Ensures mayLoop (f a) post') :
    Ensures mayLoop (m >>= f) post' := by
  intro s
  rw [StateT.run_bind]
  rcases hm s with ⟨a, s₁, ha, hpre⟩ | ⟨hloop, habort⟩
  · rw [ha]
    exact hf a hpre s₁
  · rw [habort]
    exact .inr ⟨hloop, rfl⟩

/-- A computation without draws that answers. -/
theorem lift {computation : Checked α} {a : α} (ha : computation = .ok a) (h : post a) :
    Ensures mayLoop (liftM computation : Draw σ α) post := by
  intro s
  rw [ha]
  exact .inl ⟨a, s, rfl, h⟩

end Ensures

-- ---------------------------------------------------------------------------
-- Rejection loops
-- ---------------------------------------------------------------------------

/-- What every successful trial answers is what the loop around it does. -/
theorem retry_ensures {trial : Draw σ (Option α)} {post : α → Prop} (hloop : mayLoop)
    (h : Ensures mayLoop trial fun answer => ∀ a, answer = some a → post a) (rounds : Nat) :
    Ensures mayLoop (retry trial rounds) post := by
  induction rounds with
  | zero => exact fun s => .inr ⟨hloop, rfl⟩
  | succ rounds ih =>
    refine h.bind fun answer hanswer => ?_
    cases answer with
    | none => exact ih
    | some a => exact .pure (hanswer a rfl)

/-- The trial answers for the first time after so many rounds, with the sources before and after. -/
inductive AnswersAfter (trial : Draw σ (Option α)) : Nat → σ → α → σ → Prop where
  | accepted {s s' : σ} {a : α} (h : trial.run s = .ok (some a, s')) :
    AnswersAfter trial 0 s a s'
  | rejected {rounds : Nat} {s s₁ s' : σ} {a : α} (h : trial.run s = .ok (none, s₁))
    (hrest : AnswersAfter trial rounds s₁ a s') : AnswersAfter trial (rounds + 1) s a s'

/-- A loop ends with the first answer of its trial, if the rounds suffice. -/
theorem retry_eq_ok_iff {trial : Draw σ (Option α)} {rounds : Nat} {s s' : σ} {a : α} :
    (retry trial rounds).run s = .ok (a, s') ↔ ∃ k < rounds, AnswersAfter trial k s a s' := by
  induction rounds generalizing s with
  | zero =>
    constructor
    · intro h
      cases h
    · rintro ⟨k, hk, -⟩
      exact absurd hk (Nat.not_lt_zero k)
  | succ rounds ih =>
    unfold retry
    constructor
    · intro h
      obtain ⟨answer, s₁, htrial, h⟩ := bind_inv h
      cases answer with
      | none =>
        obtain ⟨k, hk, hrest⟩ := ih.mp h
        exact ⟨k + 1, Nat.succ_lt_succ hk, .rejected htrial hrest⟩
      | some b =>
        obtain ⟨rfl, rfl⟩ := pure_inv h
        exact ⟨0, Nat.succ_pos rounds, .accepted htrial⟩
    · rintro ⟨k, hk, hanswers⟩
      cases hanswers with
      | accepted htrial =>
        rw [bind_of_run htrial]
        rfl
      | rejected htrial hrest =>
        rw [bind_of_run htrial]
        exact ih.mpr ⟨_, Nat.lt_of_succ_lt_succ hk, hrest⟩

variable [WordSource σ]

theorem repeatUntil_ensures {trial : Draw σ (Option α)} {post : α → Prop} (hloop : mayLoop)
    (h : Ensures mayLoop trial fun answer => ∀ a, answer = some a → post a) :
    Ensures mayLoop (repeatUntil trial) post :=
  retry_ensures hloop h _

-- ---------------------------------------------------------------------------
-- Primitive draws
-- ---------------------------------------------------------------------------

theorem word_ensures : Ensures mayLoop (word : Draw σ UInt64) fun _ => True :=
  fun _ => .inl ⟨_, _, rfl, trivial⟩

theorem halfWord_ensures : Ensures mayLoop (halfWord : Draw σ Nat) fun n => n < halfWordRange := by
  refine word_ensures.bind fun w _ => .pure ?_
  have hlt := w.toNat_lt
  have hhigh : (w >>> 32).toNat = w.toNat / 2 ^ 32 := by
    rw [UInt64.toNat_shiftRight, Nat.shiftRight_eq_div_pow]
    rfl
  rw [hhigh, halfWordRange]
  omega

theorem wholeWord_ensures : Ensures mayLoop (wholeWord : Draw σ Nat) fun n => n < wordRange :=
  word_ensures.bind fun w _ => .pure w.toNat_lt

theorem unit_ensures : Ensures mayLoop (unit : Draw σ Float) fun _ => True :=
  word_ensures.bind fun _ _ => .pure trivial

/-- The part of a product above the range of its first factor, with the carry from the part below
it, stays below the bound. -/
theorem scaled_lt {range high low bound : Nat} (hbound : 0 < bound) (hhigh : high < range)
    (hlow : low < range) :
    high * bound / range + (high * bound % range + low * bound / range) / range < bound := by
  have hrange : 0 < range := Nat.zero_lt_of_lt hhigh
  -- the product stays `bound` below its limit, and less than `bound` is carried
  have hmul : (high + 1) * bound ≤ bound * range := by
    rw [Nat.mul_comm bound]
    exact Nat.mul_le_mul_right bound hhigh
  have hcarry : low * bound / range < bound :=
    Nat.div_lt_of_lt_mul (Nat.mul_lt_mul_of_pos_right hlow hbound)
  have hsum : high * bound / range + (high * bound % range + low * bound / range) / range
      = (high * bound + low * bound / range) / range := by
    rw [← Nat.mul_add_div hrange, ← Nat.add_assoc, Nat.div_add_mod]
  rw [hsum, Nat.div_lt_iff_lt_mul hrange]
  rw [Nat.add_mul, Nat.one_mul] at hmul
  omega

omit [WordSource σ] in
/-- A draw below a range is scaled to a number below a positive bound. -/
theorem scaled_ensures {range bound : Nat} {draw : Draw σ Nat} (hbound : 0 < bound)
    (hdraw : Ensures mayLoop draw fun n => n < range) :
    Ensures mayLoop (scaled range draw bound) fun n => n < bound := by
  unfold scaled
  refine hdraw.bind fun high hhigh => ?_
  dsimp only
  -- without a second draw the answer is no more than with one of zero
  split
  · exact hdraw.bind fun low hlow => .pure (scaled_lt hbound hhigh hlow)
  · refine .pure ?_
    have hlt := scaled_lt hbound hhigh (Nat.zero_lt_of_lt hhigh)
    exact Nat.lt_of_le_of_lt (Nat.le_add_right _ _) hlt

/-- A draw below a positive bound answers a number below it. -/
theorem below_ensures {bound : Nat} (hbound : 0 < bound) :
    Ensures mayLoop (below bound : Draw σ Nat) fun n => n < bound := by
  have hne : bound ≠ 0 := Nat.ne_of_gt hbound
  unfold below
  simp only [hne, if_false]
  split
  · exact scaled_ensures hbound halfWord_ensures
  · exact scaled_ensures hbound wholeWord_ensures

/-- A draw from an array that is not empty answers one of its entries. -/
theorem pick_ensures {xs : Array α} (h : 0 < xs.size) :
    Ensures mayLoop (pick xs : Draw σ α) fun a => a ∈ xs := by
  refine (below_ensures h).bind fun i hi => ?_
  exact .lift (fetch_of_lt hi) (Array.getElem_mem hi)

end Draw

-- ---------------------------------------------------------------------------
-- Attempts
-- ---------------------------------------------------------------------------

/-- The attempt answers from every source and is not refused, and every answer meets `post`; unless
`mayLoop` holds and a rejection loop does not end. -/
def Attempt.Ensures (mayLoop : Prop) (m : Attempt σ α) (post : α → Prop) : Prop :=
  Draw.Ensures mayLoop m.run fun answer => ∃ a, answer = .ok a ∧ post a

namespace Attempt.Ensures

variable {m : Attempt σ α} {f : α → Attempt σ β} {post pre : α → Prop} {post' : β → Prop}

theorem mono (h : Ensures mayLoop m pre) (himp : ∀ a, pre a → post a) : Ensures mayLoop m post :=
  Draw.Ensures.mono h fun _ ⟨a, ha, hpre⟩ => ⟨a, ha, himp a hpre⟩

protected theorem pure {a : α} (h : post a) : Ensures mayLoop (pure a : Attempt σ α) post :=
  Draw.Ensures.pure ⟨a, rfl, h⟩

theorem bind (hm : Ensures mayLoop m pre) (hf : ∀ a, pre a → Ensures mayLoop (f a) post') :
    Ensures mayLoop (m >>= f) post' := by
  rw [Ensures, ExceptT.run_bind]
  refine Draw.Ensures.bind hm ?_
  rintro _ ⟨a, rfl, hpre⟩
  exact hf a hpre

/-- A draw is never refused. -/
theorem lift {draw : Draw σ α} (h : Draw.Ensures mayLoop draw post) :
    Ensures mayLoop (liftM draw : Attempt σ α) post := by
  rw [Ensures, ExceptT.run_liftM, map_eq_pure_bind]
  exact h.bind fun a hpost => .pure ⟨a, rfl, hpost⟩

theorem map {k : α → β} (hm : Ensures mayLoop m pre) (hk : ∀ a, pre a → post' (k a)) :
    Ensures mayLoop (k <$> m) post' := by
  rw [map_eq_pure_bind]
  exact hm.bind fun a hpre => .pure (hk a hpre)

end Attempt.Ensures

end CutCover
