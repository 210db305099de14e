import CutCover.Proofs.Draws

/-!
# CutCover — the outcomes of a computation

What a computation may come to, whatever the words drawn: what its answers meet, what it may be
refused for, and how it may abort. With every abort admitted this says what is true of the answers;
with none admitted it says that there is one. The rules follow the ways of building a computation,
so that one pass over it serves both.

* `Checked.Meets`, `Draw.Meets`, `Attempt.Meets` — the outcomes admitted.
* `Attempt.Meets.bind`, `Attempt.Meets.lift`     — a rule for each way of building a computation.
* `Draw.Meets.strengthen`                        — what else is known of the answers may be added.
* `Attempt.Meets.cases`                          — the three ways in which an attempt may end.
* `Draw.Ensures.meets`                           — draws that abort in endless loops only.
-/

namespace CutCover

variable {σ α β : Type} {mayAbort : Abort → Prop} {mayRefuse : Refusal → Prop}

-- ---------------------------------------------------------------------------
-- Computations without draws
-- ---------------------------------------------------------------------------

/-- Every answer meets `post`, and every abort is admitted. -/
def Checked.Meets (mayAbort : Abort → Prop) (m : Checked α) (post : α → Prop) : Prop :=
  match m with
  | .ok a => post a
  | .error abort => mayAbort abort

namespace Checked.Meets

variable {m : Checked α} {f : α → Checked β} {post pre : α → Prop} {post' : β → Prop}

theorem of_eq_ok (h : Meets mayAbort m post) {a : α} (hm : m = .ok a) : post a := by
  rw [hm] at h
  exact h

theorem mono (h : Meets mayAbort m pre) (himp : ∀ a, pre a → post a) : Meets mayAbort m post := by
  cases m with
  | ok a => exact himp a h
  | error abort => exact h

theorem bind (hm : Meets mayAbort m pre) (hf : ∀ a, pre a → Meets mayAbort (f a) post') :
    Meets mayAbort (m >>= f) post' := by
  cases m with
  | ok a => exact hf a hm
  | error abort => exact hm

/-- A computation that answers. -/
theorem of_ok {a : α} (hm : m = .ok a) (h : post a) : Meets mayAbort m post := by
  rw [hm]
  exact h

/-- A sequence goes on with the answer of its first part. -/
theorem ok_bind {a : α} (hm : m = .ok a) (h : Meets mayAbort (f a) post') :
    Meets mayAbort (m >>= f) post' := by
  rw [hm]
  exact h

/-- More may be known of the answers. -/
theorem strengthen (h : Meets mayAbort m fun _ => True) (hpost : ∀ a, m = .ok a → post a) :
    Meets mayAbort m post := by
  cases m with
  | ok a => exact hpost a rfl
  | error abort => exact h

theorem mapM {f : α → Checked β} {xs : List α}
    (h : ∀ x ∈ xs, Meets mayAbort (f x) fun _ => True) :
    Meets mayAbort (xs.mapM f) fun _ => True := by
  induction xs with
  | nil => trivial
  | cons x rest ih =>
    rw [List.mapM_cons]
    refine (h x List.mem_cons_self).bind fun y _ => ?_
    exact (ih fun z hz => h z (List.mem_cons_of_mem x hz)).bind fun ys _ => trivial

/-- What every round of a loop keeps, the loop keeps. -/
theorem foldlM {f : β → α → Checked β} {xs : List α} {inv : β → Prop} {b : β}
    (h : ∀ x ∈ xs, ∀ b, inv b → Meets mayAbort (f b x) inv) (hb : inv b) :
    Meets mayAbort (xs.foldlM f b) inv := by
  induction xs generalizing b with
  | nil => exact hb
  | cons x rest ih =>
    rw [List.foldlM_cons]
    refine (h x List.mem_cons_self b hb).bind fun c hc => ?_
    exact ih (fun z hz => h z (List.mem_cons_of_mem x hz)) hc

/-- If all aborts are admitted, the answer is what it is. -/
theorem self (m : Checked α) : Meets (fun _ => True) m fun a => m = .ok a := by
  cases m with
  | ok a => rfl
  | error abort => trivial

end Checked.Meets

-- ---------------------------------------------------------------------------
-- Draws
-- ---------------------------------------------------------------------------

/-- From every source, every answer meets `post`, and every abort is admitted. -/
def Draw.Meets (mayAbort : Abort → Prop) (m : Draw σ α) (post : α → Prop) : Prop :=
  ∀ s, Checked.Meets mayAbort (m.run s) fun answer => post answer.1

namespace Draw

namespace Meets

variable {m : Draw σ α} {f : α → Draw σ β} {post pre : α → Prop} {post' : β → Prop}

theorem of_run (h : Meets mayAbort m post) {s s' : σ} {a : α} (hrun : m.run s = .ok (a, s')) :
    post a :=
  Checked.Meets.of_eq_ok (h s) hrun

theorem mono (h : Meets mayAbort m pre) (himp : ∀ a, pre a → post a) : Meets mayAbort m post :=
  fun s => (h s).mono fun answer => himp answer.1

protected theorem pure {a : α} (h : post a) : Meets mayAbort (pure a : Draw σ α) post :=
  fun _ => h

theorem bind (hm : Meets mayAbort m pre) (hf : ∀ a, pre a → Meets mayAbort (f a) post') :
    Meets mayAbort (m >>= f) post' := by
  intro s
  rw [StateT.run_bind]
  exact (hm s).bind fun answer hanswer => hf answer.1 hanswer answer.2

theorem lift {computation : Checked α} (h : Checked.Meets mayAbort computation post) :
    Meets mayAbort (liftM computation : Draw σ α) post :=
  fun _ => h.bind fun _ ha => ha

/-- More may be known of the answers. -/
theorem strengthen (h : Meets mayAbort m fun _ => True)
    (hpost : ∀ s s' a, m.run s = .ok (a, s') → post a) : Meets mayAbort m post :=
  fun s => (h s).strengthen fun answer hanswer => hpost s answer.2 answer.1 hanswer

theorem mapM {f : α → Draw σ β} {xs : List α}
    (h : ∀ x ∈ xs, Meets mayAbort (f x) fun _ => True) :
    Meets mayAbort (xs.mapM f) fun _ => True := by
  induction xs with
  | nil => exact .pure trivial
  | cons x rest ih =>
    rw [List.mapM_cons]
    refine (h x List.mem_cons_self).bind fun y _ => ?_
    exact (ih fun z hz => h z (List.mem_cons_of_mem x hz)).bind fun ys _ => .pure trivial

/-- If all aborts are admitted, nothing is asked of a draw. -/
theorem any (m : Draw σ α) : Meets (fun _ => True) m fun _ => True :=
  fun s => (Checked.Meets.self (m.run s)).mono fun _ _ => trivial

end Meets

/-- Draws that answer, or abort in an endless loop where that is admitted. -/
theorem Ensures.meets {mayLoop : Prop} {m : Draw σ α} {post : α → Prop}
    (h : Ensures mayLoop m post) (habort : mayLoop → mayAbort .endlessSampling) :
    Meets mayAbort m post := by
  intro s
  rcases h s with ⟨a, s', ha, hpost⟩ | ⟨hloop, ha⟩
  · rw [ha]
    exact hpost
  · rw [ha]
    exact habort hloop

end Draw

-- ---------------------------------------------------------------------------
-- Attempts
-- ---------------------------------------------------------------------------

/-- From every source, every answer meets `post`, and every refusal and every abort is admitted. -/
def Attempt.Meets (mayAbort : Abort → Prop) (mayRefuse : Refusal → Prop) (m : Attempt σ α)
    (post : α → Prop) : Prop :=
  Draw.Meets mayAbort m.run fun
    | .ok a => post a
    | .error refusal => mayRefuse refusal

namespace Attempt.Meets

variable {m : Attempt σ α} {f : α → Attempt σ β} {post pre : α → Prop} {post' : β → Prop}

theorem of_run (h : Meets mayAbort mayRefuse m post) {s s' : σ} {a : α}
    (hrun : m.run.run s = .ok (.ok a, s')) : post a :=
  Draw.Meets.of_run h hrun

theorem of_refused (h : Meets mayAbort mayRefuse m post) {s s' : σ} {refusal : Refusal}
    (hrun : m.run.run s = .ok (.error refusal, s')) : mayRefuse refusal :=
  Draw.Meets.of_run h hrun

/-- From any source the attempt answers, is refused, or aborts. -/
theorem cases (h : Meets mayAbort mayRefuse m post) (s : σ) :
    (∃ a s', m.run.run s = .ok (.ok a, s') ∧ post a) ∨
    (∃ refusal s', m.run.run s = .ok (.error refusal, s') ∧ mayRefuse refusal) ∨
    ∃ abort, m.run.run s = .error abort ∧ mayAbort abort := by
  have hs := h s
  rcases hrun : m.run.run s with abort | ⟨refusal | a, s'⟩ <;> rw [hrun] at hs
  · exact .inr (.inr ⟨abort, rfl, hs⟩)
  · exact .inr (.inl ⟨refusal, s', rfl, hs⟩)
  · exact .inl ⟨a, s', rfl, hs⟩

theorem mono (h : Meets mayAbort mayRefuse m pre) (himp : ∀ a, pre a → post a) :
    Meets mayAbort mayRefuse m post := by
  refine Draw.Meets.mono h fun answer hanswer => ?_
  cases answer with
  | ok a => exact himp a hanswer
  | error refusal => exact hanswer

/-- If everything is admitted, nothing is asked of an attempt. -/
theorem any (m : Attempt σ α) : Meets (fun _ => True) (fun _ => True) m fun _ => True :=
  Draw.Meets.mono (Draw.Meets.any m.run) fun answer _ => by cases answer <;> trivial

/-- What is true of every answer may be added. -/
theorem and {post' : α → Prop} (h : Meets mayAbort mayRefuse m post)
    (h' : Meets (fun _ => True) (fun _ => True) m post') :
    Meets mayAbort mayRefuse m fun a => post a ∧ post' a := by
  intro s
  have hs := h s
  have hs' := h' s
  rcases hrun : m.run.run s with abort | ⟨refusal | a, s'⟩ <;> rw [hrun] at hs hs'
  · exact hs
  · exact hs
  · exact ⟨hs, hs'⟩

/-- More refusals may be admitted. -/
theorem mono_refuse {others : Refusal → Prop} (h : Meets mayAbort mayRefuse m post)
    (himp : ∀ refusal, mayRefuse refusal → others refusal) : Meets mayAbort others m post := by
  refine Draw.Meets.mono h fun answer hanswer => ?_
  cases answer with
  | ok a => exact hanswer
  | error refusal => exact himp refusal hanswer

protected theorem pure {a : α} (h : post a) :
    Meets mayAbort mayRefuse (pure a : Attempt σ α) post :=
  Draw.Meets.pure h

theorem throw {refusal : Refusal} (h : mayRefuse refusal) :
    Meets mayAbort mayRefuse (throw refusal : Attempt σ α) post :=
  Draw.Meets.pure h

theorem bind (hm : Meets mayAbort mayRefuse m pre)
    (hf : ∀ a, pre a → Meets mayAbort mayRefuse (f a) post') :
    Meets mayAbort mayRefuse (m >>= f) post' := by
  rw [Meets, ExceptT.run_bind]
  refine Draw.Meets.bind hm fun answer hanswer => ?_
  cases answer with
  | ok a => exact hf a hanswer
  | error refusal => exact .pure hanswer

/-- Nothing follows a refusal. -/
theorem throw_bind {refusal : Refusal} (h : mayRefuse refusal) :
    Meets mayAbort mayRefuse ((MonadExcept.throw refusal : Attempt σ α) >>= f) post' := by
  have hthrow : Meets mayAbort mayRefuse (MonadExcept.throw refusal : Attempt σ α)
      fun _ => False := throw h
  exact hthrow.bind fun _ hnone => hnone.elim

/-- A draw is never refused. -/
theorem lift {draw : Draw σ α} (h : Draw.Meets mayAbort draw post) :
    Meets mayAbort mayRefuse (liftM draw : Attempt σ α) post := by
  rw [Meets, ExceptT.run_liftM, map_eq_pure_bind]
  exact h.bind fun a hpost => .pure hpost

/-- A sequence goes on with the answer of a first part without draws. -/
theorem lift_ok_bind {computation : Checked α} {a : α} (ha : computation = .ok a)
    (h : Meets mayAbort mayRefuse (f a) post') :
    Meets mayAbort mayRefuse ((liftM (liftM computation : Draw σ α) : Attempt σ α) >>= f)
      post' := by
  have hlift : Draw.Meets mayAbort (liftM computation : Draw σ α) fun b => b = a :=
    .lift (.of_ok ha rfl)
  refine (lift hlift).bind ?_
  rintro _ rfl
  exact h

/-- And after a favourable verdict. -/
theorem ofExcept_bind {verdict : Except Refusal α} {a : α} (hverdict : verdict = .ok a)
    (h : Meets mayAbort mayRefuse (f a) post') :
    Meets mayAbort mayRefuse ((liftM verdict : Attempt σ α) >>= f) post' := by
  rw [hverdict]
  exact h

theorem map {k : α → β} (hm : Meets mayAbort mayRefuse m pre) (hk : ∀ a, pre a → post' (k a)) :
    Meets mayAbort mayRefuse (k <$> m) post' := by
  rw [map_eq_pure_bind]
  exact hm.bind fun a hpre => .pure (hk a hpre)

end Attempt.Meets

end CutCover
