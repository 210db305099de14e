import CutCover.Assignment.Random
import CutCover.Proofs.Draws
import CutCover.Random.Normal

/-!
# CutCover — random assignments and normal numbers

Random assignments label every node, perturbed ones as many nodes as before, and neither can fail.
A normal number is drawn by rejection, which need not end; the layer that a word picks is always
one of the table.

* `Draw.replicate_ensures`           — the same draw several times.
* `Draw.normal_ensures`              — normal numbers.
* `Assignment.random_ensures`        — random assignments.
* `Assignment.perturbAll_ensures`    — perturbed ones.
-/

namespace CutCover

variable {σ α : Type} {mayLoop : Prop}

namespace Draw

/-- Repeated draws answer as often as asked. -/
theorem replicate_ensures {draw : Draw σ α} {post : α → Prop} (h : Ensures mayLoop draw post)
    (count : Nat) : Ensures mayLoop (replicate count draw) fun answers =>
      answers.length = count ∧ ∀ a ∈ answers, post a := by
  induction count with
  | zero => exact .pure ⟨rfl, fun a ha => absurd ha List.not_mem_nil⟩
  | succ count ih =>
    refine h.bind fun first hfirst => ih.bind fun rest hrest => .pure ⟨?_, ?_⟩
    · rw [List.length_cons, hrest.1]
    · exact List.forall_mem_cons.mpr ⟨hfirst, hrest.2⟩

variable [WordSource σ]

theorem coin_ensures : Ensures mayLoop (coin : Draw σ Bool) fun _ => True :=
  word_ensures.bind fun _ _ => .pure trivial

-- ---------------------------------------------------------------------------
-- Normal numbers
-- ---------------------------------------------------------------------------

theorem openUnit_ensures : Ensures mayLoop (openUnit : Draw σ Float) fun _ => True :=
  word_ensures.bind fun _ _ => .pure trivial

theorem fineUnit_ensures : Ensures mayLoop (fineUnit : Draw σ Float) fun _ => True :=
  word_ensures.bind fun _ _ => .pure trivial

theorem normalTail_ensures (hloop : mayLoop) (negative : Bool) :
    Ensures mayLoop (normalTail negative : Draw σ Float) fun _ => True := by
  have htrial : Ensures mayLoop (tailTrial : Draw σ (Option Float))
      fun answer => ∀ x, answer = some x → True :=
    openUnit_ensures.bind fun _ _ => openUnit_ensures.bind fun _ _ => .pure fun _ _ => trivial
  exact (repeatUntil_ensures hloop htrial).bind fun _ _ => .pure trivial

omit [WordSource σ] in
/-- Every layer has a right end, and so has the one above it. -/
theorem edge_ensures {i : Nat} (h : i ≤ 256) :
    Ensures mayLoop (liftM (Normal.edge i) : Draw σ Float) fun _ => True := by
  have hsize : Normal.edges.size = 257 := by
    rw [Normal.edges, Array.size_map]
    decide +kernel
  exact .lift (fetch_of_lt (by omega)) trivial

omit [WordSource σ] in
theorem density_ensures {i : Nat} (h : i ≤ 256) :
    Ensures mayLoop (liftM (Normal.density i) : Draw σ Float) fun _ => True := by
  have hsize : Normal.densities.size = 257 := by
    rw [Normal.densities, Array.size_map]
    decide +kernel
  exact .lift (fetch_of_lt (by omega)) trivial

theorem normalTrial_ensures (hloop : mayLoop) :
    Ensures mayLoop (normalTrial : Draw σ (Option Float)) fun _ => True := by
  refine word_ensures.bind fun w _ => ?_
  have hlayer : (w &&& 0xff).toNat ≤ 255 := by
    rw [UInt64.toNat_and]
    exact Nat.and_le_right
  refine (edge_ensures (by omega)).bind fun right _ => ?_
  refine (edge_ensures (by omega)).bind fun above _ => ?_
  split
  · exact .pure trivial
  split
  · exact (normalTail_ensures hloop _).bind fun _ _ => .pure trivial
  · refine (density_ensures (by omega)).bind fun low _ => ?_
    refine (density_ensures (by omega)).bind fun high _ => ?_
    exact fineUnit_ensures.bind fun _ _ => .pure trivial

theorem normal_ensures (hloop : mayLoop) :
    Ensures mayLoop (normal : Draw σ Float) fun _ => True :=
  repeatUntil_ensures hloop ((normalTrial_ensures hloop).mono fun _ _ _ _ => trivial)

end Draw

-- ---------------------------------------------------------------------------
-- Assignments
-- ---------------------------------------------------------------------------

namespace Assignment

variable [WordSource σ] {numNodes : Nat}

theorem random_ensures (numNodes : Nat) :
    Draw.Ensures mayLoop (random numNodes : Draw σ Assignment) fun x => x.size = numNodes :=
  (Draw.replicate_ensures Draw.coin_ensures numNodes).bind fun _ hlabels => .pure hlabels.1

/-- Random flips keep the number of labels. -/
theorem perturb_ensures {x : Assignment} (hpos : 0 < numNodes) (hx : x.size = numNodes)
    (flips : Nat) :
    Draw.Ensures mayLoop (perturb numNodes flips x : Draw σ Assignment)
      fun y => y.size = numNodes := by
  induction flips generalizing x with
  | zero => exact .pure hx
  | succ flips ih =>
    refine (Draw.below_ensures hpos).bind fun node hnode => ?_
    have hlt : node < x.size := by omega
    have hflip : Draw.Ensures mayLoop (liftM (x.flip node) : Draw σ Assignment)
        fun y => y.size = numNodes := .lift (flip_of_lt hlt) (by rw [Array.size_set, hx])
    exact hflip.bind fun y hy => ih hy

theorem perturbAll_ensures {xs : List Assignment} (hpos : 0 < numNodes)
    (hxs : ∀ x ∈ xs, x.size = numNodes) (flips : Nat) :
    Draw.Ensures mayLoop (perturbAll numNodes flips xs : Draw σ (List Assignment))
      fun ys => ys.length = xs.length ∧ ∀ y ∈ ys, y.size = numNodes := by
  induction xs with
  | nil => exact .pure ⟨rfl, fun _ hy => absurd hy List.not_mem_nil⟩
  | cons x rest ih =>
    refine (perturb_ensures hpos (hxs x List.mem_cons_self) flips).bind fun y hy => ?_
    refine (ih fun z hz => hxs z (List.mem_cons_of_mem x hz)).bind fun ys hys => .pure ⟨?_, ?_⟩
    · rw [List.length_cons, List.length_cons, hys.1]
    · exact List.forall_mem_cons.mpr ⟨hy, hys.2⟩

/-- Without flips nothing is perturbed, and nothing drawn. -/
theorem perturbAll_zero (xs : List Assignment) :
    (perturbAll numNodes 0 xs : Draw σ (List Assignment)) = pure xs := by
  induction xs with
  | nil => rfl
  | cons x rest ih =>
    rw [perturbAll, ih]
    rfl

end Assignment

end CutCover
