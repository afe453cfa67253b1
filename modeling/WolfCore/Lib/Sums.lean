import Mathlib.Algebra.BigOperators.Group.List.Basic
import Mathlib.Algebra.BigOperators.Group.Finset.Basic
import Mathlib.Tactic.Abel

/-!
# Sums in which one term is replaced

The parts of a state are often kept in a list or a family, and what they hold together is a sum.  A
step replaces one part: `sum_map_set` for lists, `sum_update` for families.  `pass_on` is the step
of an account: what one part passes on, all parts together pass on; `hand_over` is the same step
between two families of parts.
-/

namespace Sums

/-- The sum over a list in which one element has been replaced. -/
theorem sum_map_set {α M : Type} [AddCommMonoid M] (f : α → M) {l : List α} {i : ℕ} {a : α}
    (h : l[i]? = some a) (b : α) : ((l.set i b).map f).sum + f a = (l.map f).sum + f b := by
  induction l generalizing i with
  | nil => cases h
  | cons x l ih =>
    cases i with
    | zero =>
      cases h
      simp only [List.set_cons_zero, List.map_cons, List.sum_cons]
      abel
    | succ i =>
      simp only [List.set_cons_succ, List.map_cons, List.sum_cons, add_assoc, ih h]

/-- The sum over a family in which one member has been replaced. -/
theorem sum_update {ι M : Type} [DecidableEq ι] [AddCommMonoid M] {σ : ι → Type}
    (f : (i : ι) → σ i → M) {S : Finset ι} {i : ι} (hi : i ∈ S) (s : (i : ι) → σ i) (v : σ i) :
    ∑ j ∈ S, f j (Function.update s i v j) + f i (s i) = ∑ j ∈ S, f j (s j) + f i v := by
  have hrest : ∑ j ∈ S.erase i, f j (Function.update s i v j) = ∑ j ∈ S.erase i, f j (s j) :=
    Finset.sum_congr rfl fun j hj => by rw [Function.update_of_ne (Finset.ne_of_mem_erase hj)]
  rw [← Finset.sum_erase_add _ _ hi, hrest, Function.update_self,
    ← Finset.sum_erase_add (f := fun j => f j (s j)) _ hi]
  abel

/-- What is passed on in a step is passed on in the whole. -/
theorem pass_on {M : Type} [AddCancelCommMonoid M] {c C S S' r R x x' : M} (hC : C = S + R)
    (hx : x + c = x' + r) (hS : S' + x = S + x') : c + C = S' + (r + R) := by
  refine add_left_cancel (a := x) ?_
  calc x + (c + C) = x' + r + (S + R) := by rw [← add_assoc, hx, hC]
    _ = S + x' + (r + R) := by abel
    _ = S' + x + (r + R) := by rw [hS]
    _ = x + (S' + (r + R)) := by abel

/-- One of the parts whose sum is `P` hands something over to one of those whose sum is `S`, and
that one gives `r` away. -/
theorem hand_over {M : Type} [AddCancelCommMonoid M] {P P' p p' S S' x x' R r : M} (hP : P = S + R)
    (hp : P' + p = P + p') (hS : S' + x = S + x') (hx : x + p' = x' + r + p) :
    P' = S' + (R + r) := by
  refine add_left_cancel (a := p + x) ?_
  calc p + x + P' = P' + p + x := by abel
    _ = S + R + (x + p') := by rw [hp, hP]; abel
    _ = S + x' + (R + r) + p := by rw [hx]; abel
    _ = p + x + (S' + (R + r)) := by rw [← hS]; abel

end Sums
