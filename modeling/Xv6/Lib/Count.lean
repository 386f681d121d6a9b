import Mathlib.Algebra.BigOperators.Group.Finset.Basic
import Mathlib.Algebra.BigOperators.Ring.Finset
import Mathlib.Algebra.Order.BigOperators.Group.Finset

namespace Count

variable {ι α : Type} [Fintype ι]

def total (w : α → Int) (f : ι → α) : Int :=
  ∑ i, w (f i)

theorem total_update [DecidableEq ι] (w : α → Int) (f : ι → α) (i : ι) (a : α)
    : total w (Function.update f i a) = total w f - w (f i) + w a := by
  unfold total
  have hcomp : (fun j => w (Function.update f i a j)) = Function.update (fun j => w (f j)) i (w a) :=
    Function.comp_update w f i a
  have hsplit := Finset.add_sum_erase Finset.univ (fun j => w (f j)) (Finset.mem_univ i)
  rw [hcomp, Finset.sum_update_of_mem (Finset.mem_univ i), Finset.sdiff_singleton_eq_erase, ← hsplit]
  omega

theorem card_eq_total (P : α → Bool) (f : ι → α)
    : ((Finset.univ.filter fun i => P (f i)).card : Int)
      = total (fun a => if P a then 1 else 0) f := by
  unfold total
  rw [Finset.card_filter, Nat.cast_sum]
  apply Finset.sum_congr rfl
  intro i _
  dsimp only
  split
  . rfl
  . rfl

theorem total_le {w w' : α → Int} (f : ι → α) (h : ∀ a, w a ≤ w' a) : total w f ≤ total w' f := by
  apply Finset.sum_le_sum
  intro i _
  apply h

theorem total_nonneg {w : α → Int} {f : ι → α} (h : ∀ i, 0 ≤ w (f i)) : 0 ≤ total w f := by
  apply Finset.sum_nonneg
  intro i _
  apply h

theorem le_total {w : α → Int} {f : ι → α} (h : ∀ i, 0 ≤ w (f i)) (i : ι) : w (f i) ≤ total w f := by
  apply Finset.single_le_sum _ (Finset.mem_univ i)
  intro j _
  apply h

theorem total_mul (w : α → Int) (f : ι → α) (k : Int)
    : total (fun a => w a * k) f = total w f * k := by
  unfold total
  rw [Finset.sum_mul]

end Count
