import Mathlib.Algebra.Order.Ring.Nat
import Mathlib.Logic.Function.Basic

namespace Tally

variable {α : Type} {w : α → Nat} {f g : Nat → α} {n i : Nat}

def tally (w : α → Nat) (f : Nat → α) (n : Nat) : Nat :=
  ((List.range n).map fun i => w (f i)).sum

@[simp]
theorem tally_zero : tally w f 0 = 0 := by
  rfl

theorem tally_succ : tally w f (n + 1) = tally w f n + w (f n) := by
  simp only [tally, List.range_succ, List.map_append, List.map_cons, List.map_nil, List.sum_append,
    List.sum_cons, List.sum_nil, Nat.add_zero]

theorem tally_congr (h : ∀ i, i < n → w (f i) = w (g i)) : tally w f n = tally w g n := by
  induction n with
  | zero => rfl
  | succ n ih =>
    rw [tally_succ, tally_succ, h n (Nat.lt_succ_self n), ih (fun i hi => h i (Nat.lt_succ_of_lt hi))]

theorem tally_eq_zero (h : ∀ i, i < n → w (f i) = 0) : tally w f n = 0 := by
  induction n with
  | zero => rfl
  | succ n ih =>
    rw [tally_succ, h n (Nat.lt_succ_self n), ih (fun i hi => h i (Nat.lt_succ_of_lt hi))]

theorem le_tally (hi : i < n) : w (f i) ≤ tally w f n := by
  induction n with
  | zero => cases hi
  | succ n ih =>
    rw [tally_succ]
    rcases Nat.lt_succ_iff_lt_or_eq.mp hi with hi | rfl
    . exact Nat.le_trans (ih hi) (Nat.le_add_right _ _)
    . exact Nat.le_add_left _ _

theorem tally_update_of_le (h : n ≤ i) (a : α) : tally w (Function.update f i a) n = tally w f n := by
  apply tally_congr
  intro j hj
  rw [Function.update_of_ne (by omega)]

theorem tally_update (h : i < n) (a : α)
    : tally w (Function.update f i a) n + w (f i) = tally w f n + w a := by
  induction n with
  | zero => cases h
  | succ n ih =>
    rw [tally_succ, tally_succ]
    rcases Nat.lt_succ_iff_lt_or_eq.mp h with hi | rfl
    . have := ih hi
      rw [Function.update_of_ne (by omega)]
      omega
    . rw [tally_update_of_le (Nat.le_refl i), Function.update_self]
      omega

end Tally
