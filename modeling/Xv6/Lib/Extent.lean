import Mathlib.Algebra.Order.BigOperators.Group.List
import Mathlib.Algebra.Order.Ring.Nat

/-!
Extents of memory, given by their first byte and their length in cells of a fixed
width, and the number of extents of a list that cover a byte.
-/

structure Extent where
  start : Nat
  len : Nat
deriving DecidableEq, Repr

namespace Extent

variable {w x : Nat} {b c : Extent} {l l₁ l₂ : List Extent}

def stop (w : Nat) (b : Extent) : Nat :=
  b.start + w * b.len

def covers (w : Nat) (b : Extent) (x : Nat) : Nat :=
  if b.start ≤ x ∧ x < b.stop w then 1 else 0

def cover (w : Nat) (l : List Extent) (x : Nat) : Nat :=
  (l.map fun b => b.covers w x).sum

def Disjoint (w : Nat) (b c : Extent) : Prop :=
  b.stop w ≤ c.start ∨ c.stop w ≤ b.start

instance : Decidable (Disjoint w b c) :=
  inferInstanceAs (Decidable (_ ∨ _))

theorem covers_of_mem (h : b.start ≤ x ∧ x < b.stop w) : b.covers w x = 1 := by
  exact if_pos h

theorem covers_mk (a n : Nat)
    : covers w ⟨a, n⟩ x = if a ≤ x ∧ x < a + w * n then 1 else 0 := by
  rfl

theorem covers_add (a m n : Nat)
    : covers w ⟨a, m + n⟩ x = covers w ⟨a, m⟩ x + covers w ⟨a + w * m, n⟩ x := by
  have hlen := Nat.mul_add w m n
  rw [covers_mk, covers_mk, covers_mk]
  split_ifs <;> omega

@[simp]
theorem cover_nil : cover w [] x = 0 := by
  rfl

@[simp]
theorem cover_cons : cover w (b :: l) x = b.covers w x + cover w l x := by
  simp only [cover, List.map_cons, List.sum_cons]

@[simp]
theorem cover_append : cover w (l₁ ++ l₂) x = cover w l₁ x + cover w l₂ x := by
  simp only [cover, List.map_append, List.sum_append]

theorem cover_perm (h : l₁.Perm l₂) : cover w l₁ x = cover w l₂ x := by
  exact (h.map _).sum_nat

theorem covers_le_cover (h : b ∈ l) : b.covers w x ≤ cover w l x := by
  induction l with
  | nil => cases h
  | cons c l ih =>
    rw [cover_cons]
    rcases List.mem_cons.mp h with rfl | h
    . exact Nat.le_add_right _ _
    . exact Nat.le_trans (ih h) (Nat.le_add_left _ _)

theorem exists_of_cover (h : 0 < cover w l x) : ∃ b ∈ l, b.start ≤ x ∧ x < b.stop w := by
  induction l with
  | nil => cases h
  | cons c l ih =>
    by_cases hc : c.start ≤ x ∧ x < c.stop w
    . exact ⟨c, List.mem_cons_self, hc⟩
    . rw [cover_cons, covers, if_neg hc, Nat.zero_add] at h
      rcases ih h with ⟨b, hb, hx⟩
      exact ⟨b, List.mem_cons_of_mem c hb, hx⟩

theorem cover_eq_zero (h : ∀ b ∈ l, ¬(b.start ≤ x ∧ x < b.stop w)) : cover w l x = 0 := by
  apply Nat.eq_zero_of_not_pos
  intro hpos
  rcases exists_of_cover hpos with ⟨b, hb, hx⟩
  exact h b hb hx

theorem disjoint_of_covers (hb : b.start < b.stop w) (hc : c.start < c.stop w)
    (h : ∀ x, b.covers w x + c.covers w x ≤ 1)
    : Disjoint w b c := by
  apply Classical.byContradiction
  intro hne
  rw [Disjoint, not_or, Nat.not_le, Nat.not_le] at hne
  -- the larger of the two first bytes belongs to both
  have := h (max b.start c.start)
  rw [covers_of_mem (by omega), covers_of_mem (by omega)] at this
  omega

end Extent
