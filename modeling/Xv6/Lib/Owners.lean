import Mathlib.Logic.Function.Basic

variable {ι : Type}

structure Owners (f : ι → Nat) (used : Nat → Bool) (lo hi : Nat) : Prop where
  range : ∀ x, f x ≠ 0 → lo ≤ f x ∧ f x < hi
  inUse : ∀ x, f x ≠ 0 → used (f x) = true
  inj : ∀ x y, f x ≠ 0 → f x = f y → x = y
  covered : ∀ b, lo ≤ b → b < hi → used b = true → ∃ x, f x = b

namespace Owners

variable {f : ι → Nat} {used used' : Nat → Bool} {lo hi : Nat}

theorem ne_of_free (h : Owners f used lo hi) {b : Nat} (hb : used b = false) {x : ι} (hx : f x ≠ 0)
    : f x ≠ b := by
  intro heq
  have hused := h.inUse x hx
  rw [heq, hb] at hused
  cases hused

theorem congr (h : Owners f used lo hi) (hused : ∀ b, b < hi → used' b = used b)
    : Owners f used' lo hi where
  range := h.range
  inUse := by
    intro x hx
    rw [hused _ (h.range x hx).2]
    exact h.inUse x hx
  inj := h.inj
  covered := by
    intro b hlo hhi hb
    rw [hused b hhi] at hb
    exact h.covered b hlo hhi hb

section
variable [DecidableEq ι]

theorem assign (h : Owners f used lo hi) {x : ι} {b : Nat} (hx : f x = 0) (hb : used b = false)
    (hpos : 0 < lo) (hlo : lo ≤ b) (hhi : b < hi)
    : Owners (Function.update f x b) (Function.update used b true) lo hi where
  range := by
    intro y hy
    by_cases hyx : y = x
    . rw [hyx, Function.update_self]
      exact ⟨hlo, hhi⟩
    . rw [Function.update_of_ne hyx] at hy ⊢
      exact h.range y hy
  inUse := by
    intro y hy
    by_cases hyx : y = x
    . rw [hyx, Function.update_self, Function.update_self]
    . rw [Function.update_of_ne hyx] at hy ⊢
      rw [Function.update_of_ne (h.ne_of_free hb hy)]
      exact h.inUse y hy
  inj := by
    intro y z hy heq
    by_cases hyx : y = x
    . by_cases hzx : z = x
      . rw [hyx, hzx]
      . rw [hyx, Function.update_self, Function.update_of_ne hzx] at heq
        exfalso
        apply h.ne_of_free hb _ heq.symm
        omega
    . by_cases hzx : z = x
      . rw [hzx, Function.update_self, Function.update_of_ne hyx] at heq
        rw [Function.update_of_ne hyx] at hy
        exact absurd heq (h.ne_of_free hb hy)
      . rw [Function.update_of_ne hyx] at hy heq
        rw [Function.update_of_ne hzx] at heq
        exact h.inj y z hy heq
  covered := by
    intro c hclo hchi hc
    by_cases hcb : c = b
    . refine ⟨x, ?_⟩
      rw [Function.update_self, hcb]
    rw [Function.update_of_ne hcb] at hc
    rcases h.covered c hclo hchi hc with ⟨y, hy⟩
    refine ⟨y, ?_⟩
    rw [Function.update_of_ne]
    . exact hy
    . intro hyx
      rw [hyx] at hy
      omega

theorem release (h : Owners f used lo hi) (x : ι)
    : Owners (Function.update f x 0) (Function.update used (f x) false) lo hi where
  range := by
    intro y hy
    by_cases hyx : y = x
    . rw [hyx, Function.update_self] at hy
      exact absurd rfl hy
    . rw [Function.update_of_ne hyx] at hy ⊢
      exact h.range y hy
  inUse := by
    intro y hy
    by_cases hyx : y = x
    . rw [hyx, Function.update_self] at hy
      exact absurd rfl hy
    rw [Function.update_of_ne hyx] at hy ⊢
    rw [Function.update_of_ne]
    . exact h.inUse y hy
    . intro heq
      exact hyx (h.inj y x hy heq)
  inj := by
    intro y z hy heq
    by_cases hyx : y = x
    . rw [hyx, Function.update_self] at hy
      exact absurd rfl hy
    rw [Function.update_of_ne hyx] at hy heq
    by_cases hzx : z = x
    . rw [hzx, Function.update_self] at heq
      exact absurd heq hy
    . rw [Function.update_of_ne hzx] at heq
      exact h.inj y z hy heq
  covered := by
    intro c hlo hhi hc
    have hne : c ≠ f x := by
      intro heq
      rw [heq, Function.update_self] at hc
      cases hc
    rw [Function.update_of_ne hne] at hc
    rcases h.covered c hlo hhi hc with ⟨y, hy⟩
    refine ⟨y, ?_⟩
    rw [Function.update_of_ne]
    . exact hy
    . intro hyx
      rw [hyx] at hy
      exact hne hy.symm

end
end Owners
