import Mathlib.Data.List.Nodup
import Mathlib.Data.Nat.ModEq
import Xv6.Lib.Reach

/-!
A circular list with a cursor that everybody shares: a pick takes the first entry
from the cursor on that is ready, and the cursor moves by one place at a time.
-/

namespace Cursor

variable {α : Type} {l : List α} {p q : α}

def Picks (l : List α) (c : Nat) (ready : α → Prop) (p : α) : Prop :=
  ∃ d, d < l.length ∧ l[(c + d) % l.length]? = some p
    ∧ ∀ e, e < d → ∀ q, l[(c + e) % l.length]? = some q → ¬ready q

theorem monotone_of_step {c : Nat → Nat} {i j : Nat} (hij : i ≤ j) (hstep : ∀ k, i ≤ k → k < j → c k ≤ c (k + 1))
    : c i ≤ c j := by
  induction j, hij using Nat.le_induction with
  | base => exact Nat.le_refl _
  | succ j hij ih =>
    have hlast := hstep j hij (by omega)
    have := ih fun k hik hkj => hstep k hik (by omega)
    omega

theorem exists_position {x t m : Nat} (ht : t < m) (hx : m ≤ x) (hne : t ≠ x % m)
    : ∃ y, x < y + m ∧ y < x ∧ y % m = t := by
  have hmod := Nat.mod_lt x (Nat.zero_lt_of_lt ht)
  have hdiv := Nat.div_add_mod x m
  have hpos : 0 < x / m := Nat.div_pos hx (Nat.zero_lt_of_lt ht)
  by_cases hlt : t < x % m
  . refine ⟨m * (x / m) + t, by omega, by omega, ?_⟩
    rw [Nat.mul_add_mod, Nat.mod_eq_of_lt ht]
  have hmul : m * (x / m - 1) + m = m * (x / m) := by
    rw [← Nat.mul_succ]
    congr 1
    omega
  refine ⟨m * (x / m - 1) + t, by omega, by omega, ?_⟩
  rw [Nat.mul_add_mod, Nat.mod_eq_of_lt ht]

theorem le_of_mod_eq {x y m : Nat} (hlt : y < x) (h : x % m = y % m) : y + m ≤ x := by
  have hdvd : m ∣ x - y := (Nat.modEq_iff_dvd' (Nat.le_of_lt hlt)).mp h.symm
  have := Nat.le_of_dvd (by omega) hdvd
  omega

theorem not_overtaken (ready : Nat → α → Prop) (hl : l.Nodup) {c : Nat → Nat} {m j : Nat}
    (hmj : m < j) (hm : c (m + 1) = c m + 1) (hp : l[c m % l.length]? = some p)
    (hmove : ∀ k, m < k → k < j → c (k + 1) = c k
      ∨ (c (k + 1) = c k + 1 ∧ ∀ q, l[c k % l.length]? = some q → ¬ready k q))
    (hpick : Picks l (c j) (ready j) p) (hq : q ∈ l) (hne : q ≠ p)
    : ∃ k, m < k ∧ k ≤ j ∧ ¬ready k q := by
  rcases hpick with ⟨d, hd, hpd, hfirst⟩
  rcases List.mem_iff_getElem?.mp hq with ⟨t, hqt⟩
  have ht : t < l.length := (List.getElem?_eq_some_iff.mp hqt).1
  -- The pick is at least one round behind the place where the cursor moved past `p`.
  have hmono : c (m + 1) ≤ c j := by
    refine monotone_of_step (i := m + 1) (by omega) ?_
    intro k hmk hkj
    rcases hmove k hmk hkj with hstay | ⟨hnext, _⟩
    . omega
    . omega
  have hround : c m + l.length ≤ c j + d := by
    apply le_of_mod_eq
    . omega
    . apply (List.getElem?_inj (Nat.mod_lt _ (by omega)) hl).mp
      rw [hpd, hp]
  -- So it came across `q`, and if it did not, the cursor moved past `q` before.
  have htne : t ≠ (c j + d) % l.length := by
    intro heq
    rw [heq, hpd] at hqt
    exact hne (Option.some.inj hqt).symm
  rcases exists_position ht (by omega) htne with ⟨y, hxy, hyx, hy⟩
  rw [← hy] at hqt
  by_contra hnone
  have hready : ∀ k, m < k → k ≤ j → ready k q := by
    intro k hmk hkj
    by_contra hk
    exact hnone ⟨k, hmk, hkj, hk⟩
  by_cases hcj : c j ≤ y
  . have he : c j + (y - c j) = y := by omega
    apply hfirst (y - c j) (by omega) q
    . rw [he]
      exact hqt
    . exact hready j hmj (Nat.le_refl j)
  . rcases Reach.exists_step_of_not (P := fun k => c k ≤ y) (i := m + 1) (j := j) (by omega) (by omega) hcj
      with ⟨k, hmk, hkj, hle, hgt⟩
    rcases hmove k hmk hkj with hstay | ⟨hnext, hpast⟩
    . omega
    . have hck : c k = y := by omega
      apply hpast q
      . rw [hck]
        exact hqt
      . apply hready k hmk (by omega)

end Cursor
