import Mathlib.Logic.Function.Basic

namespace Xv6
namespace Copy

variable {α β : Type} [DecidableEq α]

def copy (m : α → β) (l : List (α × α)) : α → β :=
  match l with
  | [] => m
  | p :: l => copy (Function.update m p.1 (m p.2)) l

def Safe (l : List (α × α)) : Prop :=
  l.Pairwise fun p q => p.1 ≠ q.2 ∧ p.1 ≠ q.1

theorem copy_of_not_mem {l : List (α × α)} {a : α} (h : a ∉ l.map Prod.fst) (m : α → β) : copy m l a = m a := by
  induction l generalizing m with
  | nil => rfl
  | cons p l ih =>
    rw [List.map_cons, List.mem_cons, not_or] at h
    unfold copy
    rw [ih h.2, Function.update_of_ne h.1]

theorem copy_of_mem {l : List (α × α)} (hsafe : Safe l) {p : α × α} (h : p ∈ l) (m : α → β)
    : copy m l p.1 = m p.2 := by
  induction l generalizing m with
  | nil => cases h
  | cons q l ih =>
    have hpair := List.pairwise_cons.mp hsafe
    unfold copy
    rcases List.mem_cons.mp h with rfl | h
    . rw [copy_of_not_mem, Function.update_self]
      intro hmem
      rcases List.mem_map.mp hmem with ⟨r, hr, heq⟩
      exact (hpair.1 r hr).2 heq.symm
    . rw [ih hpair.2 h, Function.update_of_ne (hpair.1 p h).1.symm]

theorem copy_append (m : α → β) (l₁ l₂ : List (α × α)) : copy m (l₁ ++ l₂) = copy (copy m l₁) l₂ := by
  induction l₁ generalizing m with
  | nil => rfl
  | cons p l₁ ih => exact ih _

theorem copy_append_cons (l₁ : List (α × α)) {l₂ : List (α × α)} {p : α × α} (h : p.1 ∉ l₂.map Prod.fst) (m : α → β)
    : copy m (l₁ ++ p :: l₂) p.1 = copy m l₁ p.2 := by
  rw [copy_append]
  exact (copy_of_not_mem h _).trans (Function.update_self ..)

end Copy
end Xv6
