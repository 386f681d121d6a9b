import Mathlib.Logic.Function.Basic

namespace Writes

variable {α β : Type} [DecidableEq α]

def apply (ws : List (α × β)) (d : α → β) : α → β :=
  ws.foldl (fun d w => Function.update d w.1 w.2) d

@[simp]
theorem apply_nil (d : α → β) : apply [] d = d := rfl

@[simp]
theorem apply_cons (w : α × β) (ws : List (α × β)) (d : α → β)
    : apply (w :: ws) d = apply ws (Function.update d w.1 w.2) := rfl

theorem apply_append (ws ws' : List (α × β)) (d : α → β)
    : apply (ws ++ ws') d = apply ws' (apply ws d) := by
  unfold apply
  rw [List.foldl_append]

theorem apply_of_not_mem {ws : List (α × β)} {a : α} (h : a ∉ ws.map Prod.fst) (d : α → β)
    : apply ws d a = d a := by
  induction ws generalizing d with
  | nil => rfl
  | cons w ws ih =>
    rw [List.map_cons, List.mem_cons, not_or] at h
    rw [apply_cons, ih h.2, Function.update_of_ne h.1]

theorem apply_eq_of_forall {ws : List (α × β)} {a : α} {v : β} (h : ∀ w ∈ ws, w.1 = a → w.2 = v)
    {d : α → β} (hd : a ∈ ws.map Prod.fst ∨ d a = v)
    : apply ws d a = v := by
  induction ws generalizing d with
  | nil =>
    rcases hd with hd | hd
    . cases hd
    . exact hd
  | cons w ws ih =>
    rw [apply_cons]
    apply ih
    . intro w' hw'
      exact h w' (List.mem_cons_of_mem w hw')
    . by_cases hw : w.1 = a
      . apply Or.inr
        rw [hw, Function.update_self]
        exact h w List.mem_cons_self hw
      . rcases hd with hd | hd
        . rw [List.map_cons, List.mem_cons] at hd
          rcases hd with hd | hd
          . exact absurd hd.symm hw
          . exact .inl hd
        . apply Or.inr
          rw [Function.update_of_ne (Ne.symm hw)]
          exact hd

theorem apply_congr {ws : List (α × β)} {a : α} {d d' : α → β} (h : a ∈ ws.map Prod.fst ∨ d a = d' a)
    : apply ws d a = apply ws d' a := by
  induction ws generalizing d d' with
  | nil =>
    rcases h with h | h
    . cases h
    . exact h
  | cons w ws ih =>
    rw [apply_cons, apply_cons]
    apply ih
    by_cases hw : a = w.1
    . apply Or.inr
      rw [hw, Function.update_self, Function.update_self]
    rw [Function.update_of_ne hw, Function.update_of_ne hw]
    rw [List.map_cons, List.mem_cons] at h
    rcases h with (h | h) | h
    . exact absurd h hw
    . exact .inl h
    . exact .inr h

theorem apply_apply_take (ws : List (α × β)) (k : Nat) (d : α → β)
    : apply ws (apply (ws.take k) d) = apply ws d := by
  funext a
  apply apply_congr
  by_cases ha : a ∈ ws.map Prod.fst
  . exact .inl ha
  apply Or.inr
  apply apply_of_not_mem
  intro hmem
  rw [List.map_take] at hmem
  exact ha (List.mem_of_mem_take hmem)

end Writes
