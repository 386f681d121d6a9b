import Mathlib.Data.List.Nodup
import Mathlib.Logic.Function.Basic

/-!
Circular singly linked lists in a memory of pointers: the nodes on a way through
the pointers, moving the entry of a circle, editing a pointer in place and the search around the
circle.
-/

namespace Circle

variable {α : Type} {next next' : α → α} {l l₁ l₂ : List α} {a b x e e' : α}

def Path (next : α → α) (l : List α) (e : α) : Prop :=
  match l with
  | [] => True
  | a :: l => next a = l.headD e ∧ Path next l e

theorem headD_append : (l₁ ++ l₂).headD e = l₁.headD (l₂.headD e) := by
  cases l₁ with
  | nil => rfl
  | cons a l₁ => rfl

theorem path_append
    : Path next (l₁ ++ l₂) e ↔ Path next l₁ (l₂.headD e) ∧ Path next l₂ e := by
  induction l₁ with
  | nil => simp only [List.nil_append, Path, true_and]
  | cons a l₁ ih => simp only [List.cons_append, Path, ih, headD_append, and_assoc]

theorem Path.congr (h : Path next l e) (heq : ∀ x ∈ l, next' x = next x) : Path next' l e := by
  induction l with
  | nil => trivial
  | cons a l ih =>
    constructor
    . rw [heq a List.mem_cons_self]
      exact h.1
    . exact ih h.2 (fun x hx => heq x (List.mem_cons_of_mem a hx))

theorem Path.last_eq (h : Path next (l ++ [a]) e) : next a = e := by
  rw [path_append] at h
  exact h.2.1

theorem Path.rotate (h : Path next (a :: l₁ ++ b :: l₂) a) : Path next (b :: l₂ ++ a :: l₁) b := by
  rw [path_append] at h ⊢
  exact h.symm

theorem Path.exists_rotate (h : Path next (a :: l) a) (hx : x ∈ a :: l)
    : ∃ l', Path next (x :: l') x ∧ (x :: l').Perm (a :: l) := by
  rcases List.append_of_mem hx with ⟨l₁, l₂, heq⟩
  cases l₁ with
  | nil =>
    injection heq with ha hl
    subst ha hl
    exact ⟨l, h, .refl _⟩
  | cons c l₁ =>
    injection heq with ha hl
    subst ha hl
    have hperm : (x :: l₂ ++ a :: l₁).Perm (a :: l₁ ++ x :: l₂) := List.perm_append_comm
    exact ⟨l₂ ++ a :: l₁, h.rotate, hperm⟩

theorem Path.next_mem_tail (h : Path next l e) (hx : x ∈ l) : next x ∈ l.tail ++ [e] := by
  induction l with
  | nil => cases hx
  | cons a l ih =>
    rw [List.tail_cons]
    rcases List.mem_cons.mp hx with rfl | hx
    . rw [h.1]
      cases l with
      | nil => exact List.mem_singleton_self e
      | cons b l => exact List.mem_cons_self
    . exact List.mem_append.mpr ((List.mem_append.mp (ih h.2 hx)).imp_left List.mem_of_mem_tail)

theorem Path.next_mem (h : Path next (a :: l) a) (hx : x ∈ a :: l) : next x ∈ a :: l := by
  have := h.next_mem_tail hx
  rw [List.tail_cons, List.mem_append, List.mem_singleton] at this
  exact List.mem_cons.mpr this.symm

theorem Path.next_inj (h : Path next l e) (hnodup : (l.tail ++ [e]).Nodup) {x y : α} (hx : x ∈ l)
    (hy : y ∈ l) (heq : next x = next y)
    : x = y := by
  induction l with
  | nil => cases hx
  | cons a l ih =>
    rw [List.tail_cons] at hnodup
    cases l with
    | nil => rw [List.mem_singleton.mp hx, List.mem_singleton.mp hy]
    | cons b l =>
      -- the successor of `a` is `b`, which is no successor of the other nodes
      have hnot : ∀ {z}, z ∈ b :: l → next z ≠ next a := by
        intro z hz hza
        have := h.2.next_mem_tail hz
        rw [hza, h.1] at this
        exact (List.nodup_cons.mp hnodup).1 this
      rcases List.mem_cons.mp hx with hxa | hxl
      . rcases List.mem_cons.mp hy with hya | hyl
        . rw [hxa, hya]
        . rw [hxa] at heq
          exact absurd heq.symm (hnot hyl)
      . rcases List.mem_cons.mp hy with hya | hyl
        . rw [hya] at heq
          exact absurd heq (hnot hxl)
        . exact ih h.2 (List.nodup_cons.mp hnodup).2 hxl hyl

theorem Path.pred_unique (h : Path next (a :: l) a) (hnodup : (a :: l).Nodup) {x y : α}
    (hx : x ∈ a :: l) (hy : y ∈ a :: l) (heq : next x = next y)
    : x = y := by
  apply h.next_inj _ hx hy heq
  exact (List.perm_append_singleton a l).nodup_iff.mpr hnodup

def find (next : α → α) (stop : α → Bool) (fuel : Nat) (a : α) : Option α :=
  match fuel with
  | 0 => none
  | fuel + 1 => if stop a then some a else find next stop fuel (next a)

theorem Path.find_eq {stop : α → Bool} {fuel : Nat} (h : Path next (a :: l) e) (hb : b ∈ a :: l)
    (hstop : ∀ x ∈ a :: l, stop x = true ↔ x = b) (hfuel : (a :: l).length ≤ fuel)
    : find next stop fuel a = some b := by
  induction l generalizing a fuel with
  | nil =>
    rcases Nat.exists_eq_add_one_of_ne_zero (Nat.ne_of_gt hfuel) with ⟨k, rfl⟩
    have hab := List.mem_singleton.mp hb
    rw [find, if_pos ((hstop a List.mem_cons_self).mpr hab.symm), hab]
  | cons c l ih =>
    rcases Nat.exists_eq_add_one_of_ne_zero (Nat.ne_zero_of_lt hfuel) with ⟨k, rfl⟩
    rw [find]
    split
    next hs => rw [(hstop a List.mem_cons_self).mp hs]
    next hs =>
      rw [h.1]
      apply ih h.2 _ (fun x hx => hstop x (List.mem_cons_of_mem a hx)) (Nat.le_of_succ_le_succ hfuel)
      apply List.mem_of_ne_of_mem _ hb
      rintro rfl
      exact hs ((hstop b List.mem_cons_self).mpr rfl)

theorem Path.find_circle {stop : α → Bool} {fuel : Nat} (h : Path next (a :: l) a) (hx : x ∈ a :: l)
    (hb : b ∈ a :: l) (hstop : ∀ x ∈ a :: l, stop x = true ↔ x = b) (hfuel : (a :: l).length ≤ fuel)
    : find next stop fuel x = some b := by
  rcases h.exists_rotate hx with ⟨l', h', hperm⟩
  apply h'.find_eq (hperm.mem_iff.mpr hb)
  . intro y hy
    exact hstop y (hperm.mem_iff.mp hy)
  . rw [hperm.length_eq]
    exact hfuel

end Circle
