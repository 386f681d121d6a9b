import Mathlib.Logic.Function.Basic

/-!
Maps that are stored as tables of two levels. A directory has the table for the first part
of a key, and the table has the value for the second part.
-/

namespace Xv6

structure TwoLevel (ι κ τ α : Type) where
  dir : ι → Option τ
  cell : τ → κ → Option α

namespace TwoLevel

variable {ι κ τ α : Type} {d : TwoLevel ι κ τ α} {i i' : ι} {j j' : κ} {t : τ}

def find (d : TwoLevel ι κ τ α) (i : ι) (j : κ) : Option α :=
  (d.dir i).bind fun t => d.cell t j

def Unshared (d : TwoLevel ι κ τ α) : Prop :=
  ∀ i i' t, d.dir i = some t → d.dir i' = some t → i = i'

theorem find_of_dir (h : d.dir i = some t) (j : κ) : d.find i j = d.cell t j := by
  unfold find
  rw [h]
  rfl

theorem find_of_dir_eq_none (h : d.dir i = none) (j : κ) : d.find i j = none := by
  unfold find
  rw [h]
  rfl

section attach

variable [DecidableEq ι] [DecidableEq τ]

def attach (d : TwoLevel ι κ τ α) (i : ι) (t : τ) : TwoLevel ι κ τ α where
  dir := Function.update d.dir i (some t)
  cell := Function.update d.cell t fun _ => none

theorem dir_attach_self (i : ι) (t : τ) : (d.attach i t).dir i = some t :=
  Function.update_self ..

theorem dir_attach_of_ne (h : i' ≠ i) (t : τ) : (d.attach i t).dir i' = d.dir i' :=
  Function.update_of_ne h ..

theorem cell_attach_self (i : ι) (t : τ) : (d.attach i t).cell t = fun _ => none := by
  exact Function.update_self ..

theorem cell_attach_of_ne {t' : τ} (h : t' ≠ t) (i : ι) : (d.attach i t).cell t' = d.cell t' := by
  exact Function.update_of_ne h ..

theorem find_attach (hi : d.dir i = none) (ht : ∀ i', d.dir i' ≠ some t) : (d.attach i t).find = d.find := by
  funext i' j
  by_cases h : i' = i
  . rw [h, find_of_dir (dir_attach_self i t), find_of_dir_eq_none hi]
    rw [cell_attach_self]
  cases ht' : d.dir i' with
  | none =>
    rw [find_of_dir_eq_none ht', find_of_dir_eq_none]
    rw [dir_attach_of_ne h, ht']
  | some t' =>
    have hne : t' ≠ t := by
      rintro rfl
      exact ht i' ht'
    rw [find_of_dir ht', find_of_dir ((dir_attach_of_ne h t).trans ht'), cell_attach_of_ne hne]

theorem Unshared.attach (h : d.Unshared) (ht : ∀ i', d.dir i' ≠ some t) : (d.attach i t).Unshared := by
  intro a b t' ha hb
  by_cases hai : a = i
  . by_cases hbi : b = i
    . rw [hai, hbi]
    . rw [hai, dir_attach_self] at ha
      rw [dir_attach_of_ne hbi, ← ha] at hb
      exact absurd hb (ht b)
  . rw [dir_attach_of_ne hai] at ha
    by_cases hbi : b = i
    . rw [hbi, dir_attach_self] at hb
      rw [← hb] at ha
      exact absurd ha (ht a)
    . rw [dir_attach_of_ne hbi] at hb
      exact h a b t' ha hb

end attach

section put

variable [DecidableEq κ] [DecidableEq τ]

def put (d : TwoLevel ι κ τ α) (t : τ) (j : κ) (a : α) : TwoLevel ι κ τ α where
  dir := d.dir
  cell := Function.update d.cell t (Function.update (d.cell t) j (some a))

theorem cell_put_self (t : τ) (j : κ) (a : α)
    : (d.put t j a).cell t = Function.update (d.cell t) j (some a) := by
  exact Function.update_self ..

theorem cell_put_of_ne {t' : τ} (h : t' ≠ t) (j : κ) (a : α) : (d.put t j a).cell t' = d.cell t' := by
  exact Function.update_of_ne h ..

theorem find_put_self (h : d.dir i = some t) (j : κ) (a : α) : (d.put t j a).find i j = some a := by
  rw [find_of_dir (d := d.put t j a) h, cell_put_self, Function.update_self]

theorem find_put_of_ne (hd : d.Unshared) (h : d.dir i = some t) (hne : ¬(i' = i ∧ j' = j)) (a : α)
    : (d.put t j a).find i' j' = d.find i' j' := by
  cases ht' : d.dir i' with
  | none => rw [find_of_dir_eq_none ht', find_of_dir_eq_none (d := d.put t j a) ht']
  | some t' =>
    rw [find_of_dir ht', find_of_dir (d := d.put t j a) ht']
    by_cases htt : t' = t
    . rw [htt] at ht' ⊢
      have hj : j' ≠ j := fun hj => hne ⟨hd i' i t ht' h, hj⟩
      rw [cell_put_self, Function.update_of_ne hj]
    . rw [cell_put_of_ne htt]

end put

end TwoLevel
end Xv6
