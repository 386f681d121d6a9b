import Mathlib.Logic.Function.Basic

/-!
Finite maps that are kept as tables of slots. A slot is empty or holds a key with its
value, a key is looked up by a scan from the first slot on, and a new key goes into the first empty slot.
-/

namespace Xv6
namespace Slots

variable {K V : Type} {t : Nat → Option (K × V)} {k : K} {v : V} {a j m : Nat}

def Distinct (t : Nat → Option (K × V)) : Prop :=
  ∀ ⦃a b k v w⦄, t a = some (k, v) → t b = some (k, w) → a = b

def Ends (t : Nat → Option (K × V)) (m : Nat) : Prop :=
  ∀ a, m ≤ a → t a = none

def find [DecidableEq K] (t : Nat → Option (K × V)) (k : K) (j m : Nat) : Option (Nat × V) :=
  match m with
  | 0 => none
  | m + 1 =>
    match t j with
    | none => find t k (j + 1) m
    | some (k', v) => if k = k' then some (j, v) else find t k (j + 1) m

def free (t : Nat → Option (K × V)) (j m : Nat) : Nat :=
  match m with
  | 0 => j
  | m + 1 => if (t j).isNone then j else free t (j + 1) m

theorem Ends.lt (h : Ends t m) (ha : t a = some (k, v)) : a < m := by
  apply Nat.lt_of_not_le
  intro hle
  rw [h a hle] at ha
  cases ha

theorem Distinct.empty (h : Distinct t) (a : Nat) : Distinct (Function.update t a none) := by
  intro b c k v w hb hc
  by_cases hba : b = a
  . rw [hba, Function.update_self] at hb
    cases hb
  by_cases hca : c = a
  . rw [hca, Function.update_self] at hc
    cases hc
  rw [Function.update_of_ne hba] at hb
  rw [Function.update_of_ne hca] at hc
  exact h hb hc

theorem Distinct.fill (h : Distinct t) (hk : ∀ b w, t b ≠ some (k, w)) (a : Nat) (v : V)
    : Distinct (Function.update t a (some (k, v))) := by
  intro b c k' v' w hb hc
  by_cases hba : b = a
  . by_cases hca : c = a
    . rw [hba, hca]
    . rw [hba, Function.update_self] at hb
      rw [Function.update_of_ne hca] at hc
      cases hb
      exact absurd hc (hk c w)
  . rw [Function.update_of_ne hba] at hb
    by_cases hca : c = a
    . rw [hca, Function.update_self] at hc
      cases hc
      exact absurd hb (hk b v')
    . rw [Function.update_of_ne hca] at hc
      exact h hb hc

variable [DecidableEq K]

section
variable (hd : Distinct t)
include hd

end

end Slots
end Xv6
