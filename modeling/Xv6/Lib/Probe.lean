import Mathlib.Logic.Basic

namespace Xv6

structure Probe (A α : Type) where
  reads : List A
  value : Option α
  deriving DecidableEq, Repr

namespace Probe

variable {A α β : Type}

def ret (a : α) : Probe A α :=
  ⟨[], some a⟩

def fail : Probe A α :=
  ⟨[], none⟩

def read (l : List A) (a : α) : Probe A α :=
  ⟨l, some a⟩

def bind (x : Probe A α) (f : α → Probe A β) : Probe A β :=
  match x.value with
  | none => ⟨x.reads, none⟩
  | some a => ⟨x.reads ++ (f a).reads, (f a).value⟩

instance : Monad (Probe A) where
  pure := ret
  bind := bind

def Sat (P : A → Prop) (Q : α → Prop) (x : Probe A α) : Prop :=
  (∀ a ∈ x.reads, P a) ∧ ∀ v, x.value = some v → Q v

variable {P : A → Prop} {Q R : α → Prop} {S : β → Prop} {x : Probe A α} {f : α → Probe A β}

theorem sat_ret {a : α} (h : Q a) : Sat P Q (ret a : Probe A α) := by
  refine ⟨nofun, ?_⟩
  intro v hv
  cases hv
  exact h

theorem sat_fail : Sat P Q (fail : Probe A α) :=
  ⟨nofun, nofun⟩

theorem Sat.mono (h : Sat P Q x) (himp : ∀ a, Q a → R a) : Sat P R x :=
  ⟨h.1, fun v hv => himp v (h.2 v hv)⟩

theorem Sat.bind (h : Sat P Q x) (hf : ∀ a, Q a → Sat P S (f a)) : Sat P S (x >>= f) := by
  change Sat P S (Probe.bind x f)
  unfold Probe.bind
  cases hx : x.value with
  | none => exact ⟨h.1, nofun⟩
  | some a =>
    have hfa := hf a (h.2 a hx)
    refine ⟨?_, hfa.2⟩
    intro b hb
    rcases List.mem_append.mp hb with hb | hb
    . exact h.1 b hb
    . exact hfa.1 b hb

theorem value_bind {a : α} (hx : x.value = some a) : (x >>= f).value = (f a).value := by
  change (Probe.bind x f).value = _
  unfold Probe.bind
  rw [hx]

end Probe
end Xv6
