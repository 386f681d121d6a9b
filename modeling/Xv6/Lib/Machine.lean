import Mathlib.Logic.Function.Basic

namespace Machine

variable {σ τ α β : Type}

def final (step : σ → α → σ × β) (s : σ) : List α → σ
  | [] => s
  | a :: l => final step (step s a).1 l

def outputs (step : σ → α → σ × β) (s : σ) : List α → List β
  | [] => []
  | a :: l => (step s a).2 :: outputs step (step s a).1 l

def Bisim (R : σ → τ → Prop) (step : σ → α → σ × β) (step' : τ → α → τ × β) : Prop :=
  ∀ s t a, R s t → R (step s a).1 (step' t a).1 ∧ (step s a).2 = (step' t a).2

variable {R : σ → τ → Prop} {step : σ → α → σ × β} {step' : τ → α → τ × β}

theorem Bisim.final (h : Bisim R step step') {s : σ} {t : τ} (hR : R s t) (l : List α)
    : R (final step s l) (final step' t l) := by
  induction l generalizing s t with
  | nil => exact hR
  | cons a l ih => exact ih (h s t a hR).1

theorem Bisim.outputs (h : Bisim R step step') {s : σ} {t : τ} (hR : R s t) (l : List α)
    : outputs step s l = outputs step' t l := by
  induction l generalizing s t with
  | nil => rfl
  | cons a l ih =>
    rcases h s t a hR with ⟨hnext, hout⟩
    rw [Machine.outputs, Machine.outputs, hout, ih hnext]

end Machine
