import Mathlib.Logic.Basic

structure Guards {P : Type} (word : Bool) (has : P → Prop) : Prop where
  set_iff : word = true ↔ ∃ p, has p
  unique : ∀ p q, has p → has q → p = q

namespace Guards

variable {P : Type} {word : Bool} {has has' : P → Prop} {p : P}

theorem keep (h : Guards word has) (hsame : ∀ q, has' q ↔ has q) : Guards word has' := by
  have heq : has' = has := funext fun q => propext (hsame q)
  rw [heq]
  exact h

theorem set_of_has (h : Guards word has) (hp : has p) : word = true :=
  h.set_iff.mpr ⟨p, hp⟩

theorem not_has (h : Guards false has) (q : P) : ¬has q := by
  intro hq
  cases h.set_of_has hq

theorem acquire (hadd : ∀ q, has' q ↔ q = p) : Guards true has' where
  set_iff := iff_of_true rfl ⟨p, (hadd p).mpr rfl⟩
  unique q r hq hr := ((hadd q).mp hq).trans ((hadd r).mp hr).symm

theorem release (hnone : ∀ q, ¬has' q) : Guards false has' where
  set_iff := iff_of_false Bool.false_ne_true (fun ⟨q, hq⟩ => hnone q hq)
  unique q _ hq := absurd hq (hnone q)

def Moves (word word' : Bool) (before after : Bool) : Prop :=
  after = before ∧ word' = word
    ∨ before = false ∧ after = true ∧ word = false ∧ word' = true
    ∨ before = true ∧ after = false ∧ word' = false

theorem step {word' : Bool} {f f' : P → Bool} (h : Guards word fun q => f q = true)
    (hother : ∀ q, q ≠ p → f' q = f q) (hmoves : Moves word word' (f p) (f' p))
    : Guards word' fun q => f' q = true := by
  rcases hmoves with ⟨hsame, rfl⟩ | ⟨-, hafter, rfl, rfl⟩ | ⟨hbefore, hafter, rfl⟩
  . apply h.keep
    intro q
    by_cases hq : q = p
    . rw [hq, hsame]
    . rw [hother q hq]
  . apply acquire (p := p)
    intro q
    by_cases hq : q = p
    . rw [hq, hafter]
      exact iff_of_true rfl rfl
    . rw [hother q hq]
      exact iff_of_false (h.not_has q) hq
  . apply release
    intro q hq
    by_cases heq : q = p
    . rw [heq, hafter] at hq
      cases hq
    . rw [hother q heq] at hq
      exact heq (h.unique q p hq hbefore)

end Guards
