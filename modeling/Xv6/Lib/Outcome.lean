import Mathlib.Data.List.Basic

/-!
A small program logic for computations in `Except ε`: a postcondition for the
value, a condition on the error, and the rules for sequencing and for loops over a list.
-/

namespace Outcome

variable {ε α β : Type}

def Sat (E : ε → Prop) (Q : α → Prop) (x : Except ε α) : Prop :=
  match x with
  | .ok a => Q a
  | .error e => E e

instance {E : ε → Prop} {Q : α → Prop} [DecidablePred E] [DecidablePred Q] (x : Except ε α)
    : Decidable (Sat E Q x) :=
  match x with
  | .ok a => inferInstanceAs (Decidable (Q a))
  | .error e => inferInstanceAs (Decidable (E e))

@[simp]
theorem sat_ok {E : ε → Prop} {Q : α → Prop} {a : α} : Sat E Q (.ok a) ↔ Q a := by
  rfl

@[simp]
theorem sat_error {E : ε → Prop} {Q : α → Prop} {e : ε} : Sat E Q (.error e : Except ε α) ↔ E e := by
  rfl

@[simp]
theorem sat_pure {E : ε → Prop} {Q : α → Prop} {a : α}
    : Sat E Q (pure a : Except ε α) ↔ Q a := by
  rfl

theorem Sat.of_ok {E : ε → Prop} {Q : α → Prop} {x : Except ε α} {a : α} (h : Sat E Q x) (hx : x = .ok a)
    : Q a := by
  rw [hx] at h
  exact h

theorem Sat.of_error {E : ε → Prop} {Q : α → Prop} {x : Except ε α} {e : ε} (h : Sat E Q x) (hx : x = .error e)
    : E e := by
  rw [hx] at h
  exact h

theorem Sat.of_exists {E : ε → Prop} {Q : α → Prop} {x : Except ε α} (h : ∃ a, x = .ok a ∧ Q a)
    : Sat E Q x := by
  rcases h with ⟨a, hx, ha⟩
  rw [hx]
  exact ha

theorem Sat.mono {E E' : ε → Prop} {Q Q' : α → Prop} {x : Except ε α} (h : Sat E Q x)
    (hE : ∀ e, E e → E' e) (hQ : ∀ a, Q a → Q' a)
    : Sat E' Q' x := by
  cases x with
  | ok a => exact hQ a h
  | error e => exact hE e h

theorem Sat.bind {E : ε → Prop} {P : α → Prop} {Q : β → Prop} {x : Except ε α}
    {f : α → Except ε β} (hx : Sat E P x) (hf : ∀ a, P a → Sat E Q (f a))
    : Sat E Q (x >>= f) := by
  cases x with
  | ok a => exact hf a hx
  | error e => exact hx

theorem Sat.and {E E' : ε → Prop} {P Q : α → Prop} {x : Except ε α} (h : Sat E P x) (h' : Sat E' Q x)
    : Sat E (fun a => P a ∧ Q a) x := by
  cases x with
  | ok a => exact ⟨h, h'⟩
  | error e => exact h

theorem Sat.map {E : ε → Prop} {Q : β → Prop} {x : Except ε α} (f : α → β)
    (h : Sat E (fun a => Q (f a)) x)
    : Sat E Q (x.map f) := by
  cases x with
  | error e => exact h
  | ok a => exact h

theorem Sat.foldlM {E : ε → Prop} {f : β → α → Except ε β} (inv : List α → β → Prop)
    (todo : List α) (done : List α) (b : β) (h : inv done b)
    (hstep : ∀ pre a post b, done ++ todo = pre ++ a :: post → inv pre b → Sat E (inv (pre ++ [a])) (f b a))
    : Sat E (inv (done ++ todo)) (todo.foldlM f b) := by
  induction todo generalizing done b with
  | nil =>
    rw [List.append_nil]
    exact h
  | cons a rest ih =>
    rw [List.foldlM_cons]
    apply Sat.bind (hstep done a rest b rfl h)
    intro b' hb'
    have := ih (done ++ [a]) b' hb'
    simp only [List.append_assoc, List.singleton_append] at this
    exact this hstep

theorem Sat.foldlM_const {E : ε → Prop} {f : β → α → Except ε β} {I : β → Prop} {l : List α} {b : β}
    (h : I b) (hstep : ∀ a b, a ∈ l → I b → Sat E I (f b a))
    : Sat E I (l.foldlM f b) := by
  apply Sat.foldlM (fun _ => I) l [] b h
  intro pre a post b heq hb
  apply hstep a b _ hb
  rw [List.nil_append] at heq
  simp [heq]

def loop {γ : Type} (stuck : ε) (body : β → Except ε (β ⊕ γ)) (fuel : Nat) (b : β) : Except ε γ :=
  match fuel with
  | 0 => .error stuck
  | fuel + 1 => do
    match ← body b with
    | .inl b => loop stuck body fuel b
    | .inr c => return c

theorem Sat.loop {γ : Type} {E : ε → Prop} {Q : γ → Prop} {stuck : ε} {body : β → Except ε (β ⊕ γ)}
    (inv : β → Prop) (μ : β → Nat)
    (hbody : ∀ b, inv b → Sat E (Sum.elim (fun b' => inv b' ∧ μ b' < μ b) Q) (body b)) {fuel : Nat}
    {b : β} (h : inv b) (hfuel : μ b < fuel)
    : Sat E Q (loop stuck body fuel b) := by
  induction fuel generalizing b with
  | zero => cases hfuel
  | succ fuel ih =>
    apply Sat.bind (hbody b h)
    intro r hr
    cases r with
    | inl b' => exact ih hr.1 (Nat.lt_of_lt_of_le hr.2 (Nat.le_of_lt_succ hfuel))
    | inr c => exact hr

theorem Sat.loop_inv {γ : Type} {E : ε → Prop} {Q : γ → Prop} {stuck : ε}
    {body : β → Except ε (β ⊕ γ)} (inv : β → Prop) (hstuck : E stuck)
    (hbody : ∀ b, inv b → Sat E (Sum.elim inv Q) (body b)) {fuel : Nat} {b : β} (h : inv b)
    : Sat E Q (Outcome.loop stuck body fuel b) := by
  induction fuel generalizing b with
  | zero => exact hstuck
  | succ fuel ih =>
    apply Sat.bind (hbody b h)
    intro r hr
    cases r with
    | inl b' => exact ih hr
    | inr c => exact hr

theorem bind_eq_ok {x : Except ε α} {f : α → Except ε β} {b : β}
    : x >>= f = .ok b ↔ ∃ a, x = .ok a ∧ f a = .ok b := by
  cases x with
  | ok a => simp [bind, Except.bind]
  | error e => simp [bind, Except.bind]

end Outcome
