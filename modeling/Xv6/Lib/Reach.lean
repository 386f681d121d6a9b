import Mathlib.Data.List.Induction
import Mathlib.Data.Nat.Init

/-!
The transition systems used for every run based statement: finite runs, the
states they reach, and the rules that lift a property of one step to all of them.
-/

namespace Reach

variable {σ α : Type} {f : σ → α → Option σ} {s s' : σ} {l : List α} {i j : Nat}

inductive Run (step : σ → α → σ → Prop) : σ → List α → σ → Prop where
  | nil (s : σ) : Run step s [] s
  | snoc {s s' s'' : σ} {l : List α} {a : α} (h : Run step s l s') (hstep : step s' a s'')
    : Run step s (l ++ [a]) s''

def Reachable (init : σ) (step : σ → α → σ → Prop) (s : σ) : Prop :=
  ∃ l, Run step init l s

variable {step step' : σ → α → σ → Prop} {init : σ}

theorem Reachable.refl : Reachable init step init :=
  ⟨[], .nil init⟩

theorem Reachable.tail {a : α} (h : Reachable init step s) (hstep : step s a s')
    : Reachable init step s' := by
  rcases h with ⟨l, hrun⟩
  exact ⟨l ++ [a], .snoc hrun hstep⟩

theorem Reachable.induct (inv : σ → Prop) (hinit : inv init)
    (hstep : ∀ s a s', Reachable init step s → inv s → step s a s' → inv s') {s : σ} (h : Reachable init step s)
    : inv s := by
  rcases h with ⟨l, hrun⟩
  induction hrun with
  | nil => exact hinit
  | snoc hrun hlast ih => exact hstep _ _ _ ⟨_, hrun⟩ ih hlast

theorem Reachable.mono {s : σ} (h : Reachable init step s) (himp : ∀ s a s', step s a s' → step' s a s')
    : Reachable init step' s := by
  apply Reachable.induct (Reachable init step') .refl _ h
  intro s a s' _ ih hs
  exact ih.tail (himp _ _ _ hs)

def exec (f : σ → α → Option σ) (s : σ) (l : List α) : Option σ :=
  match l with
  | [] => some s
  | a :: l =>
    match f s a with
    | some s' => exec f s' l
    | none => none

theorem Reachable.exec (hf : ∀ s a s', f s a = some s' → step s a s') (hs : Reachable init step s)
    (h : exec f s l = some s')
    : Reachable init step s' := by
  induction l generalizing s with
  | nil =>
    cases h
    exact hs
  | cons a l ih =>
    unfold Reach.exec at h
    split at h
    . next s1 hs1 =>
      apply ih _ h
      apply hs.tail
      apply hf
      exact hs1
    . cases h

theorem reachable_exec (hf : ∀ s a s', f s a = some s' → step s a s') (l : List α)
    : Reachable init step ((exec f init l).getD init) := by
  cases hrun : exec f init l with
  | none => exact .refl
  | some s =>
    apply Reachable.exec hf .refl
    exact hrun

theorem exists_of_exec {b : σ} (hf : ∀ s a s', f s a = some s' → step s a s')
    (l : List α) {P : σ → Bool} (h : (exec f b l).any P = true)
    : ∃ s, Reachable b step s ∧ P s = true := by
  have hreach : Reachable b step ((exec f b l).getD b) := reachable_exec hf l
  cases hrun : exec f b l with
  | none =>
    rw [hrun] at h
    cases h
  | some s =>
    rw [hrun] at h hreach
    exact ⟨s, hreach, h⟩

structure Trace (step : σ → α → σ → Prop) where
  length : Nat
  state : Nat → σ
  act : Nat → α
  next : ∀ i, i < length → step (state i) (act i) (state (i + 1))

namespace Trace

variable {tr : Trace step}

theorem induct_of_good (inv : σ → Prop) (good : α → Prop)
    (hstep : ∀ s a s', good a → inv s → step s a s' → inv s') (hij : i ≤ j)
    (hj : j ≤ tr.length) (hgood : ∀ k, i ≤ k → k < j → good (tr.act k)) (hi : inv (tr.state i))
    : inv (tr.state j) := by
  induction j, hij using Nat.le_induction with
  | base => exact hi
  | succ j hij ih =>
    apply hstep _ (tr.act j)
    . apply hgood j hij
      omega
    . apply ih
      . omega
      . intro k hik hkj
        apply hgood k hik
        omega
    . apply tr.next
      omega

theorem induct (inv : σ → Prop) (hstep : ∀ s a s', inv s → step s a s' → inv s')
    (hij : i ≤ j) (hj : j ≤ tr.length) (hi : inv (tr.state i))
    : inv (tr.state j) := by
  apply tr.induct_of_good inv (fun _ => True) _ hij hj _ hi
  . intro s a s' _ hs h
    exact hstep s a s' hs h
  . intro k _ _
    trivial

theorem reachable (himp : ∀ s a s', step s a s' → step' s a s')
    (h : Reachable init step' (tr.state 0)) {i : Nat} (hi : i ≤ tr.length)
    : Reachable init step' (tr.state i) := by
  apply tr.induct (Reachable init step') _ (Nat.zero_le i) hi h
  intro s a s' hs hstep
  apply hs.tail
  apply himp
  exact hstep

theorem exists_map {τ β : Type} [Nonempty β] {step' : τ → β → τ → Prop} {f : σ → τ}
    (h : ∀ i, i < tr.length → ∃ b, step' (f (tr.state i)) b (f (tr.state (i + 1))))
    : ∃ tr' : Trace step', tr'.length = tr.length ∧ tr'.state = fun i => f (tr.state i) := by
  choose! act hact using h
  exact ⟨⟨tr.length, fun i => f (tr.state i), act, hact⟩, rfl, rfl⟩

end Trace

theorem exists_step_of_not {P : Nat → Prop} (hij : i ≤ j) (hi : P i) (hj : ¬P j)
    : ∃ k, i ≤ k ∧ k < j ∧ P k ∧ ¬P (k + 1) := by
  induction j, hij using Nat.le_induction with
  | base => exact absurd hi hj
  | succ j hij ih =>
    by_cases hlast : P j
    . exact ⟨j, hij, by omega, hlast, hj⟩
    . rcases ih hlast with ⟨k, hik, hkj, hk⟩
      exact ⟨k, hik, by omega, hk⟩

theorem exists_last {P : Nat → Prop} {k j : Nat} (hk : P k) (hkj : k < j)
    : ∃ m, k ≤ m ∧ m < j ∧ P m ∧ ∀ l, m < l → l < j → ¬P l := by
  induction j with
  | zero => omega
  | succ j ih =>
    by_cases hj : P j
    . refine ⟨j, by omega, by omega, hj, ?_⟩
      intro l hjl hlj
      omega
    have hlt : k < j := by
      rcases Nat.eq_or_lt_of_le (Nat.le_of_lt_succ hkj) with rfl | hlt
      . exact absurd hk hj
      . exact hlt
    rcases ih hlt with ⟨m, hkm, hmj, hm, hlast⟩
    refine ⟨m, hkm, by omega, hm, ?_⟩
    intro l hml hlj
    rcases Nat.eq_or_lt_of_le (Nat.le_of_lt_succ hlj) with rfl | hlt
    . exact hj
    . exact hlast l hml hlt

theorem exec_append (h : exec f s l = some s') (l' : List α)
    : exec f s (l ++ l') = exec f s' l' := by
  induction l generalizing s with
  | nil =>
    cases h
    rfl
  | cons a l ih =>
    unfold exec at h
    split at h
    . next s1 hs1 =>
      simp only [List.cons_append, exec, hs1]
      apply ih h
    . cases h

theorem exec_take (h : exec f s l = some s') (i : Nat)
    : ∃ s1, exec f s (l.take i) = some s1 := by
  induction l generalizing s i with
  | nil =>
    rw [List.take_nil]
    exact ⟨s', h⟩
  | cons a l ih =>
    cases i with
    | zero => exact ⟨s, rfl⟩
    | succ i =>
      unfold exec at h
      split at h
      . next s1 hs1 =>
        simp only [List.take_succ_cons, exec, hs1]
        apply ih h
      . cases h

theorem Run.of_exec (hf : ∀ s a s', f s a = some s' → step s a s') (h : exec f s l = some s')
    : Run step s l s' := by
  induction l using List.reverseRecOn generalizing s' with
  | nil =>
    cases h
    exact .nil s
  | append_singleton l a ih =>
    rcases exec_take h l.length with ⟨s1, hs1⟩
    rw [List.take_left] at hs1
    rw [exec_append hs1] at h
    unfold exec at h
    split at h
    . next s2 hs2 =>
      cases h
      exact .snoc (ih hs1) (hf _ _ _ hs2)
    . cases h

def Trace.ofExec (f : σ → α → Option σ) (hf : ∀ s a s', f s a = some s' → step s a s') (s : σ)
    (l : List α) (a : α) (h : (exec f s l).isSome = true)
    : Trace step where
  length := l.length
  state := fun i => (exec f s (l.take i)).getD s
  act := fun i => l.getD i a
  next := by
    intro i hi
    rcases Option.isSome_iff_exists.mp h with ⟨s', hs'⟩
    rcases exec_take hs' i with ⟨s1, hs1⟩
    rcases exec_take hs' (i + 1) with ⟨s2, hs2⟩
    apply hf
    have hnext := exec_append hs1 [l[i]]
    rw [List.take_append_getElem hi, hs2] at hnext
    simp only [hs1, hs2, Option.getD_some, List.getD_eq_getElem?_getD, List.getElem?_eq_getElem hi]
    unfold exec at hnext
    split at hnext
    . next s3 hs3 =>
      rw [hs3]
      exact hnext.symm
    . cases hnext

def attempt {ε : Type} (f : σ → α → Option (Except ε σ)) (s : σ) (a : α) : Option σ :=
  match f s a with
  | some (.ok s') => some s'
  | _ => none

theorem of_attempt {ε : Type} {f : σ → α → Option (Except ε σ)} (s : σ) (a : α) (s' : σ)
    (h : attempt f s a = some s')
    : f s a = some (.ok s') := by
  unfold attempt at h
  split at h
  . next heq =>
    cases h
    exact heq
  . cases h

end Reach
