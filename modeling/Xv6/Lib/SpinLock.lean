import Mathlib.Data.Fintype.Basic
import Mathlib.Logic.Function.Basic
import Mathlib.Logic.Relation
import Xv6.Lib.Reach

namespace SpinLock

variable {C L P : Type}

inductive LockOp (L : Type)
  | acquire (l : L)
  | release (l : L)
  deriving DecidableEq, Repr

structure State (C L : Type) where
  owner : L → Option C
  rest : C → List (LockOp L)

structure Kernel (C L P : Type) where
  path : C → P → List (LockOp L)
  isHandler : P → Bool

inductive Act (C P : Type)
  | start (c : C) (p : P)
  | advance (c : C)
  deriving DecidableEq, Repr

namespace State

def init : State C L where
  owner := fun _ => none
  rest := fun _ => []

def Waits (s : State C L) (c d : C) : Prop :=
  ∃ l r, s.rest c = .acquire l :: r ∧ s.owner l = some d

theorem exists_waits_of_cycle {s : State C L} {c : C} (h : Relation.TransGen s.Waits c c)
    : ∃ d, s.Waits c d ∧ Relation.TransGen s.Waits d d := by
  rcases Relation.TransGen.head'_iff.mp h with ⟨d, hwaits, hback⟩
  exact ⟨d, hwaits, Relation.TransGen.tail' hback hwaits⟩

end State

def takes [DecidableEq L] (m l : L) (path : List (LockOp L)) : Bool :=
  match path with
  | [] => false
  | .acquire l' :: r => l' = m || takes m l r
  | .release l' :: r => l' ≠ l && takes m l r

def Follows [DecidableEq L] (hub : L) (held : List L) (path : List (LockOp L)) : Prop :=
  match path with
  | [] => held = []
  | .acquire l :: r => l ∉ held ∧ (∀ m ∈ held, m = hub ∨ l = hub) ∧ Follows hub (l :: held) r
  | .release l :: r => l ∈ held ∧ Follows hub (held.erase l) r

namespace Follows

variable [DecidableEq L] {hub l : L} {held : List L} {p r : List (LockOp L)}

theorem append (hp : Follows hub held p) (hr : Follows hub [] r) : Follows hub held (p ++ r) := by
  induction p generalizing held with
  | nil =>
    cases hp
    exact hr
  | cons op p ih =>
    cases op with
    | acquire l => exact ⟨hp.1, hp.2.1, ih hp.2.2⟩
    | release l => exact ⟨hp.1, ih hp.2⟩

theorem pair (hl : l ∉ held) (hhub : ∀ m ∈ held, m = hub ∨ l = hub) (hr : Follows hub held r)
    : Follows hub held (.acquire l :: .release l :: r) := by
  refine ⟨hl, hhub, List.mem_cons_self, ?_⟩
  rw [List.erase_cons_head]
  exact hr

theorem pairs (hl : l ∉ held) (hhub : ∀ m ∈ held, m = hub ∨ l = hub) (hr : Follows hub held r) (k : Nat)
    : Follows hub held ((List.replicate k [.acquire l, .release l]).flatten ++ r) := by
  induction k with
  | zero => exact hr
  | succ k ih =>
    apply pair hl hhub
    exact ih

end Follows

namespace State

variable [DecidableEq L] {s s' : State C L} {c : C} {hub : L}

def Fits (hub : L) (s : State C L) (c : C) : Prop :=
  ∃ held : List L, held.Nodup ∧ (∀ l, s.owner l = some c ↔ l ∈ held) ∧ Follows hub held (s.rest c)

theorem Fits.init (hub : L) (c : C) : Fits hub (State.init (C := C)) c := by
  refine ⟨[], List.nodup_nil, ?_, rfl⟩
  simp [State.init]

theorem Fits.not_owner (h : Fits hub s c) (hrest : s.rest c = []) (l : L) : s.owner l ≠ some c := by
  rcases h with ⟨held, _, howner, hfollows⟩
  rw [hrest] at hfollows
  cases hfollows
  simp [howner]

theorem Fits.spins (h : Fits hub s c) {l m : L} {r : List (LockOp L)}
    (hrest : s.rest c = .acquire m :: r) (hl : s.owner l = some c)
    : m ≠ l ∧ (l = hub ∨ m = hub) := by
  rcases h with ⟨held, _, howner, hfollows⟩
  rw [hrest] at hfollows
  have hmem := (howner l).mp hl
  refine ⟨?_, hfollows.2.1 l hmem⟩
  rintro rfl
  exact hfollows.1 hmem

def Nests (s : State C L) (c : C) (l m : L) : Prop :=
  s.owner l = some c ∧ takes m l (s.rest c) = true

instance [DecidableEq C] (s : State C L) (c : C) (l m : L) : Decidable (s.Nests c l m) :=
  inferInstanceAs (Decidable (_ ∧ _))

def Unopposed (s : State C L) : Prop :=
  ∀ c d l m, c ≠ d → s.Nests c l m → ¬s.Nests d m l

theorem not_cycle (hfits : ∀ c, Fits hub s c) (h : Unopposed s) (c : C)
    : ¬Relation.TransGen s.Waits c c := by
  have hholder {d : C} (hd : Relation.TransGen s.Waits d d) : s.owner hub ≠ some d := by
    intro hhub
    rcases exists_waits_of_cycle hd with ⟨e, ⟨l, r, hrest, hl⟩, he⟩
    rcases exists_waits_of_cycle he with ⟨f, ⟨m, r', hrest', hm⟩, hf⟩
    have hdl := (hfits d).spins hrest hhub
    have hel := (hfits e).spins hrest' hl
    have hmhub : m = hub := hel.2.resolve_left hdl.1
    subst hmhub
    have hne : d ≠ e := by
      rintro rfl
      rw [hrest] at hrest'
      cases hrest'
      exact hdl.1 rfl
    apply h d e m l hne
    . refine ⟨hhub, ?_⟩
      simp [hrest, takes]
    . refine ⟨hl, ?_⟩
      simp [hrest', takes]
  intro hc
  rcases exists_waits_of_cycle hc with ⟨d, ⟨l, r, hrest, hl⟩, hd⟩
  rcases exists_waits_of_cycle hd with ⟨e, ⟨m, r', hrest', hm⟩, he⟩
  rcases ((hfits d).spins hrest' hl).2 with rfl | rfl
  . exact hholder hd hl
  . exact hholder he hm

variable [DecidableEq C] {k : Kernel C L P} {a : Act C P}

inductive Taken (k : Kernel C L P) (s : State C L) : Act C P → State C L → Prop
  | start (c : C) (p : P) (hc : s.rest c = [] ∨ ∀ l, s.owner l ≠ some c)
    : Taken k s (.start c p) { s with rest := Function.update s.rest c (k.path c p ++ s.rest c) }
  | acquire (c : C) (l : L) (r : List (LockOp L)) (hrest : s.rest c = .acquire l :: r)
    (hl : s.owner l = none)
    : Taken k s (.advance c) ⟨Function.update s.owner l (some c), Function.update s.rest c r⟩
  | release (c : C) (l : L) (r : List (LockOp L)) (hrest : s.rest c = .release l :: r)
    (hl : s.owner l = some c)
    : Taken k s (.advance c) ⟨Function.update s.owner l none, Function.update s.rest c r⟩

theorem Fits.step (hpath : ∀ c p, Follows hub [] (k.path c p)) (h : ∀ c, Fits hub s c)
    (hstep : Taken k s a s') (d : C)
    : Fits hub s' d := by
  rcases h d with ⟨held, hnodup, howner, hfollows⟩
  cases hstep with
  | start c p hc =>
    have hfree : ∀ l, s.owner l ≠ some c := by
      rcases hc with hrest | hfree
      . exact (h c).not_owner hrest
      . exact hfree
    by_cases hd : d = c
    . subst hd
      refine ⟨held, hnodup, howner, ?_⟩
      have hnil : held = [] := by
        apply List.eq_nil_iff_forall_not_mem.mpr
        intro l hl
        exact hfree l ((howner l).mpr hl)
      subst hnil
      simp only [Function.update_self]
      exact (hpath d p).append hfollows
    . refine ⟨held, hnodup, howner, ?_⟩
      simp only [Function.update_of_ne hd]
      exact hfollows
  | acquire c l r hrest hl =>
    by_cases hd : d = c
    . subst hd
      rw [hrest] at hfollows
      refine ⟨l :: held, List.nodup_cons.mpr ⟨hfollows.1, hnodup⟩, ?_, ?_⟩
      . intro l'
        by_cases hl' : l' = l
        . simp [hl']
        . simp [hl', howner]
      . simp only [Function.update_self]
        exact hfollows.2.2
    . refine ⟨held, hnodup, ?_, ?_⟩
      . intro l'
        by_cases hl' : l' = l
        . subst hl'
          simp [← howner, hl, Ne.symm hd]
        . simp [hl', howner]
      . simp only [Function.update_of_ne hd]
        exact hfollows
  | release c l r hrest hl =>
    by_cases hd : d = c
    . subst hd
      rw [hrest] at hfollows
      refine ⟨held.erase l, hnodup.erase l, ?_, ?_⟩
      . intro l'
        by_cases hl' : l' = l
        . simp [hl', hnodup.mem_erase_iff]
        . simp [hl', hnodup.mem_erase_iff, howner]
      . simp only [Function.update_self]
        exact hfollows.2
    . refine ⟨held, hnodup, ?_, ?_⟩
      . intro l'
        by_cases hl' : l' = l
        . subst hl'
          simp [← howner, hl, Ne.symm hd]
        . simp [hl', howner]
      . simp only [Function.update_of_ne hd]
        exact hfollows

theorem Nests.of_step (h : ∀ c, Fits hub s c) (hstep : Taken k s a s') {d : C} {l m : L} (hnests : s'.Nests d l m)
    : s.Nests d l m ∨ ∃ r, a = .advance d ∧ s.rest d = .acquire l :: r ∧ takes m l r = true := by
  rcases hnests with ⟨howner, htakes⟩
  cases hstep with
  | start c p hc =>
    by_cases hd : d = c
    . subst hd
      rcases hc with hrest | hfree
      . exact absurd howner ((h d).not_owner hrest l)
      . exact absurd howner (hfree l)
    . simp only [Function.update_of_ne hd] at htakes
      exact .inl ⟨howner, htakes⟩
  | acquire c l' r hrest hl =>
    by_cases hd : d = c
    . subst hd
      simp only [Function.update_self] at htakes
      by_cases hll : l = l'
      . subst hll
        exact .inr ⟨r, rfl, hrest, htakes⟩
      simp only [Function.update_of_ne hll] at howner
      refine .inl ⟨howner, ?_⟩
      rw [hrest]
      simp [takes, htakes]
    . simp only [Function.update_of_ne hd] at htakes
      by_cases hll : l = l'
      . simp [hll, Ne.symm hd] at howner
      . simp only [Function.update_of_ne hll] at howner
        exact .inl ⟨howner, htakes⟩
  | release c l' r hrest hl =>
    have hll : l ≠ l' := by
      rintro rfl
      simp at howner
    simp only [Function.update_of_ne hll] at howner
    refine .inl ⟨howner, ?_⟩
    by_cases hd : d = c
    . subst hd
      simp only [Function.update_self] at htakes
      rw [hrest]
      simp [takes, htakes, Ne.symm hll]
    . simpa only [Function.update_of_ne hd] using htakes

variable [Fintype L]

def step (k : Kernel C L P) (s : State C L) (a : Act C P) : Option (State C L) :=
  match a with
  | .start c p =>
    if s.rest c = [] ∨ (k.isHandler p = true ∧ ∀ l, s.owner l ≠ some c) then
      some { s with rest := Function.update s.rest c (k.path c p ++ s.rest c) }
    else
      none
  | .advance c =>
    match s.rest c with
    | [] => none
    | .acquire l :: r =>
      if s.owner l = none then
        some ⟨Function.update s.owner l (some c), Function.update s.rest c r⟩
      else
        none
    | .release l :: r =>
      if s.owner l = some c then
        some ⟨Function.update s.owner l none, Function.update s.rest c r⟩
      else
        none

theorem taken_of_step (h : s.step k a = some s') : Taken k s a s' := by
  unfold step at h
  split at h
  . next c p =>
    split at h
    . next hc =>
      cases h
      apply Taken.start
      exact hc.imp_right And.right
    . cases h
  . next c =>
    split at h
    . cases h
    . next l r hrest =>
      split at h
      . next hl =>
        cases h
        exact .acquire c l r hrest hl
      . cases h
    . next l r hrest =>
      split at h
      . next hl =>
        cases h
        exact .release c l r hrest hl
      . cases h

structure Cautious (k : Kernel C L P) (s : State C L) (a : Act C P) (s' : State C L) : Prop where
  step : s.step k a = some s'
  unopposed : ∀ c l r, a = .advance c → s.rest c = .acquire l :: r →
    ∀ d m, d ≠ c → takes m l r = true → ¬s.Nests d m l

def cautiousStep [Fintype C] (k : Kernel C L P) (s : State C L) (a : Act C P)
    : Option (State C L) :=
  match a with
  | .start c p => s.step k (.start c p)
  | .advance c =>
    match s.rest c with
    | .acquire l :: r =>
      if ∀ d m, d ≠ c → takes m l r = true → ¬s.Nests d m l then s.step k (.advance c) else none
    | _ => s.step k (.advance c)

theorem cautious_of_cautiousStep [Fintype C] (h : s.cautiousStep k a = some s')
    : Cautious k s a s' := by
  unfold cautiousStep at h
  split at h
  . refine ⟨h, ?_⟩
    intro c l r ha
    cases ha
  . next c =>
    split at h
    . next l r hrest =>
      split at h
      . next hunopposed =>
        refine ⟨h, ?_⟩
        intro c' l' r' ha hrest'
        cases ha
        rw [hrest] at hrest'
        cases hrest'
        exact hunopposed
      . cases h
    . next hother =>
      refine ⟨h, ?_⟩
      intro c' l r ha hrest
      cases ha
      exact absurd hrest (hother l r)

theorem Unopposed.step (hfits : ∀ c, Fits hub s c) (h : Unopposed s) (hstep : Cautious k s a s')
    : Unopposed s' := by
  intro c d l m hne hc hd
  have htaken := taken_of_step hstep.step
  -- Only one of the two can have acquired its lock in this step.
  rcases hc.of_step hfits htaken with hc | ⟨r, ha, hrest, htakes⟩
  . rcases hd.of_step hfits htaken with hd | ⟨r, ha, hrest, htakes⟩
    . exact h c d l m hne hc hd
    . exact hstep.unopposed d m r ha hrest c l hne htakes hc
  . rcases hd.of_step hfits htaken with hd | ⟨_, ha', _, _⟩
    . exact hstep.unopposed c l r ha hrest d m (Ne.symm hne) htakes hd
    . rw [ha] at ha'
      cases ha'
      exact hne rfl

theorem not_cycle_of_reachable (hpath : ∀ c p, Follows hub [] (k.path c p))
    (h : Reach.Reachable init (Cautious k) s) (c : C)
    : ¬Relation.TransGen s.Waits c c := by
  have hinv : (∀ c, Fits hub s c) ∧ Unopposed s := by
    apply Reach.Reachable.induct (fun s => (∀ c, Fits hub s c) ∧ Unopposed s) _ _ h
    . refine ⟨Fits.init hub, ?_⟩
      intro c d l m _ hnests
      cases hnests.1
    . rintro s a s' _ ⟨hfits, hunopposed⟩ hstep
      exact ⟨Fits.step hpath hfits (taken_of_step hstep.step), hunopposed.step hfits hstep⟩
  exact not_cycle hinv.1 hinv.2 c

end State
end SpinLock
