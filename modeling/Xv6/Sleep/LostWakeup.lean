import Xv6.Sleep.Lemmas

namespace Xv6.Sleep

open Reach

variable {n : Nat} {M χ L : Type} {mon : Monitor M χ L} {cond : M → Bool}

namespace Thread

structure Settled (mon : Monitor M χ L) (c : χ) (t : Thread M χ) : Prop where
  early : ¬t.pc.Early mon c
  late : ¬t.pc.Late mon c
  awake : ¬t.SleepingOn c

variable {c : χ} {t t' : Thread M χ} {e : LockEffect L}

theorem Step.early (h : t.Step mon false e t') (ht : t'.pc.Early mon c) : t.pc.Early mon c := by
  cases h with
  | stay | woken | running => exact ht
  | sleepAcquire m h =>
    rw [h]
    exact ht
  | wakeupRelease ret c h =>
    cases ret
    all_goals cases ht
  | _ => cases ht

theorem Step.late (h : t.Step mon false e t') (ht : t'.pc.Late mon c)
    : t.pc.Early mon c ∨ t.pc.Late mon c := by
  cases h with
  | stay | woken | running => exact .inr ht
  | sleepRelease m h =>
    rw [h]
    exact .inl ht
  | sleepChan m h | sleepState m h =>
    rw [h]
    exact .inr ht
  | wakeupRelease ret c h =>
    cases ret
    all_goals cases ht
  | _ => cases ht

theorem Step.sleepingOn {tested : Bool} (hok : t.Ok mon) (h : t.Step mon tested e t') (ht : t'.SleepingOn c)
    : t.pc.Late mon c ∨ t.SleepingOn c := by
  unfold Ok at hok
  cases h with
  | woken | running | dispatch => cases ht.1
  | tidyUp | tidyUpPtable => cases ht.2
  | sleepChan m h =>
    rw [h] at hok
    exact absurd ht.1 hok
  | sleepState m h =>
    rw [h] at hok ⊢
    exact .inl (Option.some.inj (hok.2.symm.trans ht.2))
  | _ => exact .inr ht

theorem Step.settled (hok : t.Ok mon) (h : t.Step mon false e t') (ht : t.Settled mon c)
    : t'.Settled mon c where
  early := fun h' => ht.early (h.early h')
  late := by
    intro h'
    rcases h.late h' with h' | h'
    . exact ht.early h'
    . exact ht.late h'
  awake := by
    intro h'
    rcases h.sleepingOn hok h' with h' | h'
    . exact ht.late h'
    . exact ht.awake h'

theorem Step.wakeupAcquire_cases {tested : Bool} {ret : Ret M} (hpc : t.pc = .wakeupAcquire ret c)
    (h : t.Step mon tested e t')
    : t'.pc = .wakeupAcquire ret c ∨ t'.pc = .wakeup1 ret c 0 ∧ e = .acquire .ptable := by
  cases h with
  | stay | woken | running => exact .inl hpc
  | wakeupAcquire ret' c' h =>
    cases hpc.symm.trans h
    exact .inr ⟨rfl, rfl⟩
  | wakeup ret' c' h _ =>
    cases ret'
    all_goals cases hpc.symm.trans h
  | enter m h | leave m h | test m h _ | testPtable m h _ | callWakeup1 m _ h _ | sleepAcquire m h
  | sleepRelease m h | sleepChan m h | sleepState m h | sleepSched m h | dispatch m h | tidyUp m h _
  | tidyUpPtable m h _ | sleepUnlock m h | sleepRelock m h | wakeup1 _ _ _ h | wakeup1Done _ _ _ h _
  | wakeup1Ret _ _ _ h _ | wakeupRelease _ _ h => cases hpc.symm.trans h

end Thread

namespace State

structure Inv (mon : Monitor M χ L) (s : State n M χ L) : Prop where
  ok : ∀ p, (s.thread p).Ok mon
  locked : ∀ p l, (s.thread p).pc.Holds mon l → s.locked l = true
  excl : ∀ p q l, (s.thread p).pc.Holds mon l → (s.thread q).pc.Holds mon l → p = q

theorem inv_init (cond : M → Bool) : (init cond : State n M χ L).Inv mon where
  ok := by
    intro p h
    cases h
  locked := by
    intro p l h
    cases h
  excl := by
    intro p q l h
    cases h

section

variable [DecidableEq L] {s s' : State n M χ L} {a : Act n M χ} {p : Fin n} {e : LockEffect L}

theorem Moves.pc_of_ne (h : Moves mon s s' a p e) {q : Fin n} (hq : q ≠ p)
    : (s'.thread q).pc = (s.thread q).pc :=
  (h.others q hq).1.pc

theorem Moves.thread (h : Moves mon s s' a p e) (q : Fin n)
    : ∃ e', (s.thread q).Step mon (a.isTest q) e' (s'.thread q) := by
  by_cases hq : q = p
  . rw [hq]
    exact ⟨e, h.step⟩
  . rw [(h.others q hq).2]
    exact ⟨.keep, (h.others q hq).1.step⟩

theorem Inv.locked_others (hinv : s.Inv mon) (h : Moves mon s s' a p e) {q : Fin n} (hq : q ≠ p)
    {l : Lock L} (hl : (s.thread q).pc.Holds mon l)
    : s'.locked l = true ∧ ¬(s'.thread p).pc.Holds mon l := by
  have hlocked := hinv.locked q l hl
  have hfree : ¬(s.thread p).pc.Holds mon l := fun hp => hq (hinv.excl q p l hl hp)
  have hframe := h.step.frame (hinv.ok p)
  have hlocks := h.locks
  cases e with
  | keep =>
    rw [hlocks]
    exact ⟨hlocked, fun h' => hfree (hframe l h')⟩
  | acquire k =>
    have hne : l ≠ k := by
      intro heq
      rw [heq, hlocks.1] at hlocked
      cases hlocked
    rw [hlocks.2]
    dsimp only
    rw [if_neg hne]
    exact ⟨hlocked, fun h' => (hframe l h').elim hne hfree⟩
  | release k =>
    have hne : l ≠ k := by
      intro heq
      rw [heq] at hfree
      exact hfree hframe.1
    rw [hlocks]
    dsimp only
    rw [if_neg hne]
    exact ⟨hlocked, fun h' => hfree (hframe.2 l h').2⟩

theorem Inv.locked_self (hinv : s.Inv mon) (h : Moves mon s s' a p e) {l : Lock L}
    (hl : (s'.thread p).pc.Holds mon l)
    : s'.locked l = true := by
  have hframe := h.step.frame (hinv.ok p)
  have hlocks := h.locks
  cases e with
  | keep =>
    rw [hlocks]
    apply hinv.locked p
    apply hframe
    exact hl
  | acquire k =>
    rw [hlocks.2]
    dsimp only
    split
    . rfl
    . next hne => exact hinv.locked p l ((hframe l hl).resolve_left hne)
  | release k =>
    rw [hlocks]
    dsimp only
    rw [if_neg (hframe.2 l hl).1]
    exact hinv.locked p l (hframe.2 l hl).2

theorem Inv.step (hinv : s.Inv mon) (h : Moves mon s s' a p e) : s'.Inv mon where
  ok := by
    intro q
    rcases h.thread q with ⟨_, hq⟩
    exact (hinv.ok q).step hq
  locked := by
    intro q l hl
    by_cases hq : q = p
    . rw [hq] at hl
      exact hinv.locked_self h hl
    . rw [h.pc_of_ne hq] at hl
      exact (hinv.locked_others h hq hl).1
  excl := by
    intro q r l hql hrl
    by_cases hq : q = p
    . by_cases hr : r = p
      . rw [hq, hr]
      . rw [h.pc_of_ne hr] at hrl
        rw [hq] at hql
        exact absurd hql (hinv.locked_others h hr hrl).2
    . rw [h.pc_of_ne hq] at hql
      by_cases hr : r = p
      . rw [hr] at hrl
        exact absurd hrl (hinv.locked_others h hq hql).2
      . rw [h.pc_of_ne hr] at hrl
        exact hinv.excl q r l hql hrl

end

theorem Inv.holder_of_crit {s : State n M χ L} (hinv : s.Inv mon) {p : Fin n} {m : M}
    (hpc : (s.thread p).pc = .crit m)
    : s.locked (mon.lock m) = true ∧ ∀ q, (s.thread q).pc.Holds mon (mon.lock m) ↔ q = p := by
  have hp : (s.thread p).pc.Holds mon (mon.lock m) := by
    rw [hpc]
    rfl
  refine ⟨hinv.locked p _ hp, ?_⟩
  intro q
  constructor
  . intro hq
    exact hinv.excl q p _ hq hp
  . intro hq
    rw [hq]
    exact hp

theorem Inv.not_early_of_crit {s : State n M χ L} (hinv : s.Inv mon) {w : Fin n} {m : M}
    (hcrit : (s.thread w).pc = .crit m) (p : Fin n)
    : ¬(s.thread p).pc.Early mon (mon.chan m) := by
  intro hearly
  have hw : (s.thread w).pc.Holds mon (mon.lk (mon.chan m)) := by
    rw [hcrit]
    rfl
  have hp := hinv.excl p w _ hearly.holds hw
  rw [hp, hcrit] at hearly
  exact hearly

inductive Progress (mon : Monitor M χ L) (c : χ) (w p : Fin n) (s : State n M χ L) : Prop
  | waiting (ret : Ret M) (hpc : (s.thread w).pc = .wakeupAcquire ret c)
      (hearly : ¬(s.thread p).pc.Early mon c)
  | looping (ret : Ret M) (i : Nat) (hpc : (s.thread w).pc = .wakeup1 ret c i)
      (hearly : ¬(s.thread p).pc.Early mon c) (hlate : ¬(s.thread p).pc.Late mon c)
      (hawake : p < i → ¬(s.thread p).SleepingOn c)
  | settled (h : (s.thread p).Settled mon c)

theorem Progress.settled_of_returned {s : State n M χ L} {c : χ} {w p : Fin n} (hs : Progress mon c w p s)
    (hw : (s.thread w).pc.inWakeup = false)
    : (s.thread p).Settled mon c := by
  cases hs with
  | waiting ret hpc =>
    rw [hpc] at hw
    cases hw
  | looping ret i hpc =>
    rw [hpc] at hw
    cases hw
  | settled h => exact h

theorem thread_setPc_self (s : State n M χ L) (p : Fin n) (pc : Pc M χ)
    : ((s.setPc p pc).thread p).pc = pc := by
  simp [setPc, setThread]

section

variable [DecidableEq M] [DecidableEq χ] [DecidableEq L] {s s' : State n M χ L} {a : Act n M χ} {c : χ}
  {w p : Fin n}

theorem Inv.steps (hinv : s.Inv mon) (h : Steps mon s a s') : s'.Inv mon := by
  rcases h.moves with ⟨e, hmoves⟩
  exact hinv.step hmoves

theorem Steps.thread (h : Steps mon s a s') (hp : a.isTest p = false)
    : ∃ e, (s.thread p).Step mon false e (s'.thread p) := by
  rcases h.moves with ⟨_, hmoves⟩
  rw [← hp]
  exact hmoves.thread p

theorem Steps.settled (hinv : s.Inv mon) (h : Steps mon s a s') (hp : a.isTest p = false)
    (hs : (s.thread p).Settled mon c)
    : (s'.thread p).Settled mon c := by
  rcases h.thread hp with ⟨e, hstep⟩
  exact hstep.settled (hinv.ok p) hs

theorem Progress.waiting_step (hinv : s.Inv mon) (h : Steps mon s a s') (hp : a.isTest p = false)
    {ret : Ret M} (hpc : (s.thread w).pc = .wakeupAcquire ret c) (hearly : ¬(s.thread p).pc.Early mon c)
    : Progress mon c w p s' := by
  rcases h.moves with ⟨e, hmoves⟩
  rcases h.thread hp with ⟨e', hstep⟩
  have hearly' : ¬(s'.thread p).pc.Early mon c := fun h' => hearly (hstep.early h')
  by_cases hw : w = a.proc
  . rw [hw] at hpc
    rcases hmoves.step.wakeupAcquire_cases hpc with hpc' | ⟨hpc', he⟩
    . rw [← hw] at hpc'
      exact .waiting ret hpc' hearly'
    . rw [← hw] at hpc'
      apply Progress.looping ret 0 hpc' hearly'
      . -- A process that holds `ptable.lock` keeps `w` from acquiring it.
        intro hlate
        have hlocks := hmoves.locks
        rw [he] at hlocks
        have hlate := (hstep.late hlate).resolve_left hearly
        have hlocked := hinv.locked p _ hlate.holds
        rw [hlocks.1] at hlocked
        cases hlocked
      . intro hlt
        exact absurd hlt (Nat.not_lt_zero _)
  . rw [← hmoves.pc_of_ne hw] at hpc
    exact .waiting ret hpc hearly'

theorem Progress.step (hinv : s.Inv mon) (h : Steps mon s a s') (hp : a.isTest p = false)
    (hs : Progress mon c w p s)
    : Progress mon c w p s' := by
  rcases h.thread hp with ⟨e, hstep⟩
  cases hs with
  | waiting ret hpc hearly => exact Progress.waiting_step hinv h hp hpc hearly
  | settled hs => exact .settled (h.settled hinv hp hs)
  | looping ret i hpc hearly hlate hawake =>
    have hearly' : ¬(s'.thread p).pc.Early mon c := fun h' => hearly (hstep.early h')
    have hlate' : ¬(s'.thread p).pc.Late mon c := fun h' => (hstep.late h').elim hearly hlate
    have hawake' : p < i → ¬(s'.thread p).SleepingOn c :=
      fun hlt h' => (hstep.sleepingOn (hinv.ok p) h').elim hlate (hawake hlt)
    rcases h.wakeup1_cases hpc with hpc' | hdone | ⟨hpc', hround⟩
    . exact .looping ret i hpc' hearly' hlate' hawake'
    . exact .settled ⟨hearly', hlate', hawake' (Nat.lt_of_lt_of_le p.isLt hdone)⟩
    . apply Progress.looping ret (i + 1) hpc' hearly' hlate'
      intro hlt
      rcases Nat.lt_or_eq_of_le (Nat.le_of_lt_succ hlt) with hlt | heq
      . exact hawake' hlt
      . exact hround p heq

structure Wakes (tr : Trace (Steps (n := n) mon)) (m : M) (w : Fin n) (i j k : Nat) : Prop where
  set_lt_call : i < j
  call_lt_return : j < k
  le_length : k ≤ tr.length
  crit : ((tr.state i).thread w).pc = .crit m
  set : tr.act i = .set w true
  call : tr.act j = .wakeup w (mon.chan m) ∨ tr.act j = .wakeup1 w (mon.chan m)
  returned : ((tr.state k).thread w).pc.inWakeup = false

variable {tr : Trace (Steps (n := n) mon)} {m : M} {i j k l : Nat}

theorem inv_of_trace (hinit : tr.state 0 = init cond) (hi : i ≤ tr.length)
    : (tr.state i).Inv mon := by
  apply tr.induct (Inv mon) _ (Nat.zero_le i) hi
  . rw [hinit]
    exact inv_init cond
  . intro s a s' hinv h
    exact hinv.steps h

theorem Progress.of_wakeup (hearly : ¬(s.thread p).pc.Early mon c) (h : Steps mon s (.wakeup w c) s')
    : Progress mon c w p s' := by
  rcases h.thread (p := p) rfl with ⟨e, hstep⟩
  have hearly' : ¬(s'.thread p).pc.Early mon c := fun h' => hearly (hstep.early h')
  have h := (onCpu_eq_some h).2
  unfold wakeup at h
  split at h
  . cases h
    exact .waiting .out (thread_setPc_self _ _ _) hearly'
  . next m hpc =>
    split at h
    . cases h
    . cases h
      exact .waiting (.crit m) (thread_setPc_self _ _ _) hearly'
  . cases h

theorem Progress.of_wakeup1 (hinv : s.Inv mon) (hearly : ¬(s.thread p).pc.Early mon c)
    (h : Steps mon s (.wakeup1 w c) s')
    : Progress mon c w p s' := by
  rcases h.thread (p := p) rfl with ⟨e, hstep⟩
  have hearly' : ¬(s'.thread p).pc.Early mon c := fun h' => hearly (hstep.early h')
  have h := (onCpu_eq_some h).2
  unfold wakeup1 at h
  split at h
  . next m hpc =>
    split at h
    . next hlk =>
      cases h
      apply Progress.looping (.crit m) 0 (thread_setPc_self _ _ _) hearly'
      . -- `w` holds `ptable.lock`, so that nobody else does.
        intro hlate
        have hlate := (hstep.late hlate).resolve_left hearly
        have hw : (s.thread w).pc.Holds mon .ptable := by
          rw [hpc]
          exact hlk.symm
        rw [hinv.excl p w _ hlate.holds hw, hpc] at hlate
        exact hlate
      . intro hlt
        exact absurd hlt (Nat.not_lt_zero _)
    . cases h
  . cases h

theorem Wakes.settled (hinit : tr.state 0 = init cond)
    (h : Wakes tr m w i j k) (hkl : k ≤ l) (hl : l ≤ tr.length)
    (htest : ∀ t, i ≤ t → t < l → (tr.act t).isTest p = false)
    : ((tr.state l).thread p).Settled mon (mon.chan m) := by
  have hij := h.set_lt_call
  have hjk := h.call_lt_return
  have hk := h.le_length
  -- When the condition becomes true, `p` has released `lk`, and it does not come back to it.
  have hearly : (tr.state j).Inv mon ∧ ¬((tr.state j).thread p).pc.Early mon (mon.chan m) := by
    apply tr.induct_of_good
      (fun s => s.Inv mon ∧ ¬(s.thread p).pc.Early mon (mon.chan m)) (fun a => a.isTest p = false) _
      (Nat.le_of_lt hij) (by omega)
    . intro t hit htj
      exact htest t hit (by omega)
    . have hinv : (tr.state i).Inv mon := inv_of_trace hinit (by omega)
      exact ⟨hinv, hinv.not_early_of_crit h.crit p⟩
    . intro s a s' ha hs hstep
      rcases hstep.thread ha with ⟨e, hp⟩
      exact ⟨hs.1.steps hstep, fun h' => hs.2 (hp.early h')⟩
  have hcall : Progress mon (mon.chan m) w p (tr.state (j + 1)) := by
    have hstep := tr.next j (by omega)
    rcases h.call with hact | hact
    . rw [hact] at hstep
      exact Progress.of_wakeup hearly.2 hstep
    . rw [hact] at hstep
      exact Progress.of_wakeup1 hearly.1 hearly.2 hstep
  have hreturn : (tr.state k).Inv mon ∧ Progress mon (mon.chan m) w p (tr.state k) := by
    apply tr.induct_of_good (fun s => s.Inv mon ∧ Progress mon (mon.chan m) w p s)
      (fun a => a.isTest p = false) _ (show j + 1 ≤ k by omega) (by omega)
    . intro t hjt htk
      exact htest t (by omega) (by omega)
    . exact ⟨inv_of_trace hinit (by omega), hcall⟩
    . intro s a s' ha hs hstep
      exact ⟨hs.1.steps hstep, hs.2.step hs.1 hstep ha⟩
  have hend : (tr.state l).Inv mon ∧ ((tr.state l).thread p).Settled mon (mon.chan m) := by
    apply tr.induct_of_good (fun s => s.Inv mon ∧ (s.thread p).Settled mon (mon.chan m))
      (fun a => a.isTest p = false) _ hkl hl
    . intro t hkt htl
      exact htest t (by omega) htl
    . exact ⟨hreturn.1, hreturn.2.settled_of_returned h.returned⟩
    . intro s a s' ha hs hstep
      exact ⟨hs.1.steps hstep, hstep.settled hs.1 ha hs.2⟩
  exact hend.2

/-- No wakeup is lost, and `sleep` returns with `lk` held. -/
theorem no_lost_wakeup (tr : Trace (Steps (n := n) mon)) (hinit : tr.state 0 = init cond)
    : (∀ m w i j k, Wakes tr m w i j k → ∀ p l, k ≤ l → l ≤ tr.length → (∀ t, i ≤ t → t < l → tr.act t ≠ .test p) →
        ¬((tr.state l).thread p).SleepingOn (mon.chan m))
      ∧ (∀ p m i, i < tr.length → ((tr.state i).thread p).pc.inSleep = true →
          ((tr.state (i + 1)).thread p).pc = .crit m → (tr.state (i + 1)).locked (mon.lock m) = true
          ∧ ∀ q, ((tr.state (i + 1)).thread q).pc.Holds mon (mon.lock m) ↔ q = p) := by
  constructor
  . intro m w i j k h p l hkl hl htest
    apply (h.settled hinit hkl hl _).awake
    intro t hit htl
    exact Act.isTest_eq_false (htest t hit htl)
  . intro p m i hi _ hcrit
    have hinv : (tr.state (i + 1)).Inv mon := inv_of_trace hinit hi
    exact hinv.holder_of_crit hcrit

def bothLocks : Monitor Bool Bool Unit where
  chan := id
  lk := fun c => if c then .other () else .ptable

def closeCall (p q : Fin n) : List (Act n Bool Bool) :=
  [.dispatch p, .dispatch q, .enter p true, .test p, .next p, .next p, .next p, .enter q true,
    .set q true, .next p, .next p, .leave q, .wakeup q true, .next q, .next q, .next q, .next q,
    .next q, .dispatch p, .next p, .next p, .next p]

def closeCallPtable (p q : Fin n) : List (Act n Bool Bool) :=
  [.dispatch p, .dispatch q, .enter p false, .test p, .next p, .next p, .next p, .enter q false,
    .set q true, .wakeup1 q false, .next q, .next q, .next q, .leave q, .dispatch p, .next p]

theorem no_lost_wakeup_of_closeCall
    : (∃ tr : Trace (Steps (n := 2) bothLocks), ((tr.state 11).thread 0).SleepingOn true
        ∧ ¬((tr.state 18).thread 0).SleepingOn true)
      ∧ ∃ tr : Trace (Steps (n := 2) bothLocks), ((tr.state 7).thread 0).SleepingOn false
        ∧ ¬((tr.state 13).thread 0).SleepingOn false := by
  constructor
  . let tr : Trace (Steps (n := 2) bothLocks) :=
      .ofExec (step bothLocks) (fun _ _ _ h => h) (init fun _ => false) (closeCall 0 1) (.kill 0)
        (by decide +kernel)
    have htest : ∀ t, t < 18 → 8 ≤ t → tr.act t ≠ .test 0 := by decide +kernel
    refine ⟨tr, by decide +kernel, ?_⟩
    apply (no_lost_wakeup tr rfl).1 true 1 8 12 18
    . exact ⟨by decide, by decide, by decide, by decide +kernel, rfl, .inl rfl, by decide +kernel⟩
    . decide
    . decide
    . intro t hi hl
      exact htest t hl hi
  . let tr : Trace (Steps (n := 2) bothLocks) :=
      .ofExec (step bothLocks) (fun _ _ _ h => h) (init fun _ => false) (closeCallPtable 0 1)
        (.kill 0) (by decide +kernel)
    have htest : ∀ t, t < 13 → 8 ≤ t → tr.act t ≠ .test 0 := by decide +kernel
    refine ⟨tr, by decide +kernel, ?_⟩
    apply (no_lost_wakeup tr rfl).1 false 1 8 9 13
    . exact ⟨by decide, by decide, by decide, by decide +kernel, rfl, .inr rfl, by decide +kernel⟩
    . decide
    . decide
    . intro t hi hl
      exact htest t hl hi

end
end State
end Xv6.Sleep
