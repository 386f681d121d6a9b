import Xv6.Proc.Lemmas.Effect
import Xv6.Proc.Lemmas.Refine

namespace Xv6

open Outcome LifeCycle

variable {n : Nat}

namespace Core

variable {s s' : Core n} {op : Op n} {c : Fin n} {p : ProcPtr}

theorem modify_runningTicks {f : Proc → Proc} (h : ∀ pr, (f pr).runningTicks = pr.runningTicks) (q : ProcPtr)
    : ((s.modify p f).proc q).runningTicks = (s.proc q).runningTicks :=
  modify_field h q

theorem wakeIf_runningTicks (pr : Proc) (w : Prop) : (pr.wakeIf w).runningTicks = pr.runningTicks :=
  Proc.wakeIf_field (fun _ _ => rfl) pr w

theorem reparent_runningTicks (pr : Proc) (r : Option ProcPtr)
    : (pr.reparent p r).runningTicks = pr.runningTicks :=
  Proc.reparent_field (fun _ _ => rfl) pr p r

theorem age_runningTicks (pr : Proc) : pr.age.runningTicks = pr.runningTicks := by
  unfold Proc.age
  split
  all_goals rfl

theorem WaitEffect.runningTicks (h : s.WaitEffect c p s') (q : ProcPtr)
    : (s'.proc q).runningTicks = (s.proc q).runningTicks := by
  cases h
  all_goals simp [sysReturn_eq_modify, reap_eq_modify, modify_runningTicks]

theorem Effect.runningTicks (h : s.Effect op s') (q : ProcPtr)
    (htick : ∀ d, op = .trapTimer d → (s.cpu d).proc ≠ some q)
    (hyield : ∀ d, op = .yield d → (s.cpu d).proc ≠ some q)
    : (s'.proc q).runningTicks = (s.proc q).runningTicks := by
  cases h with
  | resumeWait c p s' hmode hcur hctx hwait =>
    rw [hwait.runningTicks]
    simp [modify_runningTicks]
  | trapTick c p hmode hcur hstate =>
    have hq : q ≠ p := fun heq => htick c rfl (heq ▸ hcur)
    rw [modify_proc, if_neg hq]
  | trapYield c p hmode hcur hstate =>
    have hq : q ≠ p := fun heq => htick c rfl (heq ▸ hcur)
    rw [setCpu_proc, modify_proc, if_neg hq]
  | yield c p hlock hmode hcur =>
    have hq : q ≠ p := fun heq => hyield c rfl (heq ▸ hcur)
    rw [sched_proc, modify_proc, if_neg hq]
  | wait c p s' hcalls hwait => exact hwait.runningTicks q
  | forkAlloc c p np s1 hcalls halloc =>
    rcases allocproc_eq_some halloc with ⟨_, rfl⟩
    simp only [modify_runningTicks, implies_true, setProc_proc]
    split
    . next hq => rw [hq]
    . rfl
  | changeGlobalBjf c pRatio aRatio eRatio sRatio p hcalls =>
    simp [sysReturn_eq_modify, modify_runningTicks, State.setRatios]
  | _ =>
    simp [sysReturn_eq_modify, initStack_eq_modify, modify_runningTicks, wakeIf_runningTicks,
      reparent_runningTicks, age_runningTicks, State.forkInit, State.setRatios]

theorem Effect.yield_proc (h : s.Effect (.yield c) s') (hcur : (s.cpu c).proc = some p)
    : (s'.proc p).state = .runnable ∧ (s'.proc p).runningTicks = 0 := by
  cases h with
  | yield c q hlock hmode hcur' =>
    rw [hcur] at hcur'
    cases hcur'
    simp [modify_proc]

theorem Effect.trapTimer_mode (h : s.Effect (.trapTimer c) s') : (s.cpu c).mode = .running := by
  cases h
  all_goals assumption

theorem Effect.yield_mode (h : s.Effect (.yield c) s') : (s.cpu c).mode = .yielding := by
  cases h
  assumption

theorem WaitEffect.cpu_of_ne (h : s.WaitEffect c p s') {d : Fin n} (hd : d ≠ c)
    : s'.cpu d = s.cpu d := by
  cases h
  all_goals exact if_neg hd

theorem WaitEffect.mode_ne (h : s.WaitEffect c p s') : (s'.cpu c).mode ≠ .yielding := by
  cases h
  all_goals simp [resume, sched, setCpu]

theorem Effect.yielding_iff (h : s.Effect op s') (hop : op ≠ .trapTimer c)
    (hcur : (s.cpu c).proc = some p) (hrun : (s'.proc p).state = .running)
    : (s'.cpu c).mode = .yielding ↔ (s.cpu c).mode = .yielding := by
  -- A step of CPU `d` leaves the other ones alone.
  cases h with
  | dispatch d q site hlock hmode hq | goIdle d hlock hmode
  | dispatchNext d q q' site hmode hcur' hq | endRound d q hmode hcur'
  | resume d q hmode hcur' hctx | resumeSleep d q hmode hcur' hctx =>
    by_cases hd : c = d
    . subst hd
      simp [Core.dispatch, Core.goIdle, Core.resume, setCpu, hmode]
    . simp [Core.dispatch, Core.goIdle, Core.resume, setCpu, hd, modify]
  | resumeWait d q s' hmode hcur' hctx hwait =>
    by_cases hd : c = d
    . subst hd
      simp [hwait.mode_ne, hmode]
    . rw [hwait.cpu_of_ne hd]
      rfl
  | wait d q s' hcalls hwait =>
    by_cases hd : c = d
    . subst hd
      simp [hwait.mode_ne, hcalls.mode]
    . rw [hwait.cpu_of_ne hd]
  | trapYield d q hmode hcur' hstate =>
    have hd : c ≠ d := by
      rintro rfl
      exact hop rfl
    simp [setCpu, hd, modify]
  | yield d q hlock hmode hcur' =>
    by_cases hd : c = d
    . subst hd
      rw [hcur] at hcur'
      cases hcur'
      simp [modify_proc] at hrun
    . simp [Core.sched, setCpu, hd, modify]
  | sleep d a q hcalls =>
    by_cases hd : c = d
    . subst hd
      simp [Core.sched, setCpu, hcalls.mode]
    . simp [Core.sched, setCpu, hd, modify]
  | exit d q W hcalls hinit hparent hpass =>
    by_cases hd : c = d
    . subst hd
      simp [Core.sched, setCpu, hcalls.mode]
    . simp [Core.sched, setCpu, hd, modify, mapProc]
  | forkAlloc d q np s1 hcalls halloc =>
    rcases allocproc_eq_some halloc with ⟨_, rfl⟩
    rfl
  | _ => rfl

end Core

namespace State

variable {s s' : State n} {c : Fin n} {p : ProcPtr} {op : Op n} {ops : List (Op n)}

structure InSlot (c : Fin n) (p : ProcPtr) (s : State n) : Prop where
  cur : (s.cpu c).proc = some p
  running : (s.proc p).state = .running
  rr : (s.proc p).qType = .rr

structure Stays (c : Fin n) (p : ProcPtr) (s : State n) (op : Op n) (s' : State n) : Prop where
  step : Steps s op s'
  inSlot : InSlot c p s'

theorem Steps.trapTimer_inSlot (h : Steps s (.trapTimer c) s') (hslot : InSlot c p s)
    : (s.cpu c).mode = .running ∧ (s'.proc p).runningTicks = (s.proc p).runningTicks + 1
        ∧ ((s'.cpu c).mode = .yielding ↔ TIME_SLOT ≤ (s.proc p).runningTicks + 1) := by
  unfold Steps at h
  simp only [step, bind, Option.bind_eq_some_iff, Core.curproc?_eq_some] at h
  rcases h with ⟨q, ⟨hmode, hq⟩, h⟩
  rw [hslot.cur] at hq
  cases hq
  cases h
  refine ⟨hmode, ?_, ?_⟩
  all_goals
    unfold trapTimer
    rw [if_pos hslot.running]
    dsimp only
    split
    all_goals simp_all [mustYield, hslot.rr, Core.setCpu]

structure SlotInv (c : Fin n) (p : ProcPtr) (r m : Nat) (s : State n) : Prop where
  reach : Reachable s
  inSlot : InSlot c p s
  ticks : (s.proc p).runningTicks.toNat = r + m
  yielding : (s.cpu c).mode = .yielding ↔ TIME_SLOT.toNat ≤ r + m
  le : r + m ≤ TIME_SLOT.toNat

theorem SlotInv.step {r m : Nat} (h : SlotInv c p r m s) (hstep : Stays c p s op s')
    : SlotInv c p r (m + if op = .trapTimer c then 1 else 0) s' := by
  have hslot : TIME_SLOT.toNat = 5 := rfl
  have hle := h.le
  have hticks := h.ticks
  have hyielding := h.yielding
  have hreach := h.reach.tail hstep.step
  by_cases hop : op = .trapTimer c
  . subst hop
    rcases hstep.step.trapTimer_inSlot h.inSlot with ⟨hmode, hcount, hends⟩
    have hlt : r + m < 5 := by
      by_contra hge
      rw [hyielding.mpr (by omega)] at hmode
      cases hmode
    have hcount' : (s'.proc p).runningTicks.toNat = r + m + 1 := by
      rw [hcount, UInt32.toNat_add, hticks]
      exact Nat.mod_eq_of_lt (by show r + m + 1 < 4294967296; omega)
    rw [if_pos rfl]
    refine ⟨hreach, hstep.inSlot, by omega, ?_, by omega⟩
    rw [hends, ← hcount, UInt32.le_iff_toNat_le, hcount']
    omega
  . rw [if_neg hop, Nat.add_zero]
    have heffect := hstep.step.effect
    have honly (d : Fin n) (hd : (s.cpu d).proc = some p) : d = c :=
      (Reachable.lifeCycleInv h.reach).oneCpu.inj d c p hd h.inSlot.cur
    have hsame : (s'.proc p).runningTicks = (s.proc p).runningTicks := by
      apply heffect.runningTicks
      . rintro d rfl hd
        rw [honly d hd] at hop
        exact hop rfl
      . rintro d rfl hd
        have hstate := (heffect.yield_proc hd).1
        rw [hstep.inSlot.running] at hstate
        cases hstate
    refine ⟨hreach, hstep.inSlot, by rw [hsame, hticks], ?_, hle⟩
    rw [heffect.yielding_iff hop h.inSlot.cur hstep.inSlot.running, hyielding]

def timers (c : Fin n) (ops : List (Op n)) : Nat :=
  ops.count (.trapTimer c)

theorem timers_snoc (c : Fin n) (ops : List (Op n)) (op : Op n)
    : timers c (ops ++ [op]) = timers c ops + if op = .trapTimer c then 1 else 0 := by
  simp [timers, List.count_singleton]

theorem slotInv_of_run {s0 : State n} (hreach : Reachable s0) (hslot : InSlot c p s0)
    (hmode : (s0.cpu c).mode = .dispatched) (hticks : (s0.proc p).runningTicks.toNat < TIME_SLOT.toNat)
    (hrun : Reach.Run (Stays c p) s0 ops s)
    : SlotInv c p (s0.proc p).runningTicks.toNat (timers c ops) s := by
  induction hrun with
  | nil =>
    refine ⟨hreach, hslot, rfl, ?_, ?_⟩
    . simp only [hmode, reduceCtorEq, false_iff, not_le, timers, List.count_nil]
      exact hticks
    . simp only [timers, List.count_nil]
      omega
  | snoc _ hstep ih =>
    rw [timers_snoc]
    exact ih.step hstep

structure Waits (p : ProcPtr) (s : State n) (op : Op n) (s' : State n) : Prop where
  step : Steps s op s'
  runnable : (s.proc p).state = .runnable

theorem Steps.runningTicks_of_runnable (h : Steps s op s') (hlife : LifeCycleInv s)
    (hp : (s.proc p).state = .runnable)
    : (s'.proc p).runningTicks = (s.proc p).runningTicks := by
  -- The process a CPU executes is RUNNING.
  have hnot (d : Fin n) (hcur : (s.cpu d).proc = some p)
      (hmode : (s.cpu d).mode = .running ∨ (s.cpu d).mode = .yielding) : False := by
    have hrunning := hlife.oneCpu.running d p hcur
    rcases hmode with hmode | hmode
    all_goals simp [hmode, Mode.phase, Proc.life, hp] at hrunning
  have heffect := h.effect
  apply heffect.runningTicks
  . rintro d rfl hcur
    exact hnot d hcur (.inl heffect.trapTimer_mode)
  . rintro d rfl hcur
    exact hnot d hcur (.inr heffect.yield_mode)

theorem zero_ticks_of_yield {s1 : State n} (hreach : Reachable s) (hcur : (s.cpu c).proc = some p)
    (hyield : Steps s (.yield c) s1) (hrun : Reach.Run (Waits p) s1 ops s')
    : Reachable s' ∧ (s'.proc p).runningTicks = 0 := by
  induction hrun with
  | nil => exact ⟨hreach.tail hyield, (hyield.effect.yield_proc hcur).2⟩
  | snoc _ hstep ih =>
    refine ⟨ih.1.tail hstep.step, ?_⟩
    rw [hstep.step.runningTicks_of_runnable (Reachable.lifeCycleInv ih.1) hstep.runnable]
    exact ih.2

/--
A process of `rr_q` whose `running_ticks` is 0 when `scheduler` switches to it is made to yield at its
`TIME_SLOT`-th clock tick, if it stays in its queue and neither sleeps nor exits before.
-/
theorem full_slot_of_zero_ticks {s0 : State n} (hreach : Reachable s0) (hslot : InSlot c p s0)
    (hmode : (s0.cpu c).mode = .dispatched) (hticks : (s0.proc p).runningTicks = 0)
    (hrun : Reach.Run (Stays c p) s0 ops s)
    : timers c ops ≤ TIME_SLOT.toNat ∧ ((s.cpu c).mode = .yielding ↔ timers c ops = TIME_SLOT.toNat) := by
  have hinv := slotInv_of_run hreach hslot hmode (by rw [hticks]; decide) hrun
  have hle := hinv.le
  have hyielding := hinv.yielding
  rw [hticks, UInt32.toNat_zero, Nat.zero_add] at hle hyielding
  refine ⟨hle, ?_⟩
  rw [hyielding]
  omega

def execSlot (s : State 1) (ops : List (Op 1)) : Option (State 1) :=
  Reach.exec (checkedStep fun _ _ s' => (s'.cpu 0).proc = some 1 && (s'.proc 1).state = .running
    && (s'.proc 1).qType = .rr) s ops

theorem run_of_execSlot {s s' : State 1} {ops : List (Op 1)} (h : s.execSlot ops = some s')
    : Reach.Run (Stays 0 1) s ops s' := by
  apply Reach.Run.of_exec _ h
  intro s op s' hs
  rcases checkedStep_eq_some hs with ⟨hstep, hcheck⟩
  simp only [Bool.and_eq_true, decide_eq_true_eq] at hcheck
  exact ⟨hstep, hcheck.1.1, hcheck.1.2, hcheck.2⟩

theorem full_slot_of_first_dispatch
    : ∃ s0 s : State 1, ∃ ops, Reachable s0 ∧ InSlot 0 1 s0 ∧ Reach.Run (Stays 0 1) s0 ops s
        ∧ timers 0 ops = 5 ∧ (s.cpu 0).mode = .yielding := by
  have hrun : ∃ s0 : State 1, Reachable s0
      ∧ ((s0.cpu 0).proc = some 1 && (s0.proc 1).state = .running && (s0.proc 1).qType = .rr
        && (s0.cpu 0).mode = .dispatched && (s0.proc 1).runningTicks = 0
        && (s0.execSlot [.afterSwtch 0, .trapTimer 0, .trapTimer 0, .trapTimer 0, .trapTimer 0,
          .trapTimer 0]).isSome) = true := by
    apply exists_of_run (fun _ _ _ => true)
      _ [.userinit, .scheduler 0, .afterSwtch 0, .forkAlloc 0, .forkCopy 0, .forkEnqueue 0,
        .changeQueue 0 2 1 0, .sleep 0 7, .schedulerReturn 0, .scheduler 0]
    . decide +kernel
    . intro s op s' hstep _
      exact hstep
  rcases hrun with ⟨s0, hreach, hs⟩
  simp only [Bool.and_eq_true, decide_eq_true_eq] at hs
  rcases hs with ⟨⟨⟨⟨⟨hcur, hstate⟩, hrr⟩, hmode⟩, hticks⟩, hsome⟩
  rcases Option.isSome_iff_exists.mp hsome with ⟨s, hs⟩
  have hrun := run_of_execSlot hs
  refine ⟨s0, s, _, hreach, ⟨hcur, hstate, hrr⟩, hrun, by decide, ?_⟩
  exact (full_slot_of_zero_ticks hreach ⟨hcur, hstate, hrr⟩ hmode hticks hrun).2.mpr (by decide)

/-- A process of `rr_q` that has yielded gets a whole slot the next time, on whichever CPU. -/
theorem full_slot_after_yield {s1 s2 s3 : State n} {d : Fin n} {ops' : List (Op n)} (hreach : Reachable s)
    (hcur : (s.cpu c).proc = some p) (hyield : Steps s (.yield c) s1) (hwaits : Reach.Run (Waits p) s1 ops s2)
    (hslot : InSlot d p s2) (hmode : (s2.cpu d).mode = .dispatched) (hrun : Reach.Run (Stays d p) s2 ops' s3)
    : timers d ops' ≤ TIME_SLOT.toNat ∧ ((s3.cpu d).mode = .yielding ↔ timers d ops' = TIME_SLOT.toNat) := by
  obtain ⟨hreach2, hticks⟩ := zero_ticks_of_yield hreach hcur hyield hwaits
  have hinv := slotInv_of_run hreach2 hslot hmode (by rw [hticks]; decide) hrun
  have hle := hinv.le
  have hyielding := hinv.yielding
  rw [hticks, UInt32.toNat_zero, Nat.zero_add] at hle hyielding
  refine ⟨hle, ?_⟩
  rw [hyielding]
  omega

theorem full_slot_after_yield_of_second
    : ∃ s2 s3 : State 1, ∃ ops, InSlot 0 1 s2 ∧ Reach.Run (Stays 0 1) s2 ops s3
        ∧ timers 0 ops = 5 ∧ (s3.cpu 0).mode = .yielding := by
  have hrun : ∃ s : State 1, Reachable s ∧ ((s.cpu 0).proc = some 1
      && (s.checkedStep (fun _ _ _ => true) (.yield 0)).any fun s1 =>
        (Reach.exec (checkedStep fun s _ _ => (s.proc 1).state = .runnable) s1
          [.schedulerReturn 0, .scheduler 0]).any
        fun s2 => (s2.cpu 0).proc = some 1 && (s2.proc 1).state = .running && (s2.proc 1).qType = .rr
          && (s2.cpu 0).mode = .dispatched
          && (s2.execSlot [.afterSwtch 0, .trapTimer 0, .trapTimer 0, .trapTimer 0, .trapTimer 0,
            .trapTimer 0]).isSome) = true := by
    apply exists_of_run (fun _ _ _ => true) (fun _ _ _ hstep _ => hstep)
      [.userinit, .scheduler 0, .afterSwtch 0, .forkAlloc 0, .forkCopy 0, .forkEnqueue 0, .changeQueue 0 2 1 0,
        .sleep 0 7, .schedulerReturn 0, .scheduler 0, .afterSwtch 0, .trapTimer 0, .trapTimer 0, .trapTimer 0,
        .trapTimer 0, .trapTimer 0]
    decide +kernel
  obtain ⟨s, hreach, hs⟩ := hrun
  simp only [Bool.and_eq_true, decide_eq_true_eq, Option.any_eq_true] at hs
  obtain ⟨hcur, s1, hyield, s2, hwaits, ⟨⟨⟨hcur2, hstate⟩, hrr⟩, hmode⟩, hsome⟩ := hs
  obtain ⟨s3, hs3⟩ := Option.isSome_iff_exists.mp hsome
  have hslot : InSlot 0 1 s2 := ⟨hcur2, hstate, hrr⟩
  have hstep : ∀ (s : State 1) op s', checkedStep (fun s _ _ => (s.proc 1).state = .runnable) s op = some s'
      → Waits 1 s op s' :=
    fun s op s' h => ⟨(checkedStep_eq_some h).1, of_decide_eq_true (checkedStep_eq_some h).2⟩
  have hspec := full_slot_after_yield hreach hcur (checkedStep_eq_some hyield).1 (.of_exec hstep hwaits) hslot hmode
    (run_of_execSlot hs3)
  exact ⟨s2, s3, _, hslot, run_of_execSlot hs3, by decide, hspec.2.mpr (by decide)⟩

/--
A process uses two clock ticks of its slot, sleeps and is woken. It has to yield after three more ones
when `scheduler` has switched to it again.
-/
theorem slot_cut_short_after_sleep
    : ∃ s0 s : State 1, ∃ ops, Reachable s0 ∧ InSlot 0 1 s0 ∧ (s0.cpu 0).mode = .dispatched
        ∧ Reach.Run (Stays 0 1) s0 ops s ∧ timers 0 ops = 3 ∧ (s.cpu 0).mode = .yielding := by
  have hrun : ∃ s0 : State 1, Reachable s0
      ∧ ((s0.cpu 0).proc = some 1 && (s0.proc 1).state = .running && (s0.proc 1).qType = .rr
        && (s0.cpu 0).mode = .dispatched
        && (s0.execSlot [.afterSwtch 0, .trapTimer 0, .trapTimer 0, .trapTimer 0]).any fun s =>
          (s.cpu 0).mode = .yielding) = true := by
    apply exists_of_run (fun _ _ _ => true)
      _ [.userinit, .scheduler 0, .afterSwtch 0, .forkAlloc 0, .forkCopy 0, .forkEnqueue 0,
        .changeQueue 0 2 1 0, .sleep 0 7, .schedulerReturn 0, .scheduler 0, .afterSwtch 0,
        .trapTimer 0, .trapTimer 0, .sleep 0 9, .schedulerReturn 0, .wakeup 9, .scheduler 0]
    . decide +kernel
    . intro s op s' hstep _
      exact hstep
  rcases hrun with ⟨s0, hreach, hs⟩
  simp only [Bool.and_eq_true, decide_eq_true_eq] at hs
  rcases hs with ⟨⟨⟨⟨hcur, hstate⟩, hrr⟩, hmode⟩, hany⟩
  rcases (Option.any_eq_true _ _).mp hany with ⟨s, hs, hyielding⟩
  exact ⟨s0, s, _, hreach, ⟨hcur, hstate, hrr⟩, hmode, run_of_execSlot hs, by decide,
    of_decide_eq_true hyielding⟩

end State
end Xv6
