import Xv6.Proc.Room

namespace Xv6

open Outcome

variable {n : Nat}

namespace State

variable {s : State n} {c : Fin n}

def ReadyWork (s : State n) : Prop :=
  ∃ p, (p ∈ s.entries .rr ∨ p ∈ s.entries .lcfs) ∧ (s.proc p).state = .runnable

def Dispatches (s : State n) (c : Fin n) : Prop :=
  ∃ s' p, Steps s (.scheduler c) s' ∧ (s.proc p).state = .runnable ∧ (s'.cpu c).proc = some p
    ∧ (s'.proc p).state = .running

def WorkInReach (s : State n) : Prop :=
  if s.entries .rr ≠ [] then
    (∃ p, (s.entries .rr)[s.rrIndex 0]? = some p ∧ (s.proc p).Ready)
      ∧ ∃ k p, k < (s.entries .rr).length ∧ (s.entries .rr)[s.rrIndex k]? = some p
          ∧ (s.proc p).state = .runnable
  else
    ∃ p, (s.entries .lcfs).getLast? = some p ∧ (s.proc p).Ready

theorem dispatches_iff (hmode : (s.cpu c).mode = .idle) (hlock : s.lock = none)
    : s.Dispatches c ↔ ∃ p site, s.schedulerPick = .ok (some (p, site)) := by
  have hstep : s.step (.scheduler c) = some (s.scheduler c) := by
    simp [step, Core.acquire, hlock, hmode]
  constructor
  . rintro ⟨s', p, hsteps, _, hproc, _⟩
    unfold Steps at hsteps
    rw [hstep, Option.some.injEq] at hsteps
    rcases bind_eq_ok.mp hsteps with ⟨r, hr, hs'⟩
    split at hs'
    . next q site => exact ⟨q, site, hr⟩
    . cases hs'
      simp [Core.goIdle, Core.setCpu] at hproc
  . rintro ⟨p, site, hpick⟩
    refine ⟨s.onCore (Core.dispatch · c p site), p, ?_, schedulerPick_runnable hpick, ?_, ?_⟩
    . unfold Steps
      rw [hstep]
      simp [scheduler, hpick, bind, Except.bind, pure, Except.pure]
    . simp [Core.dispatch, Core.setCpu]
    . simp [Core.dispatch, Core.setCpu]

theorem mem_rrVisits {l : List ProcPtr} {p : ProcPtr} {m : Nat}
    : p ∈ s.rrVisits l (List.range m) ↔ ∃ k, k < m ∧ l[s.rrIndex k]? = some p := by
  simp [rrVisits]

theorem workInReach_iff (hwork : s.ReadyWork)
    : s.WorkInReach ↔ ∃ p q, s.inspected s.entries = some p ∧ (s.proc p).Ready
        ∧ q ∈ s.candidates s.entries ∧ (s.proc q).state = .runnable := by
  unfold WorkInReach inspected candidates
  by_cases hrr : s.entries .rr ≠ []
  . simp only [if_pos hrr, mem_rrVisits]
    constructor
    . rintro ⟨⟨p, hp, hready⟩, k, q, hk, hq, hrun⟩
      exact ⟨p, q, hp, hready, ⟨k, hk, hq⟩, hrun⟩
    . rintro ⟨p, q, hp, hready, ⟨k, hk, hq⟩, hrun⟩
      exact ⟨⟨p, hp, hready⟩, k, q, hk, hq, hrun⟩
  . simp only [if_neg hrr, List.mem_reverse]
    constructor
    . rintro ⟨p, hp, hready⟩
      rcases hwork with ⟨q, hmem | hmem, hrun⟩
      . rw [not_not.mp hrr] at hmem
        cases hmem
      . exact ⟨p, q, hp, hready, hmem, hrun⟩
    . rintro ⟨p, q, hp, hready, _⟩
      exact ⟨p, hp, hready⟩

theorem exists_inspected (h : s.Lists s.entries) (hwork : s.ReadyWork)
    : ∃ p, s.inspected s.entries = some p := by
  unfold inspected
  split
  . next hrr => exact ⟨_, List.getElem?_eq_getElem (h.rrIndex_lt hrr 0)⟩
  . next hrr =>
    rcases hwork with ⟨p, hmem | hmem, _⟩
    . rw [not_not.mp hrr] at hmem
      cases hmem
    . exact ⟨_, List.getLast?_eq_some_getLast (List.ne_nil_of_mem hmem)⟩

/-- When a CPU without a process finds one. -/
theorem work_conserving_iff (h : Reachable s) (hcpu : (s.cpu c).proc = none) (hlock : s.lock = none)
    (hwork : s.ReadyWork)
    : s.Dispatches c ↔ s.WorkInReach := by
  have hlists := Reachable.lists h
  have hmode : (s.cpu c).mode = .idle := by
    have hphase := ((Reachable.lifeCycleInv h).oneCpu.idle c).mpr hcpu
    revert hphase
    cases hm : (s.cpu c).mode
    all_goals simp [hm, Mode.phase]
  rcases exists_inspected hlists hwork with ⟨p, hp⟩
  rw [dispatches_iff hmode hlock, workInReach_iff hwork, hlists.schedulerPick_of_inspected hp]
  constructor
  . rintro ⟨q, site, hpick⟩
    split at hpick
    . next hready =>
      cases hfind : (s.candidates s.entries).find? s.runnable with
      | none => simp [hfind] at hpick
      | some q' =>
        have hrun := List.find?_some hfind
        exact ⟨p, q', hp, hready, List.mem_of_find?_eq_some hfind, runnable_eq_true.mp hrun⟩
    . cases hpick
  . rintro ⟨p', q, hp', hready, hmem, hrun⟩
    rw [hp] at hp'
    cases hp'
    rw [if_pos hready]
    cases hfind : (s.candidates s.entries).find? s.runnable with
    | none =>
      have := List.find?_eq_none.mp hfind q hmem
      exact absurd (runnable_eq_true.mpr hrun) this
    | some q' => exact ⟨q', .pick, rfl⟩

theorem work_conserving_of_two
    : ∃ s : State 2, Reachable s ∧ s.entries .rr = [1, 0] ∧ (s.proc 0).state = .running ∧ s.Dispatches 1 := by
  have hrun : ∃ s : State 2, Reachable s
      ∧ (s.entries .rr = [1, 0] && (s.proc 0).state = .running && (s.proc 1).state = .runnable
        && s.rrIndex 0 = 1 && s.rrIndex 1 = 0 && s.lock = none && (s.cpu 1).proc = none) = true := by
    apply exists_of_run (fun _ _ _ => true)
      _ [.userinit, .scheduler 0, .afterSwtch 0, .forkAlloc 0, .forkCopy 0, .forkEnqueue 0,
        .changeQueue 0 2 1 0, .changeQueue 0 1 1 0, .trapTimer 0, .trapTimer 0, .trapTimer 0,
        .trapTimer 0, .trapTimer 0, .yield 0, .schedulerReturn 0, .scheduler 0, .afterSwtch 0]
    . decide +kernel
    . intro s op s' hstep _
      exact hstep
  rcases hrun with ⟨s, hreach, hs⟩
  simp only [Bool.and_eq_true, decide_eq_true_eq] at hs
  rcases hs with ⟨⟨⟨⟨⟨⟨hrr, h0⟩, h1⟩, hcursor⟩, hnext⟩, hlock⟩, hcpu⟩
  refine ⟨s, hreach, hrr, h0, ?_⟩
  rw [work_conserving_iff hreach hcpu hlock ⟨1, .inl (by simp [hrr]), h1⟩]
  unfold WorkInReach
  rw [if_pos (by simp [hrr]), hrr]
  refine ⟨⟨0, by simp [hcursor], .inr h0⟩, 1, 1, by simp, by simp [hnext], h1⟩

/-- The only process of `rr_q` is RUNNING, and nobody looks at the RUNNABLE one in `lcfs_q`. -/
theorem idle_cpu_with_ready_work
    : ∃ s : State 2, Reachable s ∧ (s.cpu 1).proc = none ∧ s.lock = none ∧ s.ReadyWork ∧ ¬s.Dispatches 1 := by
  have hrun : ∃ s : State 2, Reachable s
      ∧ (s.entries .lcfs = [1] && (s.proc 1).state = .runnable && s.lock = none
        && (s.cpu 1).proc = none && (s.cpu 1).mode = .idle
        && s.schedulerPick = .ok none) = true := by
    apply exists_of_run (fun _ _ _ => true)
      _ [.userinit, .scheduler 0, .afterSwtch 0, .forkAlloc 0, .forkCopy 0, .forkEnqueue 0,
        .changeQueue 0 1 1 0, .trapTimer 0, .trapTimer 0, .trapTimer 0, .trapTimer 0, .trapTimer 0,
        .yield 0, .schedulerReturn 0, .scheduler 0, .afterSwtch 0]
    . decide +kernel
    . intro s op s' hstep _
      exact hstep
  rcases hrun with ⟨s, hreach, hs⟩
  simp only [Bool.and_eq_true, decide_eq_true_eq] at hs
  rcases hs with ⟨⟨⟨⟨⟨hlcfs, h1⟩, hlock⟩, hcpu⟩, hmode⟩, hpick⟩
  refine ⟨s, hreach, hcpu, hlock, ⟨1, .inr (by simp [hlcfs]), h1⟩, ?_⟩
  rw [dispatches_iff hmode hlock]
  rintro ⟨p, site, hsome⟩
  rw [hsome] at hpick
  cases hpick

end State
end Xv6
