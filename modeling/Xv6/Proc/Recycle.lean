import Xv6.Proc.Lemmas.Refine

namespace Xv6

variable {n : Nat}

namespace State

variable {s s' t t' : State n} {c d : Fin n} {np nq : ProcPtr}

def Forks (s : State n) (c : Fin n) (s' : State n) : Prop :=
  ∃ s1 s2, Steps s (.forkAlloc c) s1 ∧ Steps s1 (.forkCopy c) s2 ∧ Steps s2 (.forkEnqueue c) s'

def freeSlot? (s : State n) : Option ProcPtr :=
  s.toCore.findProc fun p => p.state = .unused

structure SameStart (a b : Proc) : Prop where
  killed : a.killed = b.killed
  qType : a.qType = b.qType
  changeRunningQueue : a.changeRunningQueue = b.changeRunningQueue
  runningTicks : a.runningTicks = b.runningTicks
  waitingTime : a.waitingTime = b.waitingTime
  executedCycle : a.executedCycle = b.executedCycle
  priority : a.priority = b.priority
  priorityRatio : a.priorityRatio = b.priorityRatio
  arrivetimeRatio : a.arrivetimeRatio = b.arrivetimeRatio
  executedCycleRatio : a.executedCycleRatio = b.executedCycleRatio
  sizeRatio : a.sizeRatio = b.sizeRatio

theorem allocproc_of_freeSlot? (h : s.freeSlot? = some np)
    : (s.proc np).state = .unused ∧ s.toCore.allocproc = some (np, { s.toCore.setProc np
                { s.proc np with state := .embryo, pid := s.nextpid, fork := none } with
              nextpid := int32 (s.nextpid + 1) }) := by
  unfold freeSlot? at h
  unfold Core.allocproc
  rw [h]
  refine ⟨?_, rfl⟩
  simpa using List.find?_some h

theorem Forks.child (h : Forks s c s') (hreach : Reachable s) (hnp : s.freeSlot? = some np)
    : ∃ p, s'.proc np = { forkInit s.ticks { s.proc np with
              pid := s.nextpid, fork := none, context := .forkret, parent := some p, eax := 0 } with
          state := .runnable } := by
  rcases h with ⟨s1, s2, halloc, hcopy, henqueue⟩
  rcases allocproc_of_freeSlot? hnp with ⟨hunused, hcore⟩
  cases taken_of_step halloc with
  | forkAlloc c p hcalls =>
    have hne : np ≠ p := by
      rintro rfl
      have hrun := (Reachable.lifeCycleInv hreach).oneCpu.cur_running hcalls.cur
        (by simp [Core.abs, hcalls.mode, Mode.phase])
      change (s.proc np).state = .running at hrun
      rw [hunused] at hrun
      cases hrun
    unfold forkAlloc at hcopy
    rw [hcore] at hcopy
    cases taken_of_step hcopy with
    | forkCopy c p' np' hbuilds =>
      rcases hbuilds with ⟨_, hcur, hfork⟩
      cases hcalls.cur.symm.trans hcur
      simp only [setProc_toCore, Core.setProc_proc, if_true] at hfork
      cases hfork
      have htaken := taken_of_step henqueue
      generalize hr : Except.ok s' = r at htaken
      cases htaken with
      | forkEnqueue c p'' np'' hlock hbuilds =>
        rcases hbuilds with ⟨_, hcur', hfork'⟩
        cases hcur.symm.trans hcur'
        simp only [forkCopy, setProc_toCore, Core.setProc_proc, if_true] at hfork'
        cases hfork'
        refine ⟨p, ?_⟩
        rw [forkEnqueue_toCore hr.symm]
        simp [forkCopy, Core.initStack, hne, forkInit]

theorem exists_fork_of_run (ops : List (Op n)) (c : Fin n) {P Q : State n → Bool}
    (h : (Reach.exec (checkedStep fun _ _ _ => true) init ops).any (fun s =>
      P s && (Reach.exec (checkedStep fun _ _ _ => true) s
        [.forkAlloc c, .forkCopy c, .forkEnqueue c]).any Q) = true)
    : ∃ s s', Reachable s ∧ Forks s c s' ∧ P s = true ∧ Q s' = true := by
  rcases exists_of_run _ (fun s op s' hstep _ => hstep) ops h with ⟨s, hreach, hs⟩
  rw [Bool.and_eq_true, Option.any_eq_true] at hs
  rcases hs with ⟨hP, s', hs', hQ⟩
  refine ⟨s, s', hreach, ?_, hP, hQ⟩
  simp only [Reach.exec] at hs'
  split at hs'
  . next s1 h1 =>
    split at hs'
    . next s2 h2 =>
      split at hs'
      . next s3 h3 =>
        cases hs'
        exact ⟨s1, s2, (checkedStep_eq_some h1).1, (checkedStep_eq_some h2).1,
          (checkedStep_eq_some h3).1⟩
      . cases hs'
    . cases hs'
  . cases hs'

/--
The children of two forks at the same time start alike, if and only if their slots agree on the
fields that nobody resets.
-/
theorem forked_children_same_iff (hs : Reachable s) (ht : Reachable t) (hticks : s.ticks = t.ticks)
    (hnp : s.freeSlot? = some np) (hnq : t.freeSlot? = some nq) (hfork : Forks s c s') (hfork' : Forks t d t')
    : SameStart (s'.proc np) (t'.proc nq) ↔ (s.proc np).killed = (t.proc nq).killed
          ∧ (s.proc np).changeRunningQueue = (t.proc nq).changeRunningQueue
          ∧ (s.proc np).runningTicks = (t.proc nq).runningTicks := by
  rcases hfork.child hs hnp with ⟨p, hp⟩
  rcases hfork'.child ht hnq with ⟨q, hq⟩
  rw [hp, hq, hticks]
  constructor
  . intro h
    exact ⟨h.killed, h.changeRunningQueue, h.runningTicks⟩
  . rintro ⟨hkilled, hflag, hrunning⟩
    constructor
    all_goals first
      | rfl
      | assumption

theorem forked_children_same_after_wait
    : ∃ s t s' t' : State 1, Reachable s ∧ Reachable t ∧ Forks s 0 s' ∧ Forks t 0 t'
        ∧ s.nextpid = 2 ∧ t.nextpid = 3 ∧ SameStart (s'.proc 1) (t'.proc 1) := by
  let P (s : State 1) (nextpid : Int) : Bool :=
    s.freeSlot? = some 1 && s.ticks = 0 && s.nextpid = nextpid && !(s.proc 1).killed
      && !(s.proc 1).changeRunningQueue && (s.proc 1).runningTicks = 0
  have hfresh : ∃ s s' : State 1, Reachable s ∧ Forks s 0 s' ∧ P s 2 = true ∧ true = true := by
    apply exists_fork_of_run [.userinit, .scheduler 0, .afterSwtch 0]
    decide +kernel
  have hused : ∃ s s' : State 1, Reachable s ∧ Forks s 0 s' ∧ P s 3 = true ∧ true = true := by
    apply exists_fork_of_run [.userinit, .scheduler 0, .afterSwtch 0, .forkAlloc 0, .forkCopy 0,
      .forkEnqueue 0, .wait 0, .schedulerReturn 0, .scheduler 0, .afterSwtch 0, .exit 0,
      .schedulerReturn 0, .scheduler 0, .afterSwtch 0]
    decide +kernel
  rcases hfresh with ⟨s, s', hs, hforks, hP, _⟩
  rcases hused with ⟨t, t', ht, hforkt, hQ, _⟩
  simp only [P, Bool.and_eq_true, decide_eq_true_eq, Bool.not_eq_true'] at hP hQ
  rcases hP with ⟨⟨⟨⟨⟨hslot, hticks⟩, hpid⟩, hkilled⟩, hflag⟩, hrunning⟩
  rcases hQ with ⟨⟨⟨⟨⟨hslot', hticks'⟩, hpid'⟩, hkilled'⟩, hflag'⟩, hrunning'⟩
  refine ⟨s, t, s', t', hs, ht, hforks, hforkt, hpid, hpid', ?_⟩
  rw [forked_children_same_iff hs ht (by rw [hticks, hticks']) hslot hslot' hforks hforkt]
  simp [hkilled, hkilled', hflag, hflag', hrunning, hrunning']

/-- `kill` finds the pid 0 in a slot that is not in use. -/
theorem forked_child_killed
    : ∃ s t s' t' : State 1, Reachable s ∧ Reachable t ∧ s.proc 0 = t.proc 0 ∧ s.ticks = t.ticks
        ∧ s.nextpid = t.nextpid ∧ s.freeSlot? = some 1 ∧ t.freeSlot? = some 1 ∧ Forks s 0 s'
        ∧ Forks t 0 t' ∧ ¬SameStart (s'.proc 1) (t'.proc 1) := by
  let P (s : State 1) : Bool :=
    s.freeSlot? = some 1 && s.ticks = 0 && s.nextpid = 2
      && s.proc 0 = { state := .running, pid := 1, qType := .lcfs }
  have hfresh : ∃ s s' : State 1, Reachable s ∧ Forks s 0 s' ∧ P s = true
      ∧ (!(s'.proc 1).killed) = true := by
    apply exists_fork_of_run [.userinit, .scheduler 0, .afterSwtch 0]
    decide +kernel
  have hkill : ∃ s s' : State 1, Reachable s ∧ Forks s 0 s' ∧ P s = true
      ∧ (s'.proc 1).killed = true := by
    apply exists_fork_of_run [.userinit, .scheduler 0, .afterSwtch 0, .kill 0 0]
    decide +kernel
  rcases hfresh with ⟨s, s', hs, hforks, hP, hkilled⟩
  rcases hkill with ⟨t, t', ht, hforkt, hQ, hkilled'⟩
  simp only [P, Bool.and_eq_true, decide_eq_true_eq] at hP hQ
  rcases hP with ⟨⟨⟨hslot, hticks⟩, hpid⟩, hproc⟩
  rcases hQ with ⟨⟨⟨hslot', hticks'⟩, hpid'⟩, hproc'⟩
  refine ⟨s, t, s', t', hs, ht, hproc.trans hproc'.symm, hticks.trans hticks'.symm,
    hpid.trans hpid'.symm, hslot, hslot', hforks, hforkt, ?_⟩
  intro hsame
  rw [hsame.killed, hkilled'] at hkilled
  cases hkilled

end State
end Xv6
