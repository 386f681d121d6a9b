import Xv6.Proc.Change
import Xv6.Proc.Room

namespace Xv6

open Outcome LifeCycle

variable {n : Nat}

def Op.basic (op : Op n) : Bool :=
  match op with
  | .changeQueue .. => false
  | .changeLocalBjf .. => false
  | .changeGlobalBjf .. => false
  | _ => true

namespace State

variable {s s' : State n} {op : Op n}

structure QueueInv (s : State n) : Prop extends PidInv s where
  queued : Queued none s

theorem QueueInv.init : QueueInv (State.init (n := n)) where
  toPidInv := .init
  queued := .init

theorem QueueInv.distinctPids (h : QueueInv s) : DistinctPids s.toCore := by
  have hlive {p : ProcPtr} (hp : (s.proc p).Ready) : (s.abs.proc p).Live := by
    rcases hp with hp | hp
    all_goals simp [Life.Live, Proc.life, hp]
  intro p q hp hq hpid
  exact h.pids.inj p q (hlive hp) (hlive hq) hpid

structure Careful (s : State n) (op : Op n) (s' : State n) : Prop where
  step : Steps s op s'
  fresh : freshPid s s' = true
  removable : ∀ p, s.cleans op p = true → s.removable p = true

def carefulCheck (s : State n) (op : Op n) : Bool :=
  (List.finRange NPROC).all fun p => !s.cleans op p || s.removable p

theorem carefulCheck_iff
    : s.carefulCheck op = true ↔ ∀ p, s.cleans op p = true → s.removable p = true := by
  simp only [carefulCheck, List.all_eq_true, List.mem_finRange, true_implies, Bool.or_eq_true,
    Bool.not_eq_true', ← Bool.not_eq_true, ← imp_iff_not_or]

theorem QueueInv.step (h : QueueInv s) (hstep : Careful s op s') : QueueInv s' where
  toPidInv := h.toPidInv.step hstep.step hstep.fresh
  queued := by
    have htaken := taken_of_step hstep.step
    exact Sat.of_ok (htaken.queued h.queued h.life h.distinctPids hstep.removable) rfl

theorem queueInv_of_reachable (h : Reach.Reachable init Careful s) : QueueInv s := by
  apply Reach.Reachable.induct QueueInv .init _ h
  intro s op s' _ hinv hstep
  exact hinv.step hstep

def InQueue (s : State n) (p : ProcPtr) : Prop :=
  ∃ k, (s.proc p).qType = k.toSchedQ ∧ (s.entries k).count p = 1 ∧ ∀ k', k' ≠ k → p ∉ s.entries k'

theorem toSchedQ_of_queueId? {q : SchedQ} {k : QueueId} (h : q.queueId? = some k)
    : q = k.toSchedQ := by
  cases q with
  | deflt => cases h
  | rr | lcfs | bjf =>
    cases h
    rfl

theorem Queued.inQueue {p : ProcPtr} {k : QueueId} (h : Queued none s) (hready : (s.proc p).Ready)
    (hflag : (s.proc p).changeRunningQueue = false) (hk : (s.proc p).qType.queueId? = some k)
    : s.InQueue p := by
  have hmember : membersBut none s.toCore p = some k := by
    simp [membersBut, Proc.member_of_ready hready hflag, hk]
  refine ⟨k, toSchedQ_of_queueId? hk, ?_, ?_⟩
  . rw [h.holding.count_entries, if_pos hmember]
  . intro k' hne hmem
    rw [h.holding.mem_entries, hmember] at hmem
    cases hmem
    exact hne rfl

def Typed (s : State n) : Prop :=
  ∀ p, (s.proc p).Alive → (s.proc p).qType ≠ .deflt

theorem Typed.init : Typed (State.init (n := n)) := by
  intro p hp
  simp [State.init, Proc.Alive, Proc.Ready] at hp

theorem Typed.step (h : Typed s) (hlife : LifeCycleInv s) (hstep : Steps s op s') (hop : op.newType ≠ some .deflt)
    : Typed s' := by
  intro p hp
  have hchange := hstep.change hlife p
  have htyped := h p
  cases hchange with
  | same hstate hqType hflag =>
    rw [hqType]
    apply htyped
    simpa [Proc.Alive, Proc.Ready, hstate] using hp
  | wake hstate hstate' hqType hflag =>
    rw [hqType]
    exact htyped (.inr hstate)
  | run hstate hstate' hqType hflag =>
    rw [hqType]
    exact htyped (.inl (.inl hstate))
  | yield hstate hstate' hqType hflag =>
    rw [hqType]
    exact htyped (.inl (.inr hstate))
  | stop hcleans hstate hstate' hqType hflag =>
    rw [hqType]
    exact htyped (.inl (.inr hstate))
  | idle hstate hstate' hqType hflag => exact absurd hp hstate'
  | born hstate hstate' hqType hflag => simp [hqType]
  | age hcleans hstate hstate' hqType hflag => simp [hqType]
  | move hcleans hstate hqType hflag =>
    intro hdeflt
    rw [hdeflt] at hqType
    exact hop hqType

theorem Typed.queueId (h : Typed s) {p : ProcPtr} (hp : (s.proc p).Alive)
    : ∃ k, (s.proc p).qType.queueId? = some k := by
  have htyped := h p hp
  cases hq : (s.proc p).qType with
  | deflt => exact absurd hq htyped
  | rr => exact ⟨.rr, rfl⟩
  | lcfs => exact ⟨.lcfs, rfl⟩
  | bjf => exact ⟨.bjf, rfl⟩

def Undeferred (s : State n) : Prop :=
  ∀ p, (s.proc p).changeRunningQueue = false

theorem Undeferred.step (h : Undeferred s) (hlife : LifeCycleInv s) (hstep : Steps s op s')
    (hop : op.newType = none)
    : Undeferred s' := by
  intro p
  have hflag := h p
  cases hstep.change hlife p with
  | move hcleans hstate hqType hflag' =>
    rw [hop] at hqType
    cases hqType
  | yield hstate hstate' hqType hflag' => exact hflag'
  | _ => simp [*]

structure Basic (s : State n) (op : Op n) (s' : State n) : Prop where
  step : Steps s op s'
  basic : op.basic = true
  fresh : freshPid s s' = true
  room : ∀ k, (s.entries k).length < NPROC

structure BasicInv (s : State n) : Prop where
  queue : QueueInv s
  typed : Typed s
  undeferred : Undeferred s

theorem newType_of_basic (h : op.basic = true) : op.newType = none := by
  cases op
  all_goals first
    | rfl
    | cases h

theorem BasicInv.step (h : BasicInv s) (hstep : Basic s op s') : BasicInv s' := by
  have hnone := newType_of_basic hstep.basic
  have hlife := h.queue.life
  refine ⟨h.queue.step ⟨hstep.step, hstep.fresh, ?_⟩, h.typed.step hlife hstep.step (by simp [hnone]),
    h.undeferred.step hlife hstep.step hnone⟩
  intro p hcleans
  have hready := (taken_of_step hstep.step).ready_of_cleans hlife hcleans
  rcases h.typed.queueId (.inl hready) with ⟨k, hk⟩
  exact removable_iff.mpr ⟨h.undeferred p, k, hk, hstep.room k⟩

structure Membership (s : State n) : Prop where
  ready : ∀ p, (s.proc p).state = .runnable ∨ (s.proc p).state = .running → s.InQueue p
  others : ∀ p, (s.proc p).state ≠ .runnable → (s.proc p).state ≠ .running → ∀ k, p ∉ s.entries k
  slots : ∀ k (i : Nat), i ≤ (s.queue k).pi.toInt → ∃ p, (s.queue k).get i = .ok (.proc p)
  number : ∀ k, (s.queue k).pi.toInt + 1 = (Finset.univ.filter fun p => p ∈ s.entries k).card
  -- A process that is put into a queue is not in it yet.
  index : ∀ k p, p ∉ s.entries k → (s.queue k).pi.toInt + 1 < NPROC

theorem BasicInv.membership (h : BasicInv s) : s.Membership where
  ready := by
    intro p hready
    rcases h.typed.queueId (.inl hready) with ⟨k, hk⟩
    exact h.queue.queued.inQueue hready (h.undeferred p) hk
  others := by
    intro p hrunnable hrunning k hmem
    rcases h.queue.queued.ready_of_mem hmem with hstate | hstate
    . exact hrunnable hstate
    . exact hrunning hstate
  slots := by
    intro k i hi
    have hlists := h.queue.queued.lists k
    have hlt : i < (s.entries k).length := by
      rw [hlists.pi_eq] at hi
      omega
    exact ⟨(s.entries k)[i], hlists.get_eq (List.getElem?_eq_getElem hlt)⟩
  number := by
    intro k
    have hfilter : (Finset.univ.filter fun p => p ∈ s.entries k) = (s.entries k).toFinset := by
      ext p
      simp
    rw [hfilter, List.toFinset_card_of_nodup (h.queue.queued.holding.nodup_entries k),
      (h.queue.queued.lists k).pi_eq]
    omega
  index := by
    intro k p hp
    have hlt : (s.entries k).length < NPROC := by
      rw [h.queue.queued.holding.length_lt_iff]
      refine ⟨p, ?_⟩
      rwa [ne_eq, ← h.queue.queued.holding.mem_entries]
    rw [(h.queue.queued.lists k).pi_eq]
    omega

theorem BasicInv.init : BasicInv (State.init (n := n)) where
  queue := .init
  typed := .init
  undeferred := fun _ => rfl

theorem basicInv_of_reachable (h : Reach.Reachable init Basic s) : BasicInv s := by
  apply Reach.Reachable.induct BasicInv .init _ h
  intro s op s' _ hinv hstep
  exact hinv.step hstep

/--
As long as processes are not moved between the queues and no queue is full, every process that may run
is in the queue of its type, and nobody else is in a queue. The queues stay inside their arrays.
-/
theorem membership_of_basic (h : Reach.Reachable init Basic s)
    : s.Membership ∧ ∀ op : Op n, op.basic = true → s.step op ≠ some (.error .wild) := by
  refine ⟨(basicInv_of_reachable h).membership, ?_⟩
  intro op hbasic hwild
  have hdead := Reachable.deadPid_of_wild (h.mono fun _ _ _ hstep => hstep.step) hwild
  cases op
  all_goals first
    | exact hdead
    | cases hbasic

theorem membership_after_exit
    : ∃ s : State 2, Reach.Reachable init Basic s ∧ s.entries .lcfs = [0]
        ∧ (s.proc 1).state = .zombie ∧ s.Membership := by
  have hrun : ∃ s : State 2, Reach.Reachable init Basic s
      ∧ (s.entries .lcfs = [0] && (s.proc 1).state = .zombie) = true := by
    apply exists_of_run (fun s op s' => op.basic && freshPid s s'
      && [QueueId.rr, .lcfs, .bjf].all fun k => (s.entries k).length < NPROC)
      _ [.userinit, .scheduler 0, .afterSwtch 0, .forkAlloc 0, .forkCopy 0, .forkEnqueue 0, .wait 0,
        .schedulerReturn 0, .scheduler 1, .afterSwtch 1, .exit 1]
    . decide +kernel
    . intro s op s' hstep hcheck
      simp only [Bool.and_eq_true, List.all_cons, List.all_nil, decide_eq_true_eq] at hcheck
      rcases hcheck with ⟨⟨hbasic, hfresh⟩, hrr, hlcfs, hbjf, _⟩
      refine ⟨hstep, hbasic, hfresh, ?_⟩
      intro k
      cases k
      . exact hrr
      . exact hlcfs
      . exact hbjf
  rcases hrun with ⟨s, hreach, hs⟩
  simp only [Bool.and_eq_true, decide_eq_true_eq] at hs
  exact ⟨s, hreach, hs.1, hs.2, (membership_of_basic hreach).1⟩

def livePid (s : State n) (op : Op n) : Bool :=
  match op with
  | .changeQueue _ pid _ _ =>
    (List.finRange NPROC).any fun p => (s.proc p).pid = pid && (s.proc p).state ≠ .unused
  | _ => true

structure Migrating (s : State n) (op : Op n) (s' : State n) : Prop where
  step : Steps s op s'
  fresh : freshPid s s' = true
  newType : op.newType ≠ some .deflt
  live : s.livePid op = true

theorem QueueInv.mem_of_mem (h : QueueInv s) (hstep : Careful s op s') {k : QueueId} {p : ProcPtr}
    (hmem : p ∈ s.entries k) (hcleans : s.cleans op p ≠ true)
    : p ∈ s'.entries k := by
  have hmember := h.queued.holding.mem_entries.mp hmem
  have hready := h.queued.ready_of_mem hmem
  rw [(h.step hstep).queued.holding.mem_entries]
  have hflag : (s.proc p).changeRunningQueue = false := by
    rw [← Bool.not_eq_true]
    intro hset
    simp [membersBut, Proc.member_of_flag hset] at hmember
  simp only [membersBut, reduceCtorEq, if_false] at hmember ⊢
  rw [← hmember]
  have hnot {P : Prop} (hnone : ¬(s.proc p).Alive) : P := absurd (.inl hready) hnone
  cases hstep.step.change h.life p with
  | same hstate hqType hflag' => exact Proc.member_congr hstate hqType hflag'
  | wake hstate hstate' hqType hflag' => exact absurd hready (Queued.not_ready_of_sleeping hstate)
  | run hstate hstate' hqType hflag' =>
    exact Proc.member_eq_of_ready (.inl hstate) (.inr hstate') hqType hflag'
  | yield hstate hstate' hqType hflag' =>
    exact Proc.member_eq_of_ready (.inr hstate) (.inl hstate') hqType (by rw [hflag', hflag])
  | stop hclean hstate hstate' hqType hflag' => exact absurd hclean hcleans
  | idle hstate hstate' hqType hflag' => exact hnot hstate
  | born hstate hstate' hqType hflag' => exact hnot hstate
  | age hclean hstate hstate' hqType hflag' => exact absurd hclean hcleans
  | move hclean hstate hqType hflag' => exact absurd (hclean hready) hcleans

/--
Whoever moves processes between the queues: as long as no step takes a process out of a queue that is
not in it or that is full, nobody is lost.
-/
theorem migration_loses_nobody
    (h : Reach.Reachable init (fun s op s' => Careful s op s' ∧ Migrating s op s') s)
    : (∀ p, (s.proc p).state = .runnable → s.InQueue p)
        ∧ (∀ p, (s.proc p).state = .running → (∀ k, p ∉ s.entries k) →
            (s.proc p).changeRunningQueue = true)
        ∧ ∀ op s', Careful s op s' → ∀ k p, p ∈ s.entries k → p ∉ s'.entries k →
            s.cleans op p = true := by
  have hinv : QueueInv s ∧ Typed s := by
    apply Reach.Reachable.induct (fun s => QueueInv s ∧ Typed s) ⟨.init, .init⟩ _ h
    rintro s op s' _ ⟨hqueue, htyped⟩ ⟨hcareful, hmigrating⟩
    exact ⟨hqueue.step hcareful, htyped.step hqueue.life hcareful.step hmigrating.newType⟩
  rcases hinv with ⟨hqueue, htyped⟩
  refine ⟨?_, ?_, ?_⟩
  . intro p hrun
    rcases htyped.queueId (.inl (.inl hrun)) with ⟨k, hk⟩
    apply hqueue.queued.inQueue (.inl hrun) _ hk
    rw [← Bool.not_eq_true]
    intro hflag
    rw [hqueue.queued.flag p hflag] at hrun
    cases hrun
  . intro p hrun hnone
    rcases htyped.queueId (.inl (.inr hrun)) with ⟨k, hk⟩
    by_contra hflag
    rw [Bool.not_eq_true] at hflag
    rcases hqueue.queued.inQueue (.inr hrun) hflag hk with ⟨k', _, hcount, _⟩
    rw [List.count_eq_zero.mpr (hnone k')] at hcount
    cases hcount
  . intro op s' hstep k p hmem hgone
    by_contra hcleans
    exact hgone (hqueue.mem_of_mem hstep hmem hcleans)

theorem migration_of_running_process
    : ∃ s : State 1, Reach.Reachable init (fun s op s' => Careful s op s' ∧ Migrating s op s') s
        ∧ s.entries .rr = [1, 0] ∧ s.InQueue 0 ∧ s.InQueue 1 := by
  have hrun : ∃ s : State 1,
      Reach.Reachable init (fun s op s' => Careful s op s' ∧ Migrating s op s') s
        ∧ (s.entries .rr = [1, 0] && (s.proc 0).state = .runnable
          && (s.proc 1).state = .runnable) = true := by
    apply exists_of_run (fun s op s' => freshPid s s' && s.carefulCheck op
      && op.newType ≠ some .deflt && s.livePid op)
      _ [.userinit, .scheduler 0, .afterSwtch 0, .forkAlloc 0, .forkCopy 0, .forkEnqueue 0,
        .changeQueue 0 2 1 0, .changeQueue 0 1 1 0, .trapTimer 0, .trapTimer 0, .trapTimer 0,
        .trapTimer 0, .trapTimer 0, .yield 0]
    . decide +kernel
    . intro s op s' hstep hcheck
      simp only [Bool.and_eq_true, decide_eq_true_eq] at hcheck
      rcases hcheck with ⟨⟨⟨hfresh, hcareful⟩, hnew⟩, hlive⟩
      exact ⟨⟨hstep, hfresh, carefulCheck_iff.mp hcareful⟩, ⟨hstep, hfresh, hnew, hlive⟩⟩
  rcases hrun with ⟨s, hreach, hs⟩
  simp only [Bool.and_eq_true, decide_eq_true_eq] at hs
  have hnobody := (migration_loses_nobody hreach).1
  exact ⟨s, hreach, hs.1.1, hnobody 0 hs.1.2, hnobody 1 hs.2⟩

/--
A process moves its child and then itself to `rr_q`, and sleeps before it yields. It is not in `rr_q`
yet, so `sleep` takes the child out.
-/
theorem migration_loses_child
    : ∃ s : State 1, Reach.Reachable init Migrating s ∧ (s.proc 1).state = .runnable ∧ ∀ k, 1 ∉ s.entries k := by
  have hrun : ∃ s : State 1, Reach.Reachable init Migrating s
      ∧ ((s.proc 1).state = .runnable
        && [QueueId.rr, .lcfs, .bjf].all fun k => !(s.entries k).contains 1) = true := by
    apply exists_of_run
      (fun s op s' => freshPid s s' && op.newType ≠ some .deflt && s.livePid op)
      _ [.userinit, .scheduler 0, .afterSwtch 0, .forkAlloc 0, .forkCopy 0, .forkEnqueue 0,
        .changeQueue 0 2 1 0, .changeQueue 0 1 1 0, .sleep 0 7]
    . decide +kernel
    . intro s op s' hstep hcheck
      simp only [Bool.and_eq_true, decide_eq_true_eq] at hcheck
      exact ⟨hstep, hcheck.1.1, hcheck.1.2, hcheck.2⟩
  rcases hrun with ⟨s, hreach, hs⟩
  simp only [Bool.and_eq_true, decide_eq_true_eq, List.all_cons, List.all_nil, Bool.not_eq_true',
    List.contains_eq_mem, decide_eq_false_iff_not] at hs
  refine ⟨s, hreach, hs.1, ?_⟩
  intro k
  cases k
  . exact hs.2.1
  . exact hs.2.2.1
  . exact hs.2.2.2.1

def ofQueues (m : Panic) : Bool :=
  match m with
  | .nothingToClean _ => true
  | .defautSchedulingCleanup => true
  | .noRunnableProcess => true
  | .initExiting => false
  | .userinitAllocprocFailed => false

/--
As long as every process that a step takes out of a queue is in the queue of its type, which is not
full, users cannot make `cleanupCorresQueue` or `scheduler` panic.
-/
theorem no_panic_of_careful (h : Reach.Reachable init Careful s)
    (hop : ∀ p, s.cleans op p = true → s.removable p = true) {m : Panic} (hm : ofQueues m = true)
    : s.step op ≠ some (.error (.panic m)) := by
  intro hstep
  have hinv := queueInv_of_reachable h
  have hsat := (taken_of_step hstep).queued hinv.queued hinv.life hinv.distinctPids hop
  rcases Sat.of_error hsat rfl m rfl with rfl | rfl
  all_goals cases hm

theorem no_panic_of_sleep_after_yield
    : ∃ s : State 1, Reach.Reachable init Careful s ∧ s.cleans (.sleep 0 7) 0 = true
        ∧ ∀ m, ofQueues m = true → s.step (.sleep 0 7) ≠ some (.error (.panic m)) := by
  have hrun : ∃ s : State 1, Reach.Reachable init Careful s
      ∧ (s.cleans (.sleep 0 7) 0 && s.carefulCheck (.sleep 0 7)) = true := by
    apply exists_of_run (fun s op s' => freshPid s s' && s.carefulCheck op)
      _ [.userinit, .scheduler 0, .afterSwtch 0, .changeQueue 0 1 2 0, .trapTimer 0, .yield 0,
        .schedulerReturn 0, .scheduler 0, .afterSwtch 0]
    . decide +kernel
    . intro s op s' hstep hcheck
      simp only [Bool.and_eq_true] at hcheck
      exact ⟨hstep, hcheck.1, carefulCheck_iff.mp hcheck.2⟩
  rcases hrun with ⟨s, hreach, hs⟩
  simp only [Bool.and_eq_true] at hs
  refine ⟨s, hreach, hs.1, ?_⟩
  intro m hm
  exact no_panic_of_careful hreach (carefulCheck_iff.mp hs.2) hm

/-- A process that has moved itself to the type without a queue stops the kernel when it sleeps. -/
theorem panic_of_sleep_without_queue
    : ∃ s : State 1, Reachable s ∧ s.step (.sleep 0 7) = some (.error (.panic .defautSchedulingCleanup)) := by
  have hrun : ∃ s : State 1, Reachable s
      ∧ decide (s.halt? (.sleep 0 7) = some (.panic .defautSchedulingCleanup)) = true := by
    apply exists_of_run (fun _ _ _ => true)
      _ [.userinit, .scheduler 0, .afterSwtch 0, .changeQueue 0 1 0 0]
    . decide +kernel
    . intro s op s' hstep _
      exact hstep
  rcases hrun with ⟨s, hreach, hs⟩
  exact ⟨s, hreach, step_of_halt? (of_decide_eq_true hs)⟩

end State
end Xv6
