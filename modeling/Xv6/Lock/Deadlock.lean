import Xv6.Lock.Paths

namespace Xv6

open SpinLock

variable {n : Nat}

namespace KernelPath

theorem follows_sleepLoopOps {lk : LockId} (hlk : lk ≠ .ptable) (waits : Bool)
    : Follows LockId.ptable [lk] (sleepLoopOps lk waits) := by
  unfold sleepLoopOps
  split
  . simp [sleepOps, Follows, Ne.symm hlk, hlk]
  . simp [Follows]

theorem follows_wakeupOps : Follows LockId.ptable [] wakeupOps := by
  simp [wakeupOps, Follows]

theorem follows_printProcOps (used : Nat) : Follows LockId.ptable [] (printProcOps used) := by
  unfold printProcOps cprintfOps
  simp only [List.cons_append, List.nil_append]
  apply Follows.pair (by simp) (by simp)
  apply Follows.pair (by simp) (by simp)
  refine ⟨by simp, by simp, ?_⟩
  apply Follows.pairs (by simp) (by simp)
  simp [Follows]

theorem follows_consoleintrOps (lines dump : Nat)
    : Follows LockId.ptable [] (consoleintrOps lines dump) := by
  unfold consoleintrOps wakeupOps cprintfOps
  simp only [List.append_assoc, List.cons_append, List.nil_append]
  refine ⟨by simp, by simp, ?_⟩
  apply Follows.pairs (by simp) (by simp)
  refine ⟨by simp, ?_⟩
  rw [← List.append_nil (List.flatten _)]
  apply Follows.pairs (by simp) (by simp)
  simp [Follows]

theorem follows_ops (c : Fin n) (p : KernelPath) : Follows LockId.ptable [] (p.ops c) := by
  have hsleep (lk : LockId) (hlk : lk ≠ .ptable) (waits : Bool)
      : Follows LockId.ptable [] ([.acquire lk] ++ sleepLoopOps lk waits) :=
    ⟨by simp, by simp, follows_sleepLoopOps hlk waits⟩
  cases p with
  | fork allocated =>
    cases allocated
    all_goals simp [ops, forkOps, allocprocOps, Follows]
  | timer =>
    dsimp only [ops]
    split
    . simp [timerOps, agingMechanismOps, wakeupOps, Follows]
    . simp [Follows]
  | sysSleep waits => apply hsleep .tickslock (by decide)
  | sysSleepResumed waits =>
    apply Follows.append follows_wakeupOps
    apply hsleep .tickslock (by decide)
  | wakeup => apply follows_wakeupOps
  | changeQueue found =>
    cases found
    all_goals simp [ops, changeQueueOps, cprintfOps, Follows]
  | printProc used => apply follows_printProcOps
  | consoleintr lines dump => apply follows_consoleintrOps
  | consoleread waits =>
    apply Follows.append follows_wakeupOps
    apply hsleep .cons (by decide)
  | consolereadResumed waits =>
    apply Follows.append follows_wakeupOps
    apply hsleep .cons (by decide)

end KernelPath

/--
No CPUs wait for each other in a cycle, as long as no CPU takes a lock while another one is on a path
that nests this lock with a lock it holds in the opposite order.
-/
theorem no_deadlock_of_cautious {s : SpinLock.State (Fin n) LockId}
    (h : Reach.Reachable .init (SpinLock.State.Cautious (kernel n)) s) (c : Fin n)
    : ¬Relation.TransGen s.Waits c c := by
  apply SpinLock.State.not_cycle_of_reachable KernelPath.follows_ops h

theorem no_deadlock_of_timer_and_allocproc
    : ∃ s : SpinLock.State (Fin 2) LockId, Reach.Reachable .init (SpinLock.State.Cautious (kernel 2)) s
          ∧ (s.rest 0).head? = some (.acquire .ptable) ∧ s.owner .ptable = some 1
          ∧ ∀ c, ¬Relation.TransGen s.Waits c c := by
  have hrun : ∃ s : SpinLock.State (Fin 2) LockId,
      Reach.Reachable .init (SpinLock.State.Cautious (kernel 2)) s
        ∧ ((s.rest 0).head? = some (.acquire .ptable) && s.owner .ptable = some 1) = true := by
    apply Reach.exists_of_exec (f := SpinLock.State.cautiousStep (kernel 2))
      _ [.start 1 (.fork true), .advance 1, .start 0 .timer, .advance 0]
    . decide +kernel
    . intro s a s' h
      apply SpinLock.State.cautious_of_cautiousStep h
  rcases hrun with ⟨s, hreach, hs⟩
  simp only [Bool.and_eq_true, decide_eq_true_eq] at hs
  exact ⟨s, hreach, hs.1, hs.2, no_deadlock_of_cautious hreach⟩

/--
`fork` waits for `tickslock` with `ptable.lock` held, a timer interrupt for `ptable.lock` with
`tickslock` held.
-/
theorem deadlock_of_fork_and_timer
    : ∃ s : SpinLock.State (Fin 2) LockId,
        Reach.Reachable .init (fun s a s' => s.step (kernel 2) a = some s') s
          ∧ Relation.TransGen s.Waits 0 0 := by
  have hrun : ∃ s : SpinLock.State (Fin 2) LockId,
      Reach.Reachable .init (fun s a s' => s.step (kernel 2) a = some s') s
        ∧ ((s.rest 0).head? = some (.acquire .ptable) && s.owner .ptable = some 1
          && (s.rest 1).head? = some (.acquire .tickslock) && s.owner .tickslock = some 0) = true := by
    apply Reach.exists_of_exec (f := SpinLock.State.step (kernel 2))
      _ [.start 1 (.fork true), .advance 1, .advance 1, .advance 1, .start 0 .timer, .advance 0]
    . decide +kernel
    . intro s a s' h
      exact h
  rcases hrun with ⟨s, hreach, hs⟩
  simp only [Bool.and_eq_true, decide_eq_true_eq, List.head?_eq_some_iff] at hs
  rcases hs with ⟨⟨⟨⟨r0, h0⟩, hptable⟩, r1, h1⟩, hticks⟩
  refine ⟨s, hreach, ?_⟩
  have h01 : s.Waits 0 1 := ⟨.ptable, r0, h0, hptable⟩
  have h10 : s.Waits 1 0 := ⟨.tickslock, r1, h1, hticks⟩
  exact .tail (.single h01) h10

end Xv6
