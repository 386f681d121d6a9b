import Mathlib.Data.Set.Function
import Xv6.Proc.Lemmas.Refine

namespace Xv6

open LifeCycle

variable {n : Nat}

namespace State

variable {s s' : State n} {op : Op n}

/--
When `ptable.lock` is free, the current processes of the CPUs are the RUNNING processes, each of them
on one CPU.
-/
theorem one_cpu_per_process (h : Reachable s) (hlock : s.lock = none)
    : Set.BijOn (fun c => (s.cpu c).proc) {c | (s.cpu c).proc ≠ none}
        (Set.image some {p | (s.proc p).state = .running}) := by
  have hcpu := (Reachable.lifeCycleInv h).oneCpu
  refine ⟨?_, ?_, ?_⟩
  . intro c hc
    rcases Option.ne_none_iff_exists'.mp hc with ⟨p, hp⟩
    refine ⟨p, ?_, hp.symm⟩
    apply hcpu.running c p hp
    intro hreturned
    have hheld := (hcpu.lock c).mpr (.inr hreturned)
    rw [Core.abs_lock, hlock] at hheld
    cases hheld
  . intro c hc d _ heq
    rcases Option.ne_none_iff_exists'.mp hc with ⟨p, hp⟩
    apply hcpu.inj c d p hp
    exact heq.symm.trans hp
  . rintro _ ⟨p, hp, rfl⟩
    rcases hcpu.onCpu p hp with ⟨c, hc⟩
    refine ⟨c, ?_, hc⟩
    exact Option.ne_none_iff_exists'.mpr ⟨p, hc⟩

theorem one_cpu_per_process_of_two
    : ∃ s : State 2, Reachable s ∧ s.lock = none ∧ (s.cpu 0).proc = some 0 ∧ (s.cpu 1).proc = some 1
        ∧ Set.BijOn (fun c => (s.cpu c).proc) {c | (s.cpu c).proc ≠ none}
            (Set.image some {p | (s.proc p).state = .running}) := by
  have hrun : ∃ s : State 2, Reachable s
      ∧ (s.lock = none && (s.cpu 0).proc = some 0 && (s.cpu 1).proc = some 1) = true := by
    apply exists_of_run (fun _ _ _ => true)
      _ [.userinit, .scheduler 0, .afterSwtch 0, .forkAlloc 0, .forkCopy 0, .forkEnqueue 0,
        .scheduler 1, .afterSwtch 1]
    . decide +kernel
    . intro s op s' hstep _
      exact hstep
  rcases hrun with ⟨s, hreach, hs⟩
  simp only [Bool.and_eq_true, decide_eq_true_eq] at hs
  exact ⟨s, hreach, hs.1.1, hs.1.2, hs.2, one_cpu_per_process hreach hs.1.1⟩

theorem wait_eax {s t : Core n} {c : Fin n} {p q z : ProcPtr} (h : s.WaitEffect c p t)
    (hfinds : s.waitFinds p = some (q, z))
    : (t.proc q).eax = (s.proc z).pid := by
  unfold Core.waitFinds at hfinds
  cases h with
  | found z' hscan =>
    rw [hscan] at hfinds
    cases hfinds
    rw [Core.resume_proc, Core.sysReturn_eq_modify, Core.modify_proc, if_pos rfl]
  | refused havekids hscan hno =>
    rw [hscan] at hfinds
    cases hfinds
  | sleeps havekids hscan hyes =>
    rw [hscan] at hfinds
    cases hfinds

theorem Steps.eax_of_reaped (h : Steps s op s') {p z : ProcPtr} (hreaped : s.reaped op = some (p, z))
    : (s'.proc p).eax = (s.proc z).pid := by
  have heffect := h.effect
  generalize s'.toCore = t at heffect ⊢
  cases heffect with
  | wait c q t hcalls hwait =>
    simp only [Core.reaped, hcalls.cur, Option.bind_some] at hreaped
    exact wait_eax hwait hreaped
  | resumeWait c q t hmode hcur hctx hwait =>
    simp only [Core.reaped, hcur, Option.bind_some, if_pos hctx] at hreaped
    rw [← Core.waitFinds_clearChan] at hreaped
    rw [wait_eax hwait hreaped]
    apply Core.modify_field (g := Proc.pid)
    intro pr
    rfl
  | resume c q hmode hcur hctx =>
    rw [Core.reaped_afterSwtch hcur (by rcases hctx with hctx | hctx <;> simp [hctx])] at hreaped
    cases hreaped
  | resumeSleep c q hmode hcur hctx =>
    rw [Core.reaped_afterSwtch hcur (by simp [hctx])] at hreaped
    cases hreaped
  | _ => cases hreaped

structure HandOff (s : State n) : Prop where
  parent : ∀ p, (s.proc p).state ≠ .unused → (s.proc p).state ≠ .embryo → s.initproc ≠ some p →
    ∃ q, (s.proc p).parent = some q ∧ (s.proc q).state ≠ .unused ∧ (s.proc q).state ≠ .embryo
      ∧ (s.proc q).state ≠ .zombie
  waiting : ∀ p z, (s.proc p).state = .sleeping → (s.proc p).chan = some (.proc p) →
    (s.proc z).parent = some p → (s.proc z).state ≠ .zombie
  pids : ∀ p q, (s.proc p).state ≠ .unused → (s.proc q).state ≠ .unused →
    (s.proc p).pid = (s.proc q).pid → p = q

theorem PidInv.handOff (h : PidInv s) : s.HandOff where
  parent := by
    intro p hunused hembryo hinit
    have hstarted : (s.abs.proc p).Started := by
      change (s.proc p).life.Started
      cases hstate : (s.proc p).state
      all_goals simp_all [Life.Started, Life.Alive, Proc.life]
    rcases h.life.family.parent p hstarted hinit with ⟨q, hparent, halive⟩
    refine ⟨q, hparent, ?_⟩
    rcases halive with hq | hq | hq
    all_goals
      change (s.proc q).state = _ at hq
      simp [hq]
  waiting := by
    intro p z hsleep hchan
    apply h.life.family.waiting p z
    simp [Proc.life, hsleep, hchan]
  pids := h.pids.inj

structure Numbered (s : State n) (op : Op n) (s' : State n) : Prop where
  step : Steps s op s'
  fresh : freshPid s s' = true

theorem numbered_of_checkedStep (s : State n) (op : Op n) (s' : State n)
    (h : checkedStep (fun s _ s' => freshPid s s') s op = some s')
    : Numbered s op s' := by
  have hboth := checkedStep_eq_some h
  exact ⟨hboth.1, hboth.2⟩

structure Returns (s : State n) (s' : State n) (p z : ProcPtr) : Prop where
  parent : (s.proc z).parent = some p
  zombie : (s.proc z).state = .zombie
  eax : (s'.proc p).eax = (s.proc z).pid

theorem Numbered.gone (h : Numbered s op s') (hinv : PidInv s) {p z : ProcPtr} (hreaped : s.reaped op = some (p, z))
    : Returns s s' p z ∧ Gone (s.proc z).pid s'.abs := by
  have habs := h.step.simulates hinv.life.forks hinv.life.oneCpu
  rw [hreaped] at habs
  rcases Gone.of_reap hinv.pids habs with ⟨hparent, hzombie, hgone⟩
  exact ⟨⟨hparent, hzombie, h.step.eax_of_reaped hreaped⟩, hgone⟩

/-- In every run, `exit` and `wait` hand a process over to its parent, once. -/
theorem exit_wait_handOff (tr : Reach.Trace (Numbered (n := n))) (h : tr.state 0 = init)
    : (∀ i, i ≤ tr.length → (tr.state i).HandOff)
        ∧ (∀ i p z, i < tr.length → (tr.state i).reaped (tr.act i) = some (p, z) →
            Returns (tr.state i) (tr.state (i + 1)) p z)
        ∧ ∀ i j p p' z z', i < j → j < tr.length → (tr.state i).reaped (tr.act i) = some (p, z) →
            (tr.state j).reaped (tr.act j) = some (p', z') →
            ((tr.state i).proc z).pid ≠ ((tr.state j).proc z').pid := by
  have hinv (i : Nat) (hi : i ≤ tr.length) : PidInv (tr.state i) := by
    apply tr.induct PidInv _ (Nat.zero_le i) hi
    . rw [h]
      exact .init
    . intro s op s' hs hstep
      exact hs.step hstep.step hstep.fresh
  refine ⟨?_, ?_, ?_⟩
  . intro i hi
    exact (hinv i hi).handOff
  . intro i p z hi hreaped
    exact ((tr.next i hi).gone (hinv i (by omega)) hreaped).1
  . intro i j p p' z z' hij hj hi hreaped
    -- The pid is gone right after the first `wait`, and stays gone.
    have hgone := ((tr.next i (by omega)).gone (hinv i (by omega)) hi).2
    have hlater : PidInv (tr.state j) ∧ Gone ((tr.state i).proc z).pid (tr.state j).abs := by
      apply tr.induct (fun s => PidInv s ∧ Gone ((tr.state i).proc z).pid s.abs)
        _ (i := i + 1) (by omega) (by omega)
      . exact ⟨hinv (i + 1) (by omega), hgone⟩
      . rintro s op s' ⟨hs, hsgone⟩ hstep
        refine ⟨hs.step hstep.step hstep.fresh, ?_⟩
        have habs := hstep.step.simulates hs.life.forks hs.life.oneCpu
        apply hsgone.step hs.pids hs.life.forks hs.life.oneCpu habs
        apply fresh_of_freshPid hstep.fresh
    have hreturns := ((tr.next j hj).gone hlater.1 hreaped).1
    apply Ne.symm
    apply hlater.2.ne z'
    simp [Life.Live, Proc.life, hreturns.zombie]

theorem exit_wait_handOff_of_child
    : ∃ tr : Reach.Trace (Numbered (n := 1)), tr.state 0 = init ∧ tr.length = 14
        ∧ (tr.state 13).reaped (tr.act 13) = some (0, 1)
        ∧ Returns (tr.state 13) (tr.state 14) 0 1 ∧ (tr.state 14).HandOff := by
  let tr := Reach.Trace.ofExec _ (numbered_of_checkedStep (n := 1)) init
    [.userinit, .scheduler 0, .afterSwtch 0, .forkAlloc 0, .forkCopy 0, .forkEnqueue 0, .wait 0,
      .schedulerReturn 0, .scheduler 0, .afterSwtch 0, .exit 0, .schedulerReturn 0, .scheduler 0,
      .afterSwtch 0] .userinit (by decide +kernel)
  have hreaped : (tr.state 13).reaped (tr.act 13) = some (0, 1) := by decide +kernel
  have hboth := exit_wait_handOff tr rfl
  refine ⟨tr, rfl, rfl, hreaped, ?_, ?_⟩
  . apply hboth.2.1 13 0 1 (by decide) hreaped
  . apply hboth.1 14 (by decide)

end State
end Xv6
