import Xv6.LifeCycle.Family
import Xv6.LifeCycle.Pids
import Xv6.Proc.Lemmas.Effect

namespace Xv6

open LifeCycle

variable {n : Nat} {s : Core n} {p : ProcPtr} {c : Fin n} {f : Proc → Proc} {op : Op n}

def Proc.life (pr : Proc) : Life ProcPtr where
  state := pr.state
  pid := pr.pid
  parent := pr.parent
  chan := if pr.state = .sleeping then pr.chan else none
  fork := pr.fork

def Mode.phase : Mode → Phase
  | .idle => .idle
  | .running => .running
  | .yielding => .running
  | .dispatched => .dispatched
  | .returned => .returned

def Core.abs (s : Core n) : Table ProcPtr (Fin n) where
  proc := fun p => (s.proc p).life
  cur := fun c => (s.cpu c).proc
  phase := fun c => (s.cpu c).mode.phase
  lock := s.lock
  initproc := s.initproc
  nextpid := s.nextpid

namespace Proc

theorem life_of_awake {pr : Proc} (h : pr.state ≠ .sleeping)
    : pr.life = ⟨pr.state, pr.pid, pr.parent, none, pr.fork⟩ := by
  simp [life, h]

theorem life_wakeIf (pr : Proc) (w : Prop) : (pr.wakeIf w).life = pr.life.wake w := by
  unfold wakeIf Life.wake
  by_cases h : w ∧ pr.state = .sleeping
  . simp [h, life]
  . rw [if_neg h]
    exact (if_neg h).symm

theorem life_reparent (pr : Proc) (p : ProcPtr) (r : Option ProcPtr)
    : (pr.reparent p r).life = pr.life.reparent p r := by
  unfold reparent Life.reparent
  by_cases h : pr.parent = some p
  . simp [h, life]
  . rw [if_neg h]
    exact (if_neg h).symm

theorem life_age (pr : Proc) : pr.age.life = pr.life := by
  unfold age
  split
  all_goals rfl

end Proc

namespace Core

@[simp]
theorem abs_proc (s : Core n) (p : ProcPtr) : s.abs.proc p = (s.proc p).life := by
  rfl

@[simp]
theorem abs_cur (s : Core n) (c : Fin n) : s.abs.cur c = (s.cpu c).proc := by
  rfl

@[simp]
theorem abs_phase (s : Core n) (c : Fin n) : s.abs.phase c = (s.cpu c).mode.phase := by
  rfl

@[simp]
theorem abs_lock (s : Core n) : s.abs.lock = s.lock := by
  rfl

@[simp]
theorem abs_initproc (s : Core n) : s.abs.initproc = s.initproc := by
  rfl

theorem abs_modify (s : Core n) (p : ProcPtr) (f : Proc → Proc)
    : (s.modify p f).abs = s.abs.setProc p (f (s.proc p)).life := by
  unfold abs modify Table.setProc
  congr 1
  funext q
  simp only [setProc_proc, Function.update_apply]
  split
  all_goals rfl

theorem abs_modify_awake
    (hsleep : (s.proc p).state ≠ .sleeping) (hsleep' : (f (s.proc p)).state ≠ .sleeping)
    (hpid : (f (s.proc p)).pid = (s.proc p).pid)
    (hparent : (f (s.proc p)).parent = (s.proc p).parent)
    (hfork : (f (s.proc p)).fork = (s.proc p).fork)
    : (s.modify p f).abs
        = s.abs.setProc p { s.abs.proc p with state := (f (s.proc p)).state } := by
  rw [abs_modify, abs_proc, Proc.life_of_awake hsleep, Proc.life_of_awake hsleep', hpid, hparent,
    hfork]

theorem abs_mapProc {f : ProcPtr → Proc → Proc}
    (h : ∀ p, (f p (s.proc p)).life = (s.proc p).life)
    : (s.mapProc f).abs = s.abs := by
  unfold abs
  congr 1
  funext p
  exact h p

theorem abs_modify_of_life
    (h : (f (s.proc p)).life = (s.proc p).life)
    : (s.modify p f).abs = s.abs := by
  unfold modify
  rw [setProc_eq_mapProc, abs_mapProc]
  intro q
  split
  . next hq => rw [h, hq]
  . rfl

theorem abs_modify_fork
    (x : Option (ProcPtr × ForkStage))
    (h : (f (s.proc p)).life = { (s.proc p).life with fork := x })
    : (s.modify p f).abs = s.abs.setProc p { s.abs.proc p with fork := x } := by
  rw [abs_modify, h, abs_proc]

@[simp]
theorem abs_sysReturn (s : Core n) (p : ProcPtr) (r : Int) : (s.sysReturn p r).abs = s.abs := by
  rw [sysReturn_eq_modify, abs_modify_of_life]
  rfl

theorem abs_initStack (s : Core n) (np : ProcPtr) : (s.initStack np).abs = s.abs := by
  rw [initStack_eq_modify, abs_modify_of_life]
  rfl

theorem abs_setCpu (s : Core n) (c : Fin n) (cpu : Cpu)
    : (s.setCpu c cpu).abs =
        { s.abs with
          cur := Function.update s.abs.cur c cpu.proc
          phase := Function.update s.abs.phase c cpu.mode.phase } := by
  unfold abs setCpu
  congr 1
  all_goals
    funext d
    simp only [Function.update_apply]
    split
    all_goals rfl

theorem abs_setCpu_same {cpu : Cpu} (hproc : cpu.proc = (s.cpu c).proc)
    (hphase : cpu.mode.phase = (s.cpu c).mode.phase)
    : (s.setCpu c cpu).abs = s.abs := by
  rw [abs_setCpu, hproc, hphase, ← abs_cur s c, ← abs_phase s c, Function.update_eq_self,
    Function.update_eq_self]

theorem abs_wakeup (s : Core n) (chan : Option (Chan ProcPtr))
    : (s.mapProc fun _ pr => pr.wakeIf (pr.chan = chan)).abs
        = s.abs.wake fun q => (s.proc q).chan = chan := by
  apply Table.ext
  . funext q
    exact Proc.life_wakeIf _ _
  all_goals rfl

theorem abs_sched (s : Core n) (c : Fin n) : (s.sched c).abs = s.abs.sched c := by
  have h := abs_setCpu s c { s.cpu c with mode := .returned }
  unfold sched Table.sched
  rw [← abs_cur s c, Function.update_eq_self] at h
  exact congrArg (fun t : Table ProcPtr (Fin n) => { t with lock := some c }) h

theorem abs_resume (s : Core n) (c : Fin n) : (s.resume c).abs = s.abs.resume c := by
  have h := abs_setCpu s c { s.cpu c with mode := .running }
  unfold resume Table.resume
  rw [← abs_cur s c, Function.update_eq_self] at h
  exact congrArg (fun t : Table ProcPtr (Fin n) => { t with lock := none }) h

theorem abs_goIdle (s : Core n) (c : Fin n) : (s.goIdle c).abs = s.abs.retire c := by
  have h := abs_setCpu s c { s.cpu c with proc := none, mode := .idle }
  exact congrArg (fun t : Table ProcPtr (Fin n) => { t with lock := none }) h

theorem abs_dispatch {site : Site}
    (hp : (s.proc p).state = .runnable)
    : (s.dispatch c p site).abs = s.abs.dispatch c p := by
  have h := abs_setCpu (s.modify p fun pr => { pr with waitingTime := 0, state := .running }) c
    { proc := some p, mode := .dispatched, site := site }
  rw [abs_modify_awake] at h
  . exact congrArg (fun t : Table ProcPtr (Fin n) => { t with lock := some c }) h
  . simp [hp]
  . simp
  all_goals rfl

theorem abs_allocproc {s s' : Core n} {np : ProcPtr} (h : s.allocproc = some (np, s'))
    : s'.abs = s.abs.alloc np := by
  rcases allocproc_eq_some h with ⟨hnp, rfl⟩
  apply Table.ext
  . funext q
    by_cases hq : q = np
    . simp [Table.alloc, hq, Proc.life, hnp, abs]
    . simp [Table.alloc, hq]
  all_goals rfl

theorem canRun_of_calls (h : s.Calls c p)
    : s.abs.CanRun c p := by
  refine ⟨h.cur, .inr ⟨?_, h.lock⟩⟩
  simp [h.mode, Mode.phase]

def waitFinds (s : Core n) (p : ProcPtr) : Option (ProcPtr × ProcPtr) :=
  match s.waitScan p (List.finRange NPROC) false with
  | .found z => some (p, z)
  | .done _ => none

def reaped (s : Core n) (op : Op n) : Option (ProcPtr × ProcPtr) :=
  match op with
  | .wait c => (s.cpu c).proc.bind s.waitFinds
  | .afterSwtch c =>
    (s.cpu c).proc.bind fun p => if (s.proc p).context = .wait then s.waitFinds p else none
  | _ => none

theorem reaped_afterSwtch (hcur : (s.cpu c).proc = some p)
    (hctx : (s.proc p).context ≠ .wait)
    : s.reaped (.afterSwtch c) = none := by
  simp [reaped, hcur, hctx]

theorem waitFinds_clearChan (s : Core n) (p : ProcPtr)
    : (s.modify p fun pr => { pr with chan := none }).waitFinds p = s.waitFinds p := by
  unfold waitFinds
  rw [waitScan_congr]
  all_goals
    intro q
    rw [modify_proc]
    split
    all_goals rfl

theorem WaitEffect.simulates {s t : Core n} (h : s.WaitEffect c p t)
    (hrun : s.abs.CanRun c p)
    : Table.Step s.abs (s.waitFinds p) t.abs := by
  unfold waitFinds
  cases h with
  | found z hscan =>
    rcases waitScan_found hscan with ⟨hparent, hzombie⟩
    have hreap : (s.reap z).abs = s.abs.reap z := by
      rw [reap_eq_modify, abs_modify]
      simp [Table.reap, Proc.life, hzombie]
    simp only [hscan, abs_resume, abs_sysReturn, hreap]
    exact .waitReap s.abs c p z hrun hparent hzombie
  | refused havekids hscan hno =>
    simp only [hscan, abs_resume, abs_sysReturn]
    exact .resume s.abs c p hrun
  | sleeps havekids hscan hyes =>
    simp only [hscan, abs_sched, abs_modify]
    refine .waitSleep s.abs c p hrun ?_
    intro z hparent
    exact waitScan_done hscan (List.mem_finRange z) hparent

theorem abs_exit (W : ProcPtr → Prop) (hrun : (s.proc p).state = .running)
    : ((s.mapProc fun q pr => (pr.wakeIf (W q)).reparent p s.initproc).modify p fun pr =>
          { pr with state := .zombie }).abs
        = s.abs.exit p W := by
  apply Table.ext
  . funext q
    by_cases hq : q = p
    . have hstate : (((s.proc p).wakeIf (W p)).reparent p s.initproc).state ≠ .sleeping := by
        simp [Proc.wakeIf, hrun]
      simp only [hq, Table.exit, Table.setProc_proc, if_true, abs_proc, abs_initproc, modify_proc,
        mapProc_proc, ← Proc.life_wakeIf, ← Proc.life_reparent]
      rw [Proc.life_of_awake hstate, Proc.life_of_awake (by simp)]
    . simp [hq, Table.exit, modify_proc, Proc.life_reparent, Proc.life_wakeIf]
  all_goals rfl

theorem abs_userinit (hp : (s.proc p).state = .unused)
    : Core.abs
        { s.modify p fun pr =>
            { pr with
              state := .runnable, pid := s.nextpid, fork := none, context := .forkret
              arrivetime := s.ticks, eax := 0, qType := .lcfs } with
          nextpid := int32 (s.nextpid + 1), initproc := some p }
        = s.abs.boot p := by
  apply Table.ext
  . funext q
    by_cases hq : q = p
    . simp [Table.boot, Table.alloc, hq, modify_proc, Proc.life, hp, abs]
    . simp [Table.boot, Table.alloc, hq, modify_proc]
  all_goals rfl

theorem abs_kill (s : Core n) (q : ProcPtr)
    : (s.modify q fun pr => { pr with killed := true }.wakeIf True).abs = s.abs.wake (· = q) := by
  rw [abs_modify, Proc.life_wakeIf]
  apply Table.ext
  . funext q'
    by_cases hq : q' = q
    . simp [hq, Table.wake]
      rfl
    . simp [hq, Table.wake, Life.wake]
  all_goals rfl

theorem abs_forkFail {p np : ProcPtr} (hnp : (s.proc np).state = .embryo)
    : ((s.modify np fun pr => { pr with state := .unused }).modify p fun pr =>
          { pr with fork := none, eax := -1 }).abs
        = s.abs.forkFail p np := by
  rw [abs_modify_fork none rfl, abs_modify_awake]
  . rfl
  . simp [hnp]
  . simp
  all_goals rfl

theorem chan_of_abs {q r : ProcPtr} (hq : (s.abs.proc q).chan = some (.proc r))
    : (s.proc q).chan = some (.proc r) := by
  simp only [abs_proc, Proc.life] at hq
  split at hq
  . exact hq
  . cases hq

theorem Effect.simulates {s t : Core n} (h : s.Effect op t) (hforks : Forks s.abs)
    (hcpu : OneCpu s.abs)
    : Table.Step s.abs (s.reaped op) t.abs := by
  have hrunning {c : Fin n} {p : ProcPtr} (hc : s.Calls c p) : (s.proc p).state = .running :=
    hcpu.canRun_running (canRun_of_calls hc)
  have hembryo {c : Fin n} {p np : ProcPtr} {st : ForkStage} (hb : s.Builds c p np st)
      : (s.proc np).state = .embryo :=
    hforks.embryo p np st hb.fork
  have hphase {c : Fin n} {p np : ProcPtr} {st : ForkStage} (hb : s.Builds c p np st)
      : s.abs.phase c = .running := by
    simp [hb.mode, Mode.phase]
  have hcan {c : Fin n} {p : ProcPtr} (hmode : (s.cpu c).mode = .dispatched)
      (hcur : (s.cpu c).proc = some p)
      : s.abs.CanRun c p := by
    refine ⟨hcur, .inl ?_⟩
    simp [hmode, Mode.phase]
  -- A process that runs has no channel in the abstract.
  have hclear {c : Fin n} {p : ProcPtr} (hc : s.abs.CanRun c p)
      : (s.modify p fun pr => { pr with chan := none }).abs = s.abs := by
    have hrun : (s.proc p).state = .running := hcpu.canRun_running hc
    rw [abs_modify_of_life]
    simp [Proc.life, hrun]
  cases h with
  | userinit p hlock hinit hp =>
    rw [abs_userinit hp]
    exact .boot s.abs p hinit hp
  | dispatch c p site hlock hmode hp =>
    rw [abs_dispatch hp]
    exact .dispatch s.abs c p (.inr ⟨by simp [hmode, Mode.phase], hlock⟩) hp
  | goIdle c hlock hmode =>
    rw [abs_goIdle]
    exact .retire s.abs c (.inr ⟨by simp [hmode, Mode.phase], hlock⟩)
  | dispatchNext c p q site hmode hcur hq =>
    rw [abs_dispatch hq]
    exact .dispatch s.abs c q (.inl (by simp [hmode, Mode.phase])) hq
  | endRound c p hmode hcur =>
    rw [abs_goIdle]
    exact .retire s.abs c (.inl (by simp [hmode, Mode.phase]))
  | resume c p hmode hcur hctx =>
    have hother : (s.proc p).context ≠ .wait := by
      rcases hctx with hctx | hctx
      all_goals simp [hctx]
    rw [reaped_afterSwtch hcur hother, abs_resume]
    exact .resume s.abs c p (hcan hmode hcur)
  | resumeSleep c p hmode hcur hctx =>
    rw [reaped_afterSwtch hcur (by simp [hctx]), abs_resume, hclear (hcan hmode hcur)]
    exact .resume s.abs c p (hcan hmode hcur)
  | resumeWait c p t hmode hcur hctx hwait =>
    have hsim := hwait.simulates (hclear (hcan hmode hcur) ▸ hcan hmode hcur)
    rw [hclear (hcan hmode hcur), waitFinds_clearChan] at hsim
    simp only [reaped, hcur, Option.bind_some, if_pos hctx]
    exact hsim
  | trapIgnore c p hmode hcur hstate => exact .tau s.abs
  | trapTick c p hmode hcur hstate =>
    rw [abs_modify_of_life rfl]
    exact .tau s.abs
  | trapYield c p hmode hcur hstate =>
    rw [abs_setCpu_same, abs_modify_of_life]
    . exact .tau s.abs
    . rfl
    . rfl
    . change Mode.phase .yielding = (s.cpu c).mode.phase
      rw [hmode]
      rfl
  | yield c p hlock hmode hcur =>
    have hyielding : s.abs.phase c = .running := by simp [hmode, Mode.phase]
    have hrun : (s.proc p).state = .running := hcpu.cur_running hcur hyielding
    -- The cursor of `rr_q` is of no interest here.
    change Table.Step s.abs none (sched (s.modify p fun pr =>
      { pr with
        runningTicks := 0, changeRunningQueue := false, state := .runnable, context := .yield }) c).abs
    rw [abs_sched, abs_modify_awake]
    . exact .yield s.abs c p hlock hcur hyielding
    . simp [hrun]
    . simp
    all_goals rfl
  | sleep c a p hcalls =>
    rw [abs_sched, abs_modify]
    exact .sleep s.abs c p a (canRun_of_calls hcalls)
  | wait c p t hcalls hwait =>
    simp only [reaped, hcalls.cur, Option.bind_some]
    exact hwait.simulates (canRun_of_calls hcalls)
  | exit c p W hcalls hinit hparent hpass =>
    rw [abs_sched, abs_exit W (hrunning hcalls)]
    refine .exit s.abs c p W hcalls.lock hcalls.cur ?_ hcalls.fork hinit ?_ ?_
    . simp [hcalls.mode, Mode.phase]
    . intro q hq hwait
      apply hparent
      have hq : (s.proc p).parent = some q := hq
      rw [chan_of_abs hwait, hq]
      rfl
    . intro z r hz hzombie hr hwait
      apply hpass z hz hzombie
      have hr : s.initproc = some r := hr
      rw [chan_of_abs hwait, hr]
      rfl
  | forkFull c p hcalls halloc =>
    rw [abs_sysReturn]
    exact .tau s.abs
  | forkAlloc c p np t hcalls halloc =>
    rw [abs_modify_fork (some (np, .allocated)) rfl, abs_allocproc halloc]
    refine .forkAlloc s.abs c p np hcalls.cur ?_ hcalls.fork (allocproc_eq_some halloc).1
    simp [hcalls.mode, Mode.phase]
  | forkNoStack c p np hbuilds =>
    rw [abs_forkFail (hembryo hbuilds)]
    exact .forkFail s.abs c p np hbuilds.cur (hphase hbuilds) hbuilds.fork
  | forkNoMemory c p np hbuilds =>
    rw [abs_forkFail, abs_initStack]
    . exact .forkFail s.abs c p np hbuilds.cur (hphase hbuilds) hbuilds.fork
    . simp [initStack, hembryo hbuilds]
  | forkCopy c p np hbuilds =>
    have hcopy : (((s.initStack np).modify np fun pr => { pr with parent := some p, eax := 0 }).modify p
        fun pr => { pr with fork := some (np, .copied) }).abs = s.abs.forkCopy p np := by
      rw [abs_modify_fork (some (np, .copied)) rfl, abs_modify, abs_initStack]
      simp [initStack, Table.forkCopy, Proc.life]
    rw [hcopy]
    exact .forkCopy s.abs c p np hbuilds.cur (hphase hbuilds) hbuilds.fork
  | forkEnqueue c p np hlock hbuilds =>
    rw [abs_modify_fork none rfl, abs_modify_awake]
    . exact .forkEnd s.abs c p np hbuilds.cur (hphase hbuilds) hbuilds.fork
    . simp [hembryo hbuilds]
    . simp
    all_goals rfl
  | killNobody c pid r p hcalls =>
    rw [abs_sysReturn]
    exact .tau s.abs
  | kill c pid r p q hcalls hfind =>
    rw [abs_sysReturn, abs_kill]
    exact .wake s.abs _ hcalls.lock
  | wakeup a hlock =>
    rw [abs_wakeup]
    exact .wake s.abs _ hlock
  | tick c hc => exact .tau s.abs
  | agingMechanism c hc hlock =>
    rw [abs_mapProc fun p => Proc.life_age _]
    exact .tau s.abs
  | changeNobody c pid queueID beyond r p hcalls =>
    rw [abs_sysReturn]
    exact .tau s.abs
  | changeQueue c pid queueID beyond p q k hcalls hk hfind =>
    rw [abs_sysReturn, abs_modify_of_life rfl]
    exact .tau s.abs
  | changeLocalBjf c pid pRatio aRatio eRatio sRatio p q hcalls hfind =>
    rw [abs_sysReturn, abs_modify_of_life rfl]
    exact .tau s.abs
  | changeGlobalBjf c pRatio aRatio eRatio sRatio p hcalls =>
    rw [abs_sysReturn]
    exact .tau s.abs

end Core

namespace State

theorem Steps.simulates {s s' : State n} (h : Steps s op s') (hforks : Forks s.abs)
    (hcpu : OneCpu s.abs)
    : Table.Step s.abs (s.reaped op) s'.abs :=
  h.effect.simulates hforks hcpu

theorem init_abs : Table.Initial (init (n := n)).abs := by
  refine ⟨?_, ?_, rfl, rfl, rfl⟩
  . intro p
    rfl
  . intro c
    exact ⟨rfl, rfl⟩

structure LifeCycleInv (s : State n) : Prop where
  forks : Forks s.abs
  oneCpu : OneCpu s.abs
  family : Family s.abs

theorem LifeCycleInv.init : LifeCycleInv (State.init (n := n)) where
  forks := init_abs.forks
  oneCpu := init_abs.oneCpu
  family := init_abs.family

theorem LifeCycleInv.step {s s' : State n} (h : LifeCycleInv s) (hstep : Steps s op s')
    : LifeCycleInv s' := by
  have habs := hstep.simulates h.forks h.oneCpu
  exact ⟨h.forks.step h.oneCpu habs, h.oneCpu.step h.forks habs, h.family.step h.forks h.oneCpu habs⟩

theorem Reachable.lifeCycleInv {s : State n} (h : Reachable s) : LifeCycleInv s := by
  apply Reach.Reachable.induct LifeCycleInv LifeCycleInv.init _ h
  intro s op s' _ hinv hstep
  exact hinv.step hstep

def freshPid (s s' : State n) : Bool :=
  s'.nextpid = s.nextpid || 0 < s.nextpid

theorem fresh_of_freshPid {s s' : State n} (h : freshPid s s' = true) : Fresh s.abs s'.abs := by
  intro hne
  change s'.nextpid ≠ s.nextpid at hne
  change 0 < s.nextpid
  simpa [freshPid, hne] using h

structure PidInv (s : State n) : Prop where
  life : LifeCycleInv s
  pids : Pids s.abs

theorem PidInv.init : PidInv (State.init (n := n)) where
  life := .init
  pids := init_abs.pids

theorem PidInv.step {s s' : State n} (h : PidInv s) (hstep : Steps s op s')
    (hfresh : freshPid s s' = true)
    : PidInv s' where
  life := h.life.step hstep
  pids := by
    have habs := hstep.simulates h.life.forks h.life.oneCpu
    apply h.pids.step h.life.forks h.life.oneCpu habs
    apply fresh_of_freshPid hfresh

end State
end Xv6
