import Xv6.Proc.Lemmas.Scheduler
import Xv6.Proc.Lemmas.Step

namespace Xv6

open Outcome

variable {n : Nat}

namespace Core

def modify (s : Core n) (p : ProcPtr) (f : Proc → Proc) : Core n :=
  s.setProc p (f (s.proc p))

theorem modify_proc (s : Core n) (p q : ProcPtr) (f : Proc → Proc)
    : (s.modify p f).proc q = if q = p then f (s.proc q) else s.proc q := by
  unfold modify
  rw [setProc_proc]
  split
  . next hq => rw [hq]
  . rfl

theorem modify_field {s : Core n} {p : ProcPtr} {f : Proc → Proc} {α : Type} {g : Proc → α}
    (h : ∀ pr, g (f pr) = g pr) (q : ProcPtr)
    : g ((s.modify p f).proc q) = g (s.proc q) := by
  rw [modify_proc]
  split
  . rw [h]
  . rfl

theorem sysReturn_eq_modify (s : Core n) (p : ProcPtr) (r : Int)
    : s.sysReturn p r = s.modify p fun pr => { pr with eax := r } := by
  rfl

theorem initStack_eq_modify (s : Core n) (p : ProcPtr)
    : s.initStack p = s.modify p fun pr => { pr with context := .forkret, arrivetime := s.ticks } := by
  rfl

theorem reap_eq_modify (s : Core n) (p : ProcPtr)
    : s.reap p = s.modify p fun pr =>
        { pr with pid := 0, parent := none, killed := false, state := .unused } := by
  rfl

@[simp]
theorem setCpu_proc (s : Core n) (c : Fin n) (cpu : Cpu) : (s.setCpu c cpu).proc = s.proc := by
  rfl

@[simp]
theorem resume_proc (s : Core n) (c : Fin n) : (s.resume c).proc = s.proc := by
  rfl

@[simp]
theorem sched_proc (s : Core n) (c : Fin n) : (s.sched c).proc = s.proc := by
  rfl

@[simp]
theorem goIdle_proc (s : Core n) (c : Fin n) : (s.goIdle c).proc = s.proc := by
  rfl

@[simp]
theorem dispatch_proc (s : Core n) (c : Fin n) (p : ProcPtr) (site : Site)
    : (s.dispatch c p site).proc
        = (s.modify p fun pr => { pr with waitingTime := 0, state := .running }).proc := by
  rfl

inductive WaitEffect (s : Core n) (c : Fin n) (p : ProcPtr) : Core n → Prop
  | found (z : ProcPtr) (hscan : s.waitScan p (List.finRange NPROC) false = .found z)
    : WaitEffect s c p (((s.reap z).sysReturn p (s.proc z).pid).resume c)
  | refused (havekids : Bool)
      (hscan : s.waitScan p (List.finRange NPROC) false = .done havekids)
      (hno : (!havekids || (s.proc p).killed) = true)
    : WaitEffect s c p ((s.sysReturn p (-1)).resume c)
  | sleeps (havekids : Bool) (hscan : s.waitScan p (List.finRange NPROC) false = .done havekids)
      (hyes : ¬(!havekids || (s.proc p).killed) = true)
    : WaitEffect s c p
        ((s.modify p fun pr =>
          { pr with chan := some (.proc p), state := .sleeping, context := .wait }).sched c)

inductive Effect (s : Core n) : Op n → Core n → Prop
  | userinit (p : ProcPtr) (hlock : s.lock = none) (hinit : s.initproc = none)
      (hp : (s.proc p).state = .unused)
    : Effect s .userinit
        { s.modify p fun pr =>
            { pr with
              state := .runnable, pid := s.nextpid, fork := none, context := .forkret
              arrivetime := s.ticks, eax := 0, qType := .lcfs } with
          nextpid := int32 (s.nextpid + 1), initproc := some p }
  | dispatch (c : Fin n) (p : ProcPtr) (site : Site) (hlock : s.lock = none)
      (hmode : (s.cpu c).mode = .idle) (hp : (s.proc p).state = .runnable)
    : Effect s (.scheduler c) (s.dispatch c p site)
  | goIdle (c : Fin n) (hlock : s.lock = none) (hmode : (s.cpu c).mode = .idle)
    : Effect s (.scheduler c) (s.goIdle c)
  | dispatchNext (c : Fin n) (p q : ProcPtr) (site : Site) (hmode : (s.cpu c).mode = .returned)
      (hcur : (s.cpu c).proc = some p) (hq : (s.proc q).state = .runnable)
    : Effect s (.schedulerReturn c) (s.dispatch c q site)
  | endRound (c : Fin n) (p : ProcPtr) (hmode : (s.cpu c).mode = .returned)
      (hcur : (s.cpu c).proc = some p)
    : Effect s (.schedulerReturn c) (s.goIdle c)
  | resume (c : Fin n) (p : ProcPtr) (hmode : (s.cpu c).mode = .dispatched)
      (hcur : (s.cpu c).proc = some p)
      (hctx : (s.proc p).context = .forkret ∨ (s.proc p).context = .yield)
    : Effect s (.afterSwtch c) (s.resume c)
  | resumeSleep (c : Fin n) (p : ProcPtr) (hmode : (s.cpu c).mode = .dispatched)
      (hcur : (s.cpu c).proc = some p) (hctx : (s.proc p).context = .sleep)
    : Effect s (.afterSwtch c) ((s.modify p fun pr => { pr with chan := none }).resume c)
  | resumeWait (c : Fin n) (p : ProcPtr) (s' : Core n) (hmode : (s.cpu c).mode = .dispatched)
      (hcur : (s.cpu c).proc = some p) (hctx : (s.proc p).context = .wait)
      (hwait : (s.modify p fun pr => { pr with chan := none }).WaitEffect c p s')
    : Effect s (.afterSwtch c) s'
  | trapIgnore (c : Fin n) (p : ProcPtr) (hmode : (s.cpu c).mode = .running)
      (hcur : (s.cpu c).proc = some p) (hstate : (s.proc p).state ≠ .running)
    : Effect s (.trapTimer c) s
  | trapTick (c : Fin n) (p : ProcPtr) (hmode : (s.cpu c).mode = .running)
      (hcur : (s.cpu c).proc = some p) (hstate : (s.proc p).state = .running)
    : Effect s (.trapTimer c)
        (s.modify p fun pr => { pr with runningTicks := pr.runningTicks + 1 })
  | trapYield (c : Fin n) (p : ProcPtr) (hmode : (s.cpu c).mode = .running)
      (hcur : (s.cpu c).proc = some p) (hstate : (s.proc p).state = .running)
    : Effect s (.trapTimer c)
        ((s.modify p fun pr => { pr with runningTicks := pr.runningTicks + 1 }).setCpu c
          { s.cpu c with mode := .yielding })
  | yield (c : Fin n) (p : ProcPtr) (hlock : s.lock = none) (hmode : (s.cpu c).mode = .yielding)
      (hcur : (s.cpu c).proc = some p)
    : Effect s (.yield c)
        { (s.modify p fun pr =>
            { pr with
              runningTicks := 0, changeRunningQueue := false, state := .runnable
              context := .yield }).sched c with
          rrCounter := if (s.proc p).qType = .rr then s.rrCounter + 1 else s.rrCounter }
  | sleep (c : Fin n) (a : Nat) (p : ProcPtr) (hcalls : s.Calls c p)
    : Effect s (.sleep c a)
        ((s.modify p fun pr =>
          { pr with chan := some (.addr a), state := .sleeping, context := .sleep }).sched c)
  | wait (c : Fin n) (p : ProcPtr) (s' : Core n) (hcalls : s.Calls c p)
      (hwait : s.WaitEffect c p s')
    : Effect s (.wait c) s'
  | exit (c : Fin n) (p : ProcPtr) (W : ProcPtr → Prop) (hcalls : s.Calls c p)
      (hinit : s.initproc ≠ some p)
      (hparent : ∀ q, (s.proc q).chan = (s.proc p).parent.map .proc → W q)
      (hpass : ∀ z, (s.proc z).parent = some p → (s.proc z).state = .zombie →
        ∀ q, (s.proc q).chan = s.initproc.map .proc → W q)
    : Effect s (.exit c)
        (((s.mapProc fun q pr => (pr.wakeIf (W q)).reparent p s.initproc).modify p fun pr =>
          { pr with state := .zombie }).sched c)
  | forkFull (c : Fin n) (p : ProcPtr) (hcalls : s.Calls c p) (halloc : s.allocproc = none)
    : Effect s (.forkAlloc c) (s.sysReturn p (-1))
  | forkAlloc (c : Fin n) (p np : ProcPtr) (s1 : Core n) (hcalls : s.Calls c p)
      (halloc : s.allocproc = some (np, s1))
    : Effect s (.forkAlloc c) (s1.modify p fun pr => { pr with fork := some (np, .allocated) })
  | forkNoStack (c : Fin n) (p np : ProcPtr) (hbuilds : s.Builds c p np .allocated)
    : Effect s (.forkNoStack c)
        ((s.modify np fun pr => { pr with state := .unused }).modify p fun pr =>
          { pr with fork := none, eax := -1 })
  | forkNoMemory (c : Fin n) (p np : ProcPtr) (hbuilds : s.Builds c p np .allocated)
    : Effect s (.forkNoMemory c)
        (((s.initStack np).modify np fun pr => { pr with state := .unused }).modify p fun pr =>
          { pr with fork := none, eax := -1 })
  | forkCopy (c : Fin n) (p np : ProcPtr) (hbuilds : s.Builds c p np .allocated)
    : Effect s (.forkCopy c)
        (((s.initStack np).modify np fun pr => { pr with parent := some p, eax := 0 }).modify p
          fun pr => { pr with fork := some (np, .copied) })
  | forkEnqueue (c : Fin n) (p np : ProcPtr) (hlock : s.lock = none)
      (hbuilds : s.Builds c p np .copied)
    : Effect s (.forkEnqueue c)
        ((s.modify np fun pr => { State.forkInit s.ticks pr with state := .runnable }).modify p
          fun pr => { pr with fork := none, eax := (s.proc np).pid })
  | killNobody (c : Fin n) (pid r : Int) (p : ProcPtr) (hcalls : s.Calls c p)
    : Effect s (.kill c pid) (s.sysReturn p r)
  | kill (c : Fin n) (pid r : Int) (p q : ProcPtr) (hcalls : s.Calls c p)
      (hfind : s.findProc (fun pr => pr.pid = pid) = some q)
    : Effect s (.kill c pid)
        ((s.modify q fun pr => { pr with killed := true }.wakeIf True).sysReturn p r)
  | wakeup (a : Nat) (hlock : s.lock = none)
    : Effect s (.wakeup a) (s.mapProc fun _ pr => pr.wakeIf (pr.chan = some (.addr a)))
  | tick (c : Fin n) (hcpu : c.val = 0) : Effect s (.tick c) { s with ticks := s.ticks + 1 }
  | agingMechanism (c : Fin n) (hcpu : c.val = 0) (hlock : s.lock = none)
    : Effect s (.agingMechanism c) (s.mapProc fun _ pr => pr.age)
  | changeNobody (c : Fin n) (pid queueID beyond r : Int) (p : ProcPtr) (hcalls : s.Calls c p)
    : Effect s (.changeQueue c pid queueID beyond) (s.sysReturn p r)
  | changeQueue (c : Fin n) (pid queueID beyond : Int) (p q : ProcPtr) (k : SchedQ)
      (hcalls : s.Calls c p) (hk : SchedQ.ofInt? queueID = some k)
      (hfind : s.findProc (fun pr => pr.pid = pid) = some q)
    : Effect s (.changeQueue c pid queueID beyond)
        ((s.modify q fun pr =>
          { pr with
            qType := k
            changeRunningQueue := pr.state = .running || pr.changeRunningQueue }).sysReturn p 0)
  | changeLocalBjf (c : Fin n) (pid pRatio aRatio eRatio sRatio : Int) (p q : ProcPtr)
      (hcalls : s.Calls c p) (hfind : s.findProc (fun pr => pr.pid = pid) = some q)
    : Effect s (.changeLocalBjf c pid pRatio aRatio eRatio sRatio)
        ((s.modify q fun pr => State.setRatios pr pRatio aRatio eRatio sRatio).sysReturn p 0)
  | changeGlobalBjf (c : Fin n) (pRatio aRatio eRatio sRatio : Int) (p : ProcPtr)
      (hcalls : s.Calls c p)
    : Effect s (.changeGlobalBjf c pRatio aRatio eRatio sRatio)
        (Core.sysReturn
          { s.mapProc fun _ pr => State.setRatios pr pRatio aRatio eRatio sRatio with
            priorityRatio := pRatio
            arrivetimeRatio := aRatio
            executedCycleRatio := eRatio
            sizeRatio := sRatio } p 0)

end Core

namespace State

variable {s s' : State n} {op : Op n}

theorem wait_effect {c : Fin n} {p : ProcPtr} (h : s.wait c p = .ok s')
    : s.toCore.WaitEffect c p s'.toCore := by
  unfold wait at h
  split at h
  . next z hscan =>
    cases h
    exact .found z hscan
  . next havekids hscan =>
    split at h
    . next hno =>
      cases h
      exact .refused havekids hscan hno
    . next hyes =>
      rw [sleep_toCore h]
      exact .sleeps havekids hscan hyes

theorem finish_eq_ok {p : ProcPtr} {x : Except Halt (State n × Int)} (h : finish p <$> x = .ok s')
    : ∃ s1 r, x = .ok (s1, r) ∧ s'.toCore = s1.toCore.sysReturn p r := by
  cases x with
  | error e => cases h
  | ok r =>
    cases h
    exact ⟨r.1, r.2, rfl, rfl⟩

theorem Steps.effect (h : Steps s op s') : s.toCore.Effect op s'.toCore := by
  have htaken := taken_of_step h
  generalize hr : Except.ok s' = r at htaken
  cases htaken with
  | userinit hlock hinit =>
    rcases userinit_toCore hr.symm with ⟨p, hp, hcore⟩
    rw [hcore]
    exact .userinit p hlock hinit hp
  | scheduler c hlock hmode =>
    rcases scheduler_eq_ok hr.symm with ⟨p, site, hp, rfl⟩ | rfl
    . exact .dispatch c p site hlock hmode (schedulerPick_runnable hp)
    . exact .goIdle c hlock hmode
  | schedulerReturn c p hmode hcur =>
    cases hr
    rcases schedulerReturn_cases s c with ⟨q, site, hq, heq⟩ | heq
    . rw [heq]
      exact .dispatchNext c p q site hmode hcur hq
    . rw [heq]
      exact .endRound c p hmode hcur
  | afterSwtch c p hmode hcur =>
    unfold afterSwtch at hr
    split at hr
    . next hctx =>
      cases hr
      exact .resume c p hmode hcur (.inl hctx)
    . next hctx =>
      cases hr
      exact .resume c p hmode hcur (.inr hctx)
    . next hctx =>
      cases hr
      exact .resumeSleep c p hmode hcur hctx
    . next hctx => exact .resumeWait c p s'.toCore hmode hcur hctx (wait_effect hr.symm)
  | trapTimer c p hmode hcur =>
    cases hr
    unfold trapTimer
    split
    . next hstate =>
      dsimp only
      split
      . exact .trapYield c p hmode hcur hstate
      . exact .trapTick c p hmode hcur hstate
    . next hstate => exact .trapIgnore c p hmode hcur hstate
  | yield c p hlock hmode hcur =>
    rw [yield_toCore hr.symm]
    exact .yield c p hlock hmode hcur
  | sleep c a p hcalls =>
    rw [sleep_toCore hr.symm]
    exact .sleep c a p hcalls
  | wait c p hcalls => exact .wait c p s'.toCore hcalls (wait_effect hr.symm)
  | exit c p hcalls =>
    rcases exit_toCore hr.symm with ⟨hinit, W, hparent, hpass, hcore⟩
    rw [hcore]
    exact .exit c p W hcalls hinit hparent hpass
  | forkAlloc c p hcalls =>
    cases hr
    unfold forkAlloc
    split
    . next halloc => exact .forkFull c p hcalls halloc
    . next np core halloc => exact .forkAlloc c p np core hcalls halloc
  | forkNoStack c p np hbuilds =>
    cases hr
    exact .forkNoStack c p np hbuilds
  | forkNoMemory c p np hbuilds =>
    cases hr
    exact .forkNoMemory c p np hbuilds
  | forkCopy c p np hbuilds =>
    cases hr
    exact .forkCopy c p np hbuilds
  | forkEnqueue c p np hlock hbuilds =>
    rw [forkEnqueue_toCore hr.symm]
    exact .forkEnqueue c p np hlock hbuilds
  | kill c pid p hcalls =>
    rcases finish_eq_ok hr.symm with ⟨s1, r, hkill, hfinish⟩
    rcases kill_toCore hkill with hcore | ⟨q, hq, hcore⟩
    . rw [hfinish, hcore]
      exact .killNobody c pid r p hcalls
    . rw [hfinish, hcore]
      exact .kill c pid r p q hcalls hq
  | wakeup a hlock =>
    rw [wakeup1_toCore hr.symm]
    exact .wakeup a hlock
  | tick c hcpu =>
    cases hr
    exact .tick c hcpu
  | agingMechanism c hcpu hlock =>
    rw [agingMechanism_toCore hr.symm]
    exact .agingMechanism c hcpu hlock
  | changeQueue c pid queueID beyond p hcalls =>
    rcases finish_eq_ok hr.symm with ⟨s1, r, hchange, hfinish⟩
    rw [hfinish]
    unfold sysChangeQueue at hchange
    split at hchange
    . cases hchange
      exact .changeNobody c pid queueID beyond _ p hcalls
    . next k hk =>
      rcases bind_eq_ok.mp hchange with ⟨s2, h2, hs2⟩
      cases hs2
      rcases changeQueue_toCore h2 with hcore | ⟨q, hq, hcore⟩
      . rw [hcore]
        exact .changeNobody c pid queueID beyond _ p hcalls
      . rw [hcore]
        exact .changeQueue c pid queueID beyond p q k hcalls hk hq
  | changeLocalBjf c pid pRatio aRatio eRatio sRatio p hcalls =>
    rcases finish_eq_ok hr.symm with ⟨s1, r, hchange, hfinish⟩
    rw [hfinish]
    unfold changeLocalBjf at hchange
    split at hchange
    . cases hchange
    . next q hq =>
      cases hchange
      exact .changeLocalBjf c pid pRatio aRatio eRatio sRatio p q hcalls hq
  | changeGlobalBjf c pRatio aRatio eRatio sRatio p hcalls =>
    cases hr
    exact .changeGlobalBjf c pRatio aRatio eRatio sRatio p hcalls

end State
end Xv6
