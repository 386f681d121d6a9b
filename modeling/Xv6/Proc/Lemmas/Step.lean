import Xv6.Proc.Impl.Step

namespace Xv6

variable {n : Nat} {s : Core n} {c : Fin n} {op : Op n}

namespace Core

theorem curproc?_eq_some {m : Mode} {p : ProcPtr}
    : s.curproc? c m = some p ↔ (s.cpu c).mode = m ∧ (s.cpu c).proc = some p := by
  unfold curproc?
  split
  . next h => simp [h]
  . next h => simp [h]

theorem caller?_eq_some {p : ProcPtr}
    : s.caller? c = some p ↔ (s.cpu c).mode = .running ∧ (s.cpu c).proc = some p ∧ (s.proc p).fork = none := by
  rw [← and_assoc, ← curproc?_eq_some]
  unfold caller?
  cases s.curproc? c .running with
  | none => simp
  | some q => grind

theorem forker?_eq_some {stage : ForkStage} {p np : ProcPtr}
    : s.forker? c stage = some (p, np) ↔ (s.cpu c).mode = .running ∧ (s.cpu c).proc = some p
          ∧ (s.proc p).fork = some (np, stage) := by
  rw [← and_assoc, ← curproc?_eq_some]
  unfold forker?
  cases s.curproc? c .running with
  | none => simp
  | some q => grind

theorem acquire_eq_some {u : Unit} : s.acquire = some u ↔ s.lock = none := by
  simp [acquire]

theorem isTimerCpu_eq_some {u : Unit} : isTimerCpu c = some u ↔ c.val = 0 := by
  simp [isTimerCpu]

structure Calls (s : Core n) (c : Fin n) (p : ProcPtr) : Prop where
  lock : s.lock = none
  mode : (s.cpu c).mode = .running
  cur : (s.cpu c).proc = some p
  fork : (s.proc p).fork = none

structure Builds (s : Core n) (c : Fin n) (p np : ProcPtr) (stage : ForkStage) : Prop where
  mode : (s.cpu c).mode = .running
  cur : (s.cpu c).proc = some p
  fork : (s.proc p).fork = some (np, stage)

end Core

namespace State

inductive Taken (s : State n) : Op n → Except Halt (State n) → Prop
  | userinit (hlock : s.lock = none) (hinit : s.initproc = none) : Taken s .userinit s.userinit
  | scheduler (c : Fin n) (hlock : s.lock = none) (hmode : (s.cpu c).mode = .idle)
    : Taken s (.scheduler c) (s.scheduler c)
  | schedulerReturn (c : Fin n) (p : ProcPtr) (hmode : (s.cpu c).mode = .returned)
      (hcur : (s.cpu c).proc = some p)
    : Taken s (.schedulerReturn c) (.ok (s.schedulerReturn c))
  | afterSwtch (c : Fin n) (p : ProcPtr) (hmode : (s.cpu c).mode = .dispatched)
      (hcur : (s.cpu c).proc = some p)
    : Taken s (.afterSwtch c) (s.afterSwtch c p)
  | trapTimer (c : Fin n) (p : ProcPtr) (hmode : (s.cpu c).mode = .running)
      (hcur : (s.cpu c).proc = some p)
    : Taken s (.trapTimer c) (.ok (s.trapTimer c p))
  | yield (c : Fin n) (p : ProcPtr) (hlock : s.lock = none) (hmode : (s.cpu c).mode = .yielding)
      (hcur : (s.cpu c).proc = some p)
    : Taken s (.yield c) (s.yield c p)
  | sleep (c : Fin n) (a : Nat) (p : ProcPtr) (hcalls : s.Calls c p)
    : Taken s (.sleep c a) (s.sleep c p (.addr a) .sleep)
  | wait (c : Fin n) (p : ProcPtr) (hcalls : s.Calls c p) : Taken s (.wait c) (s.wait c p)
  | exit (c : Fin n) (p : ProcPtr) (hcalls : s.Calls c p) : Taken s (.exit c) (s.exit c p)
  | forkAlloc (c : Fin n) (p : ProcPtr) (hcalls : s.Calls c p)
    : Taken s (.forkAlloc c) (.ok (s.forkAlloc p))
  | forkNoStack (c : Fin n) (p np : ProcPtr) (hbuilds : s.Builds c p np .allocated)
    : Taken s (.forkNoStack c) (.ok (s.forkNoStack p np))
  | forkNoMemory (c : Fin n) (p np : ProcPtr) (hbuilds : s.Builds c p np .allocated)
    : Taken s (.forkNoMemory c) (.ok (s.forkNoMemory p np))
  | forkCopy (c : Fin n) (p np : ProcPtr) (hbuilds : s.Builds c p np .allocated)
    : Taken s (.forkCopy c) (.ok (s.forkCopy p np))
  | forkEnqueue (c : Fin n) (p np : ProcPtr) (hlock : s.lock = none)
      (hbuilds : s.Builds c p np .copied)
    : Taken s (.forkEnqueue c) (s.forkEnqueue p np)
  | kill (c : Fin n) (pid : Int) (p : ProcPtr) (hcalls : s.Calls c p)
    : Taken s (.kill c pid) (finish p <$> s.kill pid)
  | wakeup (a : Nat) (hlock : s.lock = none) : Taken s (.wakeup a) (s.wakeup1 (some (.addr a)))
  | tick (c : Fin n) (hcpu : c.val = 0)
    : Taken s (.tick c) (.ok (s.onCore fun s => { s with ticks := s.ticks + 1 }))
  | agingMechanism (c : Fin n) (hcpu : c.val = 0) (hlock : s.lock = none)
    : Taken s (.agingMechanism c) s.agingMechanism
  | changeQueue (c : Fin n) (pid queueID beyond : Int) (p : ProcPtr) (hcalls : s.Calls c p)
    : Taken s (.changeQueue c pid queueID beyond) (finish p <$> s.sysChangeQueue pid queueID beyond)
  | changeLocalBjf (c : Fin n) (pid pRatio aRatio eRatio sRatio : Int) (p : ProcPtr)
      (hcalls : s.Calls c p)
    : Taken s (.changeLocalBjf c pid pRatio aRatio eRatio sRatio)
        (finish p <$> s.changeLocalBjf pid pRatio aRatio eRatio sRatio)
  | changeGlobalBjf (c : Fin n) (pRatio aRatio eRatio sRatio : Int) (p : ProcPtr)
      (hcalls : s.Calls c p)
    : Taken s (.changeGlobalBjf c pRatio aRatio eRatio sRatio)
        (.ok (finish p (s.changeGlobalBjf pRatio aRatio eRatio sRatio)))

theorem taken_of_step {s : State n} {r : Except Halt (State n)} (h : s.step op = some r)
    : Taken s op r := by
  cases op
  all_goals
    simp only [step, Option.bind_eq_bind, Option.bind_eq_some_iff, Option.pure_def, Option.some.injEq,
      Option.ite_none_right_eq_some, Core.acquire_eq_some, Core.isTimerCpu_eq_some,
      Core.curproc?_eq_some, Core.caller?_eq_some, Prod.exists, Core.forker?_eq_some] at h
  case userinit =>
    rcases h with ⟨_, hlock, hinit, rfl⟩
    exact .userinit hlock hinit
  case scheduler c =>
    rcases h with ⟨_, hlock, hmode, rfl⟩
    exact .scheduler c hlock hmode
  case schedulerReturn c =>
    rcases h with ⟨p, ⟨hmode, hcur⟩, rfl⟩
    exact .schedulerReturn c p hmode hcur
  case afterSwtch c =>
    rcases h with ⟨p, ⟨hmode, hcur⟩, rfl⟩
    exact .afterSwtch c p hmode hcur
  case trapTimer c =>
    rcases h with ⟨p, ⟨hmode, hcur⟩, rfl⟩
    exact .trapTimer c p hmode hcur
  case yield c =>
    rcases h with ⟨_, hlock, p, ⟨hmode, hcur⟩, rfl⟩
    exact .yield c p hlock hmode hcur
  case sleep c a =>
    rcases h with ⟨_, hlock, p, ⟨hmode, hcur, hfork⟩, rfl⟩
    exact .sleep c a p ⟨hlock, hmode, hcur, hfork⟩
  case wait c =>
    rcases h with ⟨_, hlock, p, ⟨hmode, hcur, hfork⟩, rfl⟩
    exact .wait c p ⟨hlock, hmode, hcur, hfork⟩
  case exit c =>
    rcases h with ⟨_, hlock, p, ⟨hmode, hcur, hfork⟩, rfl⟩
    exact .exit c p ⟨hlock, hmode, hcur, hfork⟩
  case forkAlloc c =>
    rcases h with ⟨_, hlock, p, ⟨hmode, hcur, hfork⟩, rfl⟩
    exact .forkAlloc c p ⟨hlock, hmode, hcur, hfork⟩
  case forkNoStack c =>
    rcases h with ⟨p, np, ⟨hmode, hcur, hfork⟩, rfl⟩
    exact .forkNoStack c p np ⟨hmode, hcur, hfork⟩
  case forkNoMemory c =>
    rcases h with ⟨p, np, ⟨hmode, hcur, hfork⟩, rfl⟩
    exact .forkNoMemory c p np ⟨hmode, hcur, hfork⟩
  case forkCopy c =>
    rcases h with ⟨p, np, ⟨hmode, hcur, hfork⟩, rfl⟩
    exact .forkCopy c p np ⟨hmode, hcur, hfork⟩
  case forkEnqueue c =>
    rcases h with ⟨_, hlock, p, np, ⟨hmode, hcur, hfork⟩, rfl⟩
    exact .forkEnqueue c p np hlock ⟨hmode, hcur, hfork⟩
  case kill c pid =>
    rcases h with ⟨_, hlock, p, ⟨hmode, hcur, hfork⟩, rfl⟩
    exact .kill c pid p ⟨hlock, hmode, hcur, hfork⟩
  case wakeup a =>
    rcases h with ⟨_, hlock, rfl⟩
    exact .wakeup a hlock
  case tick c =>
    rcases h with ⟨_, hcpu, rfl⟩
    exact .tick c hcpu
  case agingMechanism c =>
    rcases h with ⟨_, hcpu, _, hlock, rfl⟩
    exact .agingMechanism c hcpu hlock
  case changeQueue c pid queueID beyond =>
    rcases h with ⟨_, hlock, p, ⟨hmode, hcur, hfork⟩, rfl⟩
    exact .changeQueue c pid queueID beyond p ⟨hlock, hmode, hcur, hfork⟩
  case changeLocalBjf c pid pRatio aRatio eRatio sRatio =>
    rcases h with ⟨_, hlock, p, ⟨hmode, hcur, hfork⟩, rfl⟩
    exact .changeLocalBjf c pid pRatio aRatio eRatio sRatio p ⟨hlock, hmode, hcur, hfork⟩
  case changeGlobalBjf c pRatio aRatio eRatio sRatio =>
    rcases h with ⟨_, hlock, p, ⟨hmode, hcur, hfork⟩, rfl⟩
    exact .changeGlobalBjf c pRatio aRatio eRatio sRatio p ⟨hlock, hmode, hcur, hfork⟩

def checkedStep (check : State n → Op n → State n → Bool) (s : State n) (op : Op n)
    : Option (State n) :=
  match s.step op with
  | some (.ok s') => if check s op s' then some s' else none
  | _ => none

theorem checkedStep_eq_some {check : State n → Op n → State n → Bool} {s s' : State n}
    (h : checkedStep check s op = some s')
    : Steps s op s' ∧ check s op s' = true := by
  unfold checkedStep at h
  split at h
  . next s1 hstep =>
    split at h
    . next hcheck =>
      cases h
      exact ⟨hstep, hcheck⟩
    . cases h
  . cases h

theorem steps_of_checkedStep {check : State n → Op n → State n → Bool} (s : State n) (op : Op n)
    (s' : State n) (h : checkedStep check s op = some s')
    : Steps s op s' :=
  (checkedStep_eq_some h).1

def halt? (s : State n) (op : Op n) : Option Halt :=
  match s.step op with
  | some (.error e) => some e
  | _ => none

theorem step_of_halt? {s : State n} {e : Halt} (h : s.halt? op = some e)
    : s.step op = some (.error e) := by
  unfold halt? at h
  split at h
  . next e' hstep =>
    cases h
    exact hstep
  . cases h

theorem exists_of_run {step : State n → Op n → State n → Prop} (check : State n → Op n → State n → Bool)
    (hcheck : ∀ s op s', Steps s op s' → check s op s' = true → step s op s') (ops : List (Op n))
    {P : State n → Bool} (h : (Reach.exec (checkedStep check) init ops).any P = true)
    : ∃ s, Reach.Reachable init step s ∧ P s = true := by
  apply Reach.exists_of_exec _ ops h
  intro s op s' hs
  have hboth := checkedStep_eq_some hs
  apply hcheck
  . exact hboth.1
  . exact hboth.2

end State
end Xv6
