import Xv6.Lib.Reach
import Xv6.Proc.Impl.Scheduler

/-!
The system: the critical sections of `proc.c` as the atomic steps that any
number of CPUs take in any order, starting from `pinit`.
-/

namespace Xv6

variable {n : Nat}

inductive Op (n : Nat)
  | userinit
  | scheduler (c : Fin n)
  | schedulerReturn (c : Fin n)
  | afterSwtch (c : Fin n)
  | trapTimer (c : Fin n)
  | yield (c : Fin n)
  | sleep (c : Fin n) (a : Nat)
  | wait (c : Fin n)
  | exit (c : Fin n)
  | forkAlloc (c : Fin n)
  | forkNoStack (c : Fin n)
  | forkNoMemory (c : Fin n)
  | forkCopy (c : Fin n)
  | forkEnqueue (c : Fin n)
  | kill (c : Fin n) (pid : Int)
  | wakeup (a : Nat)
  | tick (c : Fin n)
  | agingMechanism (c : Fin n)
  | changeQueue (c : Fin n) (pid queueID beyond : Int)
  | changeLocalBjf (c : Fin n) (pid pRatio aRatio eRatio sRatio : Int)
  | changeGlobalBjf (c : Fin n) (pRatio aRatio eRatio sRatio : Int)
  deriving DecidableEq

namespace Core

def curproc? (s : Core n) (c : Fin n) (m : Mode) : Option ProcPtr :=
  if (s.cpu c).mode = m then (s.cpu c).proc else none

def caller? (s : Core n) (c : Fin n) : Option ProcPtr :=
  match s.curproc? c .running with
  | none => none
  | some p => if (s.proc p).fork = none then some p else none

def forker? (s : Core n) (c : Fin n) (stage : ForkStage) : Option (ProcPtr × ProcPtr) :=
  match s.curproc? c .running with
  | none => none
  | some p =>
    match (s.proc p).fork with
    | none => none
    | some (np, stage') => if stage' = stage then some (p, np) else none

def acquire (s : Core n) : Option Unit :=
  if s.lock = none then some () else none

def isTimerCpu (c : Fin n) : Option Unit :=
  if c.val = 0 then some () else none

end Core

namespace State

def init : State n where
  proc := fun _ => {}
  cpu := fun _ => {}
  lock := none
  initproc := none
  nextpid := 1
  rrCounter := 0
  ticks := 0
  -- These are of type `int`, so that their initial value 0.25 is cut to 0.
  priorityRatio := 0
  arrivetimeRatio := 0
  executedCycleRatio := 0
  sizeRatio := 0
  rrQ := .init
  lcfsQ := .init
  bjfQ := .init

def finish (curproc : ProcPtr) (r : State n × Int) : State n :=
  r.1.onCore (Core.sysReturn · curproc r.2)

def step (s : State n) (op : Op n) : Option (Except Halt (State n)) :=
  match op with
  | .userinit => do
    s.acquire
    if s.initproc = none then some s.userinit else none
  | .scheduler c => do
    s.acquire
    if (s.cpu c).mode = .idle then some (s.scheduler c) else none
  | .schedulerReturn c => do
    let _ ← s.curproc? c .returned
    return .ok (s.schedulerReturn c)
  | .afterSwtch c => do
    let p ← s.curproc? c .dispatched
    return s.afterSwtch c p
  | .trapTimer c => do
    let p ← s.curproc? c .running
    return .ok (s.trapTimer c p)
  | .yield c => do
    s.acquire
    let p ← s.curproc? c .yielding
    return s.yield c p
  | .sleep c a => do
    s.acquire
    let p ← s.caller? c
    return s.sleep c p (.addr a) .sleep
  | .wait c => do
    s.acquire
    let p ← s.caller? c
    return s.wait c p
  | .exit c => do
    s.acquire
    let p ← s.caller? c
    return s.exit c p
  | .forkAlloc c => do
    s.acquire
    let p ← s.caller? c
    return .ok (s.forkAlloc p)
  | .forkNoStack c => do
    let (p, np) ← s.forker? c .allocated
    return .ok (s.forkNoStack p np)
  | .forkNoMemory c => do
    let (p, np) ← s.forker? c .allocated
    return .ok (s.forkNoMemory p np)
  | .forkCopy c => do
    let (p, np) ← s.forker? c .allocated
    return .ok (s.forkCopy p np)
  | .forkEnqueue c => do
    s.acquire
    let (p, np) ← s.forker? c .copied
    return s.forkEnqueue p np
  | .kill c pid => do
    s.acquire
    let p ← s.caller? c
    return finish p <$> s.kill pid
  | .wakeup a => do
    s.acquire
    return s.wakeup1 (some (.addr a))
  | .tick c => do
    Core.isTimerCpu c
    return .ok (s.onCore fun s => { s with ticks := s.ticks + 1 })
  | .agingMechanism c => do
    Core.isTimerCpu c
    s.acquire
    return s.agingMechanism
  | .changeQueue c pid queueID beyond => do
    s.acquire
    let p ← s.caller? c
    return finish p <$> s.sysChangeQueue pid queueID beyond
  | .changeLocalBjf c pid pRatio aRatio eRatio sRatio => do
    s.acquire
    let p ← s.caller? c
    return finish p <$> s.changeLocalBjf pid pRatio aRatio eRatio sRatio
  | .changeGlobalBjf c pRatio aRatio eRatio sRatio => do
    s.acquire
    let p ← s.caller? c
    return .ok (finish p (s.changeGlobalBjf pRatio aRatio eRatio sRatio))

def Steps (s : State n) (op : Op n) (s' : State n) : Prop :=
  s.step op = some (.ok s')

def Reachable (s : State n) : Prop :=
  Reach.Reachable init Steps s

end State
end Xv6
