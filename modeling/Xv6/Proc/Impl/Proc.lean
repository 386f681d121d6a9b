import Xv6.Proc.Impl.Queue

/-!
The functions of `proc.c` that create processes, end them, put them to sleep and
wake them. Each of them is given as the critical section it runs under `ptable.lock`. A function that
calls `sched` leaves the lock to the `scheduler` of its CPU.
-/

namespace Xv6

variable {n : Nat}

namespace Core

def setProc (s : Core n) (p : ProcPtr) (pr : Proc) : Core n :=
  { s with proc := fun q => if q = p then pr else s.proc q }

def setCpu (s : Core n) (c : Fin n) (cpu : Cpu) : Core n :=
  { s with cpu := fun d => if d = c then cpu else s.cpu d }

def resume (s : Core n) (c : Fin n) : Core n :=
  { s.setCpu c { s.cpu c with mode := .running } with lock := none }

def sched (s : Core n) (c : Fin n) : Core n :=
  { s.setCpu c { s.cpu c with mode := .returned } with lock := some c }

def sysReturn (s : Core n) (curproc : ProcPtr) (r : Int) : Core n :=
  s.setProc curproc { s.proc curproc with eax := r }

def findProc (s : Core n) (f : Proc → Bool) : Option ProcPtr :=
  (List.finRange NPROC).find? fun p => f (s.proc p)

inductive WaitScan
  | found (p : ProcPtr)
  | done (havekids : Bool)
  deriving DecidableEq

def waitScan (s : Core n) (curproc : ProcPtr) (todo : List ProcPtr) (havekids : Bool) : WaitScan :=
  match todo with
  | [] => .done havekids
  | p :: todo =>
    if (s.proc p).parent ≠ some curproc then
      waitScan s curproc todo havekids
    else if (s.proc p).state = .zombie then
      .found p
    else
      waitScan s curproc todo true

def reap (s : Core n) (p : ProcPtr) : Core n :=
  s.setProc p { s.proc p with pid := 0, parent := none, killed := false, state := .unused }

def allocproc (s : Core n) : Option (ProcPtr × Core n) :=
  match s.findProc fun p => p.state = .unused with
  | none => none
  | some p =>
    let s' := s.setProc p { s.proc p with state := .embryo, pid := s.nextpid, fork := none }
    some (p, { s' with nextpid := int32 (s.nextpid + 1) })

def initStack (s : Core n) (p : ProcPtr) : Core n :=
  s.setProc p { s.proc p with context := .forkret, arrivetime := s.ticks }

end Core

namespace State

def queue (s : State n) : QueueId → Queue
  | .rr => s.rrQ
  | .lcfs => s.lcfsQ
  | .bjf => s.bjfQ

def setQueue (s : State n) (k : QueueId) (q : Queue) : State n :=
  match k with
  | .rr => { s with rrQ := q }
  | .lcfs => { s with lcfsQ := q }
  | .bjf => { s with bjfQ := q }

def onCore (s : State n) (f : Core n → Core n) : State n :=
  { s with toCore := f s.toCore }

def setProc (s : State n) (p : ProcPtr) (pr : Proc) : State n :=
  s.onCore (Core.setProc · p pr)

def append (s : State n) (k : QueueId) (p : ProcPtr) : Except Halt (State n) := do
  let q ← (s.queue k).append p
  return s.setQueue k q

def enqueue (s : State n) (p : ProcPtr) : Except Halt (State n) :=
  match (s.proc p).qType.queueId? with
  | some k => s.append k p
  | none => .ok s

def cleanupCorresQueue (s : State n) (p : ProcPtr) : Except Halt (State n) :=
  match (s.proc p).qType.queueId? with
  | some k =>
    if (s.queue k).pi.toInt ≤ -1 then
      .error (.panic (.nothingToClean k))
    else do
      let q ← (s.queue k).remove (fun q => (s.proc q).pid) p
      return s.setQueue k q
  | none => .error (.panic .defautSchedulingCleanup)

def wakeup1.body (chan : Option (Chan ProcPtr)) (s : State n) (p : ProcPtr) : Except Halt (State n) :=
  if (s.proc p).state = .sleeping ∧ (s.proc p).chan = chan then do
    let s ← s.enqueue p
    return s.setProc p { s.proc p with state := .runnable }
  else
    .ok s

def wakeup1 (s : State n) (chan : Option (Chan ProcPtr)) : Except Halt (State n) :=
  (List.finRange NPROC).foldlM (wakeup1.body chan) s

def userinit (s : State n) : Except Halt (State n) :=
  match s.toCore.allocproc with
  | none => .error (.panic .userinitAllocprocFailed)
  | some (p, core) => do
    let core := { core.initStack p with initproc := some p }
    let s := { s with toCore := core }
    let s := s.setProc p { s.proc p with eax := 0, qType := .lcfs }
    let s ← s.append .lcfs p
    return s.setProc p { s.proc p with state := .runnable }

def forkAlloc (s : State n) (curproc : ProcPtr) : State n :=
  match s.toCore.allocproc with
  | none => s.onCore (Core.sysReturn · curproc (-1))
  | some (np, core) =>
    let s := { s with toCore := core }
    s.setProc curproc { s.proc curproc with fork := some (np, .allocated) }

def forkNoStack (s : State n) (curproc np : ProcPtr) : State n :=
  let s := s.setProc np { s.proc np with state := .unused }
  s.setProc curproc { s.proc curproc with fork := none, eax := -1 }

def forkNoMemory (s : State n) (curproc np : ProcPtr) : State n :=
  let s := s.onCore (Core.initStack · np)
  s.forkNoStack curproc np

def forkCopy (s : State n) (curproc np : ProcPtr) : State n :=
  let s := s.onCore (Core.initStack · np)
  let s := s.setProc np { s.proc np with parent := some curproc, eax := 0 }
  s.setProc curproc { s.proc curproc with fork := some (np, .copied) }

def forkInit (ticks : UInt32) (np : Proc) : Proc :=
  { np with
    qType := .lcfs
    arrivetime := ticks
    waitingTime := 0
    executedCycle := 0
    priority := ((ticks * ticks * 1021) % 100).toNat
    priorityRatio := 1 / 4
    executedCycleRatio := 1 / 4
    arrivetimeRatio := 1 / 4
    sizeRatio := 1 / 4 }

def forkEnqueue (s : State n) (curproc np : ProcPtr) : Except Halt (State n) := do
  let pid := (s.proc np).pid
  let s := s.setProc np { s.proc np with qType := .lcfs }
  let s ← s.append .lcfs np
  let s := s.setProc np { forkInit s.ticks (s.proc np) with state := .runnable }
  return s.setProc curproc { s.proc curproc with fork := none, eax := pid }

def exit.body (curproc : ProcPtr) (s : State n) (p : ProcPtr) : Except Halt (State n) :=
  if (s.proc p).parent = some curproc then
    let s := s.setProc p { s.proc p with parent := s.initproc }
    if (s.proc p).state = .zombie then
      s.wakeup1 (s.initproc.map .proc)
    else
      .ok s
  else
    .ok s

def exit (s : State n) (c : Fin n) (curproc : ProcPtr) : Except Halt (State n) :=
  if some curproc = s.initproc then
    .error (.panic .initExiting)
  else do
    let s ← s.cleanupCorresQueue curproc
    let s ← s.wakeup1 ((s.proc curproc).parent.map .proc)
    let s ← (List.finRange NPROC).foldlM (exit.body curproc) s
    let s := s.setProc curproc { s.proc curproc with state := .zombie }
    return s.onCore (Core.sched · c)

def sleep (s : State n) (c : Fin n) (curproc : ProcPtr) (chan : Chan ProcPtr) (ctx : Context)
    : Except Halt (State n) := do
  let s ← s.cleanupCorresQueue curproc
  let s := s.setProc curproc
    { s.proc curproc with chan := some chan, state := .sleeping, context := ctx }
  return s.onCore (Core.sched · c)

def wait (s : State n) (c : Fin n) (curproc : ProcPtr) : Except Halt (State n) :=
  match s.toCore.waitScan curproc (List.finRange NPROC) false with
  | .found p =>
    let pid := (s.proc p).pid
    .ok (s.onCore fun s => ((s.reap p).sysReturn curproc pid).resume c)
  | .done havekids =>
    if !havekids || (s.proc curproc).killed then
      .ok (s.onCore fun s => (s.sysReturn curproc (-1)).resume c)
    else
      s.sleep c curproc (.proc curproc) .wait

def kill (s : State n) (pid : Int) : Except Halt (State n × Int) :=
  match s.toCore.findProc fun p => p.pid = pid with
  | none => .ok (s, -1)
  | some p => do
    let s := s.setProc p { s.proc p with killed := true }
    if (s.proc p).state = .sleeping then
      let s ← s.enqueue p
      return (s.setProc p { s.proc p with state := .runnable }, 0)
    else
      return (s, 0)

def yield.count (s : State n) (curproc : ProcPtr) : State n :=
  if (s.proc curproc).qType = .rr then
    s.onCore fun s => { s with rrCounter := s.rrCounter + 1 }
  else
    s

def yield.applyChange (s : State n) (curproc : ProcPtr) : Except Halt (State n) :=
  if (s.proc curproc).changeRunningQueue then do
    let s ← s.enqueue curproc
    return s.setProc curproc { s.proc curproc with changeRunningQueue := false }
  else
    .ok s

def yield (s : State n) (c : Fin n) (curproc : ProcPtr) : Except Halt (State n) := do
  let s := s.setProc curproc { s.proc curproc with runningTicks := 0 }
  let s := yield.count s curproc
  let s ← yield.applyChange s curproc
  let s := s.setProc curproc { s.proc curproc with state := .runnable, context := .yield }
  return s.onCore (Core.sched · c)

end State
end Xv6
