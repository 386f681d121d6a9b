import Xv6.Proc.Impl.Proc

namespace Xv6

variable {n : Nat}

def floatOfInt (i : Int) : Rat :=
  let e := i.natAbs.log2 - 23
  let m := i.natAbs / 2 ^ e
  let r := i.natAbs % 2 ^ e
  let m := if 2 * r < 2 ^ e then m else if 2 ^ e < 2 * r then m + 1 else m + m % 2
  ((i.sign * (m * 2 ^ e : Nat) : Int) : Rat)

def calculateRank (p : Proc) : Int :=
  let rank := p.priority * p.priorityRatio + p.arrivetime.toNat * p.arrivetimeRatio
    + p.executedCycle * p.executedCycleRatio
  rank.num.tdiv rank.den

namespace State

def entry (s : State n) (k : QueueId) (i : Nat) : Except Halt ProcPtr := do
  (← (s.queue k).get i).deref

def rrIndex (s : State n) (k : Nat) : Nat :=
  (s.rrCounter.toNat + k) % 2 ^ 32 % ((s.queue .rr).pi.toInt + 1).toNat

def rrSearch (s : State n) (todo : List Nat) : Except Halt (Option ProcPtr) :=
  match todo with
  | [] => .ok none
  | i :: todo => do
    let p ← s.entry .rr (s.rrIndex (i + 1))
    if (s.proc p).state = .runnable then
      return some p
    else
      rrSearch s todo

def rrPick (s : State n) : Except Halt (Option ProcPtr) := do
  let p ← s.entry .rr (s.rrIndex 0)
  match (s.proc p).state with
  | .runnable => return some p
  | .running => s.rrSearch (List.range (s.queue .rr).pi.toInt.toNat)
  | _ => .error (.panic .noRunnableProcess)

def lcfsSearch (s : State n) (i : Nat) : Except Halt (Option ProcPtr) :=
  match i with
  | 0 => .ok none
  | i + 1 => do
    let p ← s.entry .lcfs i
    if (s.proc p).state = .runnable then
      return some p
    else
      lcfsSearch s i

def lcfsPick (s : State n) : Except Halt (Option ProcPtr) := do
  let top := (s.queue .lcfs).pi.toInt.toNat
  let p ← s.entry .lcfs top
  match (s.proc p).state with
  | .runnable => return some p
  | .running => s.lcfsSearch top
  | _ => .error (.panic .noRunnableProcess)

def bjfSearch (rank : Proc → Int) (s : State n) (todo : List Nat) (best : Option ProcPtr × Rat)
    : Except Halt (Option ProcPtr × Rat) :=
  match todo with
  | [] => .ok best
  | i :: todo => do
    let p ← s.entry .bjf i
    if (s.proc p).state ≠ .runnable then
      bjfSearch rank s todo best
    else if floatOfInt (rank (s.proc p)) < best.2 then
      bjfSearch rank s todo (some p, floatOfInt (rank (s.proc p)))
    else
      bjfSearch rank s todo best

def bjfPick (s : State n) : Except Halt (Option ProcPtr) := do
  let _ ← bjfSearch calculateRank s (List.range (s.queue .bjf).pi.toInt.toNat)
    (none, floatOfInt 999999999)
  return none

def tableNext (s : State n) (i : Nat) : Option ProcPtr :=
  (List.finRange NPROC).find? fun p => i ≤ p.val ∧ (s.proc p).state = .runnable

def schedulerPick (s : State n) : Except Halt (Option (ProcPtr × Site)) :=
  if 0 ≤ (s.queue .rr).pi.toInt then do
    return (← s.rrPick).map (·, .pick)
  else if 0 ≤ (s.queue .lcfs).pi.toInt then do
    return (← s.lcfsPick).map (·, .pick)
  else if 0 ≤ (s.queue .bjf).pi.toInt then do
    return (← s.bjfPick).map (·, .pick)
  else
    return (s.tableNext 0).map fun p => (p, .table p)

end State

namespace Core

def dispatch (s : Core n) (c : Fin n) (p : ProcPtr) (site : Site) : Core n :=
  let s := s.setProc p { s.proc p with waitingTime := 0, state := .running }
  { s.setCpu c { proc := some p, mode := .dispatched, site := site } with lock := some c }

def goIdle (s : Core n) (c : Fin n) : Core n :=
  { s.setCpu c { s.cpu c with proc := none, mode := .idle } with lock := none }

end Core

namespace State

def scheduler (s : State n) (c : Fin n) : Except Halt (State n) := do
  match ← s.schedulerPick with
  | some (p, site) => return s.onCore (Core.dispatch · c p site)
  | none => return s.onCore (Core.goIdle · c)

def schedulerReturn (s : State n) (c : Fin n) : State n :=
  match (s.cpu c).site with
  | .pick => s.onCore (Core.goIdle · c)
  | .table p =>
    match s.tableNext (p.val + 1) with
    | some p => s.onCore (Core.dispatch · c p (.table p))
    | none => s.onCore (Core.goIdle · c)

def afterSwtch (s : State n) (c : Fin n) (curproc : ProcPtr) : Except Halt (State n) :=
  match (s.proc curproc).context with
  | .forkret => .ok (s.onCore (Core.resume · c))
  | .yield => .ok (s.onCore (Core.resume · c))
  | .sleep =>
    let s := s.setProc curproc { s.proc curproc with chan := none }
    .ok (s.onCore (Core.resume · c))
  | .wait =>
    let s := s.setProc curproc { s.proc curproc with chan := none }
    s.wait c curproc

def mustYield (p : Proc) : Bool :=
  match p.qType with
  | .rr => TIME_SLOT ≤ p.runningTicks
  | .deflt => true
  | .lcfs => true
  | .bjf => BJF_UPPER_BOUND < p.runningTicks

def trapTimer (s : State n) (c : Fin n) (curproc : ProcPtr) : State n :=
  if (s.proc curproc).state = .running then
    let s := s.setProc curproc
      { s.proc curproc with runningTicks := (s.proc curproc).runningTicks + 1 }
    if mustYield (s.proc curproc) then
      s.onCore fun s => s.setCpu c { s.cpu c with mode := .yielding }
    else
      s
  else
    s

def agingMechanism.body (s : State n) (p : ProcPtr) : Except Halt (State n) :=
  if (s.proc p).state = .runnable then
    let s := s.setProc p { s.proc p with waitingTime := (s.proc p).waitingTime + 1 }
    if AGING_BOUND < (s.proc p).waitingTime ∧ (s.proc p).qType ≠ .rr then do
      let s ← s.cleanupCorresQueue p
      let s := s.setProc p { s.proc p with qType := .rr }
      s.append .rr p
    else
      .ok s
  else
    .ok s

def agingMechanism (s : State n) : Except Halt (State n) :=
  (List.finRange NPROC).foldlM agingMechanism.body s

def changeQueue.leave (s : State n) (p : ProcPtr) : Except Halt (State n) :=
  if (s.proc p).state = .running ∨ (s.proc p).state = .runnable then
    s.cleanupCorresQueue p
  else
    .ok s

def changeQueue.enter (s : State n) (p : ProcPtr) (q : SchedQ) : Except Halt (State n) :=
  let s := s.setProc p { s.proc p with qType := q }
  if (s.proc p).state = .runnable then
    s.enqueue p
  else
    .ok s

def changeQueue.defer (s : State n) (p : ProcPtr) : State n :=
  if (s.proc p).state = .running then
    s.setProc p { s.proc p with changeRunningQueue := true }
  else
    s

def changeQueue.reads (s : State n) (pid : Int) : List Nat :=
  -- `p->pid` in the loop, and once more behind it
  List.range ((List.finRange NPROC).findIdx (fun p => (s.proc p).pid = pid) + 1)

def changeQueue (s : State n) (pid : Int) (q : SchedQ) (beyond : Int) : Except Halt (State n) :=
  match s.toCore.findProc fun p => p.pid = pid with
  | none => if beyond ≠ pid then .ok s else .error .wild
  | some p => do
    let s ← changeQueue.leave s p
    let s ← changeQueue.enter s p q
    return changeQueue.defer s p

def sysChangeQueue (s : State n) (pid queueID beyond : Int) : Except Halt (State n × Int) :=
  match SchedQ.ofInt? queueID with
  | none => .ok (s, -1)
  | some q => do
    let s ← s.changeQueue pid q beyond
    return (s, 0)

def setRatios (p : Proc) (pRatio aRatio eRatio sRatio : Int) : Proc :=
  { p with
    priorityRatio := floatOfInt pRatio
    arrivetimeRatio := floatOfInt aRatio
    executedCycleRatio := floatOfInt eRatio
    sizeRatio := floatOfInt sRatio }

def changeLocalBjf (s : State n) (pid pRatio aRatio eRatio sRatio : Int)
    : Except Halt (State n × Int) :=
  match s.toCore.findProc fun p => p.pid = pid with
  | none => .error .wild
  | some p => .ok (s.setProc p (setRatios (s.proc p) pRatio aRatio eRatio sRatio), 0)

def changeGlobalBjf (s : State n) (pRatio aRatio eRatio sRatio : Int) : State n × Int :=
  let s := s.onCore fun s =>
    { s with
      proc := fun p => setRatios (s.proc p) pRatio aRatio eRatio sRatio
      priorityRatio := pRatio
      arrivetimeRatio := aRatio
      executedCycleRatio := eRatio
      sizeRatio := sRatio }
  (s, 0)

end State
end Xv6
