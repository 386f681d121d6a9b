import Xv6.Lib.Reach
import Xv6.Proc.Basic

/-!
`sleep`, `wakeup1` and `wakeup` one instruction at a time, for processes that
wait for conditions which are protected by locks. A step is a lock operation, a write to a field of
the process table or a round of the loop of `wakeup1`; the processes take them in any order. The
scheduling queues have no part in this: what `cleanupCorresQueue` and `wakeup1` do to them changes
neither the state nor the channel of a process.
-/

namespace Xv6.Sleep

inductive Lock (L : Type)
  | ptable
  | other (l : L)
  deriving DecidableEq, Repr

structure Monitor (M χ L : Type) where
  chan : M → χ
  lk : χ → Lock L

namespace Monitor

variable {M χ L : Type}

def lock (mon : Monitor M χ L) (m : M) : Lock L :=
  mon.lk (mon.chan m)

end Monitor

inductive Ret (M : Type)
  | out
  | crit (m : M)
  deriving DecidableEq, Repr

inductive Pc (M χ : Type)
  | out
  | crit (m : M)
  | sleepAcquire (m : M)
  | sleepRelease (m : M)
  | sleepChan (m : M)
  | sleepState (m : M)
  | sleepSched (m : M)
  | asleep (m : M)
  | tidyUp (m : M)
  | sleepUnlock (m : M)
  | sleepRelock (m : M)
  | wakeupAcquire (ret : Ret M) (c : χ)
  | wakeup1 (ret : Ret M) (c : χ) (i : Nat)
  | wakeupRelease (ret : Ret M) (c : χ)
  deriving DecidableEq, Repr

def Ret.pc {M χ : Type} : Ret M → Pc M χ
  | .out => .out
  | .crit m => .crit m

structure Thread (M χ : Type) where
  pc : Pc M χ := .out
  state : ProcState := .runnable
  chan : Option χ := none
  deriving DecidableEq

structure State (n : Nat) (M χ L : Type) where
  locked : Lock L → Bool
  cond : M → Bool
  thread : Fin n → Thread M χ

inductive Act (n : Nat) (M χ : Type)
  | enter (p : Fin n) (m : M)
  | leave (p : Fin n)
  | set (p : Fin n) (b : Bool)
  | test (p : Fin n)
  | wakeup (p : Fin n) (c : χ)
  | wakeup1 (p : Fin n) (c : χ)
  | next (p : Fin n)
  | preempt (p : Fin n)
  | dispatch (p : Fin n)
  | kill (p : Fin n)
  deriving DecidableEq, Repr

namespace Thread

variable {M χ : Type}

def executing (t : Thread M χ) : Bool :=
  match t.pc with
  | .sleepSched _ => true
  | .asleep _ => false
  | _ => t.state = .running

def interruptible (t : Thread M χ) : Bool :=
  match t.pc with
  | .out | .sleepRelock _ | .wakeupAcquire .out _ => true
  | _ => false

def wakeup1 [DecidableEq χ] (t : Thread M χ) (c : χ) : Thread M χ :=
  if t.state = .sleeping ∧ t.chan = some c then { t with state := .runnable } else t

end Thread

namespace State

variable {n : Nat} {M χ L : Type} [DecidableEq M] [DecidableEq χ] [DecidableEq L]

def init (cond : M → Bool) : State n M χ L where
  locked := fun _ => false
  cond := cond
  thread := fun _ => {}

def setThread (s : State n M χ L) (p : Fin n) (t : Thread M χ) : State n M χ L :=
  { s with thread := fun q => if q = p then t else s.thread q }

def setPc (s : State n M χ L) (p : Fin n) (pc : Pc M χ) : State n M χ L :=
  s.setThread p { s.thread p with pc := pc }

def setLocked (s : State n M χ L) (l : Lock L) (b : Bool) : State n M χ L :=
  { s with locked := fun k => if k = l then b else s.locked k }

def acquire (s : State n M χ L) (l : Lock L) : Option (State n M χ L) :=
  if s.locked l then none else some (s.setLocked l true)

def release (s : State n M χ L) (l : Lock L) : State n M χ L :=
  s.setLocked l false

def sleepPc (mon : Monitor M χ L) (m : M) : Pc M χ :=
  if mon.lock m ≠ .ptable then .sleepAcquire m else .sleepChan m

def wakeup1Ret (mon : Monitor M χ L) (ret : Ret M) (c : χ) : Pc M χ :=
  match ret with
  | .out => .wakeupRelease ret c
  | .crit m => if mon.lock m = .ptable then .crit m else .wakeupRelease ret c

def next (mon : Monitor M χ L) (s : State n M χ L) (p : Fin n) : Option (State n M χ L) :=
  match (s.thread p).pc with
  | .out | .crit _ | .asleep _ => none
  | .sleepAcquire m => do
    let s ← s.acquire .ptable
    return s.setPc p (.sleepRelease m)
  | .sleepRelease m =>
    some ((s.release (mon.lock m)).setPc p (.sleepChan m))
  | .sleepChan m =>
    some (s.setThread p { s.thread p with chan := some (mon.chan m), pc := .sleepState m })
  | .sleepState m =>
    some (s.setThread p { s.thread p with state := .sleeping, pc := .sleepSched m })
  | .sleepSched m =>
    -- The scheduler of the CPU releases the lock.
    some ((s.release .ptable).setPc p (.asleep m))
  | .tidyUp m =>
    let pc := if mon.lock m ≠ .ptable then .sleepUnlock m else .crit m
    some (s.setThread p { s.thread p with chan := none, pc := pc })
  | .sleepUnlock m =>
    some ((s.release .ptable).setPc p (.sleepRelock m))
  | .sleepRelock m => do
    let s ← s.acquire (mon.lock m)
    return s.setPc p (.crit m)
  | .wakeupAcquire ret c => do
    let s ← s.acquire .ptable
    return s.setPc p (.wakeup1 ret c 0)
  | .wakeup1 ret c i =>
    if h : i < n then
      let s := s.setThread ⟨i, h⟩ ((s.thread ⟨i, h⟩).wakeup1 c)
      some (s.setPc p (.wakeup1 ret c (i + 1)))
    else
      some (s.setPc p (wakeup1Ret mon ret c))
  | .wakeupRelease ret _ =>
    some ((s.release .ptable).setPc p ret.pc)

def wakeup (mon : Monitor M χ L) (s : State n M χ L) (p : Fin n) (c : χ)
    : Option (State n M χ L) :=
  match (s.thread p).pc with
  | .out => some (s.setPc p (.wakeupAcquire .out c))
  | .crit m =>
    if mon.lock m = .ptable then none else some (s.setPc p (.wakeupAcquire (.crit m) c))
  | _ => none

def wakeup1 (mon : Monitor M χ L) (s : State n M χ L) (p : Fin n) (c : χ)
    : Option (State n M χ L) :=
  match (s.thread p).pc with
  | .crit m => if mon.lock m = .ptable then some (s.setPc p (.wakeup1 (.crit m) c 0)) else none
  | _ => none

def enter (mon : Monitor M χ L) (s : State n M χ L) (p : Fin n) (m : M) : Option (State n M χ L) :=
  match (s.thread p).pc with
  | .out => do
    let s ← s.acquire (mon.lock m)
    return s.setPc p (.crit m)
  | _ => none

def leave (mon : Monitor M χ L) (s : State n M χ L) (p : Fin n) : Option (State n M χ L) :=
  match (s.thread p).pc with
  | .crit m => some ((s.release (mon.lock m)).setPc p .out)
  | _ => none

def set (s : State n M χ L) (p : Fin n) (b : Bool) : Option (State n M χ L) :=
  match (s.thread p).pc with
  | .crit m => some { s with cond := fun k => if k = m then b else s.cond k }
  | _ => none

def test (mon : Monitor M χ L) (s : State n M χ L) (p : Fin n) : Option (State n M χ L) :=
  match (s.thread p).pc with
  | .crit m => if s.cond m then some s else some (s.setPc p (sleepPc mon m))
  | _ => none

def preempt (s : State n M χ L) (p : Fin n) : Option (State n M χ L) :=
  if !s.locked .ptable && (s.thread p).interruptible then
    some (s.setThread p { s.thread p with state := .runnable })
  else
    none

def dispatch (s : State n M χ L) (p : Fin n) : Option (State n M χ L) :=
  if (s.thread p).state = .runnable then
    match (s.thread p).pc with
    | .asleep m => do
      let s ← s.acquire .ptable
      return s.setThread p { s.thread p with state := .running, pc := .tidyUp m }
    | _ =>
      if s.locked .ptable then none
      else some (s.setThread p { s.thread p with state := .running })
  else
    none

def kill (s : State n M χ L) (p : Fin n) : Option (State n M χ L) :=
  if s.locked .ptable then none
  else if (s.thread p).state = .sleeping then
    some (s.setThread p { s.thread p with state := .runnable })
  else
    some s

def onCpu (s : State n M χ L) (p : Fin n) (r : Option (State n M χ L)) : Option (State n M χ L) :=
  if (s.thread p).executing then r else none

def step (mon : Monitor M χ L) (s : State n M χ L) (a : Act n M χ) : Option (State n M χ L) :=
  match a with
  | .enter p m => s.onCpu p (s.enter mon p m)
  | .leave p => s.onCpu p (s.leave mon p)
  | .set p b => s.onCpu p (s.set p b)
  | .test p => s.onCpu p (s.test mon p)
  | .wakeup p c => s.onCpu p (s.wakeup mon p c)
  | .wakeup1 p c => s.onCpu p (s.wakeup1 mon p c)
  | .next p => s.onCpu p (s.next mon p)
  | .preempt p => s.onCpu p (s.preempt p)
  | .dispatch p => s.dispatch p
  | .kill p => s.kill p

def Steps (mon : Monitor M χ L) (s : State n M χ L) (a : Act n M χ) (s' : State n M χ L) : Prop :=
  s.step mon a = some s'

end State
end Xv6.Sleep
