import Xv6.Lib.SpinLock

/-!
The paths through `proc.c`, `trap.c`, `sysproc.c` and `console.c` that take
`ptable.lock`, `tickslock` and `cons.lock`, reduced to what they do with these three locks.
-/

namespace Xv6

open SpinLock

inductive LockId
  | ptable
  | tickslock
  | cons
  deriving DecidableEq, Repr

instance : Fintype LockId where
  elems := {.ptable, .tickslock, .cons}
  complete := by
    intro l
    cases l
    all_goals decide

inductive KernelPath
  | fork (allocated : Bool)
  | timer
  | sysSleep (waits : Bool)
  | sysSleepResumed (waits : Bool)
  | wakeup
  | changeQueue (found : Bool)
  | printProc (used : Nat)
  | consoleintr (lines dump : Nat)
  | consoleread (waits : Bool)
  | consolereadResumed (waits : Bool)
  deriving DecidableEq, Repr

namespace KernelPath

abbrev Ops : Type := List (LockOp LockId)

def allocprocOps : Ops :=
  [.acquire .ptable, .release .ptable]

def forkOps (allocated : Bool) : Ops :=
  if allocated then
    allocprocOps ++ [.acquire .ptable, .acquire .tickslock, .release .tickslock, .release .ptable]
  else
    allocprocOps

def agingMechanismOps : Ops :=
  -- A timer interrupt finds the CPU without locks, so that `holding` is false.
  [.acquire .ptable, .release .ptable]

def wakeupOps : Ops :=
  [.acquire .ptable, .release .ptable]

def timerOps : Ops :=
  [.acquire .tickslock] ++ agingMechanismOps ++ wakeupOps ++ [.release .tickslock]

def sleepOps (lk : LockId) : Ops :=
  [.acquire .ptable, .release lk, .release .ptable]

def resumeOps (lk : LockId) : Ops :=
  [.acquire .ptable, .release .ptable, .acquire lk]

def sleepLoopOps (lk : LockId) (waits : Bool) : Ops :=
  if waits then sleepOps lk else [.release lk]

def sysSleepOps (waits : Bool) : Ops :=
  [.acquire .tickslock] ++ sleepLoopOps .tickslock waits

def cprintfOps : Ops :=
  [.acquire .cons, .release .cons]

def changeQueueOps (found : Bool) : Ops :=
  if found then
    [.acquire .ptable, .release .ptable]
  else
    [.acquire .ptable] ++ cprintfOps ++ [.release .ptable]

def printProcOps (used : Nat) : Ops :=
  cprintfOps ++ cprintfOps ++ [.acquire .ptable] ++ (List.replicate used cprintfOps).flatten
    ++ [.release .ptable]

def consoleintrOps (lines dump : Nat) : Ops :=
  [.acquire .cons] ++ (List.replicate lines wakeupOps).flatten ++ [.release .cons]
    ++ (List.replicate dump cprintfOps).flatten

def consolereadOps (waits : Bool) : Ops :=
  wakeupOps ++ [.acquire .cons] ++ sleepLoopOps .cons waits

def ops {n : Nat} (c : Fin n) (p : KernelPath) : Ops :=
  match p with
  | .fork allocated => forkOps allocated
  | .timer => if c.val = 0 then timerOps else []
  | .sysSleep waits => sysSleepOps waits
  | .sysSleepResumed waits => resumeOps .tickslock ++ sleepLoopOps .tickslock waits
  | .wakeup => wakeupOps
  | .changeQueue found => changeQueueOps found
  | .printProc used => printProcOps used
  | .consoleintr lines dump => consoleintrOps lines dump
  | .consoleread waits => consolereadOps waits
  | .consolereadResumed waits => resumeOps .cons ++ sleepLoopOps .cons waits

def isHandler (p : KernelPath) : Bool :=
  match p with
  | .timer => true
  | .consoleintr _ _ => true
  | _ => false

end KernelPath

def kernel (n : Nat) : Kernel (Fin n) LockId KernelPath where
  path := KernelPath.ops
  isHandler := KernelPath.isHandler

end Xv6
