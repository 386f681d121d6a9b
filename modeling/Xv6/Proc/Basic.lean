import Mathlib.Algebra.Field.Rat
import Mathlib.Data.Fintype.Basic
import Mathlib.Data.List.FinRange

/-!
The data model of `proc.c`: the process table, the three scheduling queues as
they lie in memory, the CPUs and the state that the kernel functions share.
-/

namespace Xv6

abbrev NPROC : Nat := 64

abbrev ProcPtr : Type := Fin NPROC

def int32 (i : Int) : Int :=
  i.bmod (2 ^ 32)

theorem int32_of_lt {i : Nat} (h : i < 2 ^ 31) : int32 i = i := by
  unfold int32
  rw [Int.bmod_eq_of_le (by omega) (by omega)]

inductive ProcState
  | unused
  | embryo
  | sleeping
  | runnable
  | running
  | zombie
  deriving DecidableEq, Repr

inductive SchedQ
  | deflt
  | rr
  | lcfs
  | bjf
  deriving DecidableEq, Repr

inductive QueueId
  | rr
  | lcfs
  | bjf
  deriving DecidableEq, Repr

namespace QueueId

def toSchedQ : QueueId → SchedQ
  | .rr => .rr
  | .lcfs => .lcfs
  | .bjf => .bjf

end QueueId

namespace SchedQ

def queueId? : SchedQ → Option QueueId
  | .deflt => none
  | .rr => some .rr
  | .lcfs => some .lcfs
  | .bjf => some .bjf

def ofInt? (n : Int) : Option SchedQ :=
  if n = 0 then some .deflt
  else if n = 1 then some .rr
  else if n = 2 then some .lcfs
  else if n = 3 then some .bjf
  else none

end SchedQ

inductive Chan (P : Type)
  | proc (p : P)
  | addr (a : Nat)
  deriving DecidableEq, Repr

inductive Context
  | forkret
  | yield
  | sleep
  | wait
  deriving DecidableEq, Repr

inductive ForkStage
  | allocated
  | copied
  deriving DecidableEq, Repr

/--
`struct proc`. `killed` and `changeRunningQueue` only ever hold 0 or 1. The `float` fields are given
by their value. `eax` is `tf->eax`, and `fork` is what the process's kernel stack holds of a `fork`
in progress: `np`, and how far it is built.
-/
structure Proc where
  state : ProcState := .unused
  pid : Int := 0
  parent : Option ProcPtr := none
  eax : Int := 0
  context : Context := .forkret
  fork : Option (ProcPtr × ForkStage) := none
  chan : Option (Chan ProcPtr) := none
  killed : Bool := false
  qType : SchedQ := .deflt
  priority : Int := 0
  priorityRatio : Rat := 0
  executedCycle : Rat := 0
  executedCycleRatio : Rat := 0
  arrivetime : UInt32 := 0
  arrivetimeRatio : Rat := 0
  sizeRatio : Rat := 0
  runningTicks : UInt32 := 0
  waitingTime : UInt32 := 0
  changeRunningQueue : Bool := false
  deriving DecidableEq

abbrev TIME_SLOT : UInt32 := 5
abbrev AGING_BOUND : UInt32 := 2000
abbrev BJF_UPPER_BOUND : UInt32 := 500

inductive Panic
  | nothingToClean (k : QueueId)
  | defautSchedulingCleanup
  | noRunnableProcess
  | initExiting
  | userinitAllocprocFailed
  deriving DecidableEq, Repr

inductive Halt
  | panic (p : Panic)
  | wild
  deriving DecidableEq, Repr

inductive Word
  | null
  | proc (p : ProcPtr)
  | bits (n : Int)
  deriving DecidableEq, Repr

namespace Word

def procAddr (p : ProcPtr) : Int :=
  0x80113db4 + 0xa8 * p.val - 2 ^ 32

def ofInt (n : Int) : Word :=
  if n = 0 then .null else .bits n

def toInt : Word → Int
  | .null => 0
  | .proc p => procAddr p
  | .bits n => n

@[simp]
theorem toInt_ofInt (n : Int) : (ofInt n).toInt = n := by
  unfold ofInt
  split
  . next h => simp [toInt, h]
  . rfl

def deref : Word → Except Halt ProcPtr
  | .proc p => .ok p
  | _ => .error .wild

end Word

structure Queue where
  proc : Fin NPROC → Word
  pi : Word

inductive Mode
  | idle
  | running
  | yielding
  | dispatched
  | returned
  deriving DecidableEq, Repr

inductive Site
  | pick
  | table (p : ProcPtr)
  deriving DecidableEq, Repr

structure Cpu where
  proc : Option ProcPtr := none
  mode : Mode := .idle
  site : Site := .pick
  deriving DecidableEq, Repr

structure Core (n : Nat) where
  proc : ProcPtr → Proc
  cpu : Fin n → Cpu
  lock : Option (Fin n)
  initproc : Option ProcPtr
  nextpid : Int
  rrCounter : UInt32
  ticks : UInt32
  priorityRatio : Int
  arrivetimeRatio : Int
  executedCycleRatio : Int
  sizeRatio : Int

structure State (n : Nat) extends Core n where
  rrQ : Queue
  lcfsQ : Queue
  bjfQ : Queue

end Xv6
