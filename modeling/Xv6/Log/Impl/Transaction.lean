import Xv6.Lib.Reach
import Xv6.Disk.Basic
import Mathlib.Data.Fintype.Card

/-!
`begin_op`, `log_write`, `end_op` and `commit` of `log.c` as they are run by any
number of processes. A step is a critical section of `log.lock`, or a piece of code outside of it
that looks at shared data once.
-/

namespace Xv6.Transaction

inductive Halt
  | tooBig
  | outsideOfTrans
  | committing
  | wild
  deriving DecidableEq, Repr

inductive Pc
  | out
  | waiting
  | op
  | logChecked (b : Nat)
  | logLock (b : Nat)
  | commit
  | writeLog (tail : Nat)
  | writeHead
  | installTrans (tail : Nat)
  | clearN
  | clearHead
  | committed
  deriving DecidableEq, Repr

structure Thread where
  pc : Pc := .out
  blocks : List Nat := []
  deriving DecidableEq

/--
`lh` is `log.lh.block[0..n)`. `copied` lists the home blocks that the commit in progress has copied
to the log on disk, `commits` those of each transaction for which the header was written.
-/
structure State (n : Nat) where
  size : Nat
  outstanding : Int
  committing : Bool
  lh : List Nat
  thread : Fin n → Thread
  copied : List Nat
  commits : List (List Nat)

inductive Act (n : Nat)
  | beginOp (p : Fin n)
  | logWrite (p : Fin n) (b : Nat)
  | endOp (p : Fin n)
  | next (p : Fin n)
  deriving DecidableEq, Repr

namespace Pc

def inOp : Pc → Bool
  | .op | .logChecked _ | .logLock _ => true
  | _ => false

def inCommit : Pc → Bool
  | .commit | .writeLog _ | .writeHead | .installTrans _ | .clearN | .clearHead | .committed => true
  | _ => false

end Pc

def logBlock (lh : List Nat) (b : Nat) : Except Halt (List Nat) :=
  let i := lh.findIdx (· = b)
  if i = lh.length then
    if i < LOGSIZE then .ok (lh ++ [b]) else .error .wild
  else
    .ok (lh.set i b)

namespace State

variable {n : Nat}

def init (size : Nat) : State n where
  size := size
  outstanding := 0
  committing := false
  lh := []
  thread := fun _ => {}
  copied := []
  commits := []

def setThread (s : State n) (p : Fin n) (t : Thread) : State n :=
  { s with thread := Function.update s.thread p t }

def setPc (s : State n) (p : Fin n) (pc : Pc) : State n :=
  s.setThread p { s.thread p with pc := pc }

def beginOp (s : State n) (p : Fin n) : State n :=
  if s.committing then
    s.setPc p .waiting
  else if s.lh.length + (s.outstanding + 1) * MAXOPBLOCKS > LOGSIZE then
    -- This operation might exhaust log space.
    s.setPc p .waiting
  else
    { s with outstanding := s.outstanding + 1 }.setThread p { pc := .op, blocks := [] }

def logWrite (s : State n) (p : Fin n) (b : Nat) : Except Halt (State n) :=
  if s.lh.length ≥ LOGSIZE ∨ (s.lh.length : Int) ≥ s.size - 1 then
    .error .tooBig
  else
    .ok (s.setPc p (.logChecked b))

def logCheck (s : State n) (p : Fin n) (b : Nat) : Except Halt (State n) :=
  if s.outstanding < 1 then
    .error .outsideOfTrans
  else
    .ok (s.setPc p (.logLock b))

def logLocked (s : State n) (p : Fin n) (b : Nat) : Except Halt (State n) := do
  let lh ← logBlock s.lh b
  let blocks := (s.thread p).blocks
  return { s with lh := lh }.setThread p
    { pc := .op, blocks := if b ∈ blocks then blocks else blocks ++ [b] }

def endOp (s : State n) (p : Fin n) : Except Halt (State n) :=
  let s := { s with outstanding := s.outstanding - 1 }
  if s.committing then
    .error .committing
  else if s.outstanding = 0 then
    .ok ({ s with committing := true }.setPc p .commit)
  else
    .ok (s.setPc p .out)

def commit (s : State n) (p : Fin n) : State n :=
  if s.lh.length > 0 then
    { s with copied := [] }.setPc p (.writeLog 0)
  else
    s.setPc p .committed

def writeLog (s : State n) (p : Fin n) (tail : Nat) : State n :=
  match s.lh[tail]? with
  | some b => { s with copied := s.copied ++ [b] }.setPc p (.writeLog (tail + 1))
  | none => s.setPc p .writeHead

def writeHead (s : State n) (p : Fin n) : State n :=
  { s with commits := s.commits ++ [s.copied] }.setPc p (.installTrans 0)

def installTrans (s : State n) (p : Fin n) (tail : Nat) : State n :=
  if tail < s.lh.length then s.setPc p (.installTrans (tail + 1)) else s.setPc p .clearN

def next (s : State n) (p : Fin n) : Option (Except Halt (State n)) :=
  match (s.thread p).pc with
  | .out | .waiting | .op => none
  | .logChecked b => some (s.logCheck p b)
  | .logLock b => some (s.logLocked p b)
  | .commit => some (.ok (s.commit p))
  | .writeLog tail => some (.ok (s.writeLog p tail))
  | .writeHead => some (.ok (s.writeHead p))
  | .installTrans tail => some (.ok (s.installTrans p tail))
  | .clearN => some (.ok ({ s with lh := [] }.setPc p .clearHead))
  | .clearHead => some (.ok (s.setPc p .committed))
  | .committed => some (.ok ({ s with committing := false }.setPc p .out))

def step (s : State n) (a : Act n) : Option (Except Halt (State n)) :=
  match a with
  | .beginOp p =>
    if (s.thread p).pc = .out ∨ (s.thread p).pc = .waiting then some (.ok (s.beginOp p)) else none
  | .logWrite p b => if (s.thread p).pc = .op then some (s.logWrite p b) else none
  | .endOp p => if (s.thread p).pc = .op then some (s.endOp p) else none
  | .next p => s.next p

def Steps (s : State n) (a : Act n) (s' : State n) : Prop :=
  s.step a = some (.ok s')

def ops (s : State n) : Nat :=
  (Finset.univ.filter fun p => (s.thread p).pc.inOp).card

end State
end Xv6.Transaction
