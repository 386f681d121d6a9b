import Xv6.Lib.Bytes
import Xv6.Lib.Reach

/-!
`pipewrite`, `piperead` and `pipeclose` of `pipe.c`, for any number of processes
that use one pipe. A step is the code between two points at which `p->lock` is free. `nread` and
`nwrite` are unsigned 32-bit numbers and wrap around.
-/

namespace Xv6.Pipe

abbrev PIPESIZE : Nat := 512

inductive Chan
  | nread
  | nwrite
  deriving DecidableEq, Repr

inductive Pc
  | idle
  | write (rest : List UInt8)
  | read (n : Nat)
  | writeSleep (rest : List UInt8)
  | readSleep (n : Nat)
  deriving DecidableEq, Repr

def Pc.wakeup (c : Chan) : Pc → Pc
  | .writeSleep rest => if c = .nwrite then .write rest else .writeSleep rest
  | .readSleep n => if c = .nread then .read n else .readSleep n
  | pc => pc

structure State (P : Type) where
  data : Bytes PIPESIZE
  nread : UInt32
  nwrite : UInt32
  readopen : Bool
  writeopen : Bool
  killed : P → Bool
  pc : P → Pc
  written : List UInt8 := []
  delivered : List UInt8 := []

inductive Act (P : Type)
  | pipewrite (p : P) (addr : List UInt8)
  | piperead (p : P) (n : Nat)
  | run (p : P)
  | pipeclose (writable : Bool)
  | kill (p : P)
  deriving DecidableEq, Repr

namespace State

variable {P : Type}

def init (data : Bytes PIPESIZE) : State P where
  data := data
  nread := 0
  nwrite := 0
  readopen := true
  writeopen := true
  killed := fun _ => false
  pc := fun _ => .idle

def wakeup (s : State P) (c : Chan) : State P :=
  { s with pc := fun p => (s.pc p).wakeup c }

def full (s : State P) : Bool :=
  s.nwrite = s.nread + UInt32.ofNat PIPESIZE

def empty (s : State P) : Bool :=
  s.nread = s.nwrite

def store (s : State P) (b : UInt8) : State P :=
  { s with
    data := s.data.set (s.nwrite.toNat % PIPESIZE) b
    nwrite := s.nwrite + 1
    written := s.written ++ [b] }

def fetch (s : State P) : State P :=
  { s with
    nread := s.nread + 1
    delivered := s.delivered ++ [s.data.get (s.nread.toNat % PIPESIZE)] }

section
variable [DecidableEq P]

def setPc (s : State P) (p : P) (pc : Pc) : State P :=
  { s with pc := Function.update s.pc p pc }

def pipewrite (s : State P) (p : P) (rest : List UInt8) : State P :=
  match rest with
  | [] => (s.wakeup .nread).setPc p .idle
  | b :: rest =>
    if s.full then
      if ¬s.readopen ∨ s.killed p then
        s.setPc p .idle
      else
        (s.wakeup .nread).setPc p (.writeSleep (b :: rest))
    else
      (s.store b).pipewrite p rest

def copy (s : State P) (n : Nat) : State P :=
  match n with
  | 0 => s
  | n + 1 => if s.empty then s else s.fetch.copy n

def piperead (s : State P) (p : P) (n : Nat) : State P :=
  if s.empty ∧ s.writeopen then
    if s.killed p then s.setPc p .idle else s.setPc p (.readSleep n)
  else
    ((s.copy n).wakeup .nwrite).setPc p .idle

def pipeclose (s : State P) (writable : Bool) : State P :=
  if writable then
    { s with writeopen := false }.wakeup .nread
  else
    { s with readopen := false }.wakeup .nwrite

def kill (s : State P) (p : P) : State P :=
  { s with killed := Function.update s.killed p true }.setPc p
    (((s.pc p).wakeup .nread).wakeup .nwrite)

def step (s : State P) (a : Act P) : Option (State P) :=
  if ¬s.readopen ∧ ¬s.writeopen then
    none
  else
    match a with
    | .pipewrite p addr => if s.pc p = .idle then some (s.setPc p (.write addr)) else none
    | .piperead p n => if s.pc p = .idle then some (s.setPc p (.read n)) else none
    | .run p =>
      match s.pc p with
      | .write rest => some (s.pipewrite p rest)
      | .read n => some (s.piperead p n)
      | _ => none
    | .pipeclose writable => some (s.pipeclose writable)
    | .kill p => some (s.kill p)

def Steps (s : State P) (a : Act P) (s' : State P) : Prop :=
  s.step a = some s'

end
end State
end Xv6.Pipe
