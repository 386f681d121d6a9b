import Xv6.Bcache.Basic
import Xv6.Lib.Reach

/-!
`bread`, `bwrite`, `brelse`, `log_write` and `commit` as any number of processes
run them. A step is a critical section, the acquisition or release of the lock of a buffer, or code
that uses a buffer while its lock is held. The disk driver is that of `memide.c`.
-/

namespace Xv6.Bcache

open Ring

inductive Dst
  | log
  | home
  deriving DecidableEq, Repr

inductive Line (n : Nat)
  | user
  | start
  | copy (dst : Dst) (tail : Nat)
  | copyHome (dst : Dst) (tail : Nat) (l : Fin n)
  | memmove (dst : Dst) (tail : Nat) (l h : Fin n)
  | copyWrite (dst : Dst) (tail : Nat) (l h : Fin n)
  | relseSrc (dst : Dst) (tail : Nat) (l h : Fin n)
  | relseDst (dst : Dst) (tail : Nat) (l h : Fin n)
  | head (erase : Bool)
  | headFill (erase : Bool) (i : Fin n)
  | headWrite (erase : Bool) (i : Fin n)
  | headRelse (erase : Bool) (i : Fin n)
  | clear
  | finish
  deriving DecidableEq, Repr

inductive Ret (n : Nat)
  | user
  | log (dst : Dst) (tail : Nat)
  | home (dst : Dst) (tail : Nat) (l : Fin n)
  | head (erase : Bool)
  deriving DecidableEq, Repr

def Ret.line {n : Nat} (ret : Ret n) (i : Fin n) : Line n :=
  match ret with
  | .user => .user
  | .log dst tail => .copyHome dst tail i
  | .home dst tail l => .memmove dst tail l i
  | .head erase => .headFill erase i

inductive Pc (n : Nat)
  | at (line : Line n)
  | bget (dev blockno : Nat) (i : Fin n) (ret : Ret n)
  | bread (dev blockno : Nat) (i : Fin n) (ret : Ret n)
  | brelse (i : Fin n) (ret : Line n)
  deriving DecidableEq, Repr

inductive Op (n : Nat)
  | bread (dev blockno : Nat) (ret : Ret n)
  | memmove (i : Fin n) (data : Block) (next : Line n)
  | bwrite (i : Fin n) (next : Line n)
  | logWrite (i : Fin n) (next : Line n)
  | brelse (i : Fin n) (next : Line n)
  | beginOp
  | endOp
  | goto (next : Line n)
  | clear (next : Line n)
  | finish
  | wild

/--
`dev`, `start`, `size`, `lh`, `outstanding` and `committing` are the fields of `log`, `lh` being
`log.lh.block[0..n)`. Of each block, `store` is what was last written to it through `bwrite` or
`log_write`, and `unwritten` says which buffers were modified since.
-/
structure State (n : Nat) (P : Type) where
  cache : Cache n P
  disk : Disk
  disksize : Nat
  dev : Nat
  start : Nat
  size : Nat
  lh : List Nat
  outstanding : Int
  committing : Bool
  pc : P → Pc n
  store : Disk
  unwritten : Fin n → Bool

inductive Act (n : Nat) (P : Type)
  | bread (p : P) (dev blockno : Nat)
  | modify (p : P) (i : Fin n) (data : Block)
  | bwrite (p : P) (i : Fin n)
  | logWrite (p : P) (i : Fin n)
  | brelse (p : P) (i : Fin n)
  | beginOp (p : P)
  | endOp (p : P)
  | next (p : P)

def absorb (lh : List Nat) (b : Nat) : List Nat :=
  let i := lh.findIdx (· = b)
  if i = lh.length then lh ++ [b] else lh.set i b

namespace State

variable {n : Nat} {P : Type}

def init (links : Links (Fin n)) (disk : Disk) (disksize dev start size : Nat) : State n P where
  cache := .binit links
  disk := disk
  disksize := disksize
  dev := dev
  start := start
  size := size
  lh := []
  outstanding := 0
  committing := false
  pc := fun _ => .at .user
  store := disk
  unwritten := fun _ => false

def buf (s : State n P) (i : Fin n) : Buf P :=
  s.cache.buf i

def setBuf (s : State n P) (i : Fin n) (b : Buf P) : State n P :=
  { s with cache := s.cache.setBuf i b }

def record (s : State n P) (i : Fin n) : State n P :=
  { s with
    store := Function.update s.store (s.buf i).blockno (s.buf i).data
    unwritten := Function.update s.unwritten i false }

def code (s : State n P) : Line n → Option (Op n)
  | .user => none
  | .start => some (if s.lh.length > 0 then .goto (.copy .log 0) else .goto .finish)
  | .copy dst tail =>
    if tail < s.lh.length then
      some (.bread s.dev (s.start + tail + 1) (.log dst tail))
    else
      match dst with
      | .log => some (.goto (.head false))
      | .home => some (.goto .clear)
  | .copyHome dst tail l =>
    match s.lh[tail]? with
    | some b => some (.bread s.dev b (.home dst tail l))
    | none => some .wild
  | .memmove .log tail l h => some (.memmove l (s.buf h).data (.copyWrite .log tail l h))
  | .memmove .home tail l h => some (.memmove h (s.buf l).data (.copyWrite .home tail l h))
  | .copyWrite .log tail l h => some (.bwrite l (.relseSrc .log tail l h))
  | .copyWrite .home tail l h => some (.bwrite h (.relseSrc .home tail l h))
  | .relseSrc .log tail l h => some (.brelse h (.relseDst .log tail l h))
  | .relseSrc .home tail l h => some (.brelse l (.relseDst .home tail l h))
  | .relseDst .log tail l _ => some (.brelse l (.copy .log (tail + 1)))
  | .relseDst .home tail _ h => some (.brelse h (.copy .home (tail + 1)))
  | .head erase => some (.bread s.dev s.start (.head erase))
  | .headFill erase i =>
    some (.memmove i (((s.buf i).data.setLE 0 4 s.lh.length).setWords 4 s.lh) (.headWrite erase i))
  | .headWrite erase i => some (.bwrite i (.headRelse erase i))
  | .headRelse false i => some (.brelse i (.copy .home 0))
  | .headRelse true i => some (.brelse i .finish)
  | .clear => some (.clear (.head true))
  | .finish => some .finish

section
variable [DecidableEq P]

def setPc (s : State n P) (p : P) (pc : Pc n) : State n P :=
  { s with pc := Function.update s.pc p pc }

def bread (s : State n P) (p : P) (dev blockno : Nat) (ret : Ret n) : Except Halt (State n P) := do
  let (i, cache) ← s.cache.bget dev blockno
  return { s with cache := cache }.setPc p (.bget dev blockno i ret)

def acquiresleep (s : State n P) (p : P) (dev blockno : Nat) (i : Fin n) (ret : Ret n)
    : State n P :=
  (s.setBuf i { s.buf i with lock := some p }).setPc p (.bread dev blockno i ret)

def iderw (s : State n P) (p : P) (i : Fin n) (b : Buf P) : Except Halt (State n P) :=
  match Memide.iderw s.disksize s.disk p b with
  | .ok (disk, b) => .ok ({ s with disk := disk }.setBuf i b)
  | .error h => .error (.iderw h)

def breadRest (s : State n P) (p : P) (i : Fin n) (ret : Ret n) : Except Halt (State n P) := do
  let s ← if (s.buf i).valid then pure s else s.iderw p i (s.buf i)
  return s.setPc p (.at (ret.line i))

def memmove (s : State n P) (p : P) (i : Fin n) (data : Block) (next : Line n) : State n P :=
  let s := s.setBuf i { s.buf i with data := data }
  { s with unwritten := Function.update s.unwritten i true }.setPc p (.at next)

def bwrite (s : State n P) (p : P) (i : Fin n) (next : Line n) : Except Halt (State n P) :=
  if (s.buf i).lock ≠ some p then
    .error .bwrite
  else do
    let s ← s.iderw p i { s.buf i with dirty := true }
    return (s.record i).setPc p (.at next)

def logWrite (s : State n P) (p : P) (i : Fin n) (next : Line n) : Except Halt (State n P) :=
  if s.lh.length ≥ LOGSIZE ∨ (s.lh.length : Int) ≥ s.size - 1 then
    .error .tooBig
  else if s.outstanding < 1 then
    .error .outsideOfTrans
  else
    let s := { s with lh := absorb s.lh (s.buf i).blockno }
    .ok (((s.setBuf i { s.buf i with dirty := true }).record i).setPc p (.at next))

def brelse (s : State n P) (p : P) (i : Fin n) (next : Line n) : Except Halt (State n P) :=
  if (s.buf i).lock ≠ some p then
    .error .brelse
  else
    .ok ((s.setBuf i { s.buf i with lock := none }).setPc p (.brelse i next))

def brelseRest (s : State n P) (p : P) (i : Fin n) (next : Line n) : State n P :=
  { s with cache := s.cache.put i }.setPc p (.at next)

def beginOp (s : State n P) : Option (State n P) :=
  if s.committing ∨ s.lh.length + (s.outstanding + 1) * MAXOPBLOCKS > LOGSIZE then
    none
  else
    some { s with outstanding := s.outstanding + 1 }

def endOp (s : State n P) (p : P) : Except Halt (State n P) :=
  let s := { s with outstanding := s.outstanding - 1 }
  if s.committing then
    .error .committing
  else if s.outstanding = 0 then
    .ok ({ s with committing := true }.setPc p (.at .start))
  else
    .ok s

def run (s : State n P) (p : P) : Op n → Option (Except Halt (State n P))
  | .bread dev blockno ret => some (s.bread p dev blockno ret)
  | .memmove i data next => some (.ok (s.memmove p i data next))
  | .bwrite i next => some (s.bwrite p i next)
  | .logWrite i next => some (s.logWrite p i next)
  | .brelse i next => some (s.brelse p i next)
  | .beginOp => s.beginOp.map .ok
  | .endOp => some (s.endOp p)
  | .goto next => some (.ok (s.setPc p (.at next)))
  | .clear next => some (.ok ({ s with lh := [] }.setPc p (.at next)))
  | .finish => some (.ok ({ s with committing := false }.setPc p (.at .user)))
  | .wild => some (.error .wild)

def call (s : State n P) (p : P) (op : Op n) : Option (Except Halt (State n P)) :=
  if s.pc p = .at .user then s.run p op else none

def next (s : State n P) (p : P) : Option (Except Halt (State n P)) :=
  match s.pc p with
  | .at line => (s.code line).bind (s.run p)
  | .bget dev blockno i ret =>
    if (s.buf i).lock = none then some (.ok (s.acquiresleep p dev blockno i ret)) else none
  | .bread _ _ i ret => some (s.breadRest p i ret)
  | .brelse i next => some (.ok (s.brelseRest p i next))

def step (s : State n P) (a : Act n P) : Option (Except Halt (State n P)) :=
  match a with
  | .bread p dev blockno => s.call p (.bread dev blockno .user)
  | .modify p i data => s.call p (.memmove i data .user)
  | .bwrite p i => s.call p (.bwrite i .user)
  | .logWrite p i => s.call p (.logWrite i .user)
  | .brelse p i => s.call p (.brelse i .user)
  | .beginOp p => s.call p .beginOp
  | .endOp p => s.call p .endOp
  | .next p => s.next p

def Steps (s : State n P) (a : Act n P) (s' : State n P) : Prop :=
  s.step a = some (.ok s')

end
end State
end Xv6.Bcache
