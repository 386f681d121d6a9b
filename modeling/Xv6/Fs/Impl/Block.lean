import Xv6.Bcache.Impl
import Xv6.Fs.Basic

/-!
The lowest layer of `fs.c`: `log_write`, and the allocator for disk blocks. A block
is read and written as a whole, through the buffer cache.
-/

namespace Xv6.Fs

inductive Halt
  | tooBig
  | outsideOfTrans
  | outOfBlocks
  | freeingFree
  | noInodes
  | iget
  | ilock
  | noType
  | iunlock
  | bmapRange
  | dirlookupNotDir
  | dirlookupRead
  | dirlinkRead
  | dirlink
  | isdirempty
  | unlinkNlink
  | unlinkWritei
  | createDots
  | createDirlink
  | filedup
  | fileclose
  | shortFilewrite
  | deadlock
  | stuck
  deriving DecidableEq, Repr

structure Store where
  sb : Superblock
  disk : Disk
  lh : List Nat
  outstanding : Int

namespace Store

def beginOp (s : Store) : Except Halt Store :=
  if (s.lh.length : Int) + (s.outstanding + 1) * MAXOPBLOCKS > LOGSIZE then
    .error .deadlock
  else
    .ok { s with outstanding := s.outstanding + 1 }

def endOp (s : Store) : Store :=
  if s.outstanding - 1 = 0 then
    { s with outstanding := 0, lh := [] }
  else
    { s with outstanding := s.outstanding - 1 }

def logWrite (s : Store) (b : Nat) (data : Block) : Except Halt Store :=
  if s.lh.length ≥ LOGSIZE ∨ (s.lh.length : Int) ≥ s.sb.nlog - 1 then
    .error .tooBig
  else if s.outstanding < 1 then
    .error .outsideOfTrans
  else
    .ok { s with disk := Function.update s.disk b data, lh := Bcache.absorb s.lh b }

def bzero (s : Store) (b : Nat) : Except Halt Store :=
  s.logWrite b .zero

def findFree (s : Store) : Option (Nat × Nat) :=
  (List.range ((s.sb.size + BPB - 1) / BPB)).findSome? fun q =>
    ((List.range (min BPB (s.sb.size - q * BPB))).find? fun bi =>
      !(s.disk (s.sb.bblock (q * BPB))).bit bi).map (Prod.mk q)

def balloc (s : Store) : Except Halt (Nat × Store) :=
  match s.findFree with
  | none => .error .outOfBlocks
  | some (q, bi) => do
    let b := q * BPB
    let s ← s.logWrite (s.sb.bblock b) ((s.disk (s.sb.bblock b)).setBit bi)
    let s ← s.bzero (b + bi)
    return (b + bi, s)

def bfree (s : Store) (b : Nat) : Except Halt Store :=
  let bp := s.disk (s.sb.bblock b)
  let bi := b % BPB
  if bp.bit bi then
    s.logWrite (s.sb.bblock b) (bp.clearBit bi)
  else
    .error .freeingFree

end Store
end Xv6.Fs
