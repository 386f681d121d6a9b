import Xv6.Disk.Memide
import Xv6.Lib.Ring

namespace Xv6.Bcache

open Ring

inductive Halt
  | noBuffers
  | bwrite
  | brelse
  | iderw (h : Memide.Halt)
  | tooBig
  | outsideOfTrans
  | committing
  | loops
  | wild
  deriving DecidableEq, Repr

structure Cache (n : Nat) (P : Type) where
  links : Links (Fin n)
  buf : Fin n → Buf P

namespace Cache

variable {n : Nat} {P : Type}

def setBuf (c : Cache n P) (i : Fin n) (b : Buf P) : Cache n P :=
  { c with buf := Function.update c.buf i b }

def binit (links : Links (Fin n)) : Cache n P where
  links := (List.finRange n).foldl Links.insertFront links.clear
  buf := fun _ => {}

def caches (c : Cache n P) (dev blockno : Nat) (i : Fin n) : Bool :=
  (c.buf i).dev = dev ∧ (c.buf i).blockno = blockno

def unused (c : Cache n P) (i : Fin n) : Bool :=
  (c.buf i).refcnt = 0 ∧ (c.buf i).dirty = false

def share (c : Cache n P) (i : Fin n) : Cache n P :=
  c.setBuf i { c.buf i with refcnt := (c.buf i).refcnt + 1 }

def recycle (c : Cache n P) (i : Fin n) (dev blockno : Nat) : Cache n P :=
  c.setBuf i
    { c.buf i with dev := dev, blockno := blockno, valid := false, dirty := false, refcnt := 1 }

def bget (c : Cache n P) (dev blockno : Nat) : Except Halt (Fin n × Cache n P) :=
  -- Is the block already cached?
  match Links.scan c.links.next (c.caches dev blockno) n (c.links.next none) with
  | none => .error .loops
  | some (some i) => .ok (i, c.share i)
  | some none =>
    match Links.scan c.links.prev c.unused n (c.links.prev none) with
    | none => .error .loops
    | some (some i) => .ok (i, c.recycle i dev blockno)
    | some none => .error .noBuffers

def put (c : Cache n P) (i : Fin n) : Cache n P :=
  let c := c.setBuf i { c.buf i with refcnt := (c.buf i).refcnt - 1 }
  if (c.buf i).refcnt = 0 then
    -- No one is waiting for it.
    { c with links := (c.links.unlink i).insertFront i }
  else
    c

end Cache
end Xv6.Bcache
