import Xv6.Lib.Writes
import Xv6.Log.Basic

namespace Xv6.Log

structure Machine where
  start : Nat
  lh : LogHeader
  cache : Nat → Option Block
  disk : Disk
  written : List (Nat × Block) := []

namespace Machine

def bread (s : Machine) (b : Nat) : Block :=
  (s.cache b).getD (s.disk b)

def bwrite (s : Machine) (b : Nat) (data : Block) : Machine :=
  { s with
    cache := Function.update s.cache b (some data)
    disk := Function.update s.disk b data
    written := s.written ++ [(b, data)] }

def copyBlocks (s : Machine) (pairs : List (Nat × Nat)) : Machine :=
  match pairs with
  | [] => s
  | (src, dst) :: pairs => (s.bwrite dst (s.bread src)).copyBlocks pairs

def entries (start : Nat) (lh : LogHeader) : List (Nat × Nat) :=
  lh.block.zipIdx.map fun (b, tail) => (b, start + tail + 1)

def writeLog (s : Machine) : Machine :=
  s.copyBlocks (entries s.start s.lh)

def installTrans (s : Machine) : Machine :=
  s.copyBlocks ((entries s.start s.lh).map Prod.swap)

def writeHead (s : Machine) : Machine :=
  s.bwrite s.start (s.lh.encode (s.bread s.start))

def clearN (s : Machine) : Machine :=
  { s with lh := .empty }

def commit (s : Machine) : Machine :=
  if 0 < s.lh.n then
    let s := s.writeLog
    let s := s.writeHead
    let s := s.installTrans
    let s := s.clearN
    s.writeHead
  else
    s

def readHead (s : Machine) : Option Machine := do
  let lh ← LogHeader.decode (s.bread s.start)
  return { s with lh := lh }

def recoverFromLog (s : Machine) : Option Machine := do
  let s ← s.readHead
  let s := s.installTrans
  let s := s.clearN
  return s.writeHead

def boot (start : Nat) (disk : Disk) : Machine where
  start := start
  lh := .empty
  cache := fun _ => none
  disk := disk

def commitWrites (s : Machine) : List (Nat × Block) :=
  s.commit.written.drop s.written.length

def commitCut (s : Machine) (k : Nat) : Disk :=
  Writes.apply (s.commitWrites.take k) s.disk

def recoverCut (start k : Nat) (disk : Disk) : Option Disk := do
  let s ← (boot start disk).recoverFromLog
  return Writes.apply (s.written.take k) disk

def recoverCuts (start : Nat) (ks : List Nat) (disk : Disk) : Option Disk :=
  match ks with
  | [] => some disk
  | k :: ks => do
    let disk ← recoverCut start k disk
    recoverCuts start ks disk

end Machine
end Xv6.Log
