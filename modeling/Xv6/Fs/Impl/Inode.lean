import Xv6.Fs.Impl.Block
import Xv6.Lib.Outcome

/-!
The inode layer of `fs.c`: the inode cache, allocation, and the content of inodes.
The functions run one after the other. A lock that is taken and never released stops the one who waits
for it.
-/

namespace Xv6.Fs

structure Inode where
  dev : Nat
  inum : Nat
  ref : Int
  lock : Bool
  valid : Bool
  din : Dinode

structure Devsw where
  read : Option (UInt32 → List UInt8)
  write : Option (UInt32 → Int)

abbrev NDEV : Int := 10

structure State (n : Nat) extends Store where
  inode : Fin n → Inode
  devsw : Int → Devsw

namespace State

variable {n : Nat}

def setInode (s : State n) (i : Fin n) (ip : Inode) : State n :=
  { s with inode := Function.update s.inode i ip }

def setDin (s : State n) (i : Fin n) (di : Dinode) : State n :=
  s.setInode i { s.inode i with din := di }

def acquiresleep (s : State n) (i : Fin n) : Except Halt (State n) :=
  if (s.inode i).lock then .error .deadlock else .ok (s.setInode i { s.inode i with lock := true })

def releasesleep (s : State n) (i : Fin n) : State n :=
  s.setInode i { s.inode i with lock := false }

def iget (s : State n) (dev inum : Nat) : Except Halt (Fin n × State n) :=
  let hit := (List.finRange n).find? fun i =>
    (s.inode i).ref > 0 ∧ (s.inode i).dev = dev ∧ (s.inode i).inum = inum
  let empty := (List.finRange n).find? fun i => (s.inode i).ref = 0
  match hit with
  | some i => .ok (i, s.setInode i { s.inode i with ref := (s.inode i).ref + 1 })
  | none =>
    match empty with
    | none => .error .iget
    | some i => .ok (i, s.setInode i { s.inode i with dev, inum, ref := 1, valid := false })

def idup (s : State n) (i : Fin n) : State n :=
  s.setInode i { s.inode i with ref := (s.inode i).ref + 1 }

def dinodeOff (inum : Nat) : Nat :=
  inum % IPB * DINODESIZE

def ialloc (s : State n) (dev : Nat) (type : Int16) : Except Halt (Fin n × State n) :=
  let free := (List.range' 1 (s.sb.ninodes - 1)).find? fun inum =>
    (Dinode.get (s.disk (s.sb.iblock inum)) (dinodeOff inum)).type = 0
  match free with
  | none => .error .noInodes
  | some inum => do
    let bp := s.disk (s.sb.iblock inum)
    let st ← s.logWrite (s.sb.iblock inum) ((Dinode.fresh type).put bp (dinodeOff inum))
    { s with toStore := st }.iget dev inum

def iupdate (s : State n) (i : Fin n) : Except Halt (State n) := do
  let ip := s.inode i
  let bp := s.disk (s.sb.iblock ip.inum)
  let st ← s.logWrite (s.sb.iblock ip.inum) (ip.din.put bp (dinodeOff ip.inum))
  return { s with toStore := st }

def iload (s : State n) (i : Fin n) : Except Halt (State n) :=
  let ip := s.inode i
  if ip.valid then
    .ok s
  else
    let di := Dinode.get (s.disk (s.sb.iblock ip.inum)) (dinodeOff ip.inum)
    if di.type = 0 then .error .noType else .ok (s.setInode i { ip with din := di, valid := true })

def ilock (s : State n) (i : Fin n) : Except Halt (State n) :=
  if (s.inode i).ref < 1 then
    .error .ilock
  else do
    let s ← s.acquiresleep i
    s.iload i

def iunlock (s : State n) (i : Fin n) : Except Halt (State n) :=
  if ¬(s.inode i).lock ∨ (s.inode i).ref < 1 then .error .iunlock else .ok (s.releasesleep i)

def balloc (s : State n) : Except Halt (Nat × State n) := do
  let (b, st) ← s.toStore.balloc
  return (b, { s with toStore := st })

def bfree (s : State n) (b : Nat) : Except Halt (State n) := do
  let st ← s.toStore.bfree b
  return { s with toStore := st }

def beginOp (s : State n) : Except Halt (State n) := do
  let st ← s.toStore.beginOp
  return { s with toStore := st }

def endOp (s : State n) : State n :=
  { s with toStore := s.toStore.endOp }

def logWrite (s : State n) (b : Nat) (data : Block) : Except Halt (State n) := do
  let st ← s.toStore.logWrite b data
  return { s with toStore := st }

def mapAddr (s : State n) (i : Fin n) (k : Nat) : Except Halt (Nat × State n) :=
  let addr := (s.inode i).din.addr k
  if addr = 0 then do
    let (b, s) ← s.balloc
    return (b, s.setDin i ((s.inode i).din.setAddr k b))
  else
    .ok (addr, s)

def bmap (s : State n) (i : Fin n) (bn : Nat) : Except Halt (Nat × State n) :=
  if bn < NDIRECT then
    s.mapAddr i bn
  else
    let bn := bn - NDIRECT
    if bn < NINDIRECT then do
      let (ind, s) ← s.mapAddr i NDIRECT
      let bp := s.disk ind
      let addr := bp.getLE (4 * bn) 4
      if addr = 0 then do
        let (b, s) ← s.balloc
        let s ← s.logWrite ind (bp.setLE (4 * bn) 4 b)
        return (b, s)
      else
        return (addr, s)
    else
      .error .bmapRange

def freeAddr (s : State n) (i : Fin n) (k : Nat) : Except Halt (State n) :=
  let addr := (s.inode i).din.addr k
  if addr = 0 then
    .ok s
  else do
    let s ← s.bfree addr
    return s.setDin i ((s.inode i).din.setAddr k 0)

def freeIndirect (s : State n) (bp : Block) : Except Halt (State n) :=
  (List.range NINDIRECT).foldlM (fun s j =>
    let addr := bp.getLE (4 * j) 4
    if addr = 0 then .ok s else s.bfree addr) s

def itrunc (s : State n) (i : Fin n) : Except Halt (State n) := do
  let s ← (List.range NDIRECT).foldlM (fun s k => s.freeAddr i k) s
  let ind := (s.inode i).din.addr NDIRECT
  let s ←
    if ind = 0 then
      pure s
    else do
      let s ← s.freeIndirect (s.disk ind)
      s.freeAddr i NDIRECT
  let s := s.setDin i { (s.inode i).din with size := 0 }
  s.iupdate i

def freeInode (s : State n) (i : Fin n) : Except Halt (State n) := do
  let s ← s.itrunc i
  let s := s.setDin i { (s.inode i).din with type := 0 }
  let s ← s.iupdate i
  return s.setInode i { s.inode i with valid := false }

def ifree (s : State n) (i : Fin n) : Except Halt (State n) :=
  if (s.inode i).valid ∧ (s.inode i).din.nlink = 0 ∧ (s.inode i).ref = 1 then
    s.freeInode i
  else
    .ok s

def drop (s : State n) (i : Fin n) : State n :=
  s.setInode i { s.inode i with ref := (s.inode i).ref - 1 }

def iput (s : State n) (i : Fin n) : Except Halt (State n) := do
  let s ← s.acquiresleep i
  let s ← s.ifree i
  return (s.releasesleep i).drop i

def iunlockput (s : State n) (i : Fin n) : Except Halt (State n) := do
  let s ← s.iunlock i
  s.iput i

def readiBody (i : Fin n) (n' : Nat)
    : Nat × Nat × List UInt8 × State n → Except Halt ((Nat × Nat × List UInt8 × State n) ⊕
        (List UInt8 × State n))
  | (tot, off, dst, s) =>
    if tot < n' then do
      let (addr, s) ← s.bmap i (off / BSIZE)
      let m := min (n' - tot) (BSIZE - off % BSIZE)
      return .inl (tot + m, off + m, dst ++ (s.disk addr).bytes (off % BSIZE) m, s)
    else
      return .inr (dst, s)

def readi (s : State n) (i : Fin n) (off n' : UInt32) : Except Halt (Int × List UInt8 × State n) :=
  let di := (s.inode i).din
  if di.type = T_DEV then
    if di.major.toInt < 0 ∨ di.major.toInt ≥ NDEV then
      .ok (-1, [], s)
    else
      match (s.devsw di.major.toInt).read with
      | none => .ok (-1, [], s)
      | some read => .ok ((read n').length, read n', s)
  else if off > di.size ∨ off + n' < off then
    .ok (-1, [], s)
  else do
    let n' := if off + n' > di.size then di.size - off else n'
    let (dst, s) ← Outcome.loop .stuck (readiBody i n'.toNat) (n'.toNat + 1) (0, off.toNat, [], s)
    return (n'.toNat, dst, s)

def writeiBody (i : Fin n) (src : Nat → UInt8) (n' : Nat)
    : Nat × Nat × State n → Except Halt ((Nat × Nat × State n) ⊕ (Nat × State n))
  | (tot, off, s) =>
    if tot < n' then do
      let (addr, s) ← s.bmap i (off / BSIZE)
      let m := min (n' - tot) (BSIZE - off % BSIZE)
      let data := (List.range m).map fun k => src (tot + k)
      let s ← s.logWrite addr ((s.disk addr).setBytes (off % BSIZE) data)
      return .inl (tot + m, off + m, s)
    else
      return .inr (off, s)

def writei (s : State n) (i : Fin n) (src : Nat → UInt8) (off n' : UInt32)
    : Except Halt (Int × State n) :=
  let di := (s.inode i).din
  if di.type = T_DEV then
    if di.major.toInt < 0 ∨ di.major.toInt ≥ NDEV then
      .ok (-1, s)
    else
      match (s.devsw di.major.toInt).write with
      | none => .ok (-1, s)
      | some write => .ok (write n', s)
  else if off > di.size ∨ off + n' < off then
    .ok (-1, s)
  else if off + n' > UInt32.ofNat (MAXFILE * BSIZE) then
    .ok (-1, s)
  else do
    let (off, s) ← Outcome.loop .stuck (writeiBody i src n'.toNat) (n'.toNat + 1) (0, off.toNat, s)
    let s ←
      if n' > 0 ∧ off > (s.inode i).din.size.toNat then
        (s.setDin i { (s.inode i).din with size := UInt32.ofNat off }).iupdate i
      else
        pure s
    return (n'.toNat, s)

end State
end Xv6.Fs
