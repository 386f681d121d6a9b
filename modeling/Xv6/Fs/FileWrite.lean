import Xv6.Fs.ByteArray
import Xv6.Fs.SharedFile

namespace Xv6.Fs

open Outcome

structure File (n : Nat) where
  writable : Bool
  off : UInt32
  ip : Fin n

namespace State

variable {n : Nat}

def writeChunk (s : State n) (i : Fin n) (src : Nat → UInt8) (off : UInt32) (n1 : Nat)
    : Except Halt (Int × UInt32 × State n) := do
  let s ← s.beginOp
  let s ← s.ilock i
  let (r, s) ← s.writei i src off (UInt32.ofNat n1)
  let off := if r > 0 then off + UInt32.ofNat r.toNat else off
  let s ← s.iunlock i
  return (r, off, s.endOp)

def filewriteBody (i : Fin n) (src : Nat → UInt8) (n' : Nat)
    : Nat × UInt32 × State n → Except Halt ((Nat × UInt32 × State n) ⊕ (Int × UInt32 × State n))
  | (k, off, s) =>
    if k < n' then do
      let n1 := min (n' - k) Shared.MAXCHUNK
      let (r, off, s) ← s.writeChunk i (fun j => src (k + j)) off n1
      if r < 0 then
        return .inr (-1, off, s)
      else if r ≠ n1 then
        .error .shortFilewrite
      else
        return .inl (k + n1, off, s)
    else
      return .inr (n', off, s)

def filewrite (s : State n) (f : File n) (src : Nat → UInt8) (n' : Nat)
    : Except Halt (Int × File n × State n) :=
  if f.writable then do
    let (r, off, s) ← Outcome.loop .stuck (filewriteBody f.ip src n') (n' + 1) (0, f.off, s)
    return (r, { f with off }, s)
  else
    .ok (-1, f, s)

end State

def overwrite (d : List UInt8) (off k : Nat) (src : Nat → UInt8) : List UInt8 :=
  d.take off ++ (List.range k).map src ++ d.drop (off + k)

namespace State

open Shared.State (Open)

variable {n nmeta : Nat} {s : State n} {i : Fin n} {f : File n}

theorem Open.same {s' : State n} (h : Open nmeta i s) (hsame : Shared.State.Same i s s')
    : Open nmeta i s' ∧ s'.data i = s.data i :=
  h.congr hsame.sb hsame.disk hsame.inum hsame.din hsame.valid

def nearFullDin : Dinode where
  type := T_FILE
  major := 0
  minor := 0
  nlink := 1
  size := 70144
  addrs := fun k => UInt32.ofNat (59 + k)

def nearFullBlocks : Disk := fun b =>
  if b = 58 then
    fun j => if j.val < 24 then 255 else if j.val = 24 then 31 else 0
  else if b = 71 then
    fun j => if j.val % 4 = 0 ∧ j.val < 500 then UInt8.ofNat (72 + j.val / 4) else 0
  else
    .zero

def nearFull : State 1 where
  sb := ⟨999, 940, 200, 30, 2, 32, 58, by decide⟩
  disk := Function.update nearFullBlocks 32 (nearFullDin.put .zero (dinodeOff 2))
  lh := []
  outstanding := 0
  inode := fun _ => ⟨ROOTDEV, 2, 1, false, true, nearFullDin⟩
  devsw := fun _ => ⟨none, none⟩

theorem nearFull_table
    : nearFull.sb.table nearFull.disk = Function.update (fun _ => .fresh 0) 2 nearFullDin := by
  refine (Superblock.table_put (show 2 < nearFull.sb.ninodes by decide) nearFullBlocks nearFullDin).trans ?_
  congr 1
  apply table_of_zero
  intro x hx
  have hx : x < 200 := hx
  have hblock : nearFull.sb.iblock x = x / 8 + 32 := rfl
  rw [nearFullBlocks, if_neg (by omega), if_neg (by omega)]

theorem consistent_nearFull : Consistent nearFull.sb 59 nearFull.disk (nearFull.sb.table nearFull.disk) := by
  have hslots : ∀ j, j < 141 → slot nearFull.disk nearFullDin j = if j < 138 then 59 + j else 0 := by
    decide +kernel
  have hbits : ∀ b, b < 999 → nearFull.sb.bit nearFull.disk b = decide (b < 59 + 138) := by decide +kernel
  exact consistent_of_single rfl rfl rfl (by decide) (by decide) (by decide) nearFull_table
    (owner_of_single nearFull_table (by decide) (by decide) hslots) hbits

theorem open_nearFull : Open 59 (Fin.last 0) nearFull := by
  have hview : nearFull.view (Fin.last 0) = nearFull.sb.table nearFull.disk := by
    unfold view
    rw [nearFull_table]
    exact Function.update_idem ..
  refine ⟨⟨?_, show T_FILE ≠ 0 by decide⟩, ⟨by decide, ?_⟩, rfl, rfl⟩
  . rw [hview]
    exact consistent_nearFull
  . intro bn hbn
    have hbn : bn * 512 < 70144 := hbn
    have hslots : ∀ bn, bn < 137 → slot nearFull.disk nearFullDin (fileSlot bn) ≠ 0 := by decide +kernel
    exact hslots bn (by omega)

end State
end Xv6.Fs
