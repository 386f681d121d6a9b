import Xv6.Disk.Basic

namespace Xv6

/--
`struct buf`. The flags `B_VALID` and `B_DIRTY` are `valid` and `dirty`, `lock` is the process that
holds the sleep lock. The links of the cache and of the disk queue are kept apart.
-/
structure Buf (P : Type) where
  valid : Bool := false
  dirty : Bool := false
  dev : Nat := 0
  blockno : Nat := 0
  lock : Option P := none
  refcnt : Nat := 0
  data : Block := .zero

namespace Memide

inductive Halt
  | notLocked
  | nothingToDo
  | notDisk1
  | outOfRange
  deriving DecidableEq, Repr

variable {P : Type}

def sync (disk : Disk) (b : Buf P) : Disk × Buf P :=
  if b.dirty then
    (Function.update disk b.blockno b.data, { b with dirty := false, valid := true })
  else
    (disk, { b with data := disk b.blockno, valid := true })

def iderw [DecidableEq P] (disksize : Nat) (disk : Disk) (p : P) (b : Buf P)
    : Except Halt (Disk × Buf P) :=
  if b.lock ≠ some p then
    .error .notLocked
  else if b.valid ∧ ¬b.dirty then
    .error .nothingToDo
  else if b.dev ≠ 1 then
    .error .notDisk1
  else if b.blockno ≥ disksize then
    .error .outOfRange
  else
    .ok (sync disk b)

theorem of_iderw_eq_ok [DecidableEq P] {disksize : Nat} {disk : Disk} {p : P} {b : Buf P}
    {r : Disk × Buf P} (h : iderw disksize disk p b = .ok r)
    : b.lock = some p ∧ (b.valid = true → b.dirty = true) ∧ b.dev = 1 ∧ b.blockno < disksize ∧ r = sync disk b := by
  unfold iderw at h
  split at h
  . cases h
  . next hlock =>
    split at h
    . cases h
    . next hflags =>
      split at h
      . cases h
      . next hdev =>
        split at h
        . cases h
        . next hrange =>
          cases h
          refine ⟨not_not.mp hlock, ?_, not_not.mp hdev, Nat.lt_of_not_le hrange, rfl⟩
          intro hvalid
          cases hdirty : b.dirty with
          | true => rfl
          | false =>
            exfalso
            apply hflags
            simp [hvalid, hdirty]

theorem sync_lock (disk : Disk) (b : Buf P) : (Memide.sync disk b).2.lock = b.lock := by
  unfold Memide.sync
  split <;> rfl

theorem sync_key (disk : Disk) (b : Buf P)
    : (Memide.sync disk b).2.dev = b.dev ∧ (Memide.sync disk b).2.blockno = b.blockno := by
  unfold Memide.sync
  split <;> exact ⟨rfl, rfl⟩

theorem sync_flags (disk : Disk) (b : Buf P)
    : (Memide.sync disk b).2.valid = true ∧ (Memide.sync disk b).2.dirty = false := by
  unfold Memide.sync
  split
  . exact ⟨rfl, rfl⟩
  . next hdirty => exact ⟨rfl, Bool.eq_false_iff.mpr hdirty⟩

end Memide
end Xv6
