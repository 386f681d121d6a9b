import Xv6.Fs.ByteArray
import Xv6.Fs.Lemmas.Proper
import Xv6.Lib.Slots

namespace Xv6.Fs

def Dirent.live (de : Dirent) : Option (List UInt8 × Nat) :=
  if de.inum = 0 then none else some (de.name, de.inum)

def slots (d : List UInt8) (j : Nat) : Option (List UInt8 × Nat) :=
  (Dirent.get ((d.drop (16 * j)).take 16)).live

def lookup (d : List UInt8) (name : List UInt8) : Option (Nat × Nat) :=
  Slots.find (slots d) (name.take DIRSIZ) 0 (d.length / 16)

namespace State

open Outcome

variable {n : Nat} {s : State n} {i : Fin n} {nmeta : Nat}

structure Dir (nmeta : Nat) (s : State n) (i : Fin n) : Prop where
  work : Work nmeta s i
  sized : Sized s.disk (s.inode i).din
  type : (s.inode i).din.type = T_DIR
  locked : (s.inode i).lock = true
  aligned : (s.data i).length % 16 = 0

def answer (s : State n) (i : Fin n) (found : Option (Nat × Nat))
    : Except Halt (Option (Fin n × UInt32) × State n) :=
  match found with
  | none => .ok (none, s)
  | some (j, inum) => do
    let (ip, s) ← s.iget (s.inode i).dev inum
    return (some (ip, UInt32.ofNat (16 * j)), s)

namespace Dir

theorem not_dev (h : Dir nmeta s i) : (s.inode i).din.type ≠ T_DEV := by
  rw [h.type]
  decide

theorem length_le (h : Dir nmeta s i) : (s.data i).length ≤ 71680 := by
  rw [length_data]
  exact h.sized.1

theorem toNat_off {j : Nat} (hj : 16 * j ≤ 71680) : (UInt32.ofNat (16 * j)).toNat = 16 * j :=
  UInt32.toNat_ofNat_of_lt' (by change _ < 4294967296; omega)

theorem off_add {j : Nat} : UInt32.ofNat (16 * j) + DIRENT = UInt32.ofNat (16 * (j + 1)) := by
  rw [Nat.mul_succ, UInt32.ofNat_add]

theorem off_lt_iff (h : Dir nmeta s i) {j : Nat} (hj : 16 * j ≤ 71680)
    : UInt32.ofNat (16 * j) < (s.inode i).din.size ↔ j < (s.data i).length / 16 := by
  have haligned := h.aligned
  rw [UInt32.lt_iff_toNat_lt, toNat_off hj, ← length_data]
  omega

theorem readi_slot (h : Dir nmeta s i) {j : Nat} (hj : j < (s.data i).length / 16)
    : s.readi i (UInt32.ofNat (16 * j)) DIRENT = .ok (16, ((s.data i).drop (16 * j)).take 16, s) := by
  have hlen := h.length_le
  have haligned := h.aligned
  have hoff : (UInt32.ofNat (16 * j)).toNat = 16 * j := toNat_off (by omega)
  have hDIR : DIRENT.toNat = 16 := rfl
  rw [readi_eq h.work h.sized h.not_dev, if_neg, hoff, hDIR, ← length_data, Nat.min_eq_left (by omega)]
  . rfl
  . rw [lt_add_iff, gt_iff_lt, UInt32.lt_iff_toNat_lt, hoff, hDIR, ← length_data]
    omega

theorem slots_eq_none {d : List UInt8} {j : Nat} (h : (Dirent.get ((d.drop (16 * j)).take 16)).inum = 0)
    : slots d j = none :=
  if_pos h

theorem slots_eq_some {d : List UInt8} {j : Nat} (h : (Dirent.get ((d.drop (16 * j)).take 16)).inum ≠ 0)
    : slots d j = some ((Dirent.get ((d.drop (16 * j)).take 16)).name,
      (Dirent.get ((d.drop (16 * j)).take 16)).inum) :=
  if_neg h

theorem dirlookup_loop (h : Dir nmeta s i) (name : List UInt8) {m j fuel : Nat}
    (hm : j + m = (s.data i).length / 16) (hfuel : m < fuel)
    : Outcome.loop .stuck (dirlookupBody i name) fuel (UInt32.ofNat (16 * j), s)
      = s.answer i (Slots.find (slots (s.data i)) (name.take DIRSIZ) j m) := by
  have hlen := h.length_le
  induction m generalizing j fuel with
  | zero =>
    obtain ⟨fuel, rfl⟩ : ∃ k, fuel = k + 1 := ⟨fuel - 1, by omega⟩
    have hoff := h.off_lt_iff (j := j) (by omega)
    unfold Outcome.loop dirlookupBody
    dsimp only
    rw [if_neg (fun hlt => by have := hoff.mp hlt; omega)]
    rfl
  | succ m ih =>
    obtain ⟨fuel, rfl⟩ : ∃ k, fuel = k + 1 := ⟨fuel - 1, by omega⟩
    have hoff := h.off_lt_iff (j := j) (by omega)
    have hnext := ih (j := j + 1) (by omega) (show m < fuel by omega)
    unfold Outcome.loop dirlookupBody Slots.find
    dsimp only
    rw [if_pos (hoff.mpr (by omega)), h.readi_slot (by omega)]
    simp only [bind, Except.bind, pure, Except.pure]
    rw [if_neg (by decide)]
    by_cases hzero : (Dirent.get (((s.data i).drop (16 * j)).take 16)).inum = 0
    . rw [if_pos hzero, slots_eq_none hzero]
      dsimp only
      rw [off_add]
      exact hnext
    . rw [if_neg hzero, slots_eq_some hzero]
      dsimp only
      by_cases hname : name.take DIRSIZ = (Dirent.get (((s.data i).drop (16 * j)).take 16)).name
      . rw [if_pos hname, if_pos hname]
        unfold answer
        dsimp only
        cases s.iget (s.inode i).dev (Dirent.get (((s.data i).drop (16 * j)).take 16)).inum with
        | error e => rfl
        | ok r => rfl
      . rw [if_neg hname, if_neg hname]
        dsimp only
        rw [off_add]
        exact hnext

theorem length_lt_entries : (s.data i).length / 16 < s.entries i := by
  unfold entries
  rw [length_data]
  exact Nat.lt_add_of_pos_right (by decide)

section
variable (h : Dir nmeta s i)
include h

theorem dirlookup_eq (name : List UInt8)
    : s.dirlookup i name = s.answer i (lookup (s.data i) name) := by
  unfold dirlookup
  rw [if_neg (not_not.mpr h.type)]
  exact h.dirlookup_loop name (j := 0) (Nat.zero_add _) length_lt_entries

end

end Dir

theorem setInode_setInode (s : State n) (j : Fin n) (ip ip' : Inode)
    : (s.setInode j ip).setInode j ip' = s.setInode j ip' := by
  unfold setInode
  dsimp only
  rw [Function.update_idem]

theorem drop_setInode (s : State n) (j : Fin n) (ip : Inode)
    : (s.setInode j ip).drop j = s.setInode j { ip with ref := ip.ref - 1 } := by
  unfold drop
  rw [setInode_setInode, setInode_self]

theorem acquiresleep_eq {j : Fin n} (hlock : (s.inode j).lock = false)
    : s.acquiresleep j = .ok (s.setInode j { s.inode j with lock := true }) := by
  unfold acquiresleep
  rw [hlock]
  rfl

theorem iput_keeps {j : Fin n} (hlock : (s.inode j).lock = false)
    (hkeep : ¬((s.inode j).valid = true ∧ (s.inode j).din.nlink = 0 ∧ (s.inode j).ref = 1))
    : s.iput j = .ok (s.drop j) := by
  have hfree : (s.setInode j { s.inode j with lock := true }).ifree j
      = .ok (s.setInode j { s.inode j with lock := true }) := by
    unfold ifree
    rw [if_neg]
    rw [setInode_self]
    exact hkeep
  have hrelease : (s.setInode j { s.inode j with lock := true }).releasesleep j = s.setInode j (s.inode j) := by
    unfold releasesleep
    rw [setInode_setInode, setInode_self, ← hlock]
  unfold iput
  rw [acquiresleep_eq hlock]
  simp only [bind, Except.bind, pure, Except.pure]
  rw [hfree]
  dsimp only
  rw [hrelease, drop_setInode]
  rfl

theorem iget_eq {s' : State n} {dev inum : Nat} {j : Fin n} (h : s.iget dev inum = .ok (j, s'))
    : 0 < (s.inode j).ref ∧ (s.inode j).dev = dev ∧ (s.inode j).inum = inum
        ∧ s' = s.setInode j { s.inode j with ref := (s.inode j).ref + 1 }
      ∨ (s.inode j).ref = 0 ∧ s' = s.setInode j { s.inode j with dev, inum, ref := 1, valid := false } := by
  unfold iget at h
  dsimp only at h
  split at h
  . next hhit =>
    cases h
    have hfound := List.find?_some hhit
    rw [decide_eq_true_iff] at hfound
    exact .inl ⟨hfound.1, hfound.2.1, hfound.2.2, rfl⟩
  . split at h
    . cases h
    . next hempty =>
      cases h
      have hzero := List.find?_some hempty
      rw [decide_eq_true_iff] at hzero
      exact .inr ⟨hzero, rfl⟩

def homeDin : Dinode where
  type := T_DIR
  major := 0
  minor := 0
  nlink := 1
  size := 32
  addrs := fun k => if k.val = 0 then 59 else 0

def homeBlocks : Disk := fun b =>
  if b = 58 then
    fun j => if j.val < 7 then 255 else if j.val = 7 then 15 else 0
  else if b = 59 then
    fun j => if j.val = 0 ∨ j.val = 16 then 1 else if j.val = 2 ∨ j.val = 18 ∨ j.val = 19 then dot else 0
  else
    .zero

def home : State 3 where
  sb := ⟨998, 939, 200, 30, 2, 32, 58, by decide⟩
  disk := Function.update homeBlocks 32 (homeDin.put .zero (dinodeOff 1))
  lh := []
  outstanding := 1
  inode := fun i => if i.val = 0 then ⟨ROOTDEV, ROOTINO, 1, true, true, homeDin⟩
    else ⟨ROOTDEV, 0, 0, false, false, .fresh 0⟩
  devsw := fun _ => ⟨none, none⟩

abbrev dp : Fin 3 := ⟨0, Nat.succ_pos 2⟩

theorem home_table : home.sb.table home.disk = Function.update (fun _ => .fresh 0) 1 homeDin := by
  refine (Superblock.table_put (show 1 < home.sb.ninodes by decide) homeBlocks homeDin).trans ?_
  congr 1
  apply table_of_zero
  intro x hx
  have hx : x < 200 := hx
  have hblock : home.sb.iblock x = x / 8 + 32 := rfl
  rw [homeBlocks, if_neg (by omega), if_neg (by omega)]

theorem consistent_home : Consistent home.sb 59 home.disk (home.sb.table home.disk) := by
  have hslots : ∀ j, j < 141 → slot home.disk homeDin j = if j < 1 then 59 + j else 0 := by decide +kernel
  have hbits : ∀ b, b < 998 → home.sb.bit home.disk b = decide (b < 59 + 1) := by decide +kernel
  exact consistent_of_single rfl rfl rfl (by decide) (by decide) (by decide) home_table
    (owner_of_single home_table (by decide) (by decide) hslots) hbits

theorem data_home
    : home.data dp = [1, 0, dot, 0, 0, 0, 0, 0, 0, 0, 0, 0, 0, 0, 0, 0,
      1, 0, dot, dot, 0, 0, 0, 0, 0, 0, 0, 0, 0, 0, 0, 0] := by
  decide +kernel

theorem dir_home : Dir 59 home dp := by
  have hview : home.view dp = home.sb.table home.disk := by
    unfold view
    rw [home_table]
    exact Function.update_idem ..
  refine ⟨⟨?_, show T_DIR ≠ 0 by decide⟩, ⟨by decide, ?_⟩, rfl, rfl, by rw [data_home]; rfl⟩
  . rw [hview]
    exact consistent_home
  . intro bn hbn
    have hbn : bn * 512 < 32 := hbn
    have hzero : bn = 0 := by omega
    rw [hzero]
    decide +kernel

end State
end Xv6.Fs
