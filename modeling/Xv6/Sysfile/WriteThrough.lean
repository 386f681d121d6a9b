import Xv6.Fs.Ownership
import Xv6.Fs.Path
import Xv6.Sysfile.Impl

namespace Xv6.Fs
namespace State

variable {n : Nat} {s : State n} {nmeta : Nat}

/--
In any order of the operations of the system calls, those of several processes mixed, an inode in the cache is the
one on the disk after each operation. No operation locks an inode whose number is not one of the disk.
-/
theorem cache_is_write_through {s0 : State n} (h0 : Image nmeta s0) (h : Reach.Reachable s0 Steps s) {j : Fin n}
    (href : 0 < (s.inode j).ref) (hvalid : (s.inode j).valid = true)
    : (s.inode j).din = s.sb.dinode s.disk (s.inode j).inum := by
  rcases (intact_of_reachable h0 h).synced j href hvalid with ⟨hsync, htype⟩
  rw [hsync] at htype ⊢
  unfold inodes Superblock.table at htype ⊢
  split at htype
  . next hlt => exact if_pos hlt
  . exact absurd rfl htype

theorem cache_is_write_through_of_write
    : ∃ s, Reach.Reachable blankImage Steps s ∧ (s.inode (Fin.last 0)).lock = false
      ∧ (s.inode (Fin.last 0)).din.size = 600 ∧ (s.inode (Fin.last 0)).din.nlink = 1
      ∧ (s.inode (Fin.last 0)).din = s.sb.dinode s.disk (s.inode (Fin.last 0)).inum := by
  rcases Reach.exists_of_exec (b := blankImage) (f := step) (fun _ _ _ => steps_of_step)
      [.beginOp, .iget 2, .ilock (Fin.last 0), .iupdate (Fin.last 0) 0 0 1, .idup (Fin.last 0),
        .writei (Fin.last 0) (fun _ => 1) 0 600, .iunlock (Fin.last 0), .iput (Fin.last 0), .endOp]
      (P := fun s => (0 < (s.inode (Fin.last 0)).ref ∧ (s.inode (Fin.last 0)).valid = true)
        ∧ (s.inode (Fin.last 0)).lock = false ∧ (s.inode (Fin.last 0)).din.size = 600
        ∧ (s.inode (Fin.last 0)).din.nlink = 1) (by decide +kernel)
    with ⟨s, hs, hp⟩
  rw [decide_eq_true_iff] at hp
  rcases hp with ⟨⟨href, hvalid⟩, hlock, hsize, hnlink⟩
  exact ⟨s, hs, hlock, hsize, hnlink, cache_is_write_through image_blankImage hs href hvalid⟩

/-- The entry `a` of the root directory names inode 216, which would be in the block of the directory itself. -/
def stray : State 3 :=
  { idle with
    outstanding := 0
    disk := Function.update idle.disk 59 fun j =>
      if j.val = 0 then 1 else if j.val = 2 then dot else if j.val = 16 then 216 else if j.val = 18 then 97 else 0 }

theorem stray_inodes : stray.inodes = Function.update (fun _ => .fresh 0) 1 homeDin := by
  rw [← idle_inodes]
  apply Superblock.table_update_of_ne
  intro x hx
  have hx : x < 200 := hx
  have hblock : stray.sb.iblock x = x / 8 + 32 := rfl
  rw [hblock]
  omega

theorem intact_stray : Intact 59 stray := by
  have hslots : ∀ j, j < 141 → slot stray.disk homeDin j = if j < 1 then 59 + j else 0 := by decide +kernel
  have hbits : ∀ b, b < 998 → stray.sb.bit stray.disk b = decide (b < 59 + 1) := by decide +kernel
  have hcons := consistent_of_single rfl rfl rfl (by decide) (by decide) (by decide) stray_inodes
    (owner_of_single stray_inodes (by decide) (by decide) hslots) hbits
  have hsame : stray.inodes = idle.inodes := stray_inodes.trans idle_inodes.symm
  refine ⟨hcons, ?_, tree_idle.dev, tree_idle.single, ?_⟩
  . intro x htype _
    rw [hsame] at htype ⊢
    have hx : x = 1 := by
      by_contra hne
      exact htype (inodes_idle_ne hne)
    rw [hx, idle_inodes, Function.update_self]
    refine ⟨by decide, ?_⟩
    intro bn hbn
    have hbn : bn * 512 < 32 := hbn
    have hzero : bn = 0 := by omega
    rw [hzero]
    decide +kernel
  . rw [hsame]
    exact tree_idle.synced

def strayBoot : Sysfile.State 3 Bool where
  fs := stray
  file := fun _ => ⟨.none, 0, false, false, .ofNat 0⟩
  pipes := []
  ofile := fun _ => none
  cwd := fun p => cond p none (some dp)

theorem stray_inode_is_stale
    : Intact 59 strayBoot.fs ∧ ∃ s, Reach.Reachable strayBoot Sysfile.State.Steps s
      ∧ ∃ j, 0 < (s.fs.inode j).ref ∧ (s.fs.inode j).valid = true ∧ (s.fs.inode j).lock = false
        ∧ (s.fs.inode j).din ≠ s.fs.sb.dinode s.fs.disk (s.fs.inode j).inum := by
  refine ⟨intact_stray, ?_⟩
  rcases Reach.exists_of_exec (b := strayBoot) (f := Sysfile.State.step) (fun _ _ _ => Sysfile.State.steps_of_step)
      [(false, .open [97] 0), (false, .open [99] 512)]
      (P := fun s => ∃ j, 0 < (s.fs.inode j).ref ∧ (s.fs.inode j).valid = true ∧ (s.fs.inode j).lock = false
        ∧ (s.fs.inode j).din.addr 5 ≠ (s.fs.sb.dinode s.fs.disk (s.fs.inode j).inum).addr 5) (by decide +kernel)
    with ⟨s, hs, hp⟩
  rw [decide_eq_true_iff] at hp
  rcases hp with ⟨j, href, hvalid, hlock, haddr⟩
  exact ⟨s, hs, j, href, hvalid, hlock, fun heq => haddr (congrArg (Dinode.addr · 5) heq)⟩

end State
end Xv6.Fs
