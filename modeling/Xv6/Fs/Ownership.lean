import Xv6.Fs.Lemmas.Intact
import Xv6.Lib.Reach

namespace Xv6.Fs

inductive Op (n : Nat)
  | beginOp
  | endOp
  | iget (inum : Nat)
  | idup (i : Fin n)
  | ialloc (type : Int16)
  | ilock (i : Fin n)
  | iunlock (i : Fin n)
  | iupdate (i : Fin n) (major minor nlink : Int16)
  | readi (i : Fin n) (off n' : UInt32)
  | writei (i : Fin n) (src : Nat → UInt8) (off n' : UInt32)
  | itrunc (i : Fin n)
  | dirlink (i : Fin n) (name : List UInt8) (inum : Nat)
  | iput (i : Fin n)

namespace State

open Outcome

variable {n : Nat} {s s' : State n} {nmeta : Nat}

def perform (s : State n) (op : Op n) : Except Halt (State n) :=
  match op with
  | .beginOp => s.beginOp
  | .endOp => .ok s.endOp
  | .iget inum => (s.iget ROOTDEV inum).map Prod.snd
  | .idup i => .ok (s.idup i)
  | .ialloc type => (s.ialloc ROOTDEV type).map Prod.snd
  | .ilock i => s.ilock i
  | .iunlock i => s.iunlock i
  | .iupdate i major minor nlink =>
    (s.setDin i { (s.inode i).din with major := major, minor := minor, nlink := nlink }).iupdate i
  | .readi i off n' => (s.readi i off n').map fun r => r.2.2
  | .writei i src off n' => (s.writei i src off n').map Prod.snd
  | .itrunc i => s.itrunc i
  | .dirlink i name inum => (s.dirlink i name inum).map Prod.snd
  | .iput i => s.iput i

def Held (s : State n) (i : Fin n) : Prop :=
  0 < (s.inode i).ref ∧ (s.inode i).lock = true ∧ (s.inode i).valid = true

instance (s : State n) (i : Fin n) : Decidable (s.Held i) :=
  inferInstanceAs (Decidable (_ ∧ _))

def Enabled (s : State n) (op : Op n) : Prop :=
  match op with
  | .idup i | .iput i => 0 < (s.inode i).ref
  | .ilock i => (s.inode i).inum < s.sb.ninodes
  | .iupdate i _ _ _ | .readi i _ _ | .writei i _ _ _ | .itrunc i | .dirlink i _ _ => s.Held i
  | _ => True

instance (s : State n) (op : Op n) : Decidable (s.Enabled op) := by
  cases op <;> unfold Enabled <;> infer_instance

def Steps (s : State n) (op : Op n) (s' : State n) : Prop :=
  s.Enabled op ∧ s.perform op = .ok s'

def step (s : State n) (op : Op n) : Option (State n) :=
  if s.Enabled op then (s.perform op).toOption else none

theorem steps_of_step {op : Op n} (h : s.step op = some s') : s.Steps op s' := by
  unfold step at h
  split at h
  . next henabled =>
    cases hop : s.perform op with
    | error e =>
      rw [hop] at h
      cases h
    | ok s1 =>
      rw [hop] at h
      cases h
      exact ⟨henabled, hop⟩
  . cases h

theorem Intact.perform (h : Intact nmeta s) {op : Op n} (henabled : s.Enabled op)
    : Sat Sane (Intact nmeta) (s.perform op) := by
  cases op with
  | beginOp => exact h.beginOp
  | endOp => exact h.endOp
  | iget inum => exact Sat.map _ (h.iget inum)
  | idup i => exact h.idup henabled
  | ialloc type => exact Sat.map _ (h.ialloc type)
  | ilock i => exact h.ilock henabled
  | iunlock i => exact h.iunlock i
  | iupdate i major minor nlink => exact h.iupdate henabled.1 henabled.2.2 major minor nlink
  | readi i off n' =>
    rcases h.readi henabled.1 henabled.2.2 off n' with ⟨r, dst, hread⟩
    change Sat Sane (Intact nmeta) ((s.readi i off n').map fun r => r.2.2)
    rw [hread]
    exact h
  | writei i src off n' => exact Sat.map _ (h.writei henabled.1 henabled.2.2 src off n')
  | itrunc i => exact h.itrunc henabled.1 henabled.2.2
  | dirlink i name inum => exact Sat.map _ (h.dirlink henabled.1 henabled.2.2 name inum)
  | iput i => exact h.iput henabled

structure Image (nmeta : Nat) (s : State n) : Prop where
  consistent : Consistent s.sb nmeta s.disk s.inodes
  sized : ∀ x, (s.inodes x).type ≠ 0 → (s.inodes x).type ≠ T_DEV → Sized s.disk (s.inodes x)
  empty : ∀ j, (s.inode j).ref = 0

theorem Image.intact (h : Image nmeta s) : Intact nmeta s := by
  have hempty : ∀ j, ¬0 < (s.inode j).ref := by
    intro j
    rw [h.empty j]
    exact Int.lt_irrefl 0
  exact ⟨h.consistent, h.sized, fun j hj => absurd hj (hempty j), fun j _ hj => absurd hj (hempty j),
    fun j hj => absurd hj (hempty j)⟩

theorem intact_of_reachable {s0 : State n} (h0 : Image nmeta s0) (h : Reach.Reachable s0 Steps s)
    : Intact nmeta s := by
  apply Reach.Reachable.induct (Intact nmeta) h0.intact _ h
  rintro s op s' _ hintact ⟨henabled, hop⟩
  exact (hintact.perform henabled).of_ok hop

/--
Each block in a slot of an inode is marked and is in no other slot, files and directories have no holes, so
that `readi` leaves the disk as it is, each marked block above the metadata is in a slot, and no operation
frees a block that is free.
-/
theorem block_ownership {s0 : State n} (h0 : Image nmeta s0) (h : Reach.Reachable s0 Steps s)
    : (∀ x k, (s.inodes x).type ≠ 0 → slot s.disk (s.inodes x) k ≠ 0 →
        slot s.disk (s.inodes x) k < s.sb.size ∧ s.sb.bit s.disk (slot s.disk (s.inodes x) k) = true
        ∧ ∀ x' k', (s.inodes x').type ≠ 0 → slot s.disk (s.inodes x') k' = slot s.disk (s.inodes x) k
          → x' = x ∧ k' = k)
      ∧ (∀ x bn, (s.inodes x).type = T_FILE ∨ (s.inodes x).type = T_DIR → bn * BSIZE < (s.inodes x).size.toNat →
        slot s.disk (s.inodes x) (fileSlot bn) ≠ 0)
      ∧ (∀ i off n', s.Held i → ∃ r dst, s.readi i off n' = .ok (r, dst, s))
      ∧ (∀ b, nmeta ≤ b → b < s.sb.size → s.sb.bit s.disk b = true →
        ∃ x k, (s.inodes x).type ≠ 0 ∧ slot s.disk (s.inodes x) k = b)
      ∧ ∀ op, s.Enabled op → s.perform op ≠ .error .freeingFree := by
  have hintact := intact_of_reachable h0 h
  have howners := hintact.consistent.owners
  refine ⟨?_, ?_, ?_, ?_, ?_⟩
  . intro x k htype hne
    have hown : owner s.disk s.inodes (x, k) = slot s.disk (s.inodes x) k := owner_of_type htype
    rw [← hown] at hne ⊢
    refine ⟨(howners.range _ hne).2, howners.inUse _ hne, ?_⟩
    intro x' k' htype' heq
    rw [← owner_of_type htype'] at heq
    have hpair := howners.inj _ _ hne heq.symm
    cases hpair
    exact ⟨rfl, rfl⟩
  . intro x bn htype hbn
    have hne : (s.inodes x).type ≠ 0 ∧ (s.inodes x).type ≠ T_DEV := by
      rcases htype with htype | htype <;> rw [htype] <;> decide
    exact (hintact.sized x hne.1 hne.2).2 bn hbn
  . intro i off n' hheld
    exact hintact.readi hheld.1 hheld.2.2 off n'
  . intro b hge hlt hbit
    rcases howners.covered b hge hlt hbit with ⟨⟨x, k⟩, hown⟩
    have hpos := hintact.consistent.pos
    have htype : (s.inodes x).type ≠ 0 := by
      intro hzero
      unfold owner at hown
      rw [if_pos hzero] at hown
      omega
    refine ⟨x, k, htype, ?_⟩
    rw [← owner_of_type htype]
    exact hown
  . intro op henabled hop
    exact (hintact.perform henabled).of_error hop rfl

def blankImage : State 1 :=
  { blank with inode := fun _ => ⟨ROOTDEV, 0, 0, false, false, .fresh 0⟩ }

theorem image_blankImage : Image 59 blankImage := by
  refine ⟨consistent_blank, ?_, fun _ => rfl⟩
  intro x htype _
  change (blank.sb.table blank.disk x).type ≠ 0 at htype
  change Sized blank.disk (blank.sb.table blank.disk x)
  rw [blank_table] at htype ⊢
  have hx : x = 2 := by
    by_contra hne
    rw [Function.update_of_ne hne] at htype
    exact htype rfl
  rw [hx, Function.update_self]
  refine ⟨Nat.zero_le _, ?_⟩
  intro bn hbn
  exact absurd hbn (Nat.not_lt_zero _)

theorem block_ownership_of_write
    : ∃ s, Reach.Reachable blankImage Steps s ∧ (∃ x k, (s.inodes x).type ≠ 0 ∧ slot s.disk (s.inodes x) k = 59)
      ∧ s.perform (.itrunc (Fin.last 0)) ≠ .error .freeingFree := by
  rcases Reach.exists_of_exec (b := blankImage) (f := step) (fun _ _ _ => steps_of_step)
      [.beginOp, .iget 2, .ilock (Fin.last 0), .writei (Fin.last 0) (fun _ => 1) 0 3,
        .itrunc (Fin.last 0), .writei (Fin.last 0) (fun _ => 1) 0 600]
      (P := fun s => s.Held (Fin.last 0) ∧ s.sb.size = 1000 ∧ s.sb.bit s.disk 59 = true) (by decide +kernel)
    with ⟨s, hs, hp⟩
  rw [decide_eq_true_iff] at hp
  rcases hp with ⟨hheld, hsize, hbit⟩
  have hown := block_ownership image_blankImage hs
  refine ⟨s, hs, hown.2.2.2.1 59 (Nat.le_refl _) ?_ hbit, hown.2.2.2.2 _ hheld⟩
  rw [hsize]
  decide

end State
end Xv6.Fs
