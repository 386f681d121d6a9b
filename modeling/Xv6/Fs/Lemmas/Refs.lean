import Xv6.Fs.Impl.Calls
import Mathlib.Tactic.Abel
import Mathlib.Algebra.Group.Pi.Lemmas

namespace Xv6.Fs

open Outcome

abbrev Halt.Inner (e : Halt) : Prop :=
  e ≠ .filedup ∧ e ≠ .fileclose

namespace Store

variable (s : Store)

theorem beginOp_inner : Sat Halt.Inner (fun _ => True) s.beginOp := by
  unfold beginOp
  split
  . exact sat_error.mpr (by decide)
  . trivial

theorem logWrite_inner (b : Nat) (data : Block)
    : Sat Halt.Inner (fun _ => True) (s.logWrite b data) := by
  unfold logWrite
  split
  . exact sat_error.mpr (by decide)
  . split
    . exact sat_error.mpr (by decide)
    . trivial

theorem balloc_inner : Sat Halt.Inner (fun _ => True) s.balloc := by
  unfold balloc
  split
  . exact sat_error.mpr (by decide)
  apply Sat.bind (logWrite_inner _ _ _)
  intro s' _
  apply Sat.bind (logWrite_inner _ _ _)
  intro s'' _
  trivial

theorem bfree_inner (b : Nat) : Sat Halt.Inner (fun _ => True) (s.bfree b) := by
  unfold bfree
  dsimp only
  split
  . apply logWrite_inner
  . exact sat_error.mpr (by decide)

end Store

namespace State

variable {n : Nat} (s : State n) (i : Fin n)

def refs : Fin n → Int :=
  fun i => (s.inode i).ref

def hold (r : Option (Fin n)) : Fin n → Int :=
  match r with
  | none => 0
  | some i => Pi.single i 1

@[simp]
theorem hold_some : hold (some i) = Pi.single i 1 := by
  rfl

theorem refs_setInode (ip : Inode) : (s.setInode i ip).refs = s.refs + Pi.single i (ip.ref - s.refs i) := by
  funext j
  rw [Pi.add_apply]
  change (Function.update s.inode i ip j).ref = _
  by_cases hj : j = i
  . rw [hj, Function.update_self, Pi.single_eq_same]
    omega
  . rw [Function.update_of_ne hj, Pi.single_eq_of_ne hj, add_zero]
    rfl

def ids : Fin n → Int × Nat × Nat :=
  fun i => ((s.inode i).ref, (s.inode i).dev, (s.inode i).inum)

variable {s} in
theorem refs_of_ids {s' : State n} (h : s'.ids = s.ids) : s'.refs = s.refs := by
  funext i
  exact congrArg Prod.fst (congrFun h i)

theorem ids_setInode {ip : Inode} (h : (ip.ref, ip.dev, ip.inum) = s.ids i) : (s.setInode i ip).ids = s.ids := by
  funext j
  change (fun x : Inode => (x.ref, x.dev, x.inum)) (Function.update s.inode i ip j) = _
  by_cases hj : j = i
  . rw [hj, Function.update_self]
    exact h
  . rw [Function.update_of_ne hj]
    rfl

@[simp]
theorem ids_setDin (di : Dinode) : (s.setDin i di).ids = s.ids :=
  ids_setInode s i rfl

@[simp]
theorem ids_releasesleep : (s.releasesleep i).ids = s.ids :=
  ids_setInode s i rfl

theorem beginOp_ids : Sat Halt.Inner (fun s' => s'.ids = s.ids) s.beginOp := by
  apply Sat.bind (Store.beginOp_inner _)
  intro st _
  rfl

theorem logWrite_ids (b : Nat) (data : Block)
    : Sat Halt.Inner (fun s' => s'.ids = s.ids) (s.logWrite b data) := by
  apply Sat.bind (Store.logWrite_inner _ _ _)
  intro st _
  rfl

theorem balloc_ids : Sat Halt.Inner (fun r => r.2.ids = s.ids) s.balloc := by
  apply Sat.bind (Store.balloc_inner _)
  intro r _
  rfl

theorem bfree_ids (b : Nat) : Sat Halt.Inner (fun s' => s'.ids = s.ids) (s.bfree b) := by
  apply Sat.bind (Store.bfree_inner _ _)
  intro st _
  rfl

theorem iupdate_ids : Sat Halt.Inner (fun s' => s'.ids = s.ids) (s.iupdate i) := by
  apply Sat.bind (Store.logWrite_inner _ _ _)
  intro st _
  rfl

theorem acquiresleep_ids : Sat Halt.Inner (fun s' => s'.ids = s.ids) (s.acquiresleep i) := by
  unfold acquiresleep
  split
  . exact sat_error.mpr (by decide)
  . exact ids_setInode s i rfl

theorem iload_ids : Sat Halt.Inner (fun s' => s'.ids = s.ids) (s.iload i) := by
  unfold iload
  dsimp only
  split
  . rfl
  . split
    . exact sat_error.mpr (by decide)
    . exact ids_setInode s i rfl

theorem ilock_ids : Sat Halt.Inner (fun s' => s'.ids = s.ids) (s.ilock i) := by
  unfold ilock
  split
  . exact sat_error.mpr (by decide)
  apply Sat.bind (acquiresleep_ids s i)
  intro s' hs'
  rw [← hs']
  apply iload_ids

theorem iunlock_ids : Sat Halt.Inner (fun s' => s'.ids = s.ids) (s.iunlock i) := by
  unfold iunlock
  split
  . exact sat_error.mpr (by decide)
  . exact ids_releasesleep s i

theorem mapAddr_ids (k : Nat) : Sat Halt.Inner (fun r => r.2.ids = s.ids) (s.mapAddr i k) := by
  unfold mapAddr
  dsimp only
  split
  . apply Sat.bind (balloc_ids s)
    rintro ⟨b, s'⟩ hs'
    rw [← hs']
    apply ids_setDin
  . rfl

theorem bmap_ids (bn : Nat) : Sat Halt.Inner (fun r => r.2.ids = s.ids) (s.bmap i bn) := by
  unfold bmap
  split
  . apply mapAddr_ids
  dsimp only
  split
  . apply Sat.bind (mapAddr_ids s i NDIRECT)
    rintro ⟨ind, s'⟩ hs'
    dsimp only at hs' ⊢
    rw [← hs']
    split
    . apply Sat.bind (balloc_ids s')
      rintro ⟨b, s''⟩ hs''
      dsimp only at hs'' ⊢
      rw [← hs'']
      apply Sat.bind (logWrite_ids s'' _ _)
      intro s3 hs3
      exact hs3
    . rfl
  . exact sat_error.mpr (by decide)

theorem freeAddr_ids (k : Nat) : Sat Halt.Inner (fun s' => s'.ids = s.ids) (s.freeAddr i k) := by
  unfold freeAddr
  dsimp only
  split
  . rfl
  apply Sat.bind (bfree_ids s _)
  intro s' hs'
  rw [← hs']
  apply ids_setDin

theorem freeIndirect_ids (bp : Block)
    : Sat Halt.Inner (fun s' => s'.ids = s.ids) (s.freeIndirect bp) := by
  unfold freeIndirect
  refine Sat.foldlM_const (I := fun s' : State n => s'.ids = s.ids) rfl ?_
  intro j s' _ hs'
  rw [← hs']
  dsimp only
  split
  . rfl
  . apply bfree_ids

theorem setDin_iupdate_ids (di : Dinode)
    : Sat Halt.Inner (fun s' => s'.ids = s.ids) ((s.setDin i di).iupdate i) := by
  rw [← ids_setDin s i di]
  apply iupdate_ids

theorem itrunc_ids : Sat Halt.Inner (fun s' => s'.ids = s.ids) (s.itrunc i) := by
  have hdirect : Sat Halt.Inner (fun s' => s'.ids = s.ids)
      ((List.range NDIRECT).foldlM (fun s k => s.freeAddr i k) s) := by
    refine Sat.foldlM_const (I := fun s' : State n => s'.ids = s.ids) rfl ?_
    intro k s' _ hs'
    rw [← hs']
    apply freeAddr_ids
  apply Sat.bind hdirect
  intro s1 hs1
  rw [← hs1]
  dsimp only
  split
  . exact setDin_iupdate_ids s1 i _
  apply Sat.bind (freeIndirect_ids s1 _)
  intro s2 hs2
  rw [← hs2]
  apply Sat.bind (freeAddr_ids s2 i _)
  intro s3 hs3
  rw [← hs3]
  exact setDin_iupdate_ids s3 i _

theorem freeInode_ids : Sat Halt.Inner (fun s' => s'.ids = s.ids) (s.freeInode i) := by
  apply Sat.bind (itrunc_ids s i)
  intro s1 hs1
  rw [← hs1]
  apply Sat.bind (setDin_iupdate_ids s1 i _)
  intro s2 hs2
  rw [← hs2]
  exact ids_setInode s2 i rfl

theorem ifree_ids : Sat Halt.Inner (fun s' => s'.ids = s.ids) (s.ifree i) := by
  unfold ifree
  split
  . apply freeInode_ids
  . rfl

theorem readiBody_ids (k : Nat) (b : Nat × Nat × List UInt8 × State n)
    : Sat Halt.Inner (Sum.elim (fun b' => b'.2.2.2.ids = b.2.2.2.ids) (fun r => r.2.ids = b.2.2.2.ids))
      (readiBody i k b) := by
  rcases b with ⟨tot, off, dst, s⟩
  unfold readiBody
  dsimp only
  split
  . apply Sat.bind (bmap_ids s i _)
    rintro ⟨addr, s'⟩ hs'
    exact hs'
  . rfl

theorem readi_ids (off n' : UInt32)
    : Sat Halt.Inner (fun r => r.2.2.ids = s.ids) (s.readi i off n') := by
  unfold readi
  dsimp only
  split
  . split
    . rfl
    . split <;> rfl
  split
  . rfl
  refine Sat.bind (P := fun r => r.2.ids = s.ids) ?_ ?_
  . refine Sat.loop_inv (fun b => b.2.2.2.ids = s.ids) (by decide) ?_ rfl
    intro b hb
    rw [← hb]
    apply readiBody_ids
  . rintro ⟨dst, s'⟩ hs'
    exact hs'

theorem writei_ids (src : Nat → UInt8) (off n' : UInt32)
    : Sat Halt.Inner (fun r => r.2.ids = s.ids) (s.writei i src off n') := by
  unfold writei
  dsimp only
  split
  . split
    . rfl
    . split <;> rfl
  split
  . rfl
  split
  . rfl
  refine Sat.bind (P := fun r => r.2.ids = s.ids) ?_ ?_
  . refine Sat.loop_inv (fun b => b.2.2.ids = s.ids) (by decide) ?_ rfl
    rintro ⟨tot, off, s'⟩ hs'
    dsimp only at hs'
    unfold writeiBody
    dsimp only
    split
    . apply Sat.bind (bmap_ids s' i _)
      rintro ⟨addr, s''⟩ hs''
      apply Sat.bind (logWrite_ids s'' _ _)
      intro s3 hs3
      exact hs3.trans (hs''.trans hs')
    . exact hs'
  . rintro ⟨off, s'⟩ hs'
    dsimp only at hs' ⊢
    rw [← hs']
    split
    . apply Sat.bind (setDin_iupdate_ids s' i _)
      intro s'' hs''
      exact hs''
    . rfl

theorem refs_of_sat {α : Type} {x : Except Halt α} {f : α → State n}
    (h : Sat Halt.Inner (fun r => (f r).ids = s.ids) x)
    : Sat Halt.Inner (fun r => (f r).refs = s.refs) x :=
  h.mono (fun _ h => h) (fun _ => refs_of_ids)

theorem refs_releasesleep : (s.releasesleep i).refs = s.refs :=
  refs_of_ids (ids_releasesleep s i)

theorem refs_endOp : s.endOp.refs = s.refs := by
  rfl

theorem beginOp_refs : Sat Halt.Inner (fun s' => s'.refs = s.refs) s.beginOp :=
  refs_of_sat s (beginOp_ids s)

theorem acquiresleep_refs : Sat Halt.Inner (fun s' => s'.refs = s.refs) (s.acquiresleep i) :=
  refs_of_sat s (acquiresleep_ids s i)

theorem ilock_refs : Sat Halt.Inner (fun s' => s'.refs = s.refs) (s.ilock i) :=
  refs_of_sat s (ilock_ids s i)

theorem iunlock_refs : Sat Halt.Inner (fun s' => s'.refs = s.refs) (s.iunlock i) :=
  refs_of_sat s (iunlock_ids s i)

theorem setDin_iupdate_refs (di : Dinode)
    : Sat Halt.Inner (fun s' => s'.refs = s.refs) ((s.setDin i di).iupdate i) :=
  refs_of_sat s (setDin_iupdate_ids s i di)

theorem ifree_refs : Sat Halt.Inner (fun s' => s'.refs = s.refs) (s.ifree i) :=
  refs_of_sat s (ifree_ids s i)

theorem readi_refs (off n' : UInt32)
    : Sat Halt.Inner (fun r => r.2.2.refs = s.refs) (s.readi i off n') :=
  refs_of_sat s (readi_ids s i off n')

theorem writei_refs (src : Nat → UInt8) (off n' : UInt32)
    : Sat Halt.Inner (fun r => r.2.refs = s.refs) (s.writei i src off n') :=
  refs_of_sat s (writei_ids s i src off n')

theorem refs_idup : (s.idup i).refs = s.refs + Pi.single i 1 := by
  unfold idup
  rw [refs_setInode]
  congr 2
  change s.refs i + 1 - s.refs i = 1
  omega

theorem iget_refs (dev inum : Nat)
    : Sat Halt.Inner (fun r => r.2.refs = s.refs + Pi.single r.1 1) (s.iget dev inum) := by
  unfold iget
  dsimp only
  split
  . exact refs_idup s _
  split
  . exact sat_error.mpr (by decide)
  . next i hempty =>
    have hzero : s.refs i = 0 := by
      have hfind := List.find?_some hempty
      rw [decide_eq_true_iff] at hfind
      exact hfind
    change (s.setInode i _).refs = _
    rw [refs_setInode, hzero]
    rfl

theorem ialloc_refs (dev : Nat) (type : Int16)
    : Sat Halt.Inner (fun r => r.2.refs = s.refs + Pi.single r.1 1) (s.ialloc dev type) := by
  unfold ialloc
  dsimp only
  split
  . exact sat_error.mpr (by decide)
  . apply Sat.bind (Store.logWrite_inner _ _ _)
    intro st _
    exact iget_refs { s with toStore := st } _ _

theorem iput_refs : Sat Halt.Inner (fun s' => s'.refs = s.refs - Pi.single i 1) (s.iput i) := by
  apply Sat.bind (acquiresleep_refs s i)
  intro s1 hs1
  rw [← hs1]
  apply Sat.bind (ifree_refs s1 i)
  intro s2 hs2
  rw [← hs2]
  change ((s2.releasesleep i).setInode i _).refs = _
  rw [refs_setInode, sub_eq_add_neg s2.refs, ← Pi.single_neg, ← refs_releasesleep s2 i]
  congr 2
  change (s2.releasesleep i).refs i - 1 - (s2.releasesleep i).refs i = -1
  omega

theorem iunlockput_refs
    : Sat Halt.Inner (fun s' => s'.refs = s.refs - Pi.single i 1) (s.iunlockput i) := by
  apply Sat.bind (iunlock_refs s i)
  intro s1 hs1
  rw [← hs1]
  apply iput_refs

theorem readi_bind_refs {α : Type} {Q : α → Prop} {off n' : UInt32} {f : Int × List UInt8 × State n → Except Halt α}
    (h : ∀ r de s', s'.refs = s.refs → Sat Halt.Inner Q (f (r, de, s')))
    : Sat Halt.Inner Q (s.readi i off n' >>= f) := by
  apply Sat.bind (readi_refs s i off n')
  rintro ⟨r, de, s'⟩ hs'
  exact h r de s' hs'

theorem dirlookup_refs (name : List UInt8)
    : Sat Halt.Inner (fun r => r.2.refs = s.refs + hold (r.1.map Prod.fst)) (s.dirlookup i name) := by
  unfold dirlookup
  split
  . exact sat_error.mpr (by decide)
  refine Sat.loop_inv (fun b => b.2.refs = s.refs) (by decide) ?_ rfl
  rintro ⟨off, s1⟩ hs1
  rw [← hs1]
  unfold dirlookupBody
  dsimp only
  split
  . apply readi_bind_refs
    intro r de s2 hs2
    rw [← hs2]
    dsimp only
    split
    . exact sat_error.mpr (by decide)
    split
    . rfl
    split
    . apply Sat.bind (iget_refs s2 _ _)
      rintro ⟨ip, s3⟩ hs3
      exact hs3
    . rfl
  . exact (add_zero _).symm

theorem dirlink_refs (name : List UInt8) (inum : Nat)
    : Sat Halt.Inner (fun r => r.2.refs = s.refs) (s.dirlink i name inum) := by
  apply Sat.bind (dirlookup_refs s i name)
  rintro ⟨found, s1⟩ hs1
  cases found with
  | some r =>
    rcases r with ⟨ip, off⟩
    apply Sat.bind (iput_refs s1 ip)
    intro s2 hs2
    change s2.refs = s.refs
    rw [hs2, hs1]
    exact add_sub_cancel_right _ _
  | none =>
    have hs1 : s1.refs = s.refs := hs1.trans (add_zero _)
    rw [← hs1]
    refine Sat.bind (P := fun r => r.2.refs = s1.refs) ?_ ?_
    . refine Sat.loop_inv (fun b => b.2.refs = s1.refs) (by decide) ?_ rfl
      rintro ⟨off, s2⟩ hs2
      rw [← hs2]
      unfold dirlinkBody
      dsimp only
      split
      . apply readi_bind_refs
        intro r de s3 hs3
        rw [← hs3]
        dsimp only
        split
        . exact sat_error.mpr (by decide)
        . split <;> rfl
      . rfl
    . rintro ⟨off, s2⟩ hs2
      rw [← hs2]
      apply Sat.bind (writei_refs s2 i _ _ _)
      rintro ⟨r, s3⟩ hs3
      dsimp only
      split
      . exact sat_error.mpr (by decide)
      . exact hs3

theorem namexBody_refs (parent : Bool) (refs : Fin n → Int)
    (b : List UInt8 × List UInt8 × Fin n × State n) (h : b.2.2.2.refs = refs + Pi.single b.2.2.1 1)
    : Sat Halt.Inner
      (Sum.elim (fun b' => b'.2.2.2.refs = refs + Pi.single b'.2.2.1 1)
        (fun r => r.2.refs = refs + hold (r.1.map Prod.fst)))
      (namexBody parent b) := by
  rcases b with ⟨path, name, i, s⟩
  dsimp only at h
  unfold namexBody
  dsimp only
  split
  . next name path _ =>
    apply Sat.bind (ilock_refs s i)
    intro s1 hs1
    split
    . apply Sat.bind (iunlockput_refs s1 i)
      intro s2 hs2
      change s2.refs = refs + 0
      rw [hs2, hs1, h]
      abel
    . split
      . apply Sat.bind (iunlock_refs s1 i)
        intro s2 hs2
        exact hs2.trans (hs1.trans h)
      . apply Sat.bind (dirlookup_refs s1 i name)
        rintro ⟨next, s2⟩ hs2
        apply Sat.bind (iunlockput_refs s2 i)
        intro s3 hs3
        have hrefs : s3.refs = refs + hold (next.map Prod.fst) := by
          rw [hs3, hs2, hs1, h]
          abel
        cases next with
        | none => exact hrefs
        | some r => exact hrefs
  . split
    . apply Sat.bind (iput_refs s i)
      intro s1 hs1
      change s1.refs = refs + 0
      rw [hs1, h]
      abel
    . exact h

theorem namex_refs (cwd : Fin n) (path : List UInt8) (parent : Bool)
    : Sat Halt.Inner (fun r => r.2.refs = s.refs + hold (r.1.map Prod.fst))
      (s.namex cwd path parent) := by
  have hloop : ∀ (i : Fin n) (s1 : State n), s1.refs = s.refs + Pi.single i 1
      → Sat Halt.Inner (fun r => r.2.refs = s.refs + hold (r.1.map Prod.fst))
        (Outcome.loop .stuck (namexBody parent) (path.length + 1) (path, [], i, s1)) := by
    intro i s1 hs1
    exact Sat.loop_inv (fun b => b.2.2.2.refs = s.refs + Pi.single b.2.2.1 1) (by decide)
      (namexBody_refs parent s.refs) hs1
  unfold namex
  split
  . apply Sat.bind (iget_refs s _ _)
    rintro ⟨i, s1⟩ hs1
    exact hloop i s1 hs1
  . exact hloop cwd (s.idup cwd) (refs_idup s cwd)

theorem namei_refs (cwd : Fin n) (path : List UInt8)
    : Sat Halt.Inner (fun r => r.2.refs = s.refs + hold r.1) (s.namei cwd path) := by
  apply Sat.bind (namex_refs s cwd path false)
  rintro ⟨r, s1⟩ hs1
  exact hs1

theorem nameiparent_refs (cwd : Fin n) (path : List UInt8)
    : Sat Halt.Inner (fun r => r.2.refs = s.refs + hold (r.1.map Prod.fst)) (s.nameiparent cwd path) :=
  namex_refs s cwd path true

theorem addNlink_refs (d : Int16) : Sat Halt.Inner (fun s' => s'.refs = s.refs) (s.addNlink i d) :=
  setDin_iupdate_refs s i _

theorem createNew_refs (dp : Fin n) (name : List UInt8) (type major minor : Int16)
    : Sat Halt.Inner (fun s' => s'.refs = s.refs - Pi.single dp 1)
      (s.createNew dp i name type major minor) := by
  have hlast : ∀ (r : Int) (s2 : State n), s2.refs = s.refs →
      Sat Halt.Inner (fun s' => s'.refs = s.refs - Pi.single dp 1)
        (if r < 0 then .error .createDirlink else s2.iunlockput dp) := by
    intro r s2 hs2
    rw [← hs2]
    split
    . exact sat_error.mpr (by decide)
    . apply iunlockput_refs
  apply Sat.bind (setDin_iupdate_refs s i _)
  intro s1 hs1
  split
  . apply Sat.bind (addNlink_refs s1 dp 1)
    intro s2 hs2
    apply Sat.bind (dirlink_refs s2 i _ _)
    rintro ⟨r, s3⟩ hs3
    dsimp only at hs3 ⊢
    split
    . exact sat_error.mpr (by decide)
    apply Sat.bind (dirlink_refs s3 i _ _)
    rintro ⟨r, s4⟩ hs4
    dsimp only at hs4 ⊢
    split
    . exact sat_error.mpr (by decide)
    . apply Sat.bind (dirlink_refs s4 dp name _)
      rintro ⟨r, s5⟩ hs5
      exact hlast r s5 (hs5.trans (by rw [hs4, hs3, hs2, hs1]))
  . apply Sat.bind (dirlink_refs s1 dp name _)
    rintro ⟨r, s2⟩ hs2
    exact hlast r s2 (hs2.trans hs1)

theorem create_refs (cwd : Fin n) (path : List UInt8) (type major minor : Int16)
    : Sat Halt.Inner (fun r => r.2.refs = s.refs + hold r.1) (s.create cwd path type major minor) := by
  apply Sat.bind (nameiparent_refs s cwd path)
  rintro ⟨r, s1⟩ hs1
  cases r with
  | none => exact hs1
  | some r =>
    rcases r with ⟨dp, name⟩
    apply Sat.bind (ilock_refs s1 dp)
    intro s2 hs2
    apply Sat.bind (dirlookup_refs s2 dp name)
    rintro ⟨found, s3⟩ hs3
    cases found with
    | some r =>
      rcases r with ⟨i, off⟩
      apply Sat.bind (iunlockput_refs s3 dp)
      intro s4 hs4
      apply Sat.bind (ilock_refs s4 i)
      intro s5 hs5
      have hrefs : s5.refs = s.refs + Pi.single i 1 := by
        rw [hs5, hs4, hs3, hs2, hs1]
        change s.refs + Pi.single dp 1 + Pi.single i 1 - Pi.single dp 1 = _
        abel
      split
      . exact hrefs
      apply Sat.bind (iunlockput_refs s5 i)
      intro s6 hs6
      change s6.refs = s.refs + 0
      rw [hs6, hrefs]
      abel
    | none =>
      apply Sat.bind (ialloc_refs s3 _ _)
      rintro ⟨i, s4⟩ hs4
      apply Sat.bind (ilock_refs s4 i)
      intro s5 hs5
      apply Sat.bind (createNew_refs s5 i dp name type major minor)
      intro s6 hs6
      change s6.refs = s.refs + Pi.single i 1
      rw [hs6, hs5, hs4, hs3, hs2, hs1]
      change s.refs + Pi.single dp 1 + 0 + Pi.single i 1 - Pi.single dp 1 = _
      abel

theorem linkNew_refs (cwd : Fin n) (new : List UInt8)
    : Sat Halt.Inner (fun r => r.2.refs = s.refs - Pi.single i 1) (s.linkNew cwd i new) := by
  have hlast : ∀ (r : Int) (s1 : State n), s1.refs = s.refs →
      Sat Halt.Inner (fun r => r.2.refs = s.refs - Pi.single i 1) (
        if r = 0 then do
          let s ← s1.iput i
          return ((0 : Int), s)
        else do
          let s ← s1.ilock i
          let s ← s.addNlink i (-1)
          let s ← s.iunlockput i
          return (-1, s)) := by
    intro r s1 hs1
    rw [← hs1]
    split
    . apply Sat.bind (iput_refs s1 i)
      intro s2 hs2
      exact hs2
    apply Sat.bind (ilock_refs s1 i)
    intro s2 hs2
    apply Sat.bind (addNlink_refs s2 i _)
    intro s3 hs3
    apply Sat.bind (iunlockput_refs s3 i)
    intro s4 hs4
    change s4.refs = _
    rw [hs4, hs3, hs2]
  apply Sat.bind (nameiparent_refs s cwd new)
  rintro ⟨r, s1⟩ hs1
  cases r with
  | none => exact hlast (-1) s1 (hs1.trans (add_zero _))
  | some r =>
    rcases r with ⟨dp, name⟩
    have hs1 : s1.refs = s.refs + Pi.single dp 1 := hs1
    apply Sat.bind (ilock_refs s1 dp)
    intro s2 hs2
    split
    . apply Sat.bind (iunlockput_refs s2 dp)
      intro s3 hs3
      apply hlast (-1) s3
      rw [hs3, hs2, hs1]
      abel
    . apply Sat.bind (dirlink_refs s2 dp name _)
      rintro ⟨r, s3⟩ hs3
      apply Sat.bind (iunlockput_refs s3 dp)
      intro s4 hs4
      apply hlast _ s4
      rw [hs4, hs3, hs2, hs1]
      abel

theorem link_refs (cwd : Fin n) (old new : List UInt8)
    : Sat Halt.Inner (fun r => r.2.refs = s.refs) (s.link cwd old new) := by
  apply Sat.bind (namei_refs s cwd old)
  rintro ⟨r, s1⟩ hs1
  cases r with
  | none => exact hs1.trans (add_zero _)
  | some i =>
    have hs1 : s1.refs = s.refs + Pi.single i 1 := hs1
    apply Sat.bind (ilock_refs s1 i)
    intro s2 hs2
    split
    . apply Sat.bind (iunlockput_refs s2 i)
      intro s3 hs3
      change s3.refs = _
      rw [hs3, hs2, hs1]
      abel
    . apply Sat.bind (addNlink_refs s2 i 1)
      intro s3 hs3
      apply Sat.bind (iunlock_refs s3 i)
      intro s4 hs4
      apply Sat.mono (linkNew_refs s4 i cwd new) (fun _ h => h)
      intro r hr
      rw [hr, hs4, hs3, hs2, hs1]
      abel

theorem isdirempty_refs : Sat Halt.Inner (fun r => r.2.refs = s.refs) (s.isdirempty i) := by
  refine Sat.loop_inv (fun b => b.2.refs = s.refs) (by decide) ?_ rfl
  rintro ⟨off, s1⟩ hs1
  rw [← hs1]
  unfold isdiremptyBody
  dsimp only
  split
  . apply readi_bind_refs
    intro r de s2 hs2
    rw [← hs2]
    dsimp only
    split
    . exact sat_error.mpr (by decide)
    . split <;> rfl
  . rfl

theorem unlinkEntry_refs (dp : Fin n) (off : UInt32)
    : Sat Halt.Inner (fun r => r.2.refs = s.refs - Pi.single dp 1 - Pi.single i 1)
      (s.unlinkEntry dp i off) := by
  have hlast : ∀ s1 : State n, s1.refs = s.refs →
      Sat Halt.Inner (fun r => r.2.refs = s.refs - Pi.single dp 1 - Pi.single i 1) (do
        let s ← s1.iunlockput dp
        let s ← s.addNlink i (-1)
        let s ← s.iunlockput i
        return ((0 : Int), s)) := by
    intro s1 hs1
    apply Sat.bind (iunlockput_refs s1 dp)
    intro s2 hs2
    apply Sat.bind (addNlink_refs s2 i _)
    intro s3 hs3
    apply Sat.bind (iunlockput_refs s3 i)
    intro s4 hs4
    change s4.refs = _
    rw [hs4, hs3, hs2, hs1]
  apply Sat.bind (writei_refs s dp _ _ _)
  rintro ⟨r, s1⟩ hs1
  dsimp only at hs1 ⊢
  split
  . exact sat_error.mpr (by decide)
  split
  . apply Sat.bind (addNlink_refs s1 dp _)
    intro s2 hs2
    exact hlast s2 (hs2.trans hs1)
  . exact hlast s1 hs1

theorem unlink_refs (cwd : Fin n) (path : List UInt8)
    : Sat Halt.Inner (fun r => r.2.refs = s.refs) (s.unlink cwd path) := by
  apply Sat.bind (nameiparent_refs s cwd path)
  rintro ⟨r, s1⟩ hs1
  cases r with
  | none => exact hs1.trans (add_zero _)
  | some r =>
    rcases r with ⟨dp, name⟩
    have hs1 : s1.refs = s.refs + Pi.single dp 1 := hs1
    apply Sat.bind (ilock_refs s1 dp)
    intro s2 hs2
    split
    . apply Sat.bind (iunlockput_refs s2 dp)
      intro s3 hs3
      change s3.refs = _
      rw [hs3, hs2, hs1]
      abel
    . apply Sat.bind (dirlookup_refs s2 dp name)
      rintro ⟨found, s3⟩ hs3
      cases found with
      | none =>
        have hs3 : s3.refs = s2.refs := hs3.trans (add_zero _)
        apply Sat.bind (iunlockput_refs s3 dp)
        intro s4 hs4
        change s4.refs = _
        rw [hs4, hs3, hs2, hs1]
        abel
      | some r =>
        rcases r with ⟨i, off⟩
        have hs3 : s3.refs = s2.refs + Pi.single i 1 := hs3
        apply Sat.bind (ilock_refs s3 i)
        intro s4 hs4
        have hrefs : s4.refs = s.refs + Pi.single dp 1 + Pi.single i 1 := by
          rw [hs4, hs3, hs2, hs1]
        have hlast : ∀ (empty : Bool) (s5 : State n), s5.refs = s4.refs →
            Sat Halt.Inner (fun r => r.2.refs = s.refs) (
              if empty then
                s5.unlinkEntry dp i off
              else do
                let s ← s5.iunlockput i
                let s ← s.iunlockput dp
                return (-1, s)) := by
          intro empty s5 hs5
          split
          . apply Sat.mono (unlinkEntry_refs s5 i dp off) (fun _ h => h)
            intro r hr
            rw [hr, hs5, hrefs]
            abel
          . apply Sat.bind (iunlockput_refs s5 i)
            intro s6 hs6
            apply Sat.bind (iunlockput_refs s6 dp)
            intro s7 hs7
            change s7.refs = _
            rw [hs7, hs6, hs5, hrefs]
            abel
        split
        . exact sat_error.mpr (by decide)
        split
        . apply Sat.bind (isdirempty_refs s4 i)
          rintro ⟨empty, s5⟩ hs5
          exact hlast empty s5 hs5
        . exact hlast true s4 rfl

theorem loaduvm_refs (offset sz : UInt32)
    : Sat Halt.Inner (fun r => r.2.refs = s.refs) (s.loaduvm i offset sz) := by
  refine Sat.loop_inv (fun b => b.2.refs = s.refs) (by decide) ?_ rfl
  rintro ⟨k, s1⟩ hs1
  rw [← hs1]
  unfold loaduvmBody
  dsimp only
  split
  . apply readi_bind_refs
    intro r data s2 hs2
    dsimp only
    split
    . split <;> exact hs2
    . split <;> exact hs2
  . rfl

theorem execLoad_refs (mem : ExecMem)
    : Sat Halt.Inner (fun r => r.2.refs = s.refs) (s.execLoad i mem) := by
  apply readi_bind_refs
  intro r elf s1 hs1
  dsimp only
  rw [← hs1]
  split
  . rfl
  refine Sat.loop_inv (fun b => b.2.2.2.refs = s1.refs) (by decide) ?_ rfl
  rintro ⟨k, off, sz, s2⟩ hs2
  rw [← hs2]
  unfold execBody
  dsimp only
  split
  . apply readi_bind_refs
    intro r ph s3 hs3
    dsimp only
    split
    . exact hs3
    split
    . exact hs3
    split
    . exact hs3
    split
    . exact hs3
    apply Sat.bind (loaduvm_refs s3 i _ _)
    rintro ⟨ok, s4⟩ hs4
    have hrefs := hs4.trans hs3
    dsimp only
    split
    . exact hrefs
    . exact hrefs
  . rfl

theorem exec_refs (cwd : Fin n) (path : List UInt8) (mem : ExecMem)
    : Sat Halt.Inner (fun r => r.2.refs = s.refs) (s.exec cwd path mem) := by
  apply Sat.bind (namei_refs s cwd path)
  rintro ⟨r, s1⟩ hs1
  cases r with
  | none => exact hs1.trans (add_zero _)
  | some i =>
    have hs1 : s1.refs = s.refs + Pi.single i 1 := hs1
    apply Sat.bind (ilock_refs s1 i)
    intro s2 hs2
    apply Sat.bind (execLoad_refs s2 i mem)
    rintro ⟨sz, s3⟩ hs3
    apply Sat.bind (iunlockput_refs s3 i)
    intro s4 hs4
    change s4.refs = _
    rw [hs4, hs3, hs2, hs1]
    abel

end State
end Xv6.Fs
