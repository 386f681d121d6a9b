import Xv6.Fs.Impl.Dir
import Xv6.Fs.Lemmas.Truncate

namespace Xv6.Fs
namespace State

open Outcome

variable {n : Nat} {s s' : State n} {i : Fin n} {nmeta x : Nat}

abbrev inodes (s : State n) : Nat → Dinode :=
  s.sb.table s.disk

structure Intact (nmeta : Nat) (s : State n) : Prop where
  consistent : Consistent s.sb nmeta s.disk s.inodes
  sized : ∀ x, (s.inodes x).type ≠ 0 → (s.inodes x).type ≠ T_DEV → Sized s.disk (s.inodes x)
  dev : ∀ j, 0 < (s.inode j).ref → (s.inode j).dev = ROOTDEV
  single : ∀ j j', 0 < (s.inode j).ref → 0 < (s.inode j').ref → (s.inode j).inum = (s.inode j').inum → j = j'
  synced : ∀ j, 0 < (s.inode j).ref → (s.inode j).valid = true
    → (s.inode j).din = s.inodes (s.inode j).inum ∧ (s.inode j).din.type ≠ 0

def Sane (e : Halt) : Prop :=
  e ≠ .freeingFree

instance (e : Halt) : Decidable (Sane e) :=
  inferInstanceAs (Decidable (_ ≠ _))

theorem Full.sane {e : Halt} (h : Full e) : Sane e := by
  rcases h with h | h <;> rw [h] <;> decide

theorem Limit.sane {st : Store} {k m : Nat} {e : Halt} (h : st.Limit k m e) : Sane e := by
  rcases h with ⟨h | h, _⟩ | ⟨h, _⟩ <;> rw [h] <;> decide

namespace Intact

section
variable (h : Intact nmeta s)
include h

theorem work (hi : 0 < (s.inode i).ref) (hvalid : (s.inode i).valid = true)
    : Work nmeta s i ∧ s.view i = s.inodes := by
  rcases h.synced i hi hvalid with ⟨hdin, htype⟩
  have hview : s.view i = s.inodes := by
    unfold view
    rw [hdin]
    exact Function.update_eq_self ..
  refine ⟨⟨?_, htype⟩, hview⟩
  rw [hview]
  exact h.consistent

theorem sized_of_valid (hi : 0 < (s.inode i).ref) (hvalid : (s.inode i).valid = true)
    (hdev : (s.inode i).din.type ≠ T_DEV)
    : Sized s.disk (s.inode i).din := by
  rcases h.synced i hi hvalid with ⟨hdin, htype⟩
  rw [hdin] at htype hdev ⊢
  exact h.sized _ htype hdev

theorem frame (hsb : s'.sb = s.sb) (hdisk : s'.disk = s.disk)
    (hentry : ∀ j, 0 < (s'.inode j).ref → 0 < (s.inode j).ref ∧ (s'.inode j).dev = (s.inode j).dev
      ∧ (s'.inode j).inum = (s.inode j).inum
      ∧ ((s'.inode j).valid = true → (s.inode j).valid = true ∧ (s'.inode j).din = (s.inode j).din))
    : Intact nmeta s' := by
  have hinodes : s'.inodes = s.inodes := by
    unfold inodes
    rw [hsb, hdisk]
  refine ⟨?_, ?_, ?_, ?_, ?_⟩
  . rw [hinodes, hsb, hdisk]
    exact h.consistent
  . rw [hinodes, hdisk]
    exact h.sized
  . intro j hj
    rcases hentry j hj with ⟨hj0, hdev, _, _⟩
    rw [hdev]
    exact h.dev j hj0
  . intro j j' hj hj' heq
    rcases hentry j hj with ⟨hj0, _, hinum, _⟩
    rcases hentry j' hj' with ⟨hj0', _, hinum', _⟩
    rw [hinum, hinum'] at heq
    exact h.single j j' hj0 hj0' heq
  . intro j hj hvalid
    rcases hentry j hj with ⟨hj0, _, hinum, hcopy⟩
    rcases hcopy hvalid with ⟨hvalid0, hdin⟩
    rw [hinodes, hdin, hinum]
    exact h.synced j hj0 hvalid0

theorem setInode {ip : Inode}
    (hentry : 0 < ip.ref → 0 < (s.inode i).ref ∧ ip.dev = (s.inode i).dev ∧ ip.inum = (s.inode i).inum
      ∧ (ip.valid = true → (s.inode i).valid = true ∧ ip.din = (s.inode i).din))
    : Intact nmeta (s.setInode i ip) := by
  refine h.frame rfl rfl ?_
  intro j
  change 0 < (Function.update s.inode i ip j).ref → _ ∧ (Function.update s.inode i ip j).dev = _
    ∧ (Function.update s.inode i ip j).inum = _
    ∧ ((Function.update s.inode i ip j).valid = true → _ ∧ (Function.update s.inode i ip j).din = _)
  by_cases hj : j = i
  . rw [hj, Function.update_self]
    exact hentry
  . rw [Function.update_of_ne hj]
    intro href
    exact ⟨href, rfl, rfl, fun hvalid => ⟨hvalid, rfl⟩⟩

theorem change (hcons : Consistent s'.sb nmeta s'.disk s'.inodes)
    (htable : ∀ y, y ≠ x → s'.inodes y = s.inodes y)
    (hown : ∀ p : Nat × Nat, p.1 ≠ x → owner s.disk s.inodes p ≠ 0 → owner s'.disk s'.inodes p ≠ 0)
    (hsized : (s'.inodes x).type ≠ 0 → (s'.inodes x).type ≠ T_DEV → Sized s'.disk (s'.inodes x))
    (hentry : ∀ j, 0 < (s'.inode j).ref → 0 < (s.inode j).ref ∧ (s'.inode j).dev = (s.inode j).dev
      ∧ (s'.inode j).inum = (s.inode j).inum
      ∧ ((s'.inode j).valid = true → (s.inode j).inum ≠ x ∧ (s.inode j).valid = true
          ∧ (s'.inode j).din = (s.inode j).din
        ∨ (s'.inode j).din = s'.inodes (s.inode j).inum ∧ (s'.inode j).din.type ≠ 0))
    : Intact nmeta s' := by
  refine ⟨hcons, ?_, ?_, ?_, ?_⟩
  . intro y htype hdev
    by_cases hy : y = x
    . rw [hy] at htype hdev ⊢
      exact hsized htype hdev
    have hmapped : ∀ k, slot s.disk (s.inodes y) k ≠ 0 → slot s'.disk (s'.inodes y) k ≠ 0 := by
      intro k hk
      have hkeep := hown (y, k) hy
      rw [owner_of_type htype] at hkeep
      rw [htable y hy] at htype
      rw [owner_of_type htype] at hkeep
      exact hkeep hk
    have hsize : (s'.inodes y).size = (s.inodes y).size := by
      rw [htable y hy]
    rw [htable y hy] at htype hdev
    rcases h.sized y htype hdev with ⟨hmax, hbn⟩
    refine ⟨?_, ?_⟩
    . rw [hsize]
      exact hmax
    . intro bn hlt
      rw [hsize] at hlt
      exact hmapped _ (hbn bn hlt)
  . intro j hj
    rcases hentry j hj with ⟨hj0, hdev, _, _⟩
    rw [hdev]
    exact h.dev j hj0
  . intro j j' hj hj' heq
    rcases hentry j hj with ⟨hj0, _, hinum, _⟩
    rcases hentry j' hj' with ⟨hj0', _, hinum', _⟩
    rw [hinum, hinum'] at heq
    exact h.single j j' hj0 hj0' heq
  . intro j hj hvalid
    rcases hentry j hj with ⟨hj0, _, hinum, hcopy⟩
    rcases hcopy hvalid with ⟨hne, hvalid0, hdin⟩ | hsync
    . rw [hdin, hinum, htable _ hne]
      exact h.synced j hj0 hvalid0
    . rw [hinum]
      exact hsync

theorem changeEntry (hi : 0 < (s.inode i).ref)
    (hcons : Consistent s'.sb nmeta s'.disk s'.inodes)
    (htable : ∀ y, y ≠ (s.inode i).inum → s'.inodes y = s.inodes y)
    (hown : ∀ p : Nat × Nat, p.1 ≠ (s.inode i).inum → owner s.disk s.inodes p ≠ 0 → owner s'.disk s'.inodes p ≠ 0)
    (hsized : (s'.inodes (s.inode i).inum).type ≠ 0 → (s'.inodes (s.inode i).inum).type ≠ T_DEV
      → Sized s'.disk (s'.inodes (s.inode i).inum)) (hothers : ∀ j, j ≠ i → s'.inode j = s.inode j)
    (hself : 0 < (s'.inode i).ref → (s'.inode i).dev = (s.inode i).dev ∧ (s'.inode i).inum = (s.inode i).inum
      ∧ ((s'.inode i).valid = true → (s'.inode i).din = s'.inodes (s.inode i).inum ∧ (s'.inode i).din.type ≠ 0))
    : Intact nmeta s' := by
  apply h.change hcons htable hown hsized
  intro j hj
  by_cases hji : j = i
  . rw [hji] at hj ⊢
    rcases hself hj with ⟨hdev, hinum, hcopy⟩
    exact ⟨hi, hdev, hinum, fun hvalid => .inr (hcopy hvalid)⟩
  rw [hothers j hji] at hj ⊢
  refine ⟨hj, rfl, rfl, fun hvalid => .inl ⟨?_, hvalid, rfl⟩⟩
  intro heq
  exact hji (h.single j i hj hi heq)

theorem iget (x : Nat) : Sat Sane (fun r => Intact nmeta r.2) (s.iget ROOTDEV x) := by
  unfold State.iget
  dsimp only
  split
  . next j hhit =>
    have hfound := List.find?_some hhit
    rw [decide_eq_true_iff] at hfound
    apply h.setInode
    intro _
    exact ⟨hfound.1, rfl, rfl, fun hvalid => ⟨hvalid, rfl⟩⟩
  . next hmiss =>
    split
    . exact sat_error.mpr (by decide)
    . next j _ =>
      rw [List.find?_eq_none] at hmiss
      have hnew : ∀ k, 0 < (s.inode k).ref → (s.inode k).inum ≠ x := by
        intro k hk heq
        apply hmiss k (List.mem_finRange k)
        rw [decide_eq_true_iff]
        exact ⟨hk, h.dev k hk, heq⟩
      generalize hip : ({ s.inode j with dev := ROOTDEV, inum := x, ref := 1, valid := false } : Inode) = ip
      have hinum : ip.inum = x := by rw [← hip]
      have hself : (s.setInode j ip).inode j = ip := Function.update_self ..
      have hother : ∀ k, k ≠ j → (s.setInode j ip).inode k = s.inode k := by
        intro k hk
        exact Function.update_of_ne hk ..
      refine ⟨h.consistent, h.sized, ?_, ?_, ?_⟩
      . intro k hk
        by_cases hkj : k = j
        . rw [hkj]
          dsimp only
          rw [hself, ← hip]
        . dsimp only at hk ⊢
          rw [hother k hkj] at hk ⊢
          exact h.dev k hk
      . intro k k' hk hk' heq
        dsimp only at hk hk' heq
        by_cases hkj : k = j
        . by_cases hkj' : k' = j
          . rw [hkj, hkj']
          . rw [hkj, hself, hother k' hkj', hinum] at heq
            rw [hother k' hkj'] at hk'
            exact absurd heq.symm (hnew k' hk')
        . rw [hother k hkj] at hk heq
          by_cases hkj' : k' = j
          . rw [hkj', hself, hinum] at heq
            exact absurd heq (hnew k hk)
          . rw [hother k' hkj'] at hk' heq
            exact h.single k k' hk hk' heq
      . intro k hk hvalid
        dsimp only at hk hvalid ⊢
        by_cases hkj : k = j
        . rw [hkj, hself, ← hip] at hvalid
          cases hvalid
        . rw [hother k hkj] at hk hvalid ⊢
          exact h.synced k hk hvalid

theorem idup (hi : 0 < (s.inode i).ref) : Intact nmeta (s.idup i) := by
  apply h.setInode
  intro _
  exact ⟨hi, rfl, rfl, fun hvalid => ⟨hvalid, rfl⟩⟩

theorem claim (hx : x < s.sb.ninodes) (hfree : (s.inodes x).type = 0) (type : Int16)
    (hsb : s'.sb = s.sb) (hinode : s'.inode = s.inode) (hdisk : s'.disk = Function.update s.disk (s.sb.iblock x)
      ((Dinode.fresh type).put (s.disk (s.sb.iblock x)) (dinodeOff x)))
    : Intact nmeta s' ∧ s'.inodes = Function.update s.inodes x (.fresh type)
      ∧ content s'.disk s'.inodes = content s.disk s.inodes := by
  have htable : s'.inodes = Function.update s.inodes x (.fresh type) := by
    unfold inodes
    rw [hsb, hdisk, Superblock.table_put hx]
  have hmeta : ∀ c, nmeta ≤ c → s'.disk c = s.disk c := by
    intro c hc
    have hlt := h.consistent.geo.iblock_lt x hx
    rw [hdisk, Function.update_of_ne (by omega)]
  have hbit : ∀ b, b < s.sb.size → s.sb.bit s'.disk b = s.sb.bit s.disk b := by
    intro b hb
    rw [hdisk]
    exact Superblock.bit_update_of_ne (h.consistent.geo.iblock_ne_bblock x hx b hb) _
  have hempty : ∀ k, (Dinode.fresh type).addr k = 0 := by
    intro k
    unfold Dinode.addr
    split <;> rfl
  have howner : owner s'.disk s'.inodes = owner s.disk s.inodes := by
    rw [htable, owner_update_of_empty hempty (fun y hy => hmeta _ (h.consistent.owner_ge hy))]
    funext p
    split
    . next hp =>
      unfold owner
      rw [hp, if_pos hfree]
    . rfl
  have hcontent : content s'.disk s'.inodes = content s.disk s.inodes := by
    funext y bn
    unfold content
    rw [howner]
    split
    . rfl
    . next hne => exact hmeta _ (h.consistent.owner_ge hne)
  refine ⟨h.change (x := x) ?_ ?_ ?_ ?_ ?_, htable, hcontent⟩
  . have hcons := (h.consistent.writeMeta hmeta hbit).1
    rw [hsb]
    refine ⟨⟨hcons.geo, hcons.pos, hcons.used, ?_⟩, ?_⟩
    . rw [howner]
      exact h.consistent.owners.congr hbit
    . intro y hy
      rw [htable, Function.update_of_ne (by omega)]
      exact h.consistent.unallocated y hy
  . intro y hy
    rw [htable, Function.update_of_ne hy]
  . intro p _ hp
    rw [howner]
    exact hp
  . intro _ _
    rw [htable, Function.update_self]
    refine ⟨Nat.zero_le _, ?_⟩
    intro bn hbn
    exact absurd hbn (Nat.not_lt_zero _)
  . intro j hj
    rw [hinode] at hj ⊢
    refine ⟨hj, rfl, rfl, fun hvalid => .inl ⟨?_, hvalid, rfl⟩⟩
    intro heq
    have hsync := h.synced j hj hvalid
    rw [hsync.1, heq] at hsync
    exact hsync.2 hfree

end

theorem free_of_find {x : Nat}
    (hfind : ((List.range' 1 (s.sb.ninodes - 1)).find? fun inum =>
      (Dinode.get (s.disk (s.sb.iblock inum)) (dinodeOff inum)).type = 0) = some x)
    : x < s.sb.ninodes ∧ (s.inodes x).type = 0 := by
  have hmem := List.mem_of_find?_eq_some hfind
  rw [List.mem_range'_1] at hmem
  have hx : x < s.sb.ninodes := by omega
  have hfree := List.find?_some hfind
  rw [decide_eq_true_iff] at hfree
  refine ⟨hx, ?_⟩
  unfold inodes Superblock.table
  rw [if_pos hx]
  exact hfree

section
variable (h : Intact nmeta s)
include h

theorem ialloc (type : Int16)
    : Sat Sane (fun r => Intact nmeta r.2) (s.ialloc ROOTDEV type) := by
  unfold State.ialloc
  dsimp only
  split
  . exact sat_error.mpr (by decide)
  . next x hfind =>
    obtain ⟨hx, htype⟩ := free_of_find hfind
    apply Sat.bind ((Store.logWrite_sat s.toStore _ _).mono (fun _ he => Limit.sane he) (fun _ h => h))
    intro st hst
    have hclaim : Intact nmeta { s with toStore := st } := by
      refine (h.claim hx htype type ?_ ?_ ?_).1
      . rw [hst]
        rfl
      . rfl
      . rw [hst]
        rfl
    exact hclaim.iget x

theorem acquiresleep (i : Fin n)
    : Sat Sane (fun s' => Intact nmeta s' ∧ s' = s.setInode i { s.inode i with lock := true })
      (s.acquiresleep i) := by
  unfold State.acquiresleep
  split
  . exact sat_error.mpr (by decide)
  . refine ⟨h.setInode ?_, rfl⟩
    intro href
    exact ⟨href, rfl, rfl, fun hvalid => ⟨hvalid, rfl⟩⟩

theorem ilock (hx : (s.inode i).inum < s.sb.ninodes)
    : Sat Sane (Intact nmeta) (s.ilock i) := by
  unfold State.ilock
  split
  . exact sat_error.mpr (by decide)
  . next href =>
    apply Sat.bind (h.acquiresleep i)
    rintro s1 ⟨h1, hs1⟩
    have hself : s1.inode i = { s.inode i with lock := true } := by
      rw [hs1]
      exact Function.update_self ..
    have hx1 : (s1.inode i).inum < s1.sb.ninodes := by
      rw [hself, hs1]
      exact hx
    have hi : 0 < (s1.inode i).ref := by
      rw [hself]
      dsimp only
      omega
    unfold iload
    dsimp only
    split
    . exact h1
    split
    . exact sat_error.mpr (by decide)
    . next htype =>
      have hdin : Dinode.get (s1.disk (s1.sb.iblock (s1.inode i).inum)) (dinodeOff (s1.inode i).inum)
          = s1.inodes (s1.inode i).inum := (if_pos hx1).symm
      rw [hdin] at htype ⊢
      rw [sat_ok]
      refine h1.changeEntry hi h1.consistent (fun _ _ => rfl) (fun _ _ hp => hp) (h1.sized _) ?_ ?_
      . intro j hj
        exact Function.update_of_ne hj ..
      . have hset : (s1.setInode i { s1.inode i with din := s1.inodes (s1.inode i).inum, valid := true }).inode i
            = { s1.inode i with din := s1.inodes (s1.inode i).inum, valid := true } := Function.update_self ..
        rw [hset]
        exact fun _ => ⟨rfl, rfl, fun _ => ⟨rfl, htype⟩⟩

theorem iunlock (i : Fin n) : Sat Sane (Intact nmeta) (s.iunlock i) := by
  unfold State.iunlock
  split
  . exact sat_error.mpr (by decide)
  . apply h.setInode
    intro href
    exact ⟨href, rfl, rfl, fun hvalid => ⟨hvalid, rfl⟩⟩

theorem iupdate (hi : 0 < (s.inode i).ref) (hvalid : (s.inode i).valid = true)
    (major minor nlink : Int16)
    : Sat Sane (Intact nmeta)
      ((s.setDin i { (s.inode i).din with major := major, minor := minor, nlink := nlink }).iupdate i) := by
  rcases h.work hi hvalid with ⟨hwork, hview⟩
  generalize hdi : ({ (s.inode i).din with major := major, minor := minor, nlink := nlink } : Dinode) = di
  have htype : di.type = (s.inode i).din.type := by rw [← hdi]
  have hset := hwork.setDin htype (by rw [← hdi])
  have hself : (s.setDin i di).inode i = { s.inode i with din := di } := Function.update_self ..
  have hviewset := s.view_setDin i di
  apply (iupdate_sat hset.1).mono (fun _ he => Limit.sane he)
  intro s1 h1
  have hinodes : s1.inodes = Function.update s.inodes (s.inode i).inum di := by
    unfold inodes
    rw [h1.table, hviewset, hview]
  have hself1 : s1.inode i = { s.inode i with din := di } := by
    rw [h1.inode]
    exact hself
  have hview1 : s1.view i = s1.inodes := by
    rw [h1.view]
    exact h1.table.symm
  have hown : owner s1.disk s1.inodes = owner s.disk s.inodes := by
    rw [← hview1, ← hview]
    exact h1.own.trans hset.2
  refine h.changeEntry hi ?_ ?_ ?_ ?_ ?_ ?_
  . rw [← hview1]
    exact h1.work.consistent
  . intro y hy
    rw [hinodes, Function.update_of_ne hy]
  . intro p _ hp
    rw [hown]
    exact hp
  . intro htype1 hdev1
    have hslot : ∀ k, slot s1.disk (s1.inodes (s.inode i).inum) k = slot s.disk (s.inode i).din k := by
      intro k
      rw [← hwork.own_eq, ← owner_of_type htype1, hown]
      unfold own
      rw [hview]
    have hsize : (s1.inodes (s.inode i).inum).size = (s.inode i).din.size := by
      rw [hinodes, Function.update_self, ← hdi]
    have hdev : (s.inode i).din.type ≠ T_DEV := by
      rw [← htype]
      rw [hinodes, Function.update_self] at hdev1
      exact hdev1
    rcases h.sized_of_valid hi hvalid hdev with ⟨hmax, hbn⟩
    refine ⟨?_, ?_⟩
    . rw [hsize]
      exact hmax
    . intro bn hlt
      rw [hsize] at hlt
      rw [hslot]
      exact hbn bn hlt
  . intro j hj
    rw [h1.inode]
    exact Function.update_of_ne hj ..
  . rw [hself1, hinodes, Function.update_self]
    refine fun _ => ⟨rfl, rfl, fun _ => ⟨rfl, ?_⟩⟩
    dsimp only
    rw [htype]
    exact hwork.type

theorem readi (hi : 0 < (s.inode i).ref) (hvalid : (s.inode i).valid = true) (off n' : UInt32)
    : ∃ r dst, s.readi i off n' = .ok (r, dst, s) := by
  by_cases hdev : (s.inode i).din.type = T_DEV
  . unfold State.readi
    dsimp only
    rw [if_pos hdev]
    split
    . exact ⟨_, _, rfl⟩
    . split
      . exact ⟨_, _, rfl⟩
      . exact ⟨_, _, rfl⟩
  . rw [readi_eq (h.work hi hvalid).1 (h.sized_of_valid hi hvalid hdev) hdev]
    split
    . exact ⟨_, _, rfl⟩
    . exact ⟨_, _, rfl⟩

theorem writei (hi : 0 < (s.inode i).ref) (hvalid : (s.inode i).valid = true)
    (src : Nat → UInt8) (off n' : UInt32)
    : Sat Sane (fun r => Intact nmeta r.2) (s.writei i src off n') := by
  by_cases hdev : (s.inode i).din.type = T_DEV
  . unfold State.writei
    dsimp only
    rw [if_pos hdev]
    split
    . exact h
    . split
      . exact h
      . exact h
  . rcases h.work hi hvalid with ⟨hwork, hview⟩
    apply (writei_sat hwork (h.sized_of_valid hi hvalid hdev) hdev src off n').mono (fun _ he => Limit.sane he)
    rintro ⟨r, s1⟩ (⟨hr, _⟩ | ⟨_, _, h1⟩)
    . cases hr
      exact h
    . dsimp only at h1 ⊢
      rcases h1.self with ⟨a, z, hself⟩
      have hsync := h1.synced (h.synced i hi hvalid).1.symm
      have hinum : (s1.inode i).inum = (s.inode i).inum := by rw [hself]
      have hview1 : s1.view i = s1.inodes := by
        unfold view
        rw [hinum, ← hsync]
        exact Function.update_eq_self ..
      refine h.changeEntry hi ?_ h1.table ?_ ?_ h1.others ?_
      . rw [← hview1]
        exact h1.work.consistent
      . intro p _ hp
        rw [← hview] at hp
        have hkeep := h1.keep p hp
        rw [← hview1]
        intro hzero
        exact hp (hkeep.symm.trans hzero)
      . intro _ _
        change Sized s1.disk (s1.sb.table s1.disk (s.inode i).inum)
        rw [hsync]
        exact h1.sized
      . intro _
        refine ⟨?_, hinum, fun _ => ⟨hsync.symm, h1.work.type⟩⟩
        rw [hself]

theorem emptied (hi : 0 < (s.inode i).ref)
    {s1 : State n} {di : Dinode} (h1 : Emptied nmeta s s1 i di) (haddr : ∀ k, di.addr k = 0) (hsize : di.size = 0)
    (hsb : s'.sb = s1.sb) (hdisk : s'.disk = s1.disk) (hothers : ∀ j, j ≠ i → s'.inode j = s1.inode j)
    (hself : 0 < (s'.inode i).ref → (s'.inode i).dev = (s.inode i).dev ∧ (s'.inode i).inum = (s.inode i).inum
      ∧ ((s'.inode i).valid = true → (s'.inode i).din = di ∧ di.type ≠ 0))
    : Intact nmeta s' := by
  have hinodes : s'.inodes = Function.update s.inodes (s.inode i).inum di := by
    unfold inodes
    rw [hsb, hdisk, h1.table]
  have hx : s'.inodes (s.inode i).inum = di := by
    rw [hinodes, Function.update_self]
  refine h.changeEntry hi ?_ ?_ ?_ ?_ ?_ ?_
  . have hcons := h1.consistent
    unfold inodes
    rw [hsb, hdisk]
    exact hcons
  . intro y hy
    rw [hinodes, Function.update_of_ne hy]
  . intro p hp hne
    rw [hinodes, hdisk, owner_update_of_empty haddr (fun y hy => h1.data _ (h.consistent.owner_ge hy))]
    dsimp only
    rw [if_neg hp]
    exact hne
  . intro _ _
    rw [hx]
    refine ⟨?_, ?_⟩
    . rw [hsize]
      exact Nat.zero_le _
    . intro bn hbn
      rw [hsize] at hbn
      exact absurd hbn (Nat.not_lt_zero _)
  . intro j hj
    rw [hothers j hj, h1.others j hj]
  . intro href
    rcases hself href with ⟨hdev, hinum, hcopy⟩
    refine ⟨hdev, hinum, ?_⟩
    intro hval
    rcases hcopy hval with ⟨hdin, htype⟩
    rw [hx, hdin]
    exact ⟨rfl, htype⟩

theorem itrunc (hi : 0 < (s.inode i).ref) (hvalid : (s.inode i).valid = true)
    : Sat Sane (Intact nmeta) (s.itrunc i) := by
  have hwork := (h.work hi hvalid).1
  apply (itrunc_sat hwork).mono (fun _ he => Full.sane he)
  intro s1 h1
  refine h.emptied hi h1 (Dinode.addr_emptied _) rfl rfl rfl (fun _ _ => rfl) ?_
  rw [h1.self]
  exact fun _ => ⟨rfl, rfl, fun _ => ⟨rfl, hwork.type⟩⟩

theorem iput (hi : 0 < (s.inode i).ref) : Sat Sane (Intact nmeta) (s.iput i) := by
  unfold State.iput
  apply Sat.bind (h.acquiresleep i)
  rintro s1 ⟨h1, hs1⟩
  have hi1 : 0 < (s1.inode i).ref := by
    rw [hs1]
    change 0 < (Function.update s.inode i _ i).ref
    rw [Function.update_self]
    exact hi
  have hlast : ∀ s2 : State n, ((s2.releasesleep i).drop i).inode i
      = { s2.inode i with lock := false, ref := (s2.inode i).ref - 1 } := by
    intro s2
    unfold drop releasesleep State.setInode
    simp only [Function.update_self]
  have hothers : ∀ s2 : State n, ∀ j, j ≠ i → ((s2.releasesleep i).drop i).inode j = s2.inode j := by
    intro s2 j hj
    unfold drop releasesleep State.setInode
    simp only [Function.update_of_ne hj]
  unfold ifree
  split
  . next hcond =>
    apply Sat.bind ((freeInode_sat (h1.work hi1 hcond.1).1).mono (fun _ he => Full.sane he) (fun _ h => h))
    rintro s2 ⟨s3, h3, hs2⟩
    refine h1.emptied hi1 h3 (s1.inode i).din.addr_emptied rfl ?_ ?_ ?_ ?_
    . rw [hs2]
      rfl
    . rw [hs2]
      rfl
    . intro j hj
      rw [hothers s2 j hj, hs2]
      exact Function.update_of_ne hj ..
    . have hset : s2.inode i = { s3.inode i with valid := false } := by
        rw [hs2]
        exact Function.update_self ..
      rw [hlast, hset, h3.self]
      dsimp only
      intro href
      have hone := hcond.2.2
      omega
  . change Sat Sane (Intact nmeta) (.ok ((s1.releasesleep i).drop i))
    rw [sat_ok]
    refine h1.frame rfl rfl ?_
    intro j
    by_cases hj : j = i
    . rw [hj, hlast]
      exact fun _ => ⟨hi1, rfl, rfl, fun hvalid => ⟨hvalid, rfl⟩⟩
    . rw [hothers s1 j hj]
      exact fun href => ⟨href, rfl, rfl, fun hvalid => ⟨hvalid, rfl⟩⟩

end

end Intact

theorem iget_ref {j : Fin n} (h : s.iget ROOTDEV x = .ok (j, s')) : 0 < (s'.inode j).ref := by
  unfold iget at h
  dsimp only at h
  split at h
  . next k hhit =>
    have hfound := List.find?_some hhit
    rw [decide_eq_true_iff] at hfound
    cases h
    change 0 < (Function.update s.inode j _ j).ref
    rw [Function.update_self]
    dsimp only
    omega
  . split at h
    . cases h
    . cases h
      change 0 < (Function.update s.inode j _ j).ref
      rw [Function.update_self]
      exact Int.zero_lt_one

namespace Intact

section
variable (h : Intact nmeta s)
include h

theorem dirlookup (hi : 0 < (s.inode i).ref) (hvalid : (s.inode i).valid = true)
    (name : List UInt8)
    : Sat Sane (fun r => Intact nmeta r.2 ∧ (r.1 = none → r.2 = s)
        ∧ ∀ j off, r.1 = some (j, off) → 0 < (r.2.inode j).ref) (s.dirlookup i name) := by
  unfold State.dirlookup
  split
  . exact sat_error.mpr (by decide)
  refine Sat.loop_inv (fun b => b.2 = s) (by decide) ?_ rfl
  rintro ⟨off, s1⟩ hs1
  dsimp only at hs1
  rw [hs1]
  unfold dirlookupBody
  dsimp only
  split
  . rcases h.readi hi hvalid off DIRENT with ⟨r, de, hread⟩
    rw [hread]
    simp only [bind, Except.bind]
    split
    . exact sat_error.mpr (by decide)
    split
    . rfl
    split
    . have hdev := h.dev i hi
      rw [hdev]
      have hget := h.iget (Dirent.get de).inum
      cases hget' : s.iget ROOTDEV (Dirent.get de).inum with
      | error e => exact hget.of_error hget'
      | ok r =>
        rcases r with ⟨j, s2⟩
        refine ⟨hget.of_ok hget', (by simp), ?_⟩
        intro j' off' heq
        cases heq
        exact iget_ref hget'
    . rfl
  . exact ⟨h, fun _ => rfl, by simp⟩

theorem dirlink (hi : 0 < (s.inode i).ref) (hvalid : (s.inode i).valid = true)
    (name : List UInt8) (inum : Nat)
    : Sat Sane (fun r => Intact nmeta r.2) (s.dirlink i name inum) := by
  unfold State.dirlink
  apply Sat.bind (h.dirlookup hi hvalid name)
  rintro ⟨found, s1⟩ ⟨h1, hnone, hsome⟩
  dsimp only at h1 hnone hsome
  cases found with
  | some r =>
    rcases r with ⟨j, off⟩
    apply Sat.bind (h1.iput (hsome j off rfl))
    intro s2 h2
    exact h2
  | none =>
    rw [hnone rfl]
    have hloop : Sat Sane (fun r : UInt32 × State n => r.2 = s)
        (Outcome.loop .stuck (dirlinkBody i) (s.entries i) (0, s)) := by
      refine Sat.loop_inv (fun b => b.2 = s) (by decide) ?_ rfl
      rintro ⟨off, s2⟩ hs2
      dsimp only at hs2
      rw [hs2]
      unfold dirlinkBody
      dsimp only
      split
      . rcases h.readi hi hvalid off DIRENT with ⟨r, de, hread⟩
        rw [hread]
        simp only [bind, Except.bind]
        split
        . exact sat_error.mpr (by decide)
        . split
          . rfl
          . rfl
      . rfl
    apply Sat.bind hloop
    rintro ⟨off, s2⟩ hs2
    dsimp only at hs2 ⊢
    rw [hs2]
    apply Sat.bind (h.writei hi hvalid _ off DIRENT)
    rintro ⟨r, s3⟩ h3
    dsimp only at h3 ⊢
    split
    . exact sat_error.mpr (by decide)
    . exact h3

theorem beginOp : Sat Sane (Intact nmeta) s.beginOp := by
  have hstore : Sat Sane (fun st : Store => st.sb = s.sb ∧ st.disk = s.disk) s.toStore.beginOp := by
    unfold Store.beginOp
    split
    . exact sat_error.mpr (by decide)
    . exact ⟨rfl, rfl⟩
  apply Sat.bind hstore
  rintro st ⟨hsb, hdisk⟩
  apply h.frame hsb hdisk
  intro j hj
  exact ⟨hj, rfl, rfl, fun hvalid => ⟨hvalid, rfl⟩⟩

theorem endOp : Intact nmeta s.endOp := by
  have hstore : s.endOp.sb = s.sb ∧ s.endOp.disk = s.disk := by
    unfold State.endOp Store.endOp
    dsimp only
    split <;> exact ⟨rfl, rfl⟩
  apply h.frame hstore.1 hstore.2
  intro j hj
  exact ⟨hj, rfl, rfl, fun hvalid => ⟨hvalid, rfl⟩⟩

end

end Intact
end State
end Xv6.Fs
