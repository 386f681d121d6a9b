import Xv6.Fs.Lemmas.Intact

namespace Xv6.Fs
namespace State

open Outcome

variable {n : Nat} {s s' : State n} {i : Fin n} {nmeta x : Nat}

def inumAt (s : State n) (x off : Nat) : Nat :=
  (Chunks.byteAt (content s.disk s.inodes x) off).toNat
    + 256 * (Chunks.byteAt (content s.disk s.inodes x) (off + 1)).toNat

structure Proper (nmeta : Nat) (s : State n) : Prop extends Intact nmeta s where
  root : ROOTINO < s.sb.ninodes
  inum : ∀ j, 0 < (s.inode j).ref → (s.inode j).inum < s.sb.ninodes
  named : ∀ x m, (s.inodes x).type = T_DIR → DIRENTSIZE * m + DIRENTSIZE ≤ (s.inodes x).size.toNat
    → s.inumAt x (DIRENTSIZE * m) < s.sb.ninodes

theorem setInode_self (s : State n) (i : Fin n) (ip : Inode) : (s.setInode i ip).inode i = ip :=
  Function.update_self ..

structure Kept (s s' : State n) (j : Fin n) : Prop where
  ref : 0 < (s'.inode j).ref
  inum : (s'.inode j).inum = (s.inode j).inum
  lock : (s'.inode j).lock = (s.inode j).lock
  valid : (s.inode j).valid = true → (s'.inode j).valid = true
    ∧ (s'.inode j).din.type = (s.inode j).din.type

theorem Kept.of_eq {j : Fin n} (h : s'.inode j = s.inode j) (href : 0 < (s.inode j).ref) : Kept s s' j := by
  refine ⟨?_, ?_, ?_, ?_⟩
  . rw [h]
    exact href
  . rw [h]
  . rw [h]
  . intro hvalid
    rw [h]
    exact ⟨hvalid, rfl⟩

namespace Proper

section
variable (h : Proper nmeta s)
include h

theorem change (hintact : Intact nmeta s') (hsb : s'.sb = s.sb)
    (htable : ∀ y, y ≠ x → s'.inodes y = s.inodes y)
    (hcontent : ∀ y, y ≠ x → content s'.disk s'.inodes y = content s.disk s.inodes y)
    (hx : ∀ m, (s'.inodes x).type = T_DIR → DIRENTSIZE * m + DIRENTSIZE ≤ (s'.inodes x).size.toNat
      → s'.inumAt x (DIRENTSIZE * m) < s.sb.ninodes)
    (hinum : ∀ j, 0 < (s'.inode j).ref → (s'.inode j).inum < s.sb.ninodes)
    : Proper nmeta s' := by
  refine ⟨hintact, ?_, ?_, ?_⟩
  . rw [hsb]
    exact h.root
  . rw [hsb]
    exact hinum
  . intro y m htype hsize
    rw [hsb]
    by_cases hy : y = x
    . rw [hy] at htype hsize ⊢
      exact hx m htype hsize
    unfold inumAt
    rw [hcontent y hy]
    rw [htable y hy] at htype hsize
    exact h.named y m htype hsize

theorem frame (hintact : Intact nmeta s') (hsb : s'.sb = s.sb) (hdisk : s'.disk = s.disk)
    (hinum : ∀ j, 0 < (s'.inode j).ref → (s'.inode j).inum < s.sb.ninodes)
    : Proper nmeta s' := by
  have hinodes : s'.inodes = s.inodes := by
    unfold inodes
    rw [hsb, hdisk]
  refine h.change (x := 0) hintact hsb ?_ ?_ ?_ hinum
  . intro y _
    rw [hinodes]
  . intro y _
    rw [hinodes, hdisk]
  . intro m htype hsize
    unfold inumAt
    rw [hinodes] at htype hsize ⊢
    rw [hdisk]
    exact h.named 0 m htype hsize

theorem setInode {ip : Inode}
    (hentry : 0 < ip.ref → 0 < (s.inode i).ref ∧ ip.dev = (s.inode i).dev ∧ ip.inum = (s.inode i).inum
      ∧ (ip.valid = true → (s.inode i).valid = true ∧ ip.din = (s.inode i).din))
    : Proper nmeta (s.setInode i ip) := by
  refine h.frame (h.toIntact.setInode hentry) rfl rfl ?_
  intro j
  change 0 < (Function.update s.inode i ip j).ref → (Function.update s.inode i ip j).inum < _
  by_cases hj : j = i
  . rw [hj, Function.update_self]
    intro href
    rcases hentry href with ⟨href0, _, hinum, _⟩
    rw [hinum]
    exact h.inum i href0
  . rw [Function.update_of_ne hj]
    exact h.inum j

theorem iget (hx : x < s.sb.ninodes)
    : Sat (fun _ => True) (fun r => Proper nmeta r.2 ∧ 0 < (r.2.inode r.1).ref
        ∧ ∀ j, 0 < (s.inode j).ref → Kept s r.2 j) (s.iget ROOTDEV x) := by
  cases hget : s.iget ROOTDEV x with
  | error e => trivial
  | ok r =>
    rcases r with ⟨k, s1⟩
    have hintact := (h.toIntact.iget x).of_ok hget
    have href := iget_ref hget
    rw [sat_ok]
    refine ⟨?_, href, ?_⟩
    . unfold State.iget at hget
      dsimp only at hget
      split at hget
      . cases hget
        refine h.frame hintact rfl rfl ?_
        intro j
        change 0 < (Function.update s.inode k _ j).ref → (Function.update s.inode k _ j).inum < _
        next hhit =>
        have hfound := List.find?_some hhit
        rw [decide_eq_true_iff] at hfound
        by_cases hj : j = k
        . rw [hj, Function.update_self]
          exact fun _ => h.inum k hfound.1
        . rw [Function.update_of_ne hj]
          exact h.inum j
      . split at hget
        . cases hget
        . cases hget
          refine h.frame hintact rfl rfl ?_
          intro j
          change 0 < (Function.update s.inode k _ j).ref → (Function.update s.inode k _ j).inum < _
          by_cases hj : j = k
          . rw [hj, Function.update_self]
            exact fun _ => hx
          . rw [Function.update_of_ne hj]
            exact h.inum j
    . intro j hj
      unfold State.iget at hget
      dsimp only at hget
      split at hget
      . cases hget
        by_cases hjk : j = k
        . have hself : (s.setInode k { s.inode k with ref := (s.inode k).ref + 1 }).inode k
              = { s.inode k with ref := (s.inode k).ref + 1 } := Function.update_self ..
          rw [hjk] at hj ⊢
          refine ⟨href, ?_, ?_, ?_⟩
          . rw [hself]
          . rw [hself]
          . intro hvalid
            rw [hself]
            exact ⟨hvalid, rfl⟩
        . exact Kept.of_eq (Function.update_of_ne hjk ..) hj
      . split at hget
        . cases hget
        . next hempty =>
          cases hget
          have hfound := List.find?_some hempty
          rw [decide_eq_true_iff] at hfound
          refine Kept.of_eq (Function.update_of_ne ?_ ..) hj
          intro hjk
          rw [hjk, hfound] at hj
          exact absurd hj (Int.lt_irrefl 0)

theorem idup (hi : 0 < (s.inode i).ref)
    : Proper nmeta (s.idup i) ∧ 0 < ((s.idup i).inode i).ref := by
  constructor
  . apply h.setInode
    intro _
    exact ⟨hi, rfl, rfl, fun hvalid => ⟨hvalid, rfl⟩⟩
  . change 0 < (Function.update s.inode i _ i).ref
    rw [Function.update_self]
    dsimp only
    omega

theorem ilock
    : Sat (fun _ => True) (fun s' => Proper nmeta s' ∧ 0 < (s'.inode i).ref ∧ (s'.inode i).valid = true
        ∧ (s'.inode i).lock = true ∧ (s.inode i).lock = false ∧ (s'.inode i).inum = (s.inode i).inum
        ∧ ∀ j, j ≠ i → s'.inode j = s.inode j) (s.ilock i) := by
  cases hlock : s.ilock i with
  | error e => trivial
  | ok s' =>
    rw [sat_ok]
    have href : 0 < (s.inode i).ref := by
      by_contra hnot
      unfold State.ilock at hlock
      rw [if_pos (by omega)] at hlock
      cases hlock
    have hintact := (h.toIntact.ilock (h.inum i href)).of_ok hlock
    unfold State.ilock State.acquiresleep at hlock
    rw [if_neg (by omega)] at hlock
    split at hlock
    . cases hlock
    . next hfree =>
      have hfree : (s.inode i).lock = false := Bool.eq_false_iff.mpr hfree
      have hself : (s.setInode i { s.inode i with lock := true }).inode i = { s.inode i with lock := true } :=
        Function.update_self ..
      have hother : ∀ j, j ≠ i → (s.setInode i { s.inode i with lock := true }).inode j = s.inode j := by
        intro j hj
        exact Function.update_of_ne hj ..
      change State.iload _ i = _ at hlock
      unfold iload at hlock
      dsimp only at hlock
      have hentries : (s'.inode i).ref = (s.inode i).ref ∧ (s'.inode i).valid = true ∧ (s'.inode i).lock = true
          ∧ (s'.inode i).inum = (s.inode i).inum ∧ (∀ j, j ≠ i → s'.inode j = s.inode j) ∧ s'.sb = s.sb
          ∧ s'.disk = s.disk := by
        split at hlock
        . next hvalid =>
          cases hlock
          rw [hself] at hvalid ⊢
          exact ⟨rfl, hvalid, rfl, rfl, hother, rfl, rfl⟩
        . split at hlock
          . cases hlock
          . cases hlock
            refine ⟨?_, ?_, ?_, ?_, ?_, rfl, rfl⟩
            . rw [setInode_self, hself]
            . rw [setInode_self]
            . rw [setInode_self, hself]
            . rw [setInode_self, hself]
            . intro j hj
              rw [← hother j hj]
              exact Function.update_of_ne hj ..
      rcases hentries with ⟨href', hvalid', hlock', hinum', hothers, hsb, hdisk⟩
      refine ⟨h.frame hintact hsb hdisk ?_, ?_, hvalid', hlock', hfree, hinum', hothers⟩
      . intro j hj
        by_cases hji : j = i
        . rw [hji, hinum']
          exact h.inum i href
        . rw [hothers j hji] at hj ⊢
          exact h.inum j hj
      . rw [href']
        exact href

theorem iunlock
    : Sat (fun _ => True) (fun s' => Proper nmeta s' ∧ 0 < (s'.inode i).ref ∧ (s'.inode i).inum = (s.inode i).inum
        ∧ (s'.inode i).valid = (s.inode i).valid ∧ (s'.inode i).din = (s.inode i).din
        ∧ ∀ j, j ≠ i → s'.inode j = s.inode j) (s.iunlock i) := by
  unfold State.iunlock
  split
  . trivial
  . next hcond =>
    have hself : (s.releasesleep i).inode i = { s.inode i with lock := false } := Function.update_self ..
    refine ⟨?_, ?_, ?_, ?_, ?_, ?_⟩
    . apply h.setInode
      intro href
      exact ⟨href, rfl, rfl, fun hvalid => ⟨hvalid, rfl⟩⟩
    . rw [hself]
      rw [not_or] at hcond
      dsimp only
      omega
    . rw [hself]
    . rw [hself]
    . rw [hself]
    . intro j hj
      exact Function.update_of_ne hj ..

end

end Proper

theorem Emptied.content_eq {di : Dinode} (h : Emptied nmeta s s' i di) (haddr : ∀ k, di.addr k = 0)
    (hcons : Consistent s.sb nmeta s.disk s.inodes) {y : Nat} (hy : y ≠ (s.inode i).inum)
    : content s'.disk s'.inodes y = content s.disk s.inodes y := by
  have howner : owner s'.disk s'.inodes
      = fun p => if p.1 = (s.inode i).inum then 0 else owner s.disk s.inodes p := by
    unfold inodes
    rw [h.table]
    exact owner_update_of_empty haddr (fun z hz => h.data _ (hcons.owner_ge hz))
  funext bn
  have hown : owner s'.disk s'.inodes (y, fileSlot bn) = owner s.disk s.inodes (y, fileSlot bn) := by
    rw [howner]
    exact if_neg hy
  unfold content
  rw [hown]
  split
  . rfl
  . next hne => exact h.data _ (hcons.owner_ge hne)

namespace Proper

theorem iput (h : Proper nmeta s) (hi : 0 < (s.inode i).ref)
    : Sat (fun _ => True) (fun s' => Proper nmeta s' ∧ ∀ j, j ≠ i → s'.inode j = s.inode j) (s.iput i) := by
  cases hput : s.iput i with
  | error e => trivial
  | ok s' =>
    rw [sat_ok]
    have hintact := (h.toIntact.iput hi).of_ok hput
    unfold State.iput State.acquiresleep at hput
    split at hput
    . cases hput
    change (do let s2 ← (s.setInode i { s.inode i with lock := true }).ifree i; return (s2.releasesleep i).drop i)
      = _ at hput
    rw [bind_eq_ok] at hput
    rcases hput with ⟨s2, hfree, hs'⟩
    cases hs'
    generalize hs1 : s.setInode i { s.inode i with lock := true } = s1 at hfree
    have h1 : Proper nmeta s1 := by
      rw [← hs1]
      apply h.setInode
      intro href
      exact ⟨href, rfl, rfl, fun hvalid => ⟨hvalid, rfl⟩⟩
    have hself1 : s1.inode i = { s.inode i with lock := true } := by
      rw [← hs1]
      exact Function.update_self ..
    have hother1 : ∀ j, j ≠ i → s1.inode j = s.inode j := by
      intro j hj
      rw [← hs1]
      exact Function.update_of_ne hj ..
    have hi1 : 0 < (s1.inode i).ref := by
      rw [hself1]
      exact hi
    have hlast : (((s2.releasesleep i).drop i).inode i).inum = (s2.inode i).inum := by
      unfold drop releasesleep State.setInode
      simp only [Function.update_self]
    have hothers : ∀ j, j ≠ i → ((s2.releasesleep i).drop i).inode j = s2.inode j := by
      intro j hj
      unfold drop releasesleep State.setInode
      simp only [Function.update_of_ne hj]
    unfold ifree at hfree
    split at hfree
    . next hcond =>
      have hfreed := (freeInode_sat (h1.toIntact.work hi1 hcond.1).1).of_ok hfree
      rcases hfreed with ⟨s3, h3, hs2⟩
      have hself2 : (s2.inode i).inum = (s1.inode i).inum := by
        rw [hs2]
        change (Function.update s3.inode i _ i).inum = _
        rw [Function.update_self, h3.self]
      have hother2 : ∀ j, j ≠ i → s2.inode j = s1.inode j := by
        intro j hj
        rw [hs2, ← h3.others j hj]
        exact Function.update_of_ne hj ..
      have hinodes : State.inodes ((s2.releasesleep i).drop i) = s3.inodes := by
        rw [hs2]
        rfl
      have hdisk : ((s2.releasesleep i).drop i).disk = s3.disk := by
        rw [hs2]
        rfl
      refine ⟨?_, ?_⟩
      . refine h1.change (x := (s1.inode i).inum) hintact ?_ ?_ ?_ ?_ ?_
        . rw [hs2]
          exact h3.sb
        . intro y hy
          rw [hinodes]
          unfold inodes
          rw [h3.table, Function.update_of_ne hy]
        . intro y hy
          rw [hinodes, hdisk]
          exact h3.content_eq (s1.inode i).din.addr_emptied h1.consistent hy
        . intro m htype
          rw [hinodes] at htype
          unfold inodes at htype
          rw [h3.table, Function.update_self] at htype
          exact absurd htype (show (0 : Int16) ≠ T_DIR by decide)
        . intro j hj
          by_cases hji : j = i
          . rw [hji, hlast, hself2]
            exact h1.inum i hi1
          . rw [hothers j hji, hother2 j hji] at hj ⊢
            exact h1.inum j hj
      . intro j hj
        rw [hothers j hj, hother2 j hj, hother1 j hj]
    . cases hfree
      refine ⟨h1.frame hintact rfl rfl ?_, ?_⟩
      . intro j hj
        by_cases hji : j = i
        . rw [hji, hlast]
          exact h1.inum i hi1
        . rw [hothers j hji] at hj ⊢
          exact h1.inum j hj
      . intro j hj
        rw [hothers j hj, hother1 j hj]

theorem iunlockput (h : Proper nmeta s)
    : Sat (fun _ => True) (fun s' => Proper nmeta s' ∧ ∀ j, j ≠ i → s'.inode j = s.inode j) (s.iunlockput i) := by
  apply Sat.bind h.iunlock
  rintro s1 ⟨h1, hi1, _, _, _, hothers1⟩
  apply (h1.iput hi1).mono (fun _ he => he)
  rintro s2 ⟨h2, hothers2⟩
  refine ⟨h2, ?_⟩
  intro j hj
  rw [hothers2 j hj, hothers1 j hj]

end Proper

theorem inum_get_data {off : Nat} (h : off + DIRENTSIZE ≤ (s.inode i).din.size.toNat)
    : (Dirent.get (((s.data i).drop off).take DIRENTSIZE)).inum
      = (Chunks.byteAt (s.chunks i) off).toNat + 256 * (Chunks.byteAt (s.chunks i) (off + 1)).toNat := by
  have hDS : DIRENTSIZE = 16 := rfl
  have hbyte : ∀ k, k < DIRENTSIZE → (((s.data i).drop off).take DIRENTSIZE).getD k 0
      = Chunks.byteAt (s.chunks i) (off + k) := by
    intro k hk
    have hlen := s.length_data i
    rw [List.getD_eq_getElem?_getD, List.getElem?_take_of_lt hk, List.getElem?_drop]
    unfold data Chunks.contents
    rw [List.getElem?_map, List.getElem?_range (by omega)]
    rfl
  unfold Dirent.get
  dsimp only
  rw [hbyte 0 (by decide), hbyte 1 (by decide)]
  rfl

theorem Proper.readi_dirent (h : Proper nmeta s) (hi : 0 < (s.inode i).ref) (hvalid : (s.inode i).valid = true)
    (htype : (s.inode i).din.type = T_DIR) {off : UInt32} (hoff : off.toNat % DIRENTSIZE = 0)
    {r : Int} {de : List UInt8} (hread : s.readi i off DIRENT = .ok (r, de, s)) (hr : r = DIRENTSIZE)
    : (Dirent.get de).inum < s.sb.ninodes := by
  have hDS : DIRENTSIZE = 16 := rfl
  have hdev : (s.inode i).din.type ≠ T_DEV := by
    rw [htype]
    decide
  rw [readi_eq (h.toIntact.work hi hvalid).1 (h.toIntact.sized_of_valid hi hvalid hdev) hdev] at hread
  split at hread
  . cases hread
    cases hr
  have hDIRENT : DIRENT.toNat = 16 := rfl
  rw [hDIRENT] at hread
  have hpair := Except.ok.inj hread
  have hfst := congrArg Prod.fst hpair
  have hsnd := congrArg (fun p => p.2.1) hpair
  dsimp only at hfst hsnd
  have hmin : min 16 ((s.inode i).din.size.toNat - off.toNat) = 16 := by
    rw [hr, hDS] at hfst
    exact Int.ofNat_inj.mp hfst
  rw [hmin] at hsnd
  have hle : off.toNat + DIRENTSIZE ≤ (s.inode i).din.size.toNat := by omega
  have hdiv : DIRENTSIZE * (off.toNat / DIRENTSIZE) = off.toNat := by
    rw [Nat.mul_comm]
    exact Nat.div_mul_cancel (Nat.dvd_of_mod_eq_zero hoff)
  rw [← hsnd]
  change (Dirent.get (((s.data i).drop off.toNat).take DIRENTSIZE)).inum < _
  rw [inum_get_data hle]
  have hdin := (h.synced i hi hvalid).1
  have hchunks : s.chunks i = content s.disk s.inodes (s.inode i).inum := by
    unfold chunks
    rw [(h.toIntact.work hi hvalid).2]
  have hnamed := h.named (s.inode i).inum (off.toNat / DIRENTSIZE)
  unfold inumAt at hnamed
  rw [hdiv, ← hdin, ← hchunks] at hnamed
  exact hnamed htype hle

theorem add_dirent_mod {off : UInt32} (h : off.toNat % DIRENTSIZE = 0) : (off + DIRENT).toNat % DIRENTSIZE = 0 := by
  have hDIRENT : DIRENT.toNat = 16 := rfl
  have h : off.toNat % 16 = 0 := h
  change (off + DIRENT).toNat % 16 = 0
  rw [UInt32.toNat_add, hDIRENT]
  omega

namespace Proper

theorem dirlookup (h : Proper nmeta s) (hi : 0 < (s.inode i).ref) (hvalid : (s.inode i).valid = true)
    (name : List UInt8)
    : Sat (fun _ => True) (fun r => Proper nmeta r.2 ∧ (s.inode i).din.type = T_DIR
        ∧ (∀ j, 0 < (s.inode j).ref → Kept s r.2 j)
        ∧ (r.1 = none → r.2 = s)
        ∧ ∀ j off, r.1 = some (j, off) → 0 < (r.2.inode j).ref ∧ off.toNat % DIRENTSIZE = 0)
      (s.dirlookup i name) := by
  unfold State.dirlookup
  split
  . trivial
  . next htype =>
    have htype : (s.inode i).din.type = T_DIR := Decidable.not_not.mp htype
    refine Sat.loop_inv (fun b => b.2 = s ∧ b.1.toNat % DIRENTSIZE = 0) trivial ?_ ⟨rfl, rfl⟩
    rintro ⟨off, s1⟩ ⟨hs1, hoff⟩
    dsimp only at hs1 hoff
    rw [hs1]
    unfold dirlookupBody
    dsimp only
    split
    . rcases h.toIntact.readi hi hvalid off DIRENT with ⟨r, de, hread⟩
      have hname := h.readi_dirent hi hvalid htype hoff hread
      rw [hread]
      simp only [bind, Except.bind]
      split
      . trivial
      . next hr =>
        have hlt := hname (Decidable.not_not.mp hr)
        split
        . exact ⟨rfl, add_dirent_mod hoff⟩
        split
        . rw [h.dev i hi]
          have hget := h.iget hlt
          cases hget' : s.iget ROOTDEV (Dirent.get de).inum with
          | error e => trivial
          | ok r =>
            rcases r with ⟨j, s2⟩
            rcases hget.of_ok hget' with ⟨h2, href, hkept⟩
            refine ⟨h2, htype, hkept, (by simp), ?_⟩
            intro j' off' heq
            cases heq
            exact ⟨href, hoff⟩
        . exact ⟨rfl, add_dirent_mod hoff⟩
    . exact ⟨h, htype, fun j hj => .of_eq rfl hj, fun _ => rfl, by simp⟩

end Proper

end State
end Xv6.Fs
