import Xv6.Fs.Lemmas.Block
import Xv6.Lib.Chunks
import Xv6.Lib.Owners

/-!
Which blocks an inode refers to, and when the inodes, the indirect blocks and the
free map agree. `tab` is the table of inodes: the one on the disk, but for the inode that is being
changed in memory.
-/

namespace Xv6.Fs

variable {sb : Superblock} {nmeta : Nat} {d d' : Disk} {tab : Nat → Dinode}

def slot (d : Disk) (di : Dinode) (k : Nat) : Nat :=
  if k ≤ NDIRECT then
    di.addr k
  else if k ≤ NDIRECT + NINDIRECT ∧ di.addr NDIRECT ≠ 0 then
    (d (di.addr NDIRECT)).getLE (4 * (k - (NDIRECT + 1))) 4
  else
    0

def fileSlot (bn : Nat) : Nat :=
  if bn < NDIRECT then bn else bn + 1

def owner (d : Disk) (tab : Nat → Dinode) (x : Nat × Nat) : Nat :=
  if (tab x.1).type = 0 then 0 else slot d (tab x.1) x.2

def content (d : Disk) (tab : Nat → Dinode) (x bn : Nat) : Block :=
  if owner d tab (x, fileSlot bn) = 0 then .zero else d (owner d tab (x, fileSlot bn))

theorem fileSlot_ne (bn : Nat) : fileSlot bn ≠ NDIRECT := by
  unfold fileSlot
  split <;> omega

theorem fileSlot_inj {a b : Nat} (h : fileSlot a = fileSlot b) : a = b := by
  unfold fileSlot at h
  split at h <;> split at h <;> omega

theorem slot_of_le {di : Dinode} {k : Nat} (h : k ≤ NDIRECT) : slot d di k = di.addr k :=
  if_pos h

theorem slot_of_gt {di : Dinode} {k : Nat} (h : ¬k ≤ NDIRECT) (hk : k ≤ NDIRECT + NINDIRECT)
    (hind : di.addr NDIRECT ≠ 0)
    : slot d di k = (d (di.addr NDIRECT)).getLE (4 * (k - (NDIRECT + 1))) 4 := by
  unfold slot
  rw [if_neg h, if_pos ⟨hk, hind⟩]

theorem slot_of_no_indirect {di : Dinode} {k : Nat} (h : ¬k ≤ NDIRECT) (hind : di.addr NDIRECT = 0)
    : slot d di k = 0 := by
  unfold slot
  rw [if_neg h, if_neg]
  rintro ⟨_, hne⟩
  exact hne hind

theorem slot_congr {di : Dinode} {k : Nat} (h : di.addr NDIRECT ≠ 0 → d' (di.addr NDIRECT) = d (di.addr NDIRECT))
    : slot d' di k = slot d di k := by
  unfold slot
  split
  . rfl
  . split
    . next hcond => rw [h hcond.2]
    . rfl

theorem owner_of_type {x k : Nat} (h : (tab x).type ≠ 0) : owner d tab (x, k) = slot d (tab x) k :=
  if_neg h

theorem owner_congr (hsame : ∀ y, owner d tab (y, NDIRECT) ≠ 0
      → d' (owner d tab (y, NDIRECT)) = d (owner d tab (y, NDIRECT)))
    : owner d' tab = owner d tab := by
  funext x
  unfold owner
  split
  . rfl
  . next htype =>
    apply slot_congr
    intro hind
    have hown : owner d tab (x.1, NDIRECT) = (tab x.1).addr NDIRECT := by
      rw [owner_of_type htype, slot_of_le (Nat.le_refl _)]
    have := hsame x.1
    rw [hown] at this
    exact this hind

structure Marked (sb : Superblock) (nmeta : Nat) (d : Disk) (f : Nat × Nat → Nat) : Prop where
  geo : sb.Geometry nmeta
  pos : 0 < nmeta
  used : ∀ b, b < nmeta → b < sb.size → sb.bit d b = true
  owners : Owners f (sb.bit d) nmeta sb.size

structure Consistent (sb : Superblock) (nmeta : Nat) (d : Disk) (tab : Nat → Dinode) : Prop extends
    Marked sb nmeta d (owner d tab) where
  unallocated : ∀ x, sb.ninodes ≤ x → (tab x).type = 0

namespace Consistent

variable (h : Consistent sb nmeta d tab)

include h

theorem owner_ge {x : Nat × Nat} (hx : owner d tab x ≠ 0) : nmeta ≤ owner d tab x :=
  (h.owners.range x hx).1

theorem ne_owner {x y : Nat × Nat} (hx : owner d tab x ≠ 0) (hxy : y ≠ x) : owner d tab y ≠ owner d tab x := by
  intro heq
  exact hxy (h.owners.inj x y hx heq.symm).symm

theorem writeMeta (hmeta : ∀ c, nmeta ≤ c → d' c = d c) (hbit : ∀ b, b < sb.size → sb.bit d' b = sb.bit d b)
    : Consistent sb nmeta d' tab ∧ owner d' tab = owner d tab := by
  have howner : owner d' tab = owner d tab := by
    apply owner_congr
    intro y hy
    exact hmeta _ (h.owner_ge hy)
  refine ⟨⟨⟨h.geo, h.pos, ?_, ?_⟩, h.unallocated⟩, howner⟩
  . intro b hb hsize
    rw [hbit b hsize]
    exact h.used b hb hsize
  . rw [howner]
    exact h.owners.congr hbit

theorem writeData {x k : Nat} (hx : owner d tab (x, k) ≠ 0) (hk : k ≠ NDIRECT) (data : Block)
    : Consistent sb nmeta (Function.update d (owner d tab (x, k)) data) tab
      ∧ owner (Function.update d (owner d tab (x, k)) data) tab = owner d tab
      ∧ sb.table (Function.update d (owner d tab (x, k)) data) = sb.table d := by
  have hge := h.owner_ge hx
  have howner : owner (Function.update d (owner d tab (x, k)) data) tab = owner d tab := by
    apply owner_congr
    intro y _
    apply Function.update_of_ne
    apply h.ne_owner hx
    intro heq
    cases heq
    exact hk rfl
  have hbit : ∀ b, b < sb.size → sb.bit (Function.update d (owner d tab (x, k)) data) b = sb.bit d b := by
    intro b hb
    apply Superblock.bit_update_of_ne
    have hlt := h.geo.bblock_lt b hb
    omega
  refine ⟨⟨⟨h.geo, h.pos, ?_, ?_⟩, h.unallocated⟩, howner, ?_⟩
  . intro b hb hsize
    rw [hbit b hsize]
    exact h.used b hb hsize
  . rw [howner]
    exact h.owners.congr hbit
  . apply Superblock.table_update_of_ne
    intro y hy
    have hlt := h.geo.iblock_lt y hy
    omega

end Consistent

structure Alloc (sb : Superblock) (nmeta : Nat) (d : Disk) (b : Nat) (d' : Disk) : Prop where
  ge : nmeta ≤ b
  lt : b < sb.size
  free : sb.bit d b = false
  bit : ∀ c, c < sb.size → sb.bit d' c = Function.update (sb.bit d) b true c
  zero : d' b = .zero
  same : ∀ c, nmeta ≤ c → c ≠ b → d' c = d c
  table : sb.table d' = sb.table d

namespace Alloc

variable {b : Nat} (ha : Alloc sb nmeta d b d') (h : Consistent sb nmeta d tab)

include ha h

theorem ne_owner {x : Nat × Nat} (hx : owner d tab x ≠ 0) : owner d tab x ≠ b :=
  h.owners.ne_of_free ha.free hx

theorem owner_eq : owner d' tab = owner d tab := by
  apply owner_congr
  intro y hy
  exact ha.same _ (h.owner_ge hy) (ha.ne_owner h hy)

theorem used_of_owners {tab' : Nat → Dinode} {d'' : Disk} {x : Nat × Nat}
    (hbit : ∀ c, c < sb.size → sb.bit d'' c = sb.bit d' c)
    (howner : owner d'' tab' = Function.update (owner d tab) x b) (hx : owner d tab x = 0)
    (htype : ∀ y, sb.ninodes ≤ y → (tab' y).type = 0)
    : Consistent sb nmeta d'' tab' := by
  have hbits : ∀ c, c < sb.size → sb.bit d'' c = Function.update (sb.bit d) b true c := by
    intro c hc
    rw [hbit c hc, ha.bit c hc]
  refine ⟨⟨h.geo, h.pos, ?_, ?_⟩, htype⟩
  . intro c hc hsize
    rw [hbits c hsize]
    by_cases hcb : c = b
    . rw [hcb, Function.update_self]
    . rw [Function.update_of_ne hcb]
      exact h.used c hc hsize
  . rw [howner]
    apply (h.owners.assign hx ha.free h.pos ha.ge ha.lt).congr
    exact hbits

theorem setAddr {x k : Nat} (hk : k ≤ NDIRECT) (htype : (tab x).type ≠ 0) (hzero : (tab x).addr k = 0)
    (hsize : sb.size < 2 ^ 32)
    : Consistent sb nmeta d' (Function.update tab x ((tab x).setAddr k b))
      ∧ owner d' (Function.update tab x ((tab x).setAddr k b)) = Function.update (owner d tab) (x, k) b := by
  have hb := Nat.lt_trans ha.lt hsize
  have hown0 : owner d tab (x, k) = 0 := by
    rw [owner_of_type htype, slot_of_le hk]
    exact hzero
  have hother : ∀ y, y ≠ x → ∀ j,
      owner d' (Function.update tab x ((tab x).setAddr k b)) (y, j) = owner d tab (y, j) := by
    intro y hy j
    have heq : owner d' (Function.update tab x ((tab x).setAddr k b)) (y, j) = owner d' tab (y, j) := by
      unfold owner
      dsimp only
      rw [Function.update_of_ne hy]
    rw [heq, ha.owner_eq h]
  have hself : ∀ j, owner d' (Function.update tab x ((tab x).setAddr k b)) (x, j)
      = slot d' ((tab x).setAddr k b) j := by
    intro j
    unfold owner
    dsimp only
    rw [Function.update_self]
    exact if_neg htype
  have howner : owner d' (Function.update tab x ((tab x).setAddr k b))
      = Function.update (owner d tab) (x, k) b := by
    funext p
    rcases p with ⟨y, j⟩
    by_cases hy : y = x
    . rw [hy, hself]
      by_cases hj : j = k
      . rw [hj, Function.update_self, slot_of_le hk, Dinode.addr_setAddr_self _ hk hb]
      have hne : (x, j) ≠ (x, k) := by
        intro heq
        cases heq
        exact hj rfl
      rw [Function.update_of_ne hne, ← ha.owner_eq h, owner_of_type htype]
      by_cases hjd : j ≤ NDIRECT
      . rw [slot_of_le hjd, slot_of_le hjd, Dinode.addr_setAddr_of_ne _ hj]
      by_cases hkd : k = NDIRECT
      . -- a new indirect block lists nothing
        rw [hkd] at hzero ⊢
        rw [slot_of_no_indirect hjd hzero]
        unfold slot
        rw [if_neg hjd]
        split
        . rw [Dinode.addr_setAddr_self _ (Nat.le_refl _) hb, ha.zero]
          apply Bytes.getLE_zero
        . rfl
      . unfold slot
        rw [if_neg hjd, if_neg hjd, Dinode.addr_setAddr_of_ne _ (Ne.symm hkd)]
    . rw [hother y hy, Function.update_of_ne]
      intro heq
      cases heq
      exact hy rfl
  refine ⟨ha.used_of_owners h (fun _ _ => rfl) howner hown0 ?_, howner⟩
  intro y hy
  by_cases hyx : y = x
  . rw [hyx] at hy
    exact absurd (h.unallocated x hy) htype
  . rw [Function.update_of_ne hyx]
    exact h.unallocated y hy

theorem content_eq {tab' : Nat → Dinode} {d'' : Disk} {x : Nat × Nat} (hx : owner d tab x = 0)
    (howner : owner d'' tab' = Function.update (owner d tab) x b) (hzero : d'' b = .zero)
    (hsame : ∀ y bn, owner d tab (y, fileSlot bn) ≠ 0
      → d'' (owner d tab (y, fileSlot bn)) = d (owner d tab (y, fileSlot bn)))
    : content d'' tab' = content d tab := by
  have hb : b ≠ 0 := by
    have hge := ha.ge
    have hpos := h.pos
    omega
  funext y bn
  unfold content
  rw [howner]
  by_cases hy : (y, fileSlot bn) = x
  . rw [hy, Function.update_self, if_neg hb, hzero, hx, if_pos rfl]
  rw [Function.update_of_ne hy]
  by_cases hown : owner d tab (y, fileSlot bn) = 0
  . rw [if_pos hown, if_pos hown]
  . rw [if_neg hown, if_neg hown, hsame y bn hown]

theorem content_setAddr {x k : Nat} (hk : k ≤ NDIRECT) (htype : (tab x).type ≠ 0)
    (hzero : (tab x).addr k = 0) (hsize : sb.size < 2 ^ 32)
    : content d' (Function.update tab x ((tab x).setAddr k b)) = content d tab := by
  refine ha.content_eq h ?_ (ha.setAddr h hk htype hzero hsize).2 ha.zero ?_
  . rw [owner_of_type htype, slot_of_le hk]
    exact hzero
  . intro y bn hy
    exact ha.same _ (h.owner_ge hy) (ha.ne_owner h hy)

theorem setWord {x j : Nat} (htype : (tab x).type ≠ 0) (hj : j < NINDIRECT)
    (hind : (tab x).addr NDIRECT ≠ 0) (hzero : owner d tab (x, NDIRECT + 1 + j) = 0)
    (hsize : sb.size < 2 ^ 32)
    : let ind := (tab x).addr NDIRECT
      let d'' := Function.update d' ind ((d ind).setLE (4 * j) 4 b)
      Consistent sb nmeta d'' tab
        ∧ owner d'' tab = Function.update (owner d tab) (x, NDIRECT + 1 + j) b
        ∧ content d'' tab = content d tab ∧ sb.table d'' = sb.table d := by
  intro ind d''
  have hb : b < 256 ^ 4 := Nat.lt_trans ha.lt hsize
  have hown : owner d tab (x, NDIRECT) = ind := by
    rw [owner_of_type htype, slot_of_le (Nat.le_refl _)]
  have hne : owner d tab (x, NDIRECT) ≠ 0 := by
    rw [hown]
    exact hind
  have hge : nmeta ≤ ind := by
    rw [← hown]
    exact h.owner_ge hne
  have hbind : b ≠ ind := by
    rw [← hown]
    exact (ha.ne_owner h hne).symm
  have hother : ∀ p, owner d tab p ≠ 0 → p ≠ (x, NDIRECT) → d'' (owner d tab p) = d (owner d tab p) := by
    intro p hp hpx
    have hpind : owner d tab p ≠ ind := by
      rw [← hown]
      exact h.ne_owner hne hpx
    change Function.update d' ind _ _ = _
    rw [Function.update_of_ne hpind]
    exact ha.same _ (h.owner_ge hp) (ha.ne_owner h hp)
  have hself : d'' ind = (d ind).setLE (4 * j) 4 b := Function.update_self ..
  have hND : NDIRECT = 12 := rfl
  have hNI : NINDIRECT = 128 := rfl
  have hBS : BSIZE = 512 := rfl
  have howner : owner d'' tab = Function.update (owner d tab) (x, NDIRECT + 1 + j) b := by
    funext p
    rcases p with ⟨y, m⟩
    by_cases hy : y = x
    . rw [hy, owner_of_type htype]
      by_cases hm : m ≤ NDIRECT
      . rw [slot_of_le hm, Function.update_of_ne, owner_of_type htype, slot_of_le hm]
        intro heq
        cases heq
        omega
      . by_cases hlast : m ≤ NDIRECT + NINDIRECT
        . have hslot : slot d'' (tab x) m = _ := slot_of_gt hm hlast hind
          have hslot0 : slot d (tab x) m = _ := slot_of_gt hm hlast hind
          rw [hslot]
          change (d'' ind).getLE _ 4 = _
          rw [hself]
          by_cases hmj : m = NDIRECT + 1 + j
          . have hidx : 4 * (m - (NDIRECT + 1)) = 4 * j := by omega
            rw [hidx, hmj, Function.update_self, Bytes.getLE_setLE _ _ (by omega), Nat.mod_eq_of_lt hb]
          rw [Bytes.getLE_setLE_of_disjoint _ _ (by omega), Function.update_of_ne, owner_of_type htype,
            hslot0]
          intro heq
          cases heq
          exact hmj rfl
        . have hzero'' : slot d'' (tab x) m = 0 := by
            unfold slot
            rw [if_neg hm, if_neg (fun hcond => hlast hcond.1)]
          have hzero : slot d (tab x) m = 0 := by
            unfold slot
            rw [if_neg hm, if_neg (fun hcond => hlast hcond.1)]
          rw [hzero'', Function.update_of_ne, owner_of_type htype, hzero]
          intro heq
          cases heq
          omega
    . rw [Function.update_of_ne]
      . unfold owner
        dsimp only
        split
        . rfl
        . next htypey =>
          apply slot_congr
          intro hindy
          have howny : owner d tab (y, NDIRECT) = (tab y).addr NDIRECT := by
            rw [owner_of_type htypey, slot_of_le (Nat.le_refl _)]
          rw [← howny] at hindy ⊢
          apply hother _ hindy
          intro heq
          cases heq
          exact hy rfl
      . intro heq
        cases heq
        exact hy rfl
  have hbit : ∀ c, c < sb.size → sb.bit d'' c = sb.bit d' c := by
    intro c hc
    apply Superblock.bit_update_of_ne
    have hlt := h.geo.bblock_lt c hc
    omega
  refine ⟨ha.used_of_owners h hbit howner hzero h.unallocated, howner, ?_, ?_⟩
  . refine ha.content_eq h hzero howner ?_ ?_
    . change Function.update d' ind _ b = _
      rw [Function.update_of_ne hbind]
      exact ha.zero
    . intro y bn hy
      apply hother _ hy
      intro heq
      exact fileSlot_ne bn (congrArg Prod.snd heq)
  . rw [← ha.table]
    apply Superblock.table_update_of_ne
    intro y hy
    have hlt := h.geo.iblock_lt y hy
    omega

end Alloc

namespace Consistent

variable (h : Consistent sb nmeta d tab)

include h

theorem content_writeData {x bn : Nat} (hx : owner d tab (x, fileSlot bn) ≠ 0) (data : Block)
    : content (Function.update d (owner d tab (x, fileSlot bn)) data) tab
      = Function.update (content d tab) x (Function.update (content d tab x) bn data) := by
  have howner := (h.writeData hx (fileSlot_ne bn) data).2.1
  funext y m
  unfold content
  rw [howner]
  by_cases hy : y = x
  . rw [hy, Function.update_self]
    by_cases hm : m = bn
    . rw [hm, Function.update_self, if_neg hx, Function.update_self]
    have hne : (x, fileSlot m) ≠ (x, fileSlot bn) := by
      intro heq
      exact hm (fileSlot_inj (congrArg Prod.snd heq))
    rw [Function.update_of_ne hm, Function.update_of_ne (h.ne_owner hx hne)]
  . have hne : (y, fileSlot m) ≠ (x, fileSlot bn) := by
      intro heq
      exact hy (congrArg Prod.fst heq)
    rw [Function.update_of_ne hy, Function.update_of_ne (h.ne_owner hx hne)]

theorem content_writeMeta (hmeta : ∀ c, nmeta ≤ c → d' c = d c) (howner : owner d' tab = owner d tab)
    : content d' tab = content d tab := by
  funext y m
  unfold content
  rw [howner]
  split
  . rfl
  . next hown => exact hmeta _ (h.owner_ge hown)

end Consistent

theorem Marked.release {f : Nat × Nat → Nat} (h : Marked sb nmeta d f) {x : Nat × Nat} (hx : f x ≠ 0)
    (hbit : ∀ c, c < sb.size → sb.bit d' c = Function.update (sb.bit d) (f x) false c)
    : Marked sb nmeta d' (Function.update f x 0) := by
  refine ⟨h.geo, h.pos, ?_, ?_⟩
  . intro b hb hsize
    have hge := (h.owners.range x hx).1
    rw [hbit b hsize, Function.update_of_ne (by omega)]
    exact h.used b hb hsize
  . apply (h.owners.release x).congr
    exact hbit

end Xv6.Fs
