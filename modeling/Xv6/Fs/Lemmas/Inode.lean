import Xv6.Fs.Layout

namespace Xv6.Fs

open Outcome

structure Store.Fits (s : Store) (k : Nat) : Prop where
  size : s.lh.length + k ≤ LOGSIZE
  log : s.lh.length + k < s.sb.nlog
  trans : 1 ≤ s.outstanding

def Store.Limit (s : Store) (k m : Nat) (e : Halt) : Prop :=
  (e = .tooBig ∨ e = .outsideOfTrans) ∧ ¬s.Fits k ∨ e = .outOfBlocks ∧ s.sb.free s.disk < m

namespace Store

variable {s s' : Store}

theorem Fits.mono {k k' : Nat} (h : s.Fits k) (hk : k' ≤ k) : s.Fits k' := by
  have hsize := h.size
  have hlog := h.log
  exact ⟨by omega, by omega, h.trans⟩

theorem Limit.mono {k k' m m' : Nat} {e : Halt} (h : s'.Limit k m e) (hfits : s.Fits k' → s'.Fits k)
    (hfree : s'.sb.free s'.disk < m → s.sb.free s.disk < m')
    : s.Limit k' m' e := by
  rcases h with ⟨hfull, hnot⟩ | ⟨hblocks, hlt⟩
  . exact .inl ⟨hfull, fun hfit => hnot (hfits hfit)⟩
  . exact .inr ⟨hblocks, hfree hlt⟩

theorem length_absorb (lh : List Nat) (b : Nat) : (Bcache.absorb lh b).length ≤ lh.length + 1 := by
  unfold Bcache.absorb
  dsimp only
  split
  . rw [List.length_append, List.length_singleton]
  . rw [List.length_set]
    omega

def wrote (s : Store) (b : Nat) (data : Block) : Store :=
  { s with disk := Function.update s.disk b data, lh := Bcache.absorb s.lh b }

theorem fits_wrote {b : Nat} {data : Block} {k : Nat} (h : s.Fits (k + 1)) : (s.wrote b data).Fits k := by
  have hsize := h.size
  have hlog := h.log
  have hlen := length_absorb s.lh b
  refine ⟨?_, ?_, h.trans⟩
  . change (Bcache.absorb s.lh b).length + k ≤ LOGSIZE
    omega
  . change (Bcache.absorb s.lh b).length + k < s.sb.nlog
    omega

theorem logWrite_sat (s : Store) (b : Nat) (data : Block)
    : Sat (s.Limit 1 0) (fun s' => s' = s.wrote b data) (s.logWrite b data) := by
  unfold logWrite
  split
  . next hfull =>
    refine .inl ⟨.inl rfl, ?_⟩
    intro hfits
    have hsize := hfits.size
    have hlog := hfits.log
    omega
  . split
    . next hout =>
      refine .inl ⟨.inr rfl, ?_⟩
      intro hfits
      have htrans := hfits.trans
      omega
    . rfl

theorem findFree_eq_some {q bi : Nat} (h : s.findFree = some (q, bi))
    : bi < BPB ∧ q * BPB + bi < s.sb.size ∧ s.sb.bit s.disk (q * BPB + bi) = false := by
  unfold findFree at h
  rcases List.exists_of_findSome?_eq_some h with ⟨q', _, hq'⟩
  rw [Option.map_eq_some_iff] at hq'
  rcases hq' with ⟨bi', hfind, heq⟩
  cases heq
  have hmem := List.mem_of_find?_eq_some hfind
  rw [List.mem_range, Nat.lt_min] at hmem
  have hbit := List.find?_some hfind
  rw [Bool.not_eq_true'] at hbit
  refine ⟨hmem.1, by omega, ?_⟩
  rw [Superblock.bit_mul_add _ _ _ hmem.1]
  exact hbit

theorem used_of_find_eq_none {b : Nat} (hb : b < s.sb.size)
    (hnone : ((List.range (min BPB (s.sb.size - b / BPB * BPB))).find? fun bi =>
      !(s.disk (s.sb.bblock (b / BPB * BPB))).bit bi).map (Prod.mk (b / BPB)) = none)
    : s.sb.bit s.disk b = true := by
  have hBPB : BPB = 4096 := rfl
  have hmod := Nat.mod_lt b (y := BPB) (by decide)
  rw [Option.map_eq_none_iff, List.find?_eq_none] at hnone
  have hbi : b % BPB ∈ List.range (min BPB (s.sb.size - b / BPB * BPB)) := by
    rw [List.mem_range, Nat.lt_min, hBPB]
    omega
  have hbit := hnone (b % BPB) hbi
  have hb' : b / BPB * BPB + b % BPB = b := Nat.div_add_mod' b BPB
  rw [Bool.not_eq_true', ← Superblock.bit_mul_add _ _ _ hmod, hb', Bool.not_eq_false] at hbit
  exact hbit

theorem div_mem_range {b : Nat} (hb : b < s.sb.size) : b / BPB ∈ List.range ((s.sb.size + BPB - 1) / BPB) := by
  have hBPB : BPB = 4096 := rfl
  rw [List.mem_range, hBPB]
  omega

theorem free_of_findFree_eq_none (h : s.findFree = none) : s.sb.free s.disk = 0 := by
  unfold Superblock.free
  rw [Finset.card_eq_zero, Finset.filter_eq_empty_iff]
  intro b hb hfree
  rw [Finset.mem_range] at hb
  unfold findFree at h
  rw [List.findSome?_eq_none_iff] at h
  rw [used_of_find_eq_none hb (h (b / BPB) (div_mem_range hb))] at hfree
  cases hfree

structure Wrote (s s' : Store) (k : Nat) : Prop where
  sb : s'.sb = s.sb
  fits : ∀ j, s.Fits (j + k) → s'.Fits j

theorem Wrote.refl (s : Store) : Wrote s s 0 :=
  ⟨rfl, fun _ h => h⟩

theorem Wrote.trans {s'' : Store} {k k' : Nat} (h : Wrote s s' k) (h' : Wrote s' s'' k')
    : Wrote s s'' (k + k') := by
  refine ⟨h'.sb.trans h.sb, ?_⟩
  intro j hj
  apply h'.fits
  apply h.fits
  apply hj.mono
  omega

theorem wrote_wrote (s : Store) (b : Nat) (data : Block) : Wrote s (s.wrote b data) 1 :=
  ⟨rfl, fun _ h => fits_wrote h⟩

theorem balloc_sat {nmeta : Nat} {f : Nat × Nat → Nat} (h : Marked s.sb nmeta s.disk f)
    : Sat (s.Limit 2 1) (fun r => Alloc s.sb nmeta s.disk r.1 r.2.disk ∧ Wrote s r.2 2
        ∧ r.2.sb.free r.2.disk + 1 = s.sb.free s.disk) s.balloc := by
  unfold balloc
  split
  . next hnone =>
    refine .inr ⟨rfl, ?_⟩
    rw [free_of_findFree_eq_none hnone]
    decide
  . next q bi hsome =>
    rcases findFree_eq_some hsome with ⟨hbi, hlt, hfree⟩
    have hblock := Superblock.bblock_mul_add s.sb q hbi
    have hmod : (q * BPB + bi) % BPB = bi := by
      rw [Nat.add_comm, Nat.add_mul_mod_self_right, Nat.mod_eq_of_lt hbi]
    apply Sat.bind ((logWrite_sat s _ _).mono (fun _ he => he.mono (fun hfits => hfits.mono (by omega)) (by omega))
      (fun _ h => h))
    intro s1 hs1
    have hw1 : Wrote s s1 1 := by
      rw [hs1]
      exact wrote_wrote _ _ _
    apply Sat.bind ((logWrite_sat s1 _ _).mono (fun _ he => he.mono (fun hfits => hw1.fits 1 hfits) (by omega))
      (fun _ h => h))
    intro s2 hs2
    have hw2 : Wrote s1 s2 1 := by
      rw [hs2]
      exact wrote_wrote _ _ _
    have hge : nmeta ≤ q * BPB + bi := by
      by_contra hlt'
      have hused := h.used (q * BPB + bi) (by omega) hlt
      rw [hfree] at hused
      cases hused
    have hdisk1 : s1.disk = Function.update s.disk (s.sb.bblock (q * BPB + bi))
        ((s.disk (s.sb.bblock (q * BPB + bi))).setBit ((q * BPB + bi) % BPB)) := by
      rw [hs1, hblock, hmod]
      rfl
    have hdisk2 : s2.disk = Function.update s1.disk (q * BPB + bi) .zero := by
      rw [hs2]
      rfl
    have hbit1 : s.sb.bit s1.disk = Function.update (s.sb.bit s.disk) (q * BPB + bi) true := by
      rw [hdisk1]
      apply Superblock.bit_setBit
    have hbit2 : ∀ c, c < s.sb.size → s.sb.bit s2.disk c
        = Function.update (s.sb.bit s.disk) (q * BPB + bi) true c := by
      intro c hc
      rw [← hbit1, hdisk2]
      apply Superblock.bit_update_of_ne
      have hblt := h.geo.bblock_lt c hc
      omega
    have hsb : s2.sb = s.sb := hw2.sb.trans hw1.sb
    refine ⟨⟨hge, hlt, hfree, hbit2, ?_, ?_, ?_⟩, hw1.trans hw2, ?_⟩
    . change s2.disk _ = _
      rw [hdisk2, Function.update_self]
    . intro c hc hcb
      change s2.disk c = _
      have hblt := h.geo.bblock_lt _ hlt
      rw [hdisk2, Function.update_of_ne hcb, hdisk1, Function.update_of_ne (by omega)]
    . change s.sb.table s2.disk = _
      rw [hdisk2, Superblock.table_update_of_ne, hdisk1, Superblock.table_update_of_ne]
      . intro x hx
        exact (h.geo.iblock_ne_bblock x hx _ hlt).symm
      . intro x hx
        have hilt := h.geo.iblock_lt x hx
        omega
    . change s2.sb.free s2.disk + 1 = _
      rw [hsb]
      exact Superblock.free_set hlt hfree hbit2

theorem bfree_sat {nmeta : Nat} {f : Nat × Nat → Nat} (h : Marked s.sb nmeta s.disk f) {x : Nat × Nat}
    (hx : f x ≠ 0)
    : Sat (s.Limit 1 0) (fun s' => Marked s'.sb nmeta s'.disk (Function.update f x 0) ∧ Wrote s s' 1
        ∧ (∀ c, nmeta ≤ c → s'.disk c = s.disk c) ∧ s'.sb.table s'.disk = s.sb.table s.disk)
      (s.bfree (f x)) := by
  have hused := h.owners.inUse x hx
  have hlt := (h.owners.range x hx).2
  unfold bfree
  dsimp only
  unfold Superblock.bit at hused
  rw [if_pos hused]
  apply (logWrite_sat s _ _).mono (fun _ h => h)
  intro s' hs'
  have hsb : s'.sb = s.sb := by
    rw [hs']
    rfl
  have hdisk : s'.disk = Function.update s.disk (s.sb.bblock (f x))
      ((s.disk (s.sb.bblock (f x))).clearBit (f x % BPB)) := by
    rw [hs']
    rfl
  have hblt := h.geo.bblock_lt (f x) hlt
  refine ⟨?_, ?_, ?_, ?_⟩
  . rw [hsb]
    apply h.release hx
    intro c _
    rw [hdisk, Superblock.bit_clearBit]
  . rw [hs']
    exact wrote_wrote _ _ _
  . intro c hc
    rw [hdisk, Function.update_of_ne (by omega)]
  . rw [hsb, hdisk]
    apply Superblock.table_update_of_ne
    intro y hy
    exact (h.geo.iblock_ne_bblock y hy _ hlt).symm

end Store

namespace State

variable {n : Nat} {s s' : State n} {i : Fin n} {nmeta : Nat}

def view (s : State n) (i : Fin n) : Nat → Dinode :=
  Function.update (s.sb.table s.disk) (s.inode i).inum (s.inode i).din

abbrev own (s : State n) (i : Fin n) : Nat × Nat → Nat :=
  owner s.disk (s.view i)

structure Work (nmeta : Nat) (s : State n) (i : Fin n) : Prop where
  consistent : Consistent s.sb nmeta s.disk (s.view i)
  type : (s.inode i).din.type ≠ 0

@[simp]
theorem view_self (s : State n) (i : Fin n) : s.view i (s.inode i).inum = (s.inode i).din :=
  Function.update_self ..

theorem Work.own_eq (h : Work nmeta s i) (k : Nat)
    : s.own i ((s.inode i).inum, k) = slot s.disk (s.inode i).din k := by
  have htype : (s.view i (s.inode i).inum).type ≠ 0 := by
    rw [view_self]
    exact h.type
  unfold own
  rw [owner_of_type htype, view_self]

structure Grow (nmeta : Nat) (s s' : State n) (i : Fin n) (k : Nat) (new : Finset Nat) : Prop where
  wrote : Store.Wrote s.toStore s'.toStore k
  devsw : s'.devsw = s.devsw
  others : ∀ j, j ≠ i → s'.inode j = s.inode j
  self : ∃ a, s'.inode i = { s.inode i with din := { (s.inode i).din with addrs := a } }
  table : s'.sb.table s'.disk = s.sb.table s.disk
  consistent : Consistent s'.sb nmeta s'.disk (s'.view i)
  same : ∀ p, ¬(p.1 = (s.inode i).inum ∧ p.2 ∈ new) → s'.own i p = s.own i p
  fresh : ∀ m, m ∈ new → s.own i ((s.inode i).inum, m) = 0 ∧ s'.own i ((s.inode i).inum, m) ≠ 0
  free : s'.sb.free s'.disk + new.card = s.sb.free s.disk

namespace Grow

theorem refl (h : Consistent s.sb nmeta s.disk (s.view i)) : Grow nmeta s s i 0 ∅ where
  wrote := .refl _
  devsw := rfl
  others := fun _ _ => rfl
  self := ⟨_, rfl⟩
  table := rfl
  consistent := h
  same := fun _ _ => rfl
  fresh := by simp
  free := rfl

section
variable (h : Grow nmeta s s' i k new)
include h

theorem inum : (s'.inode i).inum = (s.inode i).inum := by
  rcases h.self with ⟨a, ha⟩
  rw [ha]

theorem type : (s'.inode i).din.type = (s.inode i).din.type := by
  rcases h.self with ⟨a, ha⟩
  rw [ha]

theorem size : (s'.inode i).din.size = (s.inode i).din.size := by
  rcases h.self with ⟨a, ha⟩
  rw [ha]

theorem work (hwork : Work nmeta s i) : Work nmeta s' i := by
  refine ⟨h.consistent, ?_⟩
  rw [h.type]
  exact hwork.type

theorem keep {p : Nat × Nat} (hp : s.own i p ≠ 0) : s'.own i p = s.own i p := by
  apply h.same
  rintro ⟨hx, hk⟩
  apply hp
  have hp' : p = ((s.inode i).inum, p.2) := by rw [← hx]
  rw [hp']
  exact (h.fresh p.2 hk).1

theorem trans {s'' : State n} {k' : Nat} {new' : Finset Nat}
    (h' : Grow nmeta s' s'' i k' new')
    : Grow nmeta s s'' i (k + k') (new ∪ new') where
  wrote := h.wrote.trans h'.wrote
  devsw := h'.devsw.trans h.devsw
  others := by
    intro j hj
    rw [h'.others j hj, h.others j hj]
  self := by
    rcases h.self with ⟨a, ha⟩
    rcases h'.self with ⟨a', ha'⟩
    refine ⟨a', ?_⟩
    rw [ha', ha]
  table := h'.table.trans h.table
  consistent := h'.consistent
  same := by
    intro p hp
    rw [Finset.mem_union] at hp
    rw [h'.same p, h.same p]
    . rintro ⟨hx, hk⟩
      exact hp ⟨hx, .inl hk⟩
    . rw [h.inum]
      rintro ⟨hx, hk⟩
      exact hp ⟨hx, .inr hk⟩
  fresh := by
    intro m hm
    have hinum := h.inum
    rcases Finset.mem_union.mp hm with hm | hm
    . have hfresh := h.fresh m hm
      refine ⟨hfresh.1, ?_⟩
      rw [h'.keep hfresh.2]
      exact hfresh.2
    . have hfresh := h'.fresh m hm
      rw [hinum] at hfresh
      refine ⟨?_, hfresh.2⟩
      by_contra hne
      have hkeep := h.keep hne
      rw [hfresh.1] at hkeep
      exact hne hkeep.symm
  free := by
    have hdisjoint : Disjoint new new' := by
      rw [Finset.disjoint_left]
      intro m hm hm'
      have hfresh := h'.fresh m hm'
      rw [h.inum] at hfresh
      exact (h.fresh m hm).2 hfresh.1
    have h1 := h.free
    have h2 := h'.free
    rw [Finset.card_union_of_disjoint hdisjoint]
    omega

theorem mono {k' : Nat} (hk : k ≤ k') : Grow nmeta s s' i k' new :=
  { h with wrote := ⟨h.wrote.sb, fun j hj => h.wrote.fits j (hj.mono (by omega))⟩ }

end

end Grow

theorem Work.grow_setAddr (h : Work nmeta s i) {k b : Nat} {st : Store} (hk : k ≤ NDIRECT)
    (hzero : (s.inode i).din.addr k = 0) (ha : Alloc s.sb nmeta s.disk b st.disk)
    (hwrote : Store.Wrote s.toStore st 2) (hfree : st.sb.free st.disk + 1 = s.sb.free s.disk)
    : let s' := State.setDin { s with toStore := st } i ((s.inode i).din.setAddr k b)
      Grow nmeta s s' i 2 {k} ∧ content s'.disk (s'.view i) = content s.disk (s.view i)
        ∧ b = s'.own i ((s.inode i).inum, k) ∧ b ≠ 0 := by
  intro s'
  have hsize := s.sb.size_lt
  have hself : s'.inode i = { s.inode i with din := (s.inode i).din.setAddr k b } := Function.update_self ..
  have hsb : s'.sb = s.sb := hwrote.sb
  have hview : s'.view i = Function.update (s.view i) (s.inode i).inum
      ((s.view i (s.inode i).inum).setAddr k b) := by
    unfold view
    rw [hself, hsb, Function.update_self, Function.update_idem]
    change Function.update (s.sb.table st.disk) _ _ = _
    rw [ha.table]
  have htype : (s.view i (s.inode i).inum).type ≠ 0 := by
    rw [view_self]
    exact h.type
  have hzero' : (s.view i (s.inode i).inum).addr k = 0 := by
    rw [view_self]
    exact hzero
  have hset := ha.setAddr h.consistent hk htype hzero' hsize
  have hcontent := ha.content_setAddr h.consistent hk htype hzero' hsize
  rw [← hview] at hset hcontent
  have hb : b ≠ 0 := by
    have hge := ha.ge
    have hpos := h.consistent.pos
    omega
  have hnew : s'.own i ((s.inode i).inum, k) = b := by
    unfold own
    rw [show s'.disk = st.disk from rfl, hset.2, Function.update_self]
  refine ⟨⟨hwrote, rfl, ?_, ⟨_, hself⟩, ?_, ?_, ?_, ?_, ?_⟩, hcontent, hnew.symm, hb⟩
  . intro j hj
    exact Function.update_of_ne hj ..
  . rw [hsb]
    exact ha.table
  . rw [hsb]
    exact hset.1
  . intro p hp
    unfold own
    rw [show s'.disk = st.disk from rfl, hset.2, Function.update_of_ne]
    intro heq
    apply hp
    rw [heq]
    exact ⟨rfl, Finset.mem_singleton_self k⟩
  . intro m hm
    rw [Finset.mem_singleton] at hm
    rw [hm, hnew]
    refine ⟨?_, hb⟩
    rw [h.own_eq, slot_of_le hk]
    exact hzero
  . rw [Finset.card_singleton]
    exact hfree

structure Mapped (nmeta : Nat) (s s' : State n) (i : Fin n) (k b : Nat) (cost : Nat) (slots : Finset Nat)
    : Prop where
  grow : ∃ new, new ⊆ slots ∧ Grow nmeta s s' i cost new
  content : content s'.disk (s'.view i) = content s.disk (s.view i)
  block : b = s'.own i ((s.inode i).inum, k)
  ne_zero : b ≠ 0
  same : s.own i ((s.inode i).inum, k) ≠ 0 → s' = s

def missing (s : State n) (i : Fin n) (slots : Finset Nat) : Nat :=
  (slots.filter fun k => s.own i ((s.inode i).inum, k) = 0).card

theorem mapAddr_sat (h : Work nmeta s i) {k : Nat} (hk : k ≤ NDIRECT)
    : Sat (s.Limit 2 (s.missing i {k})) (fun r => Mapped nmeta s r.2 i k r.1 2 {k}) (s.mapAddr i k) := by
  have hown : s.own i ((s.inode i).inum, k) = (s.inode i).din.addr k := by
    rw [h.own_eq, slot_of_le hk]
  unfold mapAddr
  dsimp only
  split
  . next hzero =>
    have hmissing : s.missing i {k} = 1 := by
      unfold missing
      rw [Finset.filter_singleton, hown, if_pos hzero, Finset.card_singleton]
    have hballoc := Store.balloc_sat (s := s.toStore) h.consistent.toMarked
    have hballoc' : Sat (s.Limit 2 (s.missing i {k})) (fun r => Alloc s.sb nmeta s.disk r.1 r.2.disk
        ∧ (∃ st, r.2 = { s with toStore := st }) ∧ Store.Wrote s.toStore r.2.toStore 2
        ∧ r.2.sb.free r.2.disk + 1 = s.sb.free s.disk) s.balloc := by
      rw [hmissing]
      apply Sat.bind hballoc
      rintro ⟨b, st⟩ ⟨ha, hwrote, hfree⟩
      exact ⟨ha, ⟨st, rfl⟩, hwrote, hfree⟩
    apply Sat.bind hballoc'
    rintro ⟨b, s1⟩ ⟨ha, ⟨st, hst⟩, hwrote, hfree⟩
    dsimp only at ha hst hwrote hfree
    rw [hst] at ha hwrote hfree ⊢
    have hgrow := h.grow_setAddr hk hzero ha hwrote hfree
    refine ⟨⟨{k}, Finset.Subset.refl _, hgrow.1⟩, hgrow.2.1, hgrow.2.2.1, hgrow.2.2.2, ?_⟩
    intro hne
    rw [hown] at hne
    exact absurd hzero hne
  . next hne =>
    have hrefl := Grow.refl h.consistent
    refine ⟨⟨∅, Finset.empty_subset _, hrefl.mono (by omega)⟩, rfl, hown.symm, hne, fun _ => rfl⟩

theorem Work.grow_setWord (h : Work nmeta s i) {j b : Nat} {st : Store} (hj : j < NINDIRECT)
    (hind : (s.inode i).din.addr NDIRECT ≠ 0) (hzero : s.own i ((s.inode i).inum, NDIRECT + 1 + j) = 0)
    (ha : Alloc s.sb nmeta s.disk b st.disk) (hwrote : Store.Wrote s.toStore st 2)
    (hfree : st.sb.free st.disk + 1 = s.sb.free s.disk) {ind : Nat} (hindeq : ind = (s.inode i).din.addr NDIRECT)
    (hs' : s' = { s with toStore := st.wrote ind ((s.disk ind).setLE (4 * j) 4 b) })
    : Grow nmeta s s' i 3 {NDIRECT + 1 + j} ∧ content s'.disk (s'.view i) = content s.disk (s.view i)
      ∧ b = s'.own i ((s.inode i).inum, NDIRECT + 1 + j) ∧ b ≠ 0 := by
  have hsb : s'.sb = s.sb := by
    rw [hs']
    exact hwrote.sb
  have hinode : s'.inode = s.inode := by
    rw [hs']
  have hdevsw : s'.devsw = s.devsw := by
    rw [hs']
  have hstore : s'.toStore = st.wrote ind ((s.disk ind).setLE (4 * j) 4 b) := by
    rw [hs']
  have hviewself := s.view_self i
  have htype : (s.view i (s.inode i).inum).type ≠ 0 := by
    rw [hviewself]
    exact h.type
  have hind' : (s.view i (s.inode i).inum).addr NDIRECT ≠ 0 := by
    rw [hviewself]
    exact hind
  have hset := ha.setWord h.consistent htype hj hind' hzero s.sb.size_lt
  rw [hviewself, ← hindeq] at hset
  rcases hset with ⟨hcons, hown, hcontent, htable⟩
  have hdisk : s'.disk = Function.update st.disk ind ((s.disk ind).setLE (4 * j) 4 b) := by
    rw [hstore]
    rfl
  rw [← hdisk] at hcons hown hcontent htable
  have hview : s'.view i = s.view i := by
    unfold view
    rw [hsb, htable, hinode]
  have hb : b ≠ 0 := by
    have hge := ha.ge
    have hpos := h.consistent.pos
    omega
  have hnew : s'.own i ((s.inode i).inum, NDIRECT + 1 + j) = b := by
    unfold own
    rw [hview, hown, Function.update_self]
  refine ⟨⟨?_, hdevsw, ?_, ?_, ?_, ?_, ?_, ?_, ?_⟩, ?_, hnew.symm, hb⟩
  . rw [hstore]
    exact hwrote.trans (Store.wrote_wrote _ _ _)
  . intro j' _
    rw [hinode]
  . refine ⟨(s.inode i).din.addrs, ?_⟩
    rw [hinode]
  . rw [hsb]
    exact htable
  . rw [hsb, hview]
    exact hcons
  . intro p hp
    unfold own
    rw [hview, hown, Function.update_of_ne]
    intro heq
    apply hp
    rw [heq]
    exact ⟨rfl, Finset.mem_singleton_self _⟩
  . intro m hm
    rw [Finset.mem_singleton] at hm
    rw [hm, hnew]
    exact ⟨hzero, hb⟩
  . rw [Finset.card_singleton, ← hfree, hsb, ← hwrote.sb]
    congr 1
    apply Superblock.free_congr
    intro c hc
    rw [hdisk]
    apply Superblock.bit_update_of_ne
    rw [hwrote.sb] at hc ⊢
    have hlt := h.consistent.geo.bblock_lt c hc
    have hown0 : owner s.disk (s.view i) ((s.inode i).inum, NDIRECT) = ind := by
      rw [hindeq, ← slot_of_le (d := s.disk) (Nat.le_refl NDIRECT)]
      exact h.own_eq NDIRECT
    have hge := h.consistent.owner_ge (x := ((s.inode i).inum, NDIRECT))
      (by rw [hown0, hindeq]; exact hind)
    rw [hown0] at hge
    omega
  . rw [hview]
    exact hcontent

def blockSlots (bn : Nat) : Finset Nat :=
  if bn < NDIRECT then {bn} else {NDIRECT, bn + 1}

theorem fileSlot_mem (bn : Nat) : fileSlot bn ∈ blockSlots bn := by
  unfold fileSlot blockSlots
  split
  . apply Finset.mem_singleton_self
  . rw [Finset.mem_insert, Finset.mem_singleton]
    exact .inr rfl

theorem Grow.card_le_missing {k : Nat} {new slots : Finset Nat} (h : Grow nmeta s s' i k new) (hsub : new ⊆ slots)
    : new.card + s'.missing i slots = s.missing i slots := by
  unfold missing
  rw [h.inum]
  have hsplit : slots.filter (fun m => s.own i ((s.inode i).inum, m) = 0)
      = new ∪ slots.filter fun m => s'.own i ((s.inode i).inum, m) = 0 := by
    ext m
    rw [Finset.mem_union, Finset.mem_filter, Finset.mem_filter]
    constructor
    . rintro ⟨hm, hzero⟩
      by_cases hnew : m ∈ new
      . exact .inl hnew
      . right
        rw [h.same _ (fun hcond => hnew hcond.2)]
        exact ⟨hm, hzero⟩
    . rintro (hnew | ⟨hm, hzero⟩)
      . exact ⟨hsub hnew, (h.fresh m hnew).1⟩
      . refine ⟨hm, ?_⟩
        by_contra hne
        rw [h.keep hne] at hzero
        exact hne hzero
  rw [hsplit, Finset.card_union_of_disjoint]
  rw [Finset.disjoint_left]
  intro m hnew hm
  rw [Finset.mem_filter] at hm
  exact (h.fresh m hnew).2 hm.2

theorem missing_mono {slots slots' : Finset Nat} (h : slots ⊆ slots') : s.missing i slots ≤ s.missing i slots' :=
  Finset.card_le_card (Finset.filter_subset_filter _ h)

theorem bmap_sat (h : Work nmeta s i) {bn : Nat} (hbn : bn < MAXFILE)
    : Sat (s.Limit 5 (s.missing i (blockSlots bn)))
      (fun r => Mapped nmeta s r.2 i (fileSlot bn) r.1 5 (blockSlots bn)) (s.bmap i bn) := by
  have hMF : MAXFILE = NDIRECT + NINDIRECT := rfl
  unfold bmap
  split
  . next hdirect =>
    have hslot : fileSlot bn = bn := if_pos hdirect
    have hslots : blockSlots bn = {bn} := if_pos hdirect
    rw [hslot, hslots]
    apply (mapAddr_sat h (Nat.le_of_lt hdirect)).mono
    . intro e he
      exact he.mono (fun hfits => hfits.mono (by omega)) (fun hlt => hlt)
    . rintro r ⟨⟨new, hsub, hgrow⟩, hcontent, hblock, hne, hsame⟩
      exact ⟨⟨new, hsub, hgrow.mono (by omega)⟩, hcontent, hblock, hne, hsame⟩
  . next hdirect =>
    dsimp only
    rw [if_pos (by omega)]
    have hslot : fileSlot bn = NDIRECT + 1 + (bn - NDIRECT) := by
      unfold fileSlot
      rw [if_neg hdirect]
      omega
    have hmem := fileSlot_mem bn
    have hslots : ({NDIRECT} : Finset Nat) ⊆ blockSlots bn := by
      unfold blockSlots
      rw [if_neg hdirect]
      simp
    apply Sat.bind ((mapAddr_sat h (Nat.le_refl NDIRECT)).mono
      (fun e he => he.mono (fun hfits => hfits.mono (by omega))
        (fun hlt => Nat.lt_of_lt_of_le hlt (missing_mono hslots))) (fun _ h => h))
    rintro ⟨ind, s1⟩ ⟨⟨new, hsub, hgrow⟩, hcontent, hblock, hne, hsame⟩
    dsimp only at hgrow hcontent hblock hne hsame ⊢
    have hwork1 := hgrow.work h
    have hind : ind = (s1.inode i).din.addr NDIRECT := by
      rw [hblock, ← hgrow.inum, hwork1.own_eq, slot_of_le (Nat.le_refl _)]
    have hindne : (s1.inode i).din.addr NDIRECT ≠ 0 := by
      rw [← hind]
      exact hne
    have haddr : s1.own i ((s.inode i).inum, fileSlot bn) = (s1.disk ind).getLE (4 * (bn - NDIRECT)) 4 := by
      rw [← hgrow.inum, hwork1.own_eq, hslot, slot_of_gt (by omega) (by omega) hindne, ← hind]
      congr 2
      omega
    -- a block that was mapped has an indirect block that was mapped
    have hsame' : s.own i ((s.inode i).inum, fileSlot bn) ≠ 0 → s1 = s := by
      intro hmapped
      apply hsame
      intro hzero
      apply hmapped
      rw [h.own_eq, slot_of_le (Nat.le_refl _)] at hzero
      rw [h.own_eq, hslot, slot_of_no_indirect (by omega) hzero]
    split
    . next hzero =>
      rw [← haddr] at hzero
      have hzero0 : s.own i ((s.inode i).inum, fileSlot bn) = 0 := by
        by_contra hmapped
        rw [hsame' hmapped] at hzero
        exact hmapped hzero
      have hzero1 : s1.own i ((s1.inode i).inum, NDIRECT + 1 + (bn - NDIRECT)) = 0 := by
        rw [hgrow.inum, ← hslot]
        exact hzero
      have hlimit : s1.sb.free s1.disk < 1 → s.sb.free s.disk < s.missing i (blockSlots bn) := by
        intro hlt
        have hcard := hgrow.card_le_missing (hsub.trans hslots)
        have hfree := hgrow.free
        have hpos : 0 < s1.missing i (blockSlots bn) := by
          unfold missing
          rw [Finset.card_pos]
          refine ⟨fileSlot bn, Finset.mem_filter.mpr ⟨hmem, ?_⟩⟩
          rw [hgrow.inum]
          exact hzero
        omega
      have hballoc : Sat (s.Limit 5 (s.missing i (blockSlots bn))) (fun r => Alloc s1.sb nmeta s1.disk r.1 r.2.disk
          ∧ (∃ st, r.2 = { s1 with toStore := st }) ∧ Store.Wrote s1.toStore r.2.toStore 2
          ∧ r.2.sb.free r.2.disk + 1 = s1.sb.free s1.disk) s1.balloc := by
        apply Sat.bind ((Store.balloc_sat (s := s1.toStore) hgrow.consistent.toMarked).mono
          (fun e he => he.mono (fun hfits => (hgrow.wrote.fits 3 hfits).mono (by omega)) hlimit) (fun _ h => h))
        rintro ⟨b, st⟩ ⟨ha, hwrote, hfree⟩
        exact ⟨ha, ⟨st, rfl⟩, hwrote, hfree⟩
      apply Sat.bind hballoc
      rintro ⟨b, s2⟩ ⟨ha, ⟨st, hst⟩, hwrote, hfree⟩
      dsimp only at ha hst hwrote hfree ⊢
      rw [hst] at ha hwrote hfree ⊢
      have hlog : Sat (s.Limit 5 (s.missing i (blockSlots bn)))
          (fun s3 : State n => s3
            = { s1 with toStore := st.wrote ind ((s1.disk ind).setLE (4 * (bn - NDIRECT)) 4 b) })
          (State.logWrite { s1 with toStore := st } ind ((s1.disk ind).setLE (4 * (bn - NDIRECT)) 4 b)) := by
        apply Sat.bind ((Store.logWrite_sat st _ _).mono
          (fun e he => he.mono (fun hfits => hwrote.fits 1 (hgrow.wrote.fits 3 hfits)) (by omega)) (fun _ h => h))
        intro st' hst'
        rw [hst']
        rfl
      apply Sat.bind hlog
      intro s3 hs3
      have hword := hwork1.grow_setWord (j := bn - NDIRECT) (by omega) hindne hzero1 ha hwrote hfree hind hs3
      rw [← hslot, hgrow.inum] at hword
      rcases hword with ⟨hgrow', hcontent', hblock', hne'⟩
      refine ⟨⟨_, ?_, hgrow.trans hgrow'⟩, hcontent'.trans hcontent, hblock', hne', fun hmapped =>
        absurd hzero0 hmapped⟩
      apply Finset.union_subset (hsub.trans hslots)
      rw [Finset.singleton_subset_iff]
      exact hmem
    . next hmapped =>
      rw [← haddr] at hmapped ⊢
      exact ⟨⟨new, hsub.trans hslots, hgrow.mono (by omega)⟩, hcontent, rfl, hmapped, hsame'⟩

end State
end Xv6.Fs
