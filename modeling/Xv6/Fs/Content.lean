import Xv6.Fs.Lemmas.Inode

namespace Xv6.Fs
namespace State

open Outcome

variable {n : Nat} {s s' : State n} {i : Fin n} {nmeta : Nat}

def chunks (s : State n) (i : Fin n) : Nat → Block :=
  content s.disk (s.view i) (s.inode i).inum

def data (s : State n) (i : Fin n) : List UInt8 :=
  Chunks.contents (s.chunks i) (s.inode i).din.size.toNat

def Sized (d : Disk) (di : Dinode) : Prop :=
  di.size.toNat ≤ MAXFILE * BSIZE ∧ ∀ bn, bn * BSIZE < di.size.toNat → slot d di (fileSlot bn) ≠ 0

theorem length_data (s : State n) (i : Fin n) : (s.data i).length = (s.inode i).din.size.toNat := by
  unfold data Chunks.contents
  rw [List.length_map, List.length_range]

theorem mapAddr_of_mapped {k : Nat} (h : (s.inode i).din.addr k ≠ 0)
    : s.mapAddr i k = .ok ((s.inode i).din.addr k, s) := by
  unfold mapAddr
  dsimp only
  rw [if_neg h]

theorem bmap_of_mapped {bn : Nat} (hbn : bn < MAXFILE) (h : slot s.disk (s.inode i).din (fileSlot bn) ≠ 0)
    : s.bmap i bn = .ok (slot s.disk (s.inode i).din (fileSlot bn), s) := by
  have hMF : MAXFILE = NDIRECT + NINDIRECT := rfl
  unfold bmap
  by_cases hdirect : bn < NDIRECT
  . have hslot : fileSlot bn = bn := if_pos hdirect
    rw [hslot, slot_of_le (Nat.le_of_lt hdirect)] at h ⊢
    rw [if_pos hdirect]
    exact mapAddr_of_mapped h
  . have hslot : fileSlot bn = bn + 1 := if_neg hdirect
    rw [hslot] at h ⊢
    rw [if_neg hdirect]
    dsimp only
    rw [if_pos (by omega)]
    have hind : (s.inode i).din.addr NDIRECT ≠ 0 := by
      intro hzero
      exact h (slot_of_no_indirect (by omega) hzero)
    rw [mapAddr_of_mapped hind]
    have hword := slot_of_gt (d := s.disk) (k := bn + 1) (by omega) (by omega) hind
    have hidx : 4 * (bn + 1 - (NDIRECT + 1)) = 4 * (bn - NDIRECT) := by omega
    rw [hidx] at hword
    rw [hword] at h ⊢
    simp only [bind, Except.bind]
    rw [if_neg h]
    rfl

theorem Work.disk_slot (h : Work nmeta s i) {bn : Nat} (hne : slot s.disk (s.inode i).din (fileSlot bn) ≠ 0)
    : s.disk (slot s.disk (s.inode i).din (fileSlot bn)) = s.chunks i bn := by
  have hown := h.own_eq (fileSlot bn)
  unfold own at hown
  unfold chunks content
  rw [hown, if_neg hne]

def bytesFrom (s : State n) (i : Fin n) (off k : Nat) : List UInt8 :=
  (List.range k).map fun j => Chunks.byteAt (s.chunks i) (off + j)

theorem bytesFrom_add (s : State n) (i : Fin n) (off k m : Nat)
    : s.bytesFrom i off (k + m) = s.bytesFrom i off k ++ s.bytesFrom i (off + k) m := by
  unfold bytesFrom
  rw [List.range_add, List.map_append, List.map_map]
  congr 1
  apply List.map_congr_left
  intro j _
  change Chunks.byteAt _ (off + (k + j)) = _
  rw [Nat.add_assoc]

theorem bytesFrom_eq_data {off k : Nat} (h : off + k ≤ (s.inode i).din.size.toNat)
    : s.bytesFrom i off k = ((s.data i).drop off).take k := by
  apply List.ext_getElem
  . rw [List.length_take, List.length_drop, length_data]
    unfold bytesFrom
    rw [List.length_map, List.length_range]
    omega
  . intro j hj hj'
    simp [bytesFrom, data, Chunks.contents]

theorem readi_loop (h : Work nmeta s i) (hsized : Sized s.disk (s.inode i).din) {off k : Nat}
    (hk : off + k ≤ (s.inode i).din.size.toNat)
    : Outcome.loop .stuck (readiBody i k) (k + 1) (0, off, [], s) = .ok (s.bytesFrom i off k, s) := by
  have hMF : MAXFILE = 140 := rfl
  have hBS : BSIZE = 512 := rfl
  have hsat : Sat (fun _ => False) (fun r => r = (s.bytesFrom i off k, s))
      (Outcome.loop .stuck (readiBody i k) (k + 1) (0, off, [], s)) := by
    refine Sat.loop (fun b => b.1 ≤ k ∧ b.2.1 = off + b.1 ∧ b.2.2.1 = s.bytesFrom i off b.1 ∧ b.2.2.2 = s)
      (fun b => k - b.1) ?_ ⟨Nat.zero_le _, rfl, rfl, rfl⟩ (by omega)
    rintro ⟨tot, off', dst, s'⟩ ⟨htot, hoff, hdst, hs'⟩
    dsimp only at htot hoff hdst hs'
    rw [hs', hoff]
    unfold readiBody
    dsimp only
    split
    . next hlt =>
      have hsize := hsized.1
      have hbn : (off + tot) / BSIZE * BSIZE < (s.inode i).din.size.toNat := by
        rw [hBS]
        omega
      have hmapped := hsized.2 _ hbn
      have hlast : (off + tot) / BSIZE < MAXFILE := by
        have hsize' : (s.inode i).din.size.toNat ≤ 140 * 512 := hsize
        change (off + tot) / 512 < 140
        omega
      have hmod := Nat.mod_lt (off + tot) (y := BSIZE) (by decide)
      have hdiv := Nat.div_add_mod' (off + tot) BSIZE
      rw [bmap_of_mapped hlast hmapped]
      have hbytes := Chunks.bytes_eq (s.chunks i) ((off + tot) / BSIZE)
        (show (off + tot) % BSIZE + min (k - tot) (BSIZE - (off + tot) % BSIZE) ≤ BSIZE by omega)
      refine ⟨⟨?_, ?_, ?_, rfl⟩, ?_⟩
      . dsimp only
        omega
      . dsimp only
        omega
      . dsimp only
        rw [hdst, h.disk_slot hmapped, hbytes, bytesFrom_add, hdiv]
        rfl
      . dsimp only
        omega
    . next hge =>
      have heq : tot = k := by omega
      change (dst, s) = _
      rw [hdst, heq]
  cases hloop : Outcome.loop .stuck (readiBody i k) (k + 1) (0, off, [], s) with
  | ok r => rw [hsat.of_ok hloop]
  | error e => exact absurd (hsat.of_error hloop) not_false

theorem toNat_add_of_not_lt {off n' : UInt32} (h : ¬off + n' < off) : (off + n').toNat = off.toNat + n'.toNat := by
  have hge : off.toNat ≤ (off + n').toNat := UInt32.not_lt.mp h
  have hlt := n'.toNat_lt
  have hlt' := off.toNat_lt
  rw [UInt32.toNat_add] at hge ⊢
  omega

theorem readi_eq (h : Work nmeta s i) (hsized : Sized s.disk (s.inode i).din)
    (htype : (s.inode i).din.type ≠ T_DEV) (off n' : UInt32)
    : s.readi i off n'
      = if off > (s.inode i).din.size ∨ off + n' < off then .ok (-1, [], s)
        else .ok ((min n'.toNat ((s.inode i).din.size.toNat - off.toNat) : Nat),
          ((s.data i).drop off.toNat).take (min n'.toNat ((s.inode i).din.size.toNat - off.toNat)), s) := by
  unfold readi
  dsimp only
  rw [if_neg htype]
  split
  . rfl
  . next hcond =>
    rw [not_or] at hcond
    have hle : off.toNat ≤ (s.inode i).din.size.toNat := UInt32.not_lt.mp hcond.1
    have hnowrap := toNat_add_of_not_lt hcond.2
    have hn : (if off + n' > (s.inode i).din.size then (s.inode i).din.size - off else n').toNat
        = min n'.toNat ((s.inode i).din.size.toNat - off.toNat) := by
      split
      . next hgt =>
        have hgt : (s.inode i).din.size.toNat < (off + n').toNat := hgt
        rw [UInt32.toNat_sub_of_le _ _ hle]
        omega
      . next hgt =>
        have hgt : (off + n').toNat ≤ (s.inode i).din.size.toNat := UInt32.not_lt.mp hgt
        omega
    rw [hn, readi_loop h hsized (by omega), bytesFrom_eq_data (by omega)]
    rfl

theorem Work.grow_writeData (h : Work nmeta s i) {bn : Nat} {block : Block}
    (hne : s.own i ((s.inode i).inum, fileSlot bn) ≠ 0)
    (hs' : s' = { s with toStore := s.toStore.wrote (s.own i ((s.inode i).inum, fileSlot bn)) block })
    : Grow nmeta s s' i 1 ∅ ∧ content s'.disk (s'.view i)
      = Function.update (content s.disk (s.view i)) (s.inode i).inum (Function.update (s.chunks i) bn block) := by
  have hwrite := h.consistent.writeData hne (fileSlot_ne bn) block
  have hcontent := h.consistent.content_writeData hne block
  have hdisk : s'.disk = Function.update s.disk (s.own i ((s.inode i).inum, fileSlot bn)) block := by
    rw [hs']
    rfl
  have hsb : s'.sb = s.sb := by
    rw [hs']
    rfl
  have hinode : s'.inode = s.inode := by
    rw [hs']
  rw [← hdisk] at hwrite hcontent
  have hview : s'.view i = s.view i := by
    unfold view
    rw [hsb, hinode, hwrite.2.2]
  have hown : s'.own i = s.own i := by
    unfold own
    rw [hview, hwrite.2.1]
  refine ⟨⟨?_, ?_, ?_, ?_, ?_, ?_, ?_, ?_, ?_⟩, ?_⟩
  . rw [hs']
    exact Store.wrote_wrote _ _ _
  . rw [hs']
  . intro j _
    rw [hinode]
  . exact ⟨(s.inode i).din.addrs, by rw [hinode]⟩
  . rw [hsb]
    exact hwrite.2.2
  . rw [hsb, hview]
    exact hwrite.1
  . intro p _
    rw [hown]
  . simp
  . rw [hsb, Finset.card_empty, Nat.add_zero]
    apply Superblock.free_congr
    intro c hc
    rw [hdisk]
    apply Superblock.bit_update_of_ne
    have hlt := h.consistent.geo.bblock_lt c hc
    have hge := h.consistent.owner_ge hne
    change owner s.disk (s.view i) _ ≠ _
    omega
  . rw [hview]
    exact hcontent

def rounds (off k : Nat) : Nat :=
  if k = 0 then 0 else (off % BSIZE + k + (BSIZE - 1)) / BSIZE

theorem rounds_of_pos {off k : Nat} (h : 0 < k) : rounds off k = (off % 512 + k + 511) / 512 :=
  if_neg (by omega)

theorem div_eq_add_rounds {off tot : Nat} (haligned : tot = 0 ∨ (off + tot) % 512 = 0)
    : (off + tot) / 512 = off / 512 + rounds off tot := by
  by_cases hzero : tot = 0
  . rw [hzero]
    rfl
  . rw [rounds_of_pos (by omega)]
    omega

theorem rounds_lt {off tot k : Nat} (haligned : tot = 0 ∨ (off + tot) % 512 = 0) (htot : tot < k)
    : rounds off tot < rounds off k := by
  have hdiv := div_eq_add_rounds haligned
  rw [rounds_of_pos (Nat.zero_lt_of_lt htot)]
  omega

theorem rounds_add {off tot m : Nat} (haligned : tot = 0 ∨ (off + tot) % 512 = 0) (hpos : 0 < m)
    (hm : m ≤ 512 - (off + tot) % 512)
    : rounds off (tot + m) = rounds off tot + 1 := by
  have hdiv := div_eq_add_rounds haligned
  rw [rounds_of_pos (Nat.add_pos_right tot hpos)]
  omega

def touched (off k : Nat) : Finset Nat :=
  (Finset.range (rounds off k)).biUnion fun q => blockSlots (off / BSIZE + q)

structure Written (nmeta : Nat) (s s' : State n) (i : Fin n) (src : Nat → UInt8) (off tot k : Nat) : Prop where
  grow : ∃ new, new ⊆ touched off k ∧ Grow nmeta s s' i (6 * rounds off tot) new
  self : ∀ m, Chunks.byteAt (s'.chunks i) m
    = if off ≤ m ∧ m < off + tot then src (m - off) else Chunks.byteAt (s.chunks i) m
  others : ∀ y, y ≠ (s.inode i).inum → content s'.disk (s'.view i) y = content s.disk (s.view i) y
  mapped : ∀ m, off ≤ m → m < off + tot → s'.own i ((s.inode i).inum, fileSlot (m / BSIZE)) ≠ 0
  same : (∀ m, off ≤ m → m < off + k → s.own i ((s.inode i).inum, fileSlot (m / BSIZE)) ≠ 0)
    → s'.inode = s.inode

theorem Written.zero (h : Consistent s.sb nmeta s.disk (s.view i)) (src : Nat → UInt8) (off k : Nat)
    : Written nmeta s s i src off 0 k := by
  refine ⟨⟨∅, Finset.empty_subset _, (Grow.refl h).mono (Nat.zero_le _)⟩, ?_, fun _ _ => rfl, ?_, fun _ => rfl⟩
  . intro m
    rw [if_neg (by omega)]
  . intro m hm hm'
    omega

theorem blockSlots_subset_touched {off k q : Nat} (hq : q < rounds off k)
    : blockSlots (off / BSIZE + q) ⊆ touched off k :=
  Finset.subset_biUnion_of_mem (fun q => blockSlots (off / BSIZE + q)) (Finset.mem_range.mpr hq)

theorem Written.write {s0 s1 s2 : State n} {src : Nat → UInt8} {off tot k m addr : Nat} (h0 : Work nmeta s0 i)
    (h : Written nmeta s0 s i src off tot k) (htot : tot < k)
    (haligned : tot = 0 ∨ (off + tot) % BSIZE = 0)
    (hmapped : Mapped nmeta s s1 i (fileSlot ((off + tot) / BSIZE)) addr 5 (blockSlots ((off + tot) / BSIZE)))
    (hm : min (k - tot) (BSIZE - (off + tot) % BSIZE) = m)
    (hs2 : s2 = { s1 with toStore := s1.toStore.wrote addr ((s1.disk addr).setBytes ((off + tot) % BSIZE)
      ((List.range m).map fun j => src (tot + j))) })
    : Written nmeta s0 s2 i src off (tot + m) k := by
  have hBS : BSIZE = 512 := rfl
  have haligned : tot = 0 ∨ (off + tot) % 512 = 0 := haligned
  have hm : min (k - tot) (512 - (off + tot) % 512) = m := hm
  rcases h.grow with ⟨new, hsub, hgrow⟩
  rcases hmapped.grow with ⟨new1, hsub1, hgrow1⟩
  have hblock : addr = s1.own i ((s1.inode i).inum, fileSlot ((off + tot) / BSIZE)) := by
    rw [hgrow1.inum]
    exact hmapped.block
  have hne : s1.own i ((s1.inode i).inum, fileSlot ((off + tot) / BSIZE)) ≠ 0 := by
    rw [← hblock]
    exact hmapped.ne_zero
  generalize hbytes : (List.range m).map (fun j => src (tot + j)) = l at hs2
  have hlen : l.length = m := by
    rw [← hbytes, List.length_map, List.length_range]
  rw [hblock] at hs2
  have hdata := (hgrow1.work (hgrow.work h0)).grow_writeData hne hs2
  have hgrow2 := hgrow1.trans hdata.1
  have hall := hgrow.trans hgrow2
  have hinum1 : (s1.inode i).inum = (s0.inode i).inum := hgrow1.inum.trans hgrow.inum
  have hinum2 : (s2.inode i).inum = (s0.inode i).inum := hall.inum
  -- the block that is written, as a block of the content
  have hchunk : s1.disk addr = s1.chunks i ((off + tot) / BSIZE) := by
    unfold chunks content
    rw [hblock, if_neg hne]
  have hchunks : s1.chunks i = s.chunks i := by
    unfold chunks
    rw [hmapped.content, hgrow1.inum]
  have hchunks2 : s2.chunks i = Function.update (s.chunks i) ((off + tot) / BSIZE)
      ((s.chunks i ((off + tot) / BSIZE)).setBytes ((off + tot) % BSIZE) l) := by
    unfold chunks
    rw [hdata.2, hinum2, ← hinum1, Function.update_self, ← hblock, hchunk, hchunks]
    rfl
  have hmod := Nat.mod_lt (off + tot) (y := BSIZE) (by decide)
  have hdiv := Nat.div_add_mod' (off + tot) BSIZE
  constructor
  . have hslots : blockSlots ((off + tot) / BSIZE) ⊆ touched off k := by
      rw [show (off + tot) / BSIZE = _ from div_eq_add_rounds haligned]
      exact blockSlots_subset_touched (rounds_lt haligned htot)
    refine ⟨_, Finset.union_subset hsub (Finset.union_subset (hsub1.trans hslots) (Finset.empty_subset _)),
      hall.mono ?_⟩
    rw [rounds_add haligned (by omega) (by omega)]
    omega
  . intro j
    rw [hchunks2, Chunks.byteAt_update _ _ (by omega), hdiv, h.self j]
    by_cases hnew : off + tot ≤ j ∧ j < off + tot + l.length
    . rw [if_pos hnew, if_pos (by omega), ← hbytes]
      have hidx : j - (off + tot) < m := by omega
      rw [List.getD_eq_getElem _ _ (by rw [List.length_map, List.length_range]; exact hidx), List.getElem_map,
        List.getElem_range]
      congr 1
      omega
    . rw [if_neg hnew]
      by_cases hold : off ≤ j ∧ j < off + tot
      . rw [if_pos hold, if_pos (by omega)]
      . rw [if_neg hold, if_neg (by omega)]
  . intro y hy
    rw [hdata.2, Function.update_of_ne (by rw [hinum1]; exact hy), hmapped.content]
    exact h.others y hy
  . intro j hj hj'
    by_cases hold : j < off + tot
    . have hmapped0 := h.mapped j hj hold
      rw [← hgrow.inum] at hmapped0 ⊢
      rw [hgrow2.keep hmapped0]
      exact hmapped0
    . have hblockj : j / BSIZE = (off + tot) / BSIZE := by
        change j / 512 = (off + tot) / 512
        omega
      rw [hblockj, ← hinum1, hdata.1.same _ (by simp)]
      exact hne
  . intro hmappedAll
    have hinode := h.same hmappedAll
    have hown : s.own i ((s.inode i).inum, fileSlot ((off + tot) / BSIZE)) ≠ 0 := by
      have hmapped0 := hmappedAll (off + tot) (by omega) (by omega)
      rw [hgrow.inum, hgrow.keep hmapped0]
      exact hmapped0
    have hs1 : s1 = s := hmapped.same hown
    rw [hs2, ← hinode]
    change s1.inode = s.inode
    rw [hs1]

theorem logWrite_sat (s : State n) (b : Nat) (data : Block)
    : Sat (s.Limit 1 0) (fun s' => s' = { s with toStore := s.toStore.wrote b data }) (s.logWrite b data) := by
  apply Sat.bind (Store.logWrite_sat s.toStore b data)
  intro st hst
  rw [hst]
  rfl

theorem Written.round {s0 : State n} {src : Nat → UInt8} {off tot k : Nat} (h0 : Work nmeta s0 i)
    (h : Written nmeta s0 s i src off tot k) (htot : tot < k)
    (haligned : tot = 0 ∨ (off + tot) % BSIZE = 0) (hmax : off + k ≤ MAXFILE * BSIZE)
    : Sat (s0.Limit (6 * rounds off k) (s0.missing i (touched off k)))
      (Sum.elim (fun b => b.1 = tot + min (k - tot) (BSIZE - (off + tot) % BSIZE) ∧ b.2.1 = off + b.1
        ∧ Written nmeta s0 b.2.2 i src off b.1 k) (fun _ => False))
      (writeiBody i src k (tot, off + tot, s)) := by
  rcases h.grow with ⟨new, hsub, hgrow⟩
  have hlast : (off + tot) / BSIZE < MAXFILE := by
    have hmax : off + k ≤ 140 * 512 := hmax
    change (off + tot) / 512 < 140
    omega
  have hrounds := rounds_lt haligned htot
  have hfits : ∀ j, s0.Fits (6 * rounds off k) → j ≤ 6 → s.Fits j := by
    intro j hfits hj
    apply hgrow.wrote.fits
    apply hfits.mono
    omega
  unfold writeiBody
  dsimp only
  rw [if_pos htot]
  apply Sat.bind ((bmap_sat (hgrow.work h0) hlast).mono
    (fun e he => he.mono (fun hf => hfits 5 hf (by omega)) ?_) (fun _ h => h))
  . rintro ⟨addr, s1⟩ hmapped
    rcases hmapped.grow with ⟨_, _, hgrow1⟩
    dsimp only
    generalize hm : min (k - tot) (BSIZE - (off + tot) % BSIZE) = m
    apply Sat.bind ((logWrite_sat s1 _ _).mono
      (fun e he => he.mono (fun hf => hgrow1.wrote.fits 1 (hfits 6 hf (by omega))) (by omega)) (fun _ h => h))
    intro s2 hs2
    exact ⟨rfl, Nat.add_assoc .., h.write h0 htot haligned hmapped hm hs2⟩
  . intro hlt
    have hcard := hgrow.card_le_missing hsub
    have hfree := hgrow.free
    have hslots : blockSlots ((off + tot) / BSIZE) ⊆ touched off k := by
      rw [show (off + tot) / BSIZE = _ from div_eq_add_rounds haligned]
      exact blockSlots_subset_touched hrounds
    have hmono : s.missing i (blockSlots ((off + tot) / BSIZE)) ≤ s.missing i (touched off k) := missing_mono hslots
    omega

theorem writeiBody_loop {E : Halt → Prop} (inv : Nat → State n → Prop) (src : Nat → UInt8) {off k : Nat}
    (hround : ∀ tot s', tot < k → (tot = 0 ∨ (off + tot) % BSIZE = 0) → inv tot s' →
      Sat E (Sum.elim (fun b => b.1 = tot + min (k - tot) (BSIZE - (off + tot) % BSIZE) ∧ b.2.1 = off + b.1
        ∧ inv b.1 b.2.2) (fun _ => False)) (writeiBody i src k (tot, off + tot, s')))
    (h : inv 0 s)
    : Sat E (fun r => r.1 = off + k ∧ inv k r.2)
      (Outcome.loop .stuck (writeiBody i src k) (k + 1) (0, off, s)) := by
  refine Sat.loop (fun b => b.1 ≤ k ∧ b.2.1 = off + b.1
      ∧ (b.1 = 0 ∨ (off + b.1) % BSIZE = 0 ∨ b.1 = k) ∧ inv b.1 b.2.2)
    (fun b => k - b.1) ?_ ⟨Nat.zero_le _, rfl, .inl rfl, h⟩ (by omega)
  rintro ⟨tot, off', s'⟩ ⟨htot, hoff, haligned, hinv⟩
  dsimp only at htot hoff haligned hinv
  rw [hoff]
  by_cases hlt : tot < k
  . apply (hround tot s' hlt (by omega) hinv).mono (fun _ h => h)
    intro r hr
    cases r with
    | inl b =>
      rcases hr with ⟨hb, hb', hinv'⟩
      have hb : b.1 = tot + min (k - tot) (512 - (off + tot) % 512) := hb
      refine ⟨⟨by omega, hb', ?_, hinv'⟩, by dsimp only; omega⟩
      change b.1 = 0 ∨ (off + b.1) % 512 = 0 ∨ b.1 = k
      omega
    | inr c => exact absurd hr not_false
  . have heq : tot = k := by omega
    unfold writeiBody
    dsimp only
    rw [if_neg hlt]
    rw [heq] at hinv ⊢
    exact ⟨rfl, hinv⟩

theorem writei_loop (h : Work nmeta s i) (src : Nat → UInt8) {off k : Nat} (hmax : off + k ≤ MAXFILE * BSIZE)
    : Sat (s.Limit (6 * rounds off k) (s.missing i (touched off k)))
      (fun r => r.1 = off + k ∧ Written nmeta s r.2 i src off k k)
      (Outcome.loop .stuck (writeiBody i src k) (k + 1) (0, off, s)) :=
  writeiBody_loop (fun tot s' => Written nmeta s s' i src off tot k) src
    (fun _ _ hlt haligned hwritten => Written.round h hwritten hlt haligned hmax) (.zero h.consistent src off k)

theorem owner_update {d : Disk} {tab : Nat → Dinode} {x : Nat} {di : Dinode} (htype : di.type = (tab x).type)
    (haddrs : di.addrs = (tab x).addrs)
    : owner d (Function.update tab x di) = owner d tab := by
  have haddr : ∀ k, di.addr k = (tab x).addr k := by
    intro k
    unfold Dinode.addr
    rw [haddrs]
  funext p
  unfold owner
  by_cases hp : p.1 = x
  . rw [hp, Function.update_self, htype]
    split
    . rfl
    . unfold slot
      rw [haddr, haddr]
  . rw [Function.update_of_ne hp]

theorem view_setDin (s : State n) (i : Fin n) (di : Dinode)
    : (s.setDin i di).view i = Function.update (s.view i) (s.inode i).inum di := by
  have hself : (s.setDin i di).inode i = { s.inode i with din := di } := Function.update_self ..
  unfold view
  rw [hself, Function.update_idem]
  rfl

theorem Work.setDin (h : Work nmeta s i) {di : Dinode} (htype : di.type = (s.inode i).din.type)
    (haddrs : di.addrs = (s.inode i).din.addrs)
    : Work nmeta (s.setDin i di) i ∧ (s.setDin i di).own i = s.own i := by
  have hself : (s.setDin i di).inode i = { s.inode i with din := di } := Function.update_self ..
  have hview := s.view_setDin i di
  have hown : (s.setDin i di).own i = s.own i := by
    unfold own
    rw [hview]
    apply owner_update
    . rw [view_self, htype]
    . rw [view_self, haddrs]
  refine ⟨⟨⟨⟨h.consistent.geo, h.consistent.pos, h.consistent.used, ?_⟩, ?_⟩, ?_⟩, hown⟩
  . have howners := h.consistent.owners
    change Owners ((s.setDin i di).own i) _ _ _
    rw [hown]
    exact howners
  . intro x hx
    rw [hview]
    by_cases hxi : x = (s.inode i).inum
    . rw [hxi, Function.update_self, htype, ← view_self]
      rw [hxi] at hx
      exact h.consistent.unallocated _ hx
    . rw [Function.update_of_ne hxi]
      exact h.consistent.unallocated x hx
  . rw [hself]
    dsimp only
    rw [htype]
    exact h.type

theorem Work.inum_lt (h : Work nmeta s i) : (s.inode i).inum < s.sb.ninodes := by
  by_contra hge
  have hzero := h.consistent.unallocated _ (Nat.not_lt.mp hge)
  rw [view_self] at hzero
  exact h.type hzero

structure Saved (nmeta : Nat) (s s' : State n) (i : Fin n) : Prop where
  wrote : Store.Wrote s.toStore s'.toStore 1
  devsw : s'.devsw = s.devsw
  inode : s'.inode = s.inode
  table : s'.sb.table s'.disk = s.view i
  consistent : Consistent s'.sb nmeta s'.disk (s.view i)
  own : owner s'.disk (s.view i) = s.own i
  data : ∀ c, nmeta ≤ c → s'.disk c = s.disk c
  free : s'.sb.free s'.disk = s.sb.free s.disk

theorem iupdate_saved (h : Consistent s.sb nmeta s.disk (s.view i)) (hinum : (s.inode i).inum < s.sb.ninodes)
    : Sat (s.Limit 1 0) (fun s' => Saved nmeta s s' i) (s.iupdate i) := by
  apply Sat.bind (Store.logWrite_sat s.toStore _ _)
  intro st hst
  have hsb : st.sb = s.sb := by
    rw [hst]
    rfl
  have hdisk : st.disk = Function.update s.disk (s.sb.iblock (s.inode i).inum)
      ((s.inode i).din.put (s.disk (s.sb.iblock (s.inode i).inum)) (dinodeOff (s.inode i).inum)) := by
    rw [hst]
    rfl
  have hmeta : ∀ c, nmeta ≤ c → st.disk c = s.disk c := by
    intro c hc
    have hlt := h.geo.iblock_lt _ hinum
    rw [hdisk, Function.update_of_ne (by omega)]
  have hbit : ∀ b, b < s.sb.size → s.sb.bit st.disk b = s.sb.bit s.disk b := by
    intro b hb
    rw [hdisk]
    exact Superblock.bit_update_of_ne (h.geo.iblock_ne_bblock _ hinum b hb) _
  have hcons := h.writeMeta hmeta hbit
  refine ⟨?_, rfl, rfl, ?_, ?_, hcons.2, hmeta, ?_⟩
  . change Store.Wrote s.toStore st 1
    rw [hst]
    exact Store.wrote_wrote _ _ _
  . change st.sb.table st.disk = _
    rw [hsb, hdisk, Superblock.table_put hinum]
    rfl
  . change Consistent st.sb nmeta st.disk _
    rw [hsb]
    exact hcons.1
  . change st.sb.free st.disk = _
    rw [hsb]
    exact Superblock.free_congr hbit

structure Updated (nmeta : Nat) (s s' : State n) (i : Fin n) : Prop where
  wrote : Store.Wrote s.toStore s'.toStore 1
  devsw : s'.devsw = s.devsw
  inode : s'.inode = s.inode
  table : s'.sb.table s'.disk = s.view i
  view : s'.view i = s.view i
  work : Work nmeta s' i
  own : s'.own i = s.own i
  content : content s'.disk (s'.view i) = content s.disk (s.view i)
  free : s'.sb.free s'.disk = s.sb.free s.disk

theorem iupdate_sat (h : Work nmeta s i) : Sat (s.Limit 1 0) (fun s' => Updated nmeta s s' i) (s.iupdate i) := by
  apply (iupdate_saved h.consistent h.inum_lt).mono (fun _ he => he)
  intro s' hsaved
  have hview : s'.view i = s.view i := by
    unfold view
    rw [hsaved.table, hsaved.inode]
    unfold view
    rw [Function.update_idem]
  refine ⟨hsaved.wrote, hsaved.devsw, hsaved.inode, hsaved.table, hview, ⟨?_, ?_⟩, ?_, ?_, hsaved.free⟩
  . rw [hview]
    exact hsaved.consistent
  . rw [hsaved.inode]
    exact h.type
  . unfold State.own
    rw [hview]
    exact hsaved.own
  . rw [hview]
    exact h.consistent.content_writeMeta hsaved.data hsaved.own

structure Overwritten (nmeta : Nat) (s s' : State n) (i : Fin n) (src : Nat → UInt8) (off k : Nat) : Prop where
  work : Work nmeta s' i
  sized : Sized s'.disk (s'.inode i).din
  sb : s'.sb = s.sb
  devsw : s'.devsw = s.devsw
  others : ∀ j, j ≠ i → s'.inode j = s.inode j
  self : ∃ a z, s'.inode i = { s.inode i with din := { (s.inode i).din with addrs := a, size := z } }
  size : (s'.inode i).din.size.toNat = max (s.inode i).din.size.toNat (off + k)
  data : s'.data i = (s.data i).take off ++ (List.range k).map src ++ (s.data i).drop (off + k)
  bytes : ∀ m, Chunks.byteAt (s'.chunks i) m
    = if off ≤ m ∧ m < off + k then src (m - off) else Chunks.byteAt (s.chunks i) m
  content : ∀ y, y ≠ (s.inode i).inum → content s'.disk (s'.view i) y = content s.disk (s.view i) y
  table : ∀ y, y ≠ (s.inode i).inum → s'.sb.table s'.disk y = s.sb.table s.disk y
  keep : ∀ p, s.own i p ≠ 0 → s'.own i p = s.own i p
  synced : s.sb.table s.disk (s.inode i).inum = (s.inode i).din
    → s'.sb.table s'.disk (s.inode i).inum = (s'.inode i).din

namespace Written

variable {src : Nat → UInt8} {off k : Nat}

section
variable (h : Written nmeta s s' i src off k k)
include h

theorem mapped_lt (hwork : Work nmeta s i)
    (hsized : Sized s.disk (s.inode i).din) (hoff : off ≤ (s.inode i).din.size.toNat) {bn : Nat}
    (hbn : bn * BSIZE < max (s.inode i).din.size.toNat (off + k))
    : s'.own i ((s.inode i).inum, fileSlot bn) ≠ 0 := by
  rcases h.grow with ⟨new, _, hgrow⟩
  by_cases hold : bn * BSIZE < (s.inode i).din.size.toNat
  . have hmapped : s.own i ((s.inode i).inum, fileSlot bn) ≠ 0 := by
      rw [hwork.own_eq]
      exact hsized.2 bn hold
    rw [hgrow.keep hmapped]
    exact hmapped
  . have hmapped := h.mapped (bn * BSIZE) (by omega) (by omega)
    rw [Nat.mul_div_cancel _ (by decide)] at hmapped
    exact hmapped

theorem not_grown (hwork : Work nmeta s i)
    (hsized : Sized s.disk (s.inode i).din) (hend : off + k ≤ (s.inode i).din.size.toNat)
    : Overwritten nmeta s s' i src off k := by
  rcases h.grow with ⟨new, _, hgrow⟩
  have hmax : max (s.inode i).din.size.toNat (off + k) = (s.inode i).din.size.toNat := Nat.max_eq_left hend
  have hwork' := hgrow.work hwork
  have hsame : s'.inode = s.inode := by
    apply h.same
    intro m hm hm'
    rw [hwork.own_eq]
    apply hsized.2
    have hdiv := Nat.div_mul_le_self m BSIZE
    omega
  refine ⟨hwork', ⟨?_, ?_⟩, hgrow.wrote.sb, hgrow.devsw, hgrow.others, ?_, ?_, ?_, h.self, h.others, ?_,
    fun p hp => hgrow.keep hp, ?_⟩
  . rw [hsame]
    exact hsized.1
  . intro bn hbn
    rw [← hwork'.own_eq, hgrow.inum]
    apply h.mapped_lt hwork hsized (by omega)
    rw [hmax, ← hsame]
    exact hbn
  . refine ⟨(s.inode i).din.addrs, (s.inode i).din.size, ?_⟩
    rw [hsame]
  . rw [hmax, hsame]
  . have hdata := Chunks.contents_overwrite (show off ≤ (s.inode i).din.size.toNat by omega) h.self
    rw [hmax] at hdata
    unfold State.data
    rw [hsame]
    exact hdata
  . intro y _
    rw [hgrow.table]
  . intro hsync
    rw [hgrow.table, hsync, hsame]

theorem grown {s'' : State n} (hwork : Work nmeta s i)
    (hsized : Sized s.disk (s.inode i).din) (hoff : off ≤ (s.inode i).din.size.toNat)
    (hmax : off + k ≤ MAXFILE * BSIZE) (hend : (s.inode i).din.size.toNat < off + k)
    (hupdated : Updated nmeta (s'.setDin i { (s'.inode i).din with size := UInt32.ofNat (off + k) }) s'' i)
    : Overwritten nmeta s s'' i src off k := by
  rcases h.grow with ⟨new, _, hgrow⟩
  have hlt : off + k < 2 ^ 32 := Nat.lt_of_le_of_lt hmax (by decide)
  have hwork' := hgrow.work hwork
  rcases hgrow.self with ⟨a, hself⟩
  generalize hdi : { (s'.inode i).din with size := UInt32.ofNat (off + k) } = di at hupdated
  have hset := hwork'.setDin (show di.type = (s'.inode i).din.type by rw [← hdi]) (by rw [← hdi])
  have hview := s'.view_setDin i di
  have hself' : (s'.setDin i di).inode i = { s'.inode i with din := di } := Function.update_self ..
  have hinode : s''.inode i
      = { s.inode i with din := { (s.inode i).din with addrs := a, size := UInt32.ofNat (off + k) } } := by
    rw [hupdated.inode, hself', ← hdi, hself]
  have hsize : (s''.inode i).din.size.toNat = off + k := by
    rw [hinode]
    exact UInt32.toNat_ofNat_of_lt' hlt
  have hown : s''.own i = s'.own i := hupdated.own.trans hset.2
  have hcontent : content s''.disk (s''.view i) = content s'.disk (s'.view i) := by
    rw [hupdated.content]
    unfold Fs.content
    change (fun x bn => if (s'.setDin i di).own i (x, fileSlot bn) = 0 then _
      else s'.disk ((s'.setDin i di).own i _)) = _
    rw [hset.2]
  have hinum : (s''.inode i).inum = (s.inode i).inum := by
    rw [hinode]
  have hmaxeq : max (s.inode i).din.size.toNat (off + k) = off + k := Nat.max_eq_right (by omega)
  have hchunks : s''.chunks i = s'.chunks i := by
    unfold chunks
    rw [hcontent, hinum, hgrow.inum]
  have htable : s''.sb.table s''.disk = Function.update (s'.view i) (s'.inode i).inum di := by
    rw [hupdated.table, hview]
  refine ⟨hupdated.work, ⟨?_, ?_⟩, ?_, ?_, ?_, ⟨a, _, hinode⟩, ?_, ?_, ?_, ?_, ?_, ?_, ?_⟩
  . rw [hsize]
    exact hmax
  . intro bn hbn
    rw [← hupdated.work.own_eq, hinum, hown]
    apply h.mapped_lt hwork hsized hoff
    rw [hmaxeq, ← hsize]
    exact hbn
  . exact hupdated.wrote.sb.trans hgrow.wrote.sb
  . exact hupdated.devsw.trans hgrow.devsw
  . intro j hj
    rw [hupdated.inode, ← hgrow.others j hj]
    exact Function.update_of_ne hj ..
  . rw [hsize, hmaxeq]
  . have hdata := Chunks.contents_overwrite hoff h.self
    rw [hmaxeq] at hdata
    unfold State.data
    rw [hsize, hchunks]
    exact hdata
  . rw [hchunks]
    exact h.self
  . intro y hy
    rw [hcontent]
    exact h.others y hy
  . intro y hy
    rw [htable, hgrow.inum, Function.update_of_ne hy]
    unfold view
    rw [hgrow.inum, Function.update_of_ne hy, hgrow.table]
  . intro p hp
    rw [hown]
    exact hgrow.keep hp
  . intro _
    rw [htable, ← hgrow.inum, Function.update_self, hupdated.inode, hself']

end

end Written

theorem writei_sat (h : Work nmeta s i) (hsized : Sized s.disk (s.inode i).din)
    (htype : (s.inode i).din.type ≠ T_DEV) (src : Nat → UInt8) (off n' : UInt32)
    : Sat (s.Limit (6 * rounds off.toNat n'.toNat + 1) (s.missing i (touched off.toNat n'.toNat)))
      (fun r : Int × State n => (r = (-1, s) ∧ (off > (s.inode i).din.size ∨ off + n' < off
          ∨ off + n' > UInt32.ofNat (MAXFILE * BSIZE)))
        ∨ r.1 = n'.toNat ∧ ¬(off > (s.inode i).din.size ∨ off + n' < off
          ∨ off + n' > UInt32.ofNat (MAXFILE * BSIZE))
          ∧ Overwritten nmeta s r.2 i src off.toNat n'.toNat)
      (s.writei i src off n') := by
  unfold writei
  dsimp only
  rw [if_neg htype]
  split
  . next hcond =>
    refine .inl ⟨rfl, ?_⟩
    rcases hcond with hcond | hcond
    . exact .inl hcond
    . exact .inr (.inl hcond)
  . next hcond =>
    split
    . next hbig => exact .inl ⟨rfl, .inr (.inr hbig)⟩
    . next hbig =>
      have hnot : ¬(off > (s.inode i).din.size ∨ off + n' < off ∨ off + n' > UInt32.ofNat (MAXFILE * BSIZE)) := by
        rintro (hcase | hcase | hcase)
        . exact hcond (.inl hcase)
        . exact hcond (.inr hcase)
        . exact hbig hcase
      rw [not_or] at hcond
      have hle : off.toNat ≤ (s.inode i).din.size.toNat := UInt32.not_lt.mp hcond.1
      have hnowrap := toNat_add_of_not_lt hcond.2
      have hmax : off.toNat + n'.toNat ≤ MAXFILE * BSIZE := by
        have hbig : (off + n').toNat ≤ (UInt32.ofNat (MAXFILE * BSIZE)).toNat := UInt32.not_lt.mp hbig
        rw [hnowrap, UInt32.toNat_ofNat_of_lt' (by decide)] at hbig
        exact hbig
      apply Sat.bind ((writei_loop h src hmax).mono
        (fun e he => he.mono (fun hfits => hfits.mono (by omega)) (fun hlt => hlt)) (fun _ h => h))
      rintro ⟨off', s1⟩ ⟨hoff', hwritten⟩
      dsimp only at hoff' hwritten ⊢
      rcases hwritten.grow with ⟨new, _, hgrow⟩
      have hpos : n' > 0 ↔ 0 < n'.toNat := UInt32.lt_iff_toNat_lt
      rw [hoff']
      split
      . next hgrew =>
        rw [hgrow.size] at hgrew
        have htype1 : Dinode.type { (s1.inode i).din with size := UInt32.ofNat (off.toNat + n'.toNat) }
            = (s1.inode i).din.type := rfl
        have hset := (hgrow.work h).setDin htype1 rfl
        apply Sat.bind ((iupdate_sat hset.1).mono
          (fun e he => he.mono (fun hfits => hgrow.wrote.fits 1 (hfits.mono (by omega))) (by omega)) (fun _ h => h))
        intro s2 hs2
        exact .inr ⟨rfl, hnot, hwritten.grown h hsized hle hmax hgrew.2 hs2⟩
      . next hgrew =>
        rw [hgrow.size] at hgrew
        refine .inr ⟨rfl, hnot, hwritten.not_grown h hsized ?_⟩
        by_contra hend
        apply hgrew
        rw [hpos]
        omega

def blankDisk : Disk :=
  Function.update
    (fun b => if b = 58 then fun j => if j.val < 7 then 255 else if j.val = 7 then 7 else 0 else .zero) 32
    ((Dinode.fresh T_FILE).put .zero (dinodeOff 2))

def blank : State 1 where
  sb := ⟨1000, 941, 200, 30, 2, 32, 58, by decide⟩
  disk := blankDisk
  lh := []
  outstanding := 0
  inode := fun _ => ⟨ROOTDEV, 2, 1, false, true, .fresh T_FILE⟩
  devsw := fun _ => ⟨none, none⟩

theorem table_of_zero {sb : Superblock} {d : Disk} (h : ∀ x, x < sb.ninodes → d (sb.iblock x) = .zero)
    : sb.table d = fun _ => .fresh 0 := by
  funext x
  unfold Superblock.table
  split
  . next hx =>
    unfold Superblock.dinode Dinode.get getShort getUint
    rw [h x hx]
    simp only [Bytes.getLE_zero]
    rfl
  . rfl

section Single

variable {sb : Superblock} {d : Disk} {di : Dinode} {x k : Nat}

theorem owner_of_single (htable : sb.table d = Function.update (fun _ => .fresh 0) x di) (htype : di.type ≠ 0)
    (hk : k ≤ 141) (hslots : ∀ j, j < 141 → slot d di j = if j < k then 59 + j else 0) (p : Nat × Nat)
    : owner d (sb.table d) p = if p.1 = x ∧ p.2 < k then 59 + p.2 else 0 := by
  rw [htable]
  unfold owner
  by_cases hp : p.1 = x
  . rw [hp, Function.update_self, if_neg htype]
    by_cases hj : p.2 < 141
    . rw [hslots _ hj]
      simp
    have hND : NDIRECT = 12 := rfl
    have hNI : NINDIRECT = 128 := rfl
    rw [if_neg (by omega)]
    unfold slot
    rw [if_neg (by omega), if_neg (by omega)]
  . rw [Function.update_of_ne hp, if_pos (show (Dinode.fresh 0).type = 0 from rfl), if_neg (fun h => hp h.1)]

theorem consistent_of_single (hninodes : sb.ninodes = 200) (hinodestart : sb.inodestart = 32)
    (hbmapstart : sb.bmapstart = 58) (hsize : sb.size ≤ 4096) (hmeta : 59 + k ≤ sb.size) (hx : x < 200)
    (htable : sb.table d = Function.update (fun _ => .fresh 0) x di)
    (howner : ∀ p, owner d (sb.table d) p = if p.1 = x ∧ p.2 < k then 59 + p.2 else 0)
    (hbits : ∀ b, b < sb.size → sb.bit d b = decide (b < 59 + k))
    : Consistent sb 59 d (sb.table d) := by
  have hiblock : ∀ y, sb.iblock y = y / 8 + 32 := by
    intro y
    rw [← hinodestart]
    rfl
  have hbblock : ∀ b, sb.bblock b = b / 4096 + 58 := by
    intro b
    rw [← hbmapstart]
    rfl
  have hused : ∀ p, owner d (sb.table d) p ≠ 0
      → p.1 = x ∧ p.2 < k ∧ owner d (sb.table d) p = 59 + p.2 := by
    intro p hp
    rw [howner] at hp ⊢
    split at hp
    . next h => exact ⟨h.1, h.2, if_pos h⟩
    . exact absurd rfl hp
  refine ⟨⟨⟨?_, ?_, ?_⟩, by omega, ?_, ⟨?_, ?_, ?_, ?_⟩⟩, ?_⟩
  . intro y hy
    rw [hiblock]
    omega
  . intro b hb
    rw [hbblock]
    omega
  . intro y hy b hb
    rw [hiblock, hbblock]
    omega
  . intro b hb hlt
    rw [hbits b hlt, decide_eq_true_eq]
    omega
  . intro p hp
    rcases hused p hp with ⟨-, hlt, heq⟩
    rw [heq]
    omega
  . intro p hp
    rcases hused p hp with ⟨-, hlt, heq⟩
    rw [heq, hbits _ (by omega), decide_eq_true_eq]
    omega
  . intro p q hp heq
    have hq : owner d (sb.table d) q ≠ 0 := heq ▸ hp
    rcases hused p hp with ⟨hp1, -, hpeq⟩
    rcases hused q hq with ⟨hq1, -, hqeq⟩
    rw [hpeq, hqeq] at heq
    exact Prod.ext (hp1.trans hq1.symm) (by omega)
  . intro b hlo hhi hbit
    rw [hbits b hhi, decide_eq_true_eq] at hbit
    refine ⟨(x, b - 59), ?_⟩
    rw [howner, if_pos ⟨rfl, by dsimp only; omega⟩]
    dsimp only
    omega
  . intro y hy
    rw [htable, Function.update_of_ne (by omega)]
    rfl

end Single

theorem blank_table : blank.sb.table blank.disk = Function.update (fun _ => .fresh 0) 2 (.fresh T_FILE) := by
  have hput := Superblock.table_put (show 2 < blank.sb.ninodes by decide)
    (fun b => if b = 58 then fun j => if j.val < 7 then 255 else if j.val = 7 then 7 else 0 else .zero)
    (.fresh T_FILE)
  refine hput.trans ?_
  congr 1
  apply table_of_zero
  intro x hx
  have hx : x < 200 := hx
  apply if_neg
  change x / 8 + 32 ≠ 58
  omega

theorem consistent_blank : Consistent blank.sb 59 blank.disk (blank.sb.table blank.disk) := by
  have hslots : ∀ j, j < 141 → slot blank.disk (.fresh T_FILE) j = if j < 0 then 59 + j else 0 := by decide +kernel
  have hbits : ∀ b, b < 1000 → blank.sb.bit blank.disk b = decide (b < 59 + 0) := by decide +kernel
  exact consistent_of_single rfl rfl rfl (by decide) (by decide) (by decide) blank_table
    (owner_of_single blank_table (by decide) (by decide) hslots) hbits

theorem view_blank (i : Fin 1) : blank.view i = blank.sb.table blank.disk := by
  unfold view
  rw [blank_table]
  exact Function.update_idem ..

theorem work_blank {i : Fin 1} : Work 59 blank i := by
  refine ⟨?_, show T_FILE ≠ 0 by decide⟩
  rw [view_blank]
  exact consistent_blank

theorem sized_blank {i : Fin 1} : Sized blank.disk (blank.inode i).din := by
  refine ⟨Nat.zero_le _, ?_⟩
  intro bn hbn
  exact absurd hbn (Nat.not_lt_zero _)

end State
end Xv6.Fs
