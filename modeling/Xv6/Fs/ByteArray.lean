import Xv6.Bcache.LogSteps
import Xv6.Fs.Content

namespace Xv6.Fs

open Outcome

def Halt.NotLog (e : Halt) : Prop :=
  e ≠ .tooBig ∧ e ≠ .outsideOfTrans

namespace Store

variable {s : Store} {b k : Nat}

/-- The number of blocks of the free map that are not in the log yet. -/
def unlogged (s : Store) : Nat :=
  ((Finset.range ((s.sb.size + BPB - 1) / BPB)).filter fun q => s.sb.bmapstart + q ∉ s.lh).card

theorem logWrite_fits (h : s.Fits 1) (data : Block)
    : Sat Halt.NotLog (fun s' => s' = s.wrote b data) (s.logWrite b data) := by
  apply (logWrite_sat s b data).mono _ (fun _ h => h)
  rintro e (⟨_, hnot⟩ | ⟨_, hlt⟩)
  . exact absurd h hnot
  . exact absurd hlt (Nat.not_lt_zero _)

theorem fits_wrote_of_mem (h : s.Fits k) (hb : b ∈ s.lh) (data : Block) : (s.wrote b data).Fits k := by
  have hlh : (s.wrote b data).lh = s.lh := (Bcache.absorb_eq s.lh b).trans (if_pos hb)
  refine ⟨?_, ?_, h.trans⟩ <;> rw [hlh]
  exacts [h.size, h.log]

theorem unlogged_wrote_le (s : Store) (b : Nat) (data : Block) : (s.wrote b data).unlogged ≤ s.unlogged := by
  apply Finset.card_le_card
  apply Finset.monotone_filter_right
  exact fun q _ hq hmem => hq (Bcache.mem_absorb.mpr (.inl hmem))

theorem unlogged_wrote_lt {q : Nat} (hq : q < (s.sb.size + BPB - 1) / BPB)
    (hnot : s.sb.bmapstart + q ∉ s.lh) (data : Block)
    : (s.wrote (s.sb.bmapstart + q) data).unlogged < s.unlogged := by
  apply Finset.card_lt_card
  refine ⟨Finset.monotone_filter_right _ fun r _ hr hmem => hr (Bcache.mem_absorb.mpr (.inl hmem)), ?_⟩
  intro hsub
  have hmem := hsub (Finset.mem_filter.mpr ⟨Finset.mem_range.mpr hq, hnot⟩)
  exact (Finset.mem_filter.mp hmem).2 (Bcache.mem_absorb.mpr (.inr rfl))

/-- The log has kept room for the blocks of the free map, so that `balloc` needs one block more. -/
theorem balloc_fits (h : s.Fits (s.unlogged + k + 1))
    : Sat Halt.NotLog (fun r => r.2.sb = s.sb ∧ r.1 ∈ r.2.lh ∧ (∀ c ∈ s.lh, c ∈ r.2.lh)
        ∧ r.2.Fits (r.2.unlogged + k)) s.balloc := by
  unfold balloc
  split
  . exact ⟨by decide, by decide⟩
  . next q bi hfind =>
    have hq : q < (s.sb.size + BPB - 1) / BPB := by
      rcases List.exists_of_findSome?_eq_some hfind with ⟨q', hmem, hmap⟩
      rcases Option.map_eq_some_iff.mp hmap with ⟨bi', _, heq⟩
      cases heq
      exact List.mem_range.mp hmem
    have hblock : s.sb.bblock (q * BPB) = s.sb.bmapstart + q := by
      unfold Superblock.bblock
      rw [Nat.mul_div_cancel _ (by decide), Nat.add_comm]
    dsimp only
    rw [hblock]
    apply Sat.bind (logWrite_fits (h.mono (by omega)) _)
    rintro st rfl
    generalize (s.disk (s.sb.bmapstart + q)).setBit bi = data
    have hfits : (s.wrote (s.sb.bmapstart + q) data).Fits
        ((s.wrote (s.sb.bmapstart + q) data).unlogged + k + 1) := by
      have hle := unlogged_wrote_le s (s.sb.bmapstart + q) data
      by_cases hmem : s.sb.bmapstart + q ∈ s.lh
      . exact (fits_wrote_of_mem h hmem data).mono (by omega)
      . have hlt := unlogged_wrote_lt hq hmem data
        exact fits_wrote (h.mono (by omega))
    apply Sat.bind (logWrite_fits (hfits.mono (by omega)) _)
    rintro st' rfl
    have hle := unlogged_wrote_le (s.wrote (s.sb.bmapstart + q) data) (q * BPB + bi) .zero
    refine ⟨rfl, Bcache.mem_absorb.mpr (.inr rfl), ?_, (fits_wrote hfits).mono (Nat.add_le_add_right hle k)⟩
    exact fun c hc => Bcache.mem_absorb.mpr (.inl (Bcache.mem_absorb.mpr (.inl hc)))

end Store

namespace State

variable {n : Nat} {s s' : State n} {i : Fin n} {nmeta k : Nat}

def unloggedIndirect (i : Fin n) (s : State n) : Nat :=
  if (s.inode i).din.addr NDIRECT ≠ 0 ∧ (s.inode i).din.addr NDIRECT ∈ s.lh then 0 else 1

/-- The log has room for the free map, for the indirect block and for `k` blocks more. -/
def Room (i : Fin n) (s : State n) (k : Nat) : Prop :=
  s.Fits (s.unlogged + unloggedIndirect i s + k)

theorem unloggedIndirect_le (haddr : (s'.inode i).din.addr NDIRECT = (s.inode i).din.addr NDIRECT)
    (hlh : ∀ c ∈ s.lh, c ∈ s'.lh)
    : unloggedIndirect i s' ≤ unloggedIndirect i s := by
  unfold unloggedIndirect
  rw [haddr]
  split
  . exact Nat.zero_le _
  . next hnot =>
    rw [if_neg fun h => hnot ⟨h.1, hlh _ h.2⟩]

theorem logWrite_fits (h : s.Fits 1) (b : Nat) (data : Block)
    : Sat Halt.NotLog (fun s' => s' = { s with toStore := s.toStore.wrote b data }) (s.logWrite b data) := by
  apply Sat.bind (Store.logWrite_fits h data)
  rintro st rfl
  rfl

theorem balloc_fits (h : s.Fits (s.unlogged + k + 1))
    : Sat Halt.NotLog (fun r => r.2.inode = s.inode ∧ r.1 ∈ r.2.lh ∧ (∀ c ∈ s.lh, c ∈ r.2.lh)
        ∧ r.2.Fits (r.2.unlogged + k)) s.balloc := by
  apply Sat.bind (Store.balloc_fits h)
  rintro ⟨b, st⟩ ⟨_, hb, hlh, hfits⟩
  exact ⟨rfl, hb, hlh, hfits⟩

theorem Room.mapAddr (h : Room i s (k + 1)) {m : Nat} (hm : m < NDIRECT)
    : Sat Halt.NotLog (fun r => Room i r.2 (k + 1) ∨ r.1 ∈ r.2.lh ∧ Room i r.2 k) (s.mapAddr i m) := by
  unfold State.mapAddr
  dsimp only
  split
  . have hfits : s.Fits (s.unlogged + (unloggedIndirect i s + k) + 1) := h.mono (by omega)
    apply Sat.bind (balloc_fits hfits)
    rintro ⟨b, s1⟩ ⟨hinode, hb, hlh, hfits'⟩
    dsimp only at hinode hb hlh hfits' ⊢
    have hself : (s1.setDin i ((s1.inode i).din.setAddr m b)).inode i
        = { s1.inode i with din := (s1.inode i).din.setAddr m b } := Function.update_self ..
    have hle : unloggedIndirect i (s1.setDin i ((s1.inode i).din.setAddr m b)) ≤ unloggedIndirect i s := by
      refine unloggedIndirect_le ?_ hlh
      rw [hself, ← hinode]
      exact Dinode.addr_setAddr_of_ne _ (by omega) b
    refine .inr ⟨hb, hfits'.mono ?_⟩
    change s1.unlogged + unloggedIndirect i (s1.setDin i _) + k ≤ _
    omega
  . exact .inl h

theorem Room.mapIndirect (h : Room i s k) (hwork : Work nmeta s i)
    : Sat Halt.NotLog (fun r => (r.1 ≠ 0 ∧ (r.2.inode i).din.addr NDIRECT = r.1) ∧ Room i r.2 k)
      (s.mapAddr i NDIRECT) := by
  have hnew : Sat Halt.NotLog (fun r => r = ((s.inode i).din.addr NDIRECT, s)
      ∨ r.1 ∈ r.2.lh ∧ r.2.Fits (r.2.unlogged + k)) (s.mapAddr i NDIRECT) := by
    unfold State.mapAddr
    dsimp only
    split
    . next hzero =>
      have hone : unloggedIndirect i s = 1 := if_neg fun h => h.1 hzero
      have hfits : s.Fits (s.unlogged + k + 1) := h.mono (by omega)
      apply Sat.bind (balloc_fits hfits)
      rintro ⟨b, s1⟩ ⟨_, hb, _, hfits'⟩
      exact .inr ⟨hb, hfits'⟩
    . exact .inl rfl
  apply (hnew.and (mapAddr_sat hwork (Nat.le_refl NDIRECT))).mono (fun _ h => h)
  rintro ⟨ind, s1⟩ ⟨hcases, hmapped⟩
  dsimp only at hcases hmapped ⊢
  rcases hmapped.grow with ⟨new, -, hgrow⟩
  have haddr : (s1.inode i).din.addr NDIRECT = ind := by
    rw [hmapped.block, ← hgrow.inum, (hgrow.work hwork).own_eq, slot_of_le (Nat.le_refl NDIRECT)]
  refine ⟨⟨hmapped.ne_zero, haddr⟩, ?_⟩
  rcases hcases with heq | ⟨hind, hfits⟩
  . cases heq
    exact h
  . have hnone : unloggedIndirect i s1 = 0 := by
      refine if_pos ?_
      rw [haddr]
      exact ⟨hmapped.ne_zero, hind⟩
    unfold Room
    rw [hnone]
    exact hfits

theorem Room.wrote {b : Nat} {data : Block}
    (h : (s.toStore.wrote b data).Fits (s.unlogged + unloggedIndirect i s + k))
    : Room i { s with toStore := s.toStore.wrote b data } k := by
  have hle := Store.unlogged_wrote_le s.toStore b data
  have hind : unloggedIndirect i { s with toStore := s.toStore.wrote b data } ≤ unloggedIndirect i s :=
    unloggedIndirect_le rfl fun c hc => Bcache.mem_absorb.mpr (.inl hc)
  exact h.mono (Nat.add_le_add_right (Nat.add_le_add hle hind) k)

/-- The indirect block is written on the room that is kept for it. -/
theorem Room.wroteIndirect {ind : Nat} (h : Room i s k) (hne : ind ≠ 0)
    (haddr : (s.inode i).din.addr NDIRECT = ind) (data : Block)
    : Room i { s with toStore := s.toStore.wrote ind data } k := by
  by_cases hind : ind ∈ s.lh
  . exact Room.wrote (Store.fits_wrote_of_mem h hind data)
  have hone : unloggedIndirect i s = 1 := if_neg fun h => hind (haddr ▸ h.2)
  have hnone : unloggedIndirect i { s with toStore := s.toStore.wrote ind data } = 0 := by
    refine if_pos ?_
    rw [haddr]
    exact ⟨hne, Bcache.mem_absorb.mpr (.inr rfl)⟩
  have hfits : s.Fits (s.unlogged + k + 1) := Store.Fits.mono h (by omega)
  unfold Room
  rw [hnone]
  exact (Store.fits_wrote hfits).mono (Nat.add_le_add_right (Store.unlogged_wrote_le s.toStore ind data) k)

theorem Room.bmap (h : Room i s (k + 1)) (hk : 1 ≤ k) (hwork : Work nmeta s i) (bn : Nat)
    : Sat Halt.NotLog (fun r => Room i r.2 (k + 1) ∨ r.1 ∈ r.2.lh ∧ Room i r.2 k) (s.bmap i bn) := by
  unfold State.bmap
  split
  . next hdirect => exact h.mapAddr hdirect
  dsimp only
  split
  . apply Sat.bind (h.mapIndirect hwork)
    rintro ⟨ind, s1⟩ ⟨⟨hne, haddr⟩, hroom⟩
    dsimp only at hne haddr hroom ⊢
    split
    . have hfits : s1.Fits (s1.unlogged + (unloggedIndirect i s1 + k) + 1) := hroom.mono (by omega)
      apply Sat.bind (balloc_fits hfits)
      rintro ⟨b, s2⟩ ⟨hinode, hb, hlh, hfits'⟩
      dsimp only at hinode hb hlh hfits' ⊢
      have hle : unloggedIndirect i s2 ≤ unloggedIndirect i s1 := unloggedIndirect_le (by rw [hinode]) hlh
      apply Sat.bind (logWrite_fits (hfits'.mono (by omega)) ind _)
      rintro s3 rfl
      refine .inr ⟨Bcache.mem_absorb.mpr (.inl hb), Room.wroteIndirect (hfits'.mono (by omega)) hne ?_ _⟩
      rw [hinode, haddr]
    . exact .inl hroom
  . exact ⟨by decide, by decide⟩

theorem Room.round (h : Room i s (k + 1)) (hk : 1 ≤ k) (hwork : Work nmeta s i) (src : Nat → UInt8)
    {tot off n' : Nat} (htot : tot < n')
    : Sat Halt.NotLog (Sum.elim (fun b => Room i b.2.2 k) (fun _ => False))
      (writeiBody i src n' (tot, off, s)) := by
  unfold writeiBody
  dsimp only
  rw [if_pos htot]
  apply Sat.bind (h.bmap hk hwork _)
  rintro ⟨addr, s1⟩ hroom
  dsimp only at hroom ⊢
  have hfits : s1.Fits 1 := by
    rcases hroom with hroom | ⟨_, hroom⟩
    . exact hroom.mono (by omega)
    . exact hroom.mono (by omega)
  apply Sat.bind (logWrite_fits hfits addr _)
  rintro s2 rfl
  rcases hroom with hroom | ⟨haddr, hroom⟩
  . exact Room.wrote (Store.fits_wrote hroom)
  . exact Room.wrote (Store.fits_wrote_of_mem hroom haddr _)

theorem writei_room (h : Work nmeta s i) (src : Nat → UInt8) {off k : Nat}
    (hmax : off + k ≤ MAXFILE * BSIZE) (hroom : Room i s (rounds off k + 1))
    : Sat Halt.NotLog (fun r => Room i r.2 1)
      (Outcome.loop .stuck (writeiBody i src k) (k + 1) (0, off, s)) := by
  -- one block for each round that is left, and one for the inode
  apply (writeiBody_loop (fun tot s' => Written nmeta s s' i src off tot k
    ∧ Room i s' (rounds off k - rounds off tot + 1)) src ?_ ⟨.zero h.consistent src off k, hroom⟩).mono
    (fun _ h => h)
  . rintro r ⟨_, _, hroom'⟩
    rwa [Nat.sub_self] at hroom'
  . rintro tot s' hlt haligned ⟨hwritten, hroom'⟩
    rcases hwritten.grow with ⟨new, -, hgrow⟩
    have hleft := rounds_lt haligned hlt
    rw [show rounds off k - rounds off tot = rounds off k - (rounds off tot + 1) + 1 by omega] at hroom'
    apply ((hroom'.round (Nat.le_add_left 1 _) (hgrow.work h) src hlt).and
      (Written.round h hwritten hlt haligned hmax)).mono (fun _ h => h)
    rintro r ⟨hafter, hround⟩
    cases r with
    | inr c => exact hafter
    | inl b =>
      rcases hround with ⟨hb, hb', hwritten'⟩
      have hb512 : b.1 = tot + min (k - tot) (512 - (off + tot) % 512) := hb
      have hrounds : rounds off b.1 = rounds off tot + 1 := by
        rw [hb]
        exact rounds_add haligned (by omega) (Nat.min_le_right ..)
      refine ⟨hb, hb', hwritten', ?_⟩
      rw [hrounds]
      exact hafter

theorem Room.of_fits (h : s.Fits (k + (s.sb.size + BPB - 1) / BPB + 1)) : Room i s k := by
  have hmap : s.unlogged ≤ (s.sb.size + BPB - 1) / BPB :=
    (Finset.card_filter_le _ _).trans_eq (Finset.card_range _)
  have hind : unloggedIndirect i s ≤ 1 := by
    unfold unloggedIndirect
    split <;> omega
  exact h.mono (by omega)

theorem lt_add_iff {off n' : UInt32} : off + n' < off ↔ 2 ^ 32 ≤ off.toNat + n'.toNat := by
  have hlt := n'.toNat_lt
  have hlt' := off.toNat_lt
  rw [UInt32.lt_iff_toNat_lt, UInt32.toNat_add]
  omega

theorem refused_iff {size off n' : UInt32}
    : (off > size ∨ off + n' < off ∨ off + n' > UInt32.ofNat (MAXFILE * BSIZE))
      ↔ size.toNat < off.toNat ∨ 2 ^ 32 ≤ off.toNat + n'.toNat ∨ MAXFILE * BSIZE < off.toNat + n'.toNat := by
  have hmax : MAXFILE * BSIZE = 71680 := rfl
  rw [lt_add_iff]
  by_cases hwrap : 2 ^ 32 ≤ off.toNat + n'.toNat
  . exact iff_of_true (.inr (.inl hwrap)) (.inr (.inl hwrap))
  have hsum : (off + n').toNat = off.toNat + n'.toNat := by
    rw [UInt32.toNat_add]
    omega
  have hbig : off + n' > UInt32.ofNat (MAXFILE * BSIZE) ↔ MAXFILE * BSIZE < off.toNat + n'.toNat := by
    rw [gt_iff_lt, UInt32.lt_iff_toNat_lt, hsum, UInt32.toNat_ofNat_of_lt' (by decide)]
  rw [hbig, gt_iff_lt, UInt32.lt_iff_toNat_lt]

/-- No `writei` runs out of the log that has room for its blocks, the free map, the indirect block and the inode. -/
theorem writei_not_log (h : Work nmeta s i) (htype : (s.inode i).din.type ≠ T_DEV) (src : Nat → UInt8)
    (off n' : UInt32) (hfits : s.Fits (rounds off.toNat n'.toNat + (s.sb.size + BPB - 1) / BPB + 2))
    : Sat Halt.NotLog (fun _ => True) (s.writei i src off n') := by
  unfold writei
  dsimp only
  rw [if_neg htype]
  split
  . trivial
  . next hcond =>
    split
    . trivial
    . next hbig =>
      have hmax : off.toNat + n'.toNat ≤ MAXFILE * BSIZE := by
        rw [not_or] at hcond
        have hbig : (off + n').toNat ≤ (UInt32.ofNat (MAXFILE * BSIZE)).toNat := UInt32.not_lt.mp hbig
        rw [toNat_add_of_not_lt hcond.2, UInt32.toNat_ofNat_of_lt' (by decide)] at hbig
        exact hbig
      apply Sat.bind (writei_room h src hmax (.of_fits (hfits.mono (by omega))))
      rintro ⟨off', s1⟩ hroom
      have hone : s1.Fits 1 := hroom.mono (by omega)
      have hupdate : ∀ di, Sat Halt.NotLog (fun _ => True) ((s1.setDin i di).iupdate i) := by
        intro di
        have hset : (s1.setDin i di).Fits 1 := hone
        exact (logWrite_fits hset _ _).mono (fun _ h => h) (fun _ _ => trivial)
      dsimp only
      split
      . exact Sat.bind (hupdate _) fun _ _ => trivial
      . trivial

theorem writei_refused (htype : (s.inode i).din.type ≠ T_DEV) (src : Nat → UInt8) {off n' : UInt32}
    (h : off > (s.inode i).din.size ∨ off + n' < off ∨ off + n' > UInt32.ofNat (MAXFILE * BSIZE))
    : s.writei i src off n' = .ok (-1, s) := by
  unfold writei
  dsimp only
  rw [if_neg htype]
  split
  . rfl
  . next hcond =>
    rw [if_pos]
    rcases h with h | h | h
    exacts [absurd (.inl h) hcond, absurd (.inr h) hcond, h]

theorem Limit.tighten {st : Store} {k m l : Nat} {e : Halt} (h : st.Limit k m e) (hfits : st.Fits l → e.NotLog)
    : st.Limit l m e := by
  rcases h with ⟨hlog, _⟩ | hblocks
  . refine .inl ⟨hlog, fun hfit => ?_⟩
    rcases hlog with hlog | hlog
    exacts [(hfits hfit).1 hlog, (hfits hfit).2 hlog]
  . exact .inr hblocks

theorem Limit.false {st : Store} {k m : Nat} {e : Halt} (h : st.Limit k m e) (hfits : st.Fits k)
    (hfree : m ≤ st.sb.free st.disk)
    : False := by
  rcases h with ⟨_, hnot⟩ | ⟨_, hlt⟩
  . exact hnot hfits
  . omega

theorem Limit.exists_ok {α : Type} {st : Store} {k m : Nat} {Q : α → Prop} {x : Except Halt α} {c P R : Prop}
    [Decidable c] (h : (if c then P else Sat (st.Limit k m) Q x) ∧ R) (hc : ¬c) (hfits : st.Fits k)
    (hfree : m ≤ st.sb.free st.disk)
    : ∃ a, x = .ok a ∧ Q a := by
  replace h := h.1
  rw [if_neg hc] at h
  cases x with
  | ok a => exact ⟨a, rfl, h⟩
  | error e => exact (Limit.false h hfits hfree).elim

/--
A file or directory is a byte array. A `writei` that is not refused writes all its bytes, unless the log
lacks room for the blocks that it touches, the free map, the indirect block and the inode, or the disk
lacks free blocks for the slots that are missing.
-/
theorem content_is_byte_array (h : Work nmeta s i) (hsized : Sized s.disk (s.inode i).din)
    (htype : (s.inode i).din.type = T_FILE ∨ (s.inode i).din.type = T_DIR) (src : Nat → UInt8)
    (off n' : UInt32)
    : (if (s.inode i).din.size.toNat < off.toNat ∨ 2 ^ 32 ≤ off.toNat + n'.toNat
          ∨ MAXFILE * BSIZE < off.toNat + n'.toNat then
        s.writei i src off n' = .ok (-1, s)
      else
        Sat (s.Limit (rounds off.toNat n'.toNat + (s.sb.size + BPB - 1) / BPB + 2)
            (s.missing i (touched off.toNat n'.toNat)))
          (fun r : Int × State n => r.1 = n'.toNat
            ∧ r.2.data i = (s.data i).take off.toNat ++ (List.range n'.toNat).map src
              ++ (s.data i).drop (off.toNat + n'.toNat)
            ∧ (0 < n'.toNat → (r.2.inode i).din.size.toNat
              = max (s.inode i).din.size.toNat (off.toNat + n'.toNat))
            ∧ ∀ y, y ≠ (s.inode i).inum → r.2.sb.table r.2.disk y = s.sb.table s.disk y
              ∧ content r.2.disk (r.2.view i) y = content s.disk (s.view i) y)
          (s.writei i src off n'))
      ∧ (if (s.inode i).din.size.toNat < off.toNat ∨ 2 ^ 32 ≤ off.toNat + n'.toNat then
        s.readi i off n' = .ok (-1, [], s)
      else
        s.readi i off n' = .ok ((min n'.toNat ((s.inode i).din.size.toNat - off.toNat) : Nat),
          ((s.data i).drop off.toNat).take (min n'.toNat ((s.inode i).din.size.toNat - off.toNat)), s)) := by
  have hdev : (s.inode i).din.type ≠ T_DEV := by
    rcases htype with htype | htype <;> rw [htype] <;> decide
  constructor
  . split
    . next hbad => exact writei_refused hdev src (refused_iff.mpr hbad)
    . next hgood =>
      have hsat := writei_sat h hsized hdev src off n'
      cases hwrite : s.writei i src off n' with
      | error e =>
        exact Limit.tighten (hsat.of_error hwrite) fun hfits =>
          (writei_not_log h hdev src off n' hfits).of_error hwrite
      | ok r =>
        rcases hsat.of_ok hwrite with ⟨_, hrefused⟩ | ⟨hr, _, hover⟩
        . exact absurd (refused_iff.mp hrefused) hgood
        . exact ⟨hr, hover.data, fun _ => hover.size, fun y hy => ⟨hover.table y hy, hover.content y hy⟩⟩
  . have hcond : off > (s.inode i).din.size ∨ off + n' < off
        ↔ (s.inode i).din.size.toNat < off.toNat ∨ 2 ^ 32 ≤ off.toNat + n'.toNat := by
      rw [lt_add_iff, gt_iff_lt, UInt32.lt_iff_toNat_lt]
    rw [readi_eq h hsized hdev]
    split
    . next hbad => rw [if_pos (hcond.mpr hbad)]
    . next hgood => rw [if_neg (fun hbad => hgood (hcond.mp hbad))]

def blankOp : State 1 :=
  { blank with outstanding := 1 }

theorem work_blankOp {i : Fin 1} : Work 59 blankOp i :=
  ⟨(work_blank (i := i)).consistent, (work_blank (i := i)).type⟩

theorem missing_blankOp {i : Fin 1} {slots : Finset Nat} (h : slots.card ≤ 41)
    : blankOp.missing i slots ≤ blankOp.sb.free blankOp.disk := by
  have hfree : ∀ b, b < 100 → 59 ≤ b → blankOp.sb.bit blankOp.disk b = false := by decide +kernel
  have hsub : Finset.Ico 59 100 ⊆ (Finset.range 1000).filter fun b => blankOp.sb.bit blankOp.disk b = false := by
    intro b hb
    rw [Finset.mem_Ico] at hb
    exact Finset.mem_filter.mpr ⟨Finset.mem_range.mpr (by omega), hfree b hb.2 hb.1⟩
  calc blankOp.missing i slots
    _ ≤ slots.card := Finset.card_filter_le _ _
    _ ≤ 41 := h
    _ = (Finset.Ico 59 100).card := (Nat.card_Ico 59 100).symm
    _ ≤ blankOp.sb.free blankOp.disk := Finset.card_le_card hsub

theorem content_is_byte_array_of_three
    : ∃ s', blankOp.writei (Fin.last 0) (fun k => UInt8.ofNat k) 0 3 = .ok (3, s')
      ∧ s'.data (Fin.last 0) = [0, 1, 2] := by
  rcases Limit.exists_ok (content_is_byte_array (i := Fin.last 0) work_blankOp (sized_blank (i := Fin.last 0))
    (.inl rfl) (fun k => UInt8.ofNat k) 0 3) (by decide) ⟨by decide, by decide, by decide⟩
    (missing_blankOp (by decide +kernel)) with ⟨r, hwrite, hr, hdata, _⟩
  exact ⟨r.2, hwrite.trans (congrArg Except.ok (Prod.ext hr rfl)), hdata.trans (by decide +kernel)⟩

/-- A write of 28 blocks at once does not fit into the log. -/
theorem write_too_big
    : Work 59 blankOp (Fin.last 0) ∧ Sized blankOp.disk (blankOp.inode (Fin.last 0)).din
      ∧ (blankOp.inode (Fin.last 0)).din.type = T_FILE
      ∧ blankOp.missing (Fin.last 0) (touched 0 14336) ≤ blankOp.sb.free blankOp.disk
      ∧ Sat (fun e => e = .tooBig) (fun _ => False)
        (blankOp.writei (Fin.last 0) (fun _ => 0) 0 14336) := by
  refine ⟨work_blankOp, sized_blank (i := Fin.last 0), rfl, missing_blankOp (by decide +kernel), ?_⟩
  decide +kernel

end State
end Xv6.Fs
