import Mathlib.Data.List.Perm.Subperm
import Xv6.Bcache.LogSteps
import Xv6.Fs.FileWrite

namespace Xv6.Fs
namespace State

open Outcome

variable {n nmeta : Nat} {s0 s s' : State n} {i : Fin n} {l : List Nat} {b : Nat}

def Counted (i : Fin n) (s : State n) (l : List Nat) (b : Nat) : Prop :=
  b ∈ l ∨ (s.inode i).din.addr NDIRECT ≠ 0 ∧ b = (s.inode i).din.addr NDIRECT

structure Covered (s0 : State n) (i : Fin n) (s : State n) (l : List Nat) : Prop where
  nodup : s0.lh.Nodup → s.lh.Nodup
  mem : ∀ b ∈ s.lh, b ∈ s0.lh ∨ Counted i s l b
  disk : ∀ b, s.disk b = s0.disk b ∨ Counted i s l b

def noIndirect (i : Fin n) (s : State n) : Nat :=
  if (s.inode i).din.addr NDIRECT = 0 then 1 else 0

structure Logs (s s' : State n) (b : Nat) : Prop where
  lh : s'.lh = Bcache.absorb s.lh b
  disk : ∀ c, c ≠ b → s'.disk c = s.disk c
  inode : s'.inode = s.inode

theorem logs_wrote (s : State n) (b : Nat) (data : Block)
    : Logs s { s with toStore := s.toStore.wrote b data } b where
  lh := rfl
  disk c hc := by exact Function.update_of_ne hc _ _
  inode := rfl

theorem logWrite_logs (s : State n) (b : Nat) (data : Block)
    : Sat (fun _ => True) (fun s' => Logs s s' b) (s.logWrite b data) := by
  apply (logWrite_sat s b data).mono (fun _ _ => trivial)
  intro s' hs'
  rw [hs']
  exact logs_wrote s b data

theorem balloc_logs (s : State n)
    : Sat (fun _ => True) (fun r : Nat × State n => ∃ c s1, Logs s s1 c ∧ Logs s1 r.2 r.1) s.balloc := by
  have hstore : Sat (fun _ => True) (fun r : Nat × Store =>
      ∃ c data data', r.2 = (s.toStore.wrote c data).wrote r.1 data') s.toStore.balloc := by
    unfold Store.balloc
    split
    . trivial
    apply Sat.bind ((Store.logWrite_sat s.toStore _ _).mono (fun _ _ => trivial) (fun _ h => h))
    intro st hst
    apply Sat.bind ((Store.logWrite_sat st _ .zero).mono (fun _ _ => trivial) (fun _ h => h))
    intro st' hst'
    rw [hst', hst]
    exact ⟨_, _, _, rfl⟩
  apply Sat.bind hstore
  rintro ⟨b, st⟩ ⟨c, data, data', hst⟩
  dsimp only at hst
  rw [hst]
  exact ⟨c, _, logs_wrote s c data, logs_wrote _ b data'⟩

theorem Counted.cons (h : Counted i s l b) (c : Nat) : Counted i s (c :: l) b :=
  h.imp_left (List.mem_cons_of_mem c)

section
variable (h : Covered s0 i s l)
include h

theorem Covered.weaken (c : Nat) : Covered s0 i s (c :: l) where
  nodup := h.nodup
  mem b hb := (h.mem b hb).imp_right (Counted.cons · c)
  disk b := (h.disk b).imp_right (Counted.cons · c)

theorem Covered.congr (hlh : s'.lh = s.lh) (hdisk : s'.disk = s.disk)
    (haddr : (s'.inode i).din.addr NDIRECT = (s.inode i).din.addr NDIRECT)
    : Covered s0 i s' l where
  nodup := by
    rw [hlh]
    exact h.nodup
  mem := by
    unfold Counted
    rw [hlh, haddr]
    exact h.mem
  disk := by
    unfold Counted
    rw [hdisk, haddr]
    exact h.disk

theorem Covered.logs (hlogs : Logs s s' b) (hb : Counted i s l b)
    : Covered s0 i s' l := by
  refine ⟨?_, ?_, ?_⟩
  . intro hnodup
    rw [hlogs.lh]
    exact Bcache.nodup_absorb (h.nodup hnodup)
  . intro x hx
    rw [hlogs.lh, Bcache.mem_absorb] at hx
    unfold Counted
    rw [hlogs.inode]
    rcases hx with hx | rfl
    . exact h.mem x hx
    . exact .inr hb
  . intro x
    unfold Counted
    rw [hlogs.inode]
    by_cases hx : x = b
    . rw [hx]
      exact .inr hb
    . rw [hlogs.disk x hx]
      exact h.disk x

theorem Covered.cons (hlogs : Logs s s' b) : Covered s0 i s' (b :: l) :=
  (h.weaken b).logs hlogs (.inl List.mem_cons_self)

theorem Covered.balloc
    : Sat (fun _ => True) (fun r : Nat × State n => r.2.inode = s.inode ∧ ∃ c, Covered s0 i r.2 (r.1 :: c :: l))
      s.balloc := by
  apply (balloc_logs s).mono (fun _ h => h)
  rintro ⟨b, s'⟩ ⟨c, s1, hlogs, hlogs'⟩
  exact ⟨hlogs'.inode.trans hlogs.inode, c, (h.cons hlogs).cons hlogs'⟩

theorem Covered.mapAddr {k : Nat} (hk : k < NDIRECT)
    : Sat (fun _ => True) (fun r : Nat × State n => noIndirect i r.2 = noIndirect i s
        ∧ ∃ l', Covered s0 i r.2 l' ∧ r.1 ∈ l' ∧ l'.length ≤ l.length + 2) (s.mapAddr i k) := by
  unfold State.mapAddr
  dsimp only
  split
  . apply Sat.bind h.balloc
    rintro ⟨b, s'⟩ ⟨hinode, c, hcov⟩
    dsimp only at hinode hcov
    have haddr : ((s'.setDin i ((s'.inode i).din.setAddr k b)).inode i).din.addr NDIRECT
        = (s'.inode i).din.addr NDIRECT := by
      have hself : (s'.setDin i ((s'.inode i).din.setAddr k b)).inode i
          = { s'.inode i with din := (s'.inode i).din.setAddr k b } := Function.update_self ..
      rw [hself]
      exact Dinode.addr_setAddr_of_ne _ (by omega) b
    refine ⟨?_, b :: c :: l, hcov.congr rfl rfl haddr, List.mem_cons_self, Nat.le_refl _⟩
    unfold noIndirect
    rw [haddr, hinode]
  . exact ⟨rfl, _ :: l, h.weaken _, List.mem_cons_self, Nat.le_succ _⟩

theorem Covered.mapIndirect (hwork : Work nmeta s i)
    : Sat (fun _ => True) (fun r : Nat × State n => r.1 ≠ 0 ∧ (r.2.inode i).din.addr NDIRECT = r.1
        ∧ ∃ l', Covered s0 i r.2 l' ∧ l'.length + noIndirect i r.2 ≤ l.length + noIndirect i s)
      (s.mapAddr i NDIRECT) := by
  have hlogs : Sat (fun _ => True) (fun r : Nat × State n => r = ((s.inode i).din.addr NDIRECT, s)
      ∨ (s.inode i).din.addr NDIRECT = 0
        ∧ ∃ c s1 s2, Logs s s1 c ∧ Logs s1 s2 r.1 ∧ r.2.lh = s2.lh ∧ r.2.disk = s2.disk)
      (s.mapAddr i NDIRECT) := by
    unfold State.mapAddr
    dsimp only
    split
    . next hzero =>
      apply Sat.bind (balloc_logs s)
      rintro ⟨b, s'⟩ ⟨c, s1, hlogs, hlogs'⟩
      exact .inr ⟨hzero, c, s1, s', hlogs, hlogs', rfl, rfl⟩
    . exact .inl rfl
  apply ((mapAddr_sat hwork (Nat.le_refl NDIRECT)).and hlogs).mono (fun _ _ => trivial)
  rintro ⟨ind, s'⟩ ⟨hmapped, hcases⟩
  dsimp only at hmapped hcases ⊢
  rcases hmapped.grow with ⟨new, -, hgrow⟩
  have haddr : (s'.inode i).din.addr NDIRECT = ind := by
    rw [hmapped.block, ← hgrow.inum, (hgrow.work hwork).own_eq, slot_of_le (Nat.le_refl NDIRECT)]
  refine ⟨hmapped.ne_zero, haddr, ?_⟩
  rcases hcases with heq | ⟨hzero, c, s1, s2, hlogs, hlogs', hlh, hdisk⟩
  . cases heq
    exact ⟨l, h, Nat.le_refl _⟩
  . have hcov := (h.cons hlogs).cons hlogs'
    -- there was no indirect block, and now it is the new one
    have hcounted : ∀ x, Counted i s2 (ind :: c :: l) x → Counted i s' (c :: l) x := by
      intro x hx
      unfold Counted at hx ⊢
      rw [hlogs'.inode, hlogs.inode] at hx
      rw [haddr]
      rcases hx with hx | ⟨hne, -⟩
      . rcases List.mem_cons.mp hx with rfl | hx
        . exact .inr ⟨hmapped.ne_zero, rfl⟩
        . exact .inl hx
      . exact absurd hzero hne
    refine ⟨c :: l, ⟨?_, ?_, ?_⟩, ?_⟩
    . rw [hlh]
      exact hcov.nodup
    . rw [hlh]
      exact fun x hx => (hcov.mem x hx).imp_right (hcounted x)
    . rw [hdisk]
      exact fun x => (hcov.disk x).imp_right (hcounted x)
    . unfold noIndirect
      rw [haddr, if_neg hmapped.ne_zero, if_pos hzero, List.length_cons]

theorem Covered.bmap (hwork : Work nmeta s i) (bn : Nat)
    : Sat (fun _ => True) (fun r : Nat × State n => ∃ l', Covered s0 i r.2 l' ∧ r.1 ∈ l'
        ∧ l'.length + noIndirect i r.2 ≤ l.length + 2 + noIndirect i s) (s.bmap i bn) := by
  unfold State.bmap
  split
  . next hdirect =>
    apply (h.mapAddr hdirect).mono (fun _ h => h)
    rintro ⟨b, s'⟩ ⟨hsame, l', hcov, hb, hlen⟩
    exact ⟨l', hcov, hb, by rw [hsame]; omega⟩
  . dsimp only
    split
    . apply Sat.bind (h.mapIndirect hwork)
      rintro ⟨ind, s1⟩ ⟨hne, haddr, l1, hcov1, hlen1⟩
      dsimp only at hne haddr hcov1 hlen1 ⊢
      split
      . apply Sat.bind hcov1.balloc
        rintro ⟨b, s2⟩ ⟨hinode, c, hcov2⟩
        dsimp only at hinode hcov2 ⊢
        apply Sat.bind (logWrite_logs s2 ind _)
        intro s3 hlogs
        refine ⟨b :: c :: l1, hcov2.logs hlogs (.inr ?_), List.mem_cons_self, ?_⟩
        . rw [hinode, haddr]
          exact ⟨hne, rfl⟩
        . have hsame : noIndirect i s3 = noIndirect i s1 := by
            unfold noIndirect
            rw [hlogs.inode, hinode]
          dsimp only
          rw [hsame, List.length_cons, List.length_cons]
          omega
      . refine ⟨_ :: l1, hcov1.weaken _, List.mem_cons_self, ?_⟩
        dsimp only
        rw [List.length_cons]
        omega
    . trivial

end

def inBlock (off tot : Nat) : Nat :=
  if off % BSIZE ≠ 0 ∧ 0 < tot then 1 else 0

structure Paid (nmeta : Nat) (s0 s : State n) (i : Fin n) (src : Nat → UInt8) (off tot k : Nat) : Prop where
  written : Written nmeta s0 s i src off tot k
  start : tot = 0 → s = s0
  cost : ∃ l, Covered s0 i s l
    ∧ l.length + noIndirect i s + inBlock off tot ≤ 2 * rounds off tot + noIndirect i s0

theorem Paid.round {src : Nat → UInt8} {off tot k : Nat} (h0 : Work nmeta s0 i)
    (hsized : Sized s0.disk (s0.inode i).din) (hoff : off ≤ (s0.inode i).din.size.toNat)
    (h : Paid nmeta s0 s i src off tot k) (htot : tot < k)
    (haligned : tot = 0 ∨ (off + tot) % BSIZE = 0) (hmax : off + k ≤ MAXFILE * BSIZE)
    : Sat (fun _ => True)
      (Sum.elim (fun b => b.1 = tot + min (k - tot) (BSIZE - (off + tot) % BSIZE) ∧ b.2.1 = off + b.1
        ∧ Paid nmeta s0 b.2.2 i src off b.1 k) (fun _ => False))
      (writeiBody i src k (tot, off + tot, s)) := by
  have hBS : BSIZE = 512 := rfl
  rcases h.cost with ⟨l, hcov, hlen⟩
  rcases h.written.grow with ⟨new, -, hgrow⟩
  -- the blocks that `bmap` adds
  have hbmap : Sat (fun _ => True) (fun r : Nat × State n => ∃ l', Covered s0 i r.2 l' ∧ r.1 ∈ l'
      ∧ l'.length + noIndirect i r.2 + inBlock off (tot + 1)
        ≤ 2 * (rounds off tot + 1) + noIndirect i s0) (s.bmap i ((off + tot) / BSIZE)) := by
    by_cases hfirst : tot = 0 ∧ off % BSIZE ≠ 0
    . rcases hfirst with ⟨rfl, hmod⟩
      have hs := h.start rfl
      subst hs
      have hlast : (off + 0) / BSIZE < MAXFILE := by
        have hmax : off + k ≤ 140 * 512 := hmax
        change (off + 0) / 512 < 140
        omega
      have hbegun : (off + 0) / BSIZE * BSIZE < (s.inode i).din.size.toNat := by
        have hmod : off % 512 ≠ 0 := hmod
        change (off + 0) / 512 * 512 < _
        omega
      have hmapped := hsized.2 ((off + 0) / BSIZE) hbegun
      rw [bmap_of_mapped hlast hmapped]
      refine ⟨_ :: l, hcov.weaken _, List.mem_cons_self, ?_⟩
      have hone : inBlock off (0 + 1) = 1 := if_pos ⟨hmod, by decide⟩
      dsimp only
      rw [hone, List.length_cons]
      omega
    . apply (hcov.bmap (hgrow.work h0) _).mono (fun _ h => h)
      rintro ⟨b, s'⟩ ⟨l', hcov', hb, hlen'⟩
      refine ⟨l', hcov', hb, ?_⟩
      have hsame : inBlock off (tot + 1) = inBlock off tot := by
        unfold inBlock
        by_cases hmod : off % BSIZE ≠ 0
        . have hpos : 0 < tot := by
            apply Nat.pos_of_ne_zero
            exact fun hzero => hfirst ⟨hzero, hmod⟩
          rw [if_pos ⟨hmod, by omega⟩, if_pos ⟨hmod, hpos⟩]
        . rw [if_neg (fun h => hmod h.1), if_neg (fun h => hmod h.1)]
      dsimp only at hlen' ⊢
      rw [hsame]
      omega
  have hlogs : Sat (fun _ => True) (Sum.elim (fun b : Nat × Nat × State n => ∃ l, Covered s0 i b.2.2 l
      ∧ l.length + noIndirect i b.2.2 + inBlock off (tot + 1) ≤ 2 * (rounds off tot + 1) + noIndirect i s0)
      (fun _ => False)) (writeiBody i src k (tot, off + tot, s)) := by
    unfold writeiBody
    dsimp only
    rw [if_pos htot]
    apply Sat.bind hbmap
    rintro ⟨addr, s1⟩ ⟨l', hcov', haddr, hlen'⟩
    dsimp only at hcov' haddr hlen' ⊢
    apply Sat.bind (logWrite_logs s1 addr _)
    intro s2 hlogs
    refine ⟨l', hcov'.logs hlogs (.inl haddr), ?_⟩
    have hsame : noIndirect i s2 = noIndirect i s1 := by
      unfold noIndirect
      rw [hlogs.inode]
    dsimp only
    rw [hsame]
    exact hlen'
  apply (hlogs.and (Written.round h0 h.written htot haligned hmax)).mono (fun _ h => h)
  rintro r ⟨hcost, hround⟩
  cases r with
  | inr c => exact hcost
  | inl b =>
    rcases hround with ⟨hb, hb', hwritten⟩
    refine ⟨hb, hb', hwritten, ?_, ?_⟩
    all_goals
      have hb : b.1 = tot + min (k - tot) (512 - (off + tot) % 512) := hb
      have haligned : tot = 0 ∨ (off + tot) % 512 = 0 := haligned
    . intro hzero
      omega
    . rcases hcost with ⟨l', hcov', hlen'⟩
      refine ⟨l', hcov', ?_⟩
      have hpos : inBlock off b.1 = inBlock off (tot + 1) := by
        unfold inBlock
        have hb1 : 0 < b.1 := by omega
        simp only [hb1, Nat.succ_pos, and_true]
      have hrounds : rounds off b.1 = rounds off tot + 1 := by
        rw [hb]
        exact rounds_add haligned (by omega) (by omega)
      rw [hpos, hrounds]
      exact hlen'

theorem Covered.refl (i : Fin n) (s : State n) : Covered s i s [] :=
  ⟨fun h => h, fun _ hb => .inl hb, fun _ => .inl rfl⟩

theorem writei_paid (h : Work nmeta s i) (hsized : Sized s.disk (s.inode i).din)
    (src : Nat → UInt8) {off k : Nat} (hoff : off ≤ (s.inode i).din.size.toNat)
    (hmax : off + k ≤ MAXFILE * BSIZE)
    : Sat (fun _ => True) (fun r => Paid nmeta s r.2 i src off k k)
      (Outcome.loop .stuck (writeiBody i src k) (k + 1) (0, off, s)) := by
  have hstart : Paid nmeta s s i src off 0 k := by
    refine ⟨.zero h.consistent src off k, fun _ => rfl, [], .refl i s, ?_⟩
    have hzero : inBlock off 0 = 0 := if_neg (fun h => absurd h.2 (Nat.lt_irrefl 0))
    rw [hzero, List.length_nil]
    omega
  exact (writeiBody_loop (fun tot s' => Paid nmeta s s' i src off tot k) src
    (fun _ _ hlt haligned hpaid => Paid.round h hsized hoff hpaid hlt haligned hmax) hstart).mono
    (fun _ h => h) (fun _ h => h.2)

theorem Covered.setSize (h : Covered s0 i s l) (size : UInt32)
    : Covered s0 i (s.setDin i { (s.inode i).din with size }) l := by
  have hself : (s.setDin i { (s.inode i).din with size }).inode i
      = { s.inode i with din := { (s.inode i).din with size } } := Function.update_self ..
  refine h.congr rfl rfl ?_
  rw [hself]
  rfl

theorem Covered.iupdate (h : Covered s0 i s l)
    : Sat (fun _ => True) (fun s' => ∃ b, Covered s0 i s' (b :: l)) (s.iupdate i) := by
  apply (logWrite_logs s _ _).mono (fun _ h => h)
  intro s' hlogs
  exact ⟨_, h.cons hlogs⟩

theorem Counted.mem (h : Counted i s l b) : b ∈ (s.inode i).din.addr NDIRECT :: l := by
  rcases h with hb | ⟨-, rfl⟩
  . exact List.mem_cons_of_mem _ hb
  . exact List.mem_cons_self

theorem writei_covered (h : Work nmeta s i) (hsized : Sized s.disk (s.inode i).din) (src : Nat → UInt8)
    (off n1 : UInt32) (hn1 : n1.toNat ≤ Shared.MAXCHUNK)
    : Sat (fun _ => True) (fun r : Int × State n => ∃ l, Covered s i r.2 l ∧ l.length ≤ 9)
      (s.writei i src off n1) := by
  have hnone : ∃ l, Covered s i s l ∧ l.length ≤ 9 := ⟨[], .refl i s, Nat.zero_le _⟩
  unfold writei
  dsimp only
  split
  . split
    . exact hnone
    . split
      . exact hnone
      . exact hnone
  . split
    . exact hnone
    . next hcond =>
      split
      . exact hnone
      . next hbig =>
        have hnot : ¬(off > (s.inode i).din.size ∨ off + n1 < off ∨ off + n1 > UInt32.ofNat (MAXFILE * BSIZE)) := by
          rintro (hcase | hcase | hcase)
          . exact hcond (.inl hcase)
          . exact hcond (.inr hcase)
          . exact hbig hcase
        rw [refused_iff] at hnot
        apply Sat.bind (writei_paid h hsized src (show off.toNat ≤ _ by omega) (k := n1.toNat) (by omega))
        rintro ⟨off', s1⟩ hpaid
        rcases hpaid.cost with ⟨l, hcov, hlen⟩
        -- at most four blocks, the first of which is mapped unless there are only three
        have hcost : l.length ≤ 8 := by
          have hchunk : Shared.MAXCHUNK = 1536 := rfl
          have hone : noIndirect i s ≤ 1 := by
            unfold noIndirect
            split <;> omega
          by_cases hpos : 0 < n1.toNat
          . rw [rounds_of_pos hpos] at hlen
            by_cases hmod : off.toNat % BSIZE ≠ 0
            . have hin : inBlock off.toNat n1.toNat = 1 := if_pos ⟨hmod, hpos⟩
              omega
            . have hmod : off.toNat % 512 = 0 := not_not.mp hmod
              omega
          . have hrounds : rounds off.toNat n1.toNat = 0 := if_pos (by omega)
            omega
        dsimp only
        split
        . apply Sat.bind ((hcov.setSize _).iupdate)
          rintro s2 ⟨b, hcov2⟩
          exact ⟨b :: l, hcov2, by rw [List.length_cons]; omega⟩
        . exact ⟨l, hcov, by omega⟩

theorem result_of_sat {r : Int} {x : Except Halt (Int × State n)} (h : Sat (fun _ => False) (fun y => y.1 = r) x)
    : ∃ s', x = .ok (r, s') := by
  cases x with
  | error e => exact h.elim
  | ok y => exact ⟨y.2, by rw [← sat_ok.mp h]⟩

/--
The call of `writei` for a chunk of `filewrite` logs at most `MAXOPBLOCKS` blocks. In a transaction that
has no blocks before, these are the blocks that it has afterwards.
-/
theorem chunk_fits_transaction (h : Work nmeta s i) (hsized : Sized s.disk (s.inode i).din) (src : Nat → UInt8)
    (off n1 : UInt32) (hn1 : n1.toNat ≤ Shared.MAXCHUNK) {r : Int} (hok : s.writei i src off n1 = .ok (r, s'))
    : (∃ l : List Nat, l.length ≤ MAXOPBLOCKS ∧ (∀ b ∈ s'.lh, b ∈ s.lh ∨ b ∈ l) ∧ ∀ b, b ∉ l → s'.disk b = s.disk b)
      ∧ (s.lh = [] → s'.lh.Nodup ∧ s'.lh.length ≤ MAXOPBLOCKS) := by
  rcases (writei_covered h hsized src off n1 hn1).of_ok hok with ⟨l, hcov, hlen⟩
  dsimp only at hcov hlen
  have hle : ((s'.inode i).din.addr NDIRECT :: l).length ≤ MAXOPBLOCKS := by
    change l.length + 1 ≤ 10
    omega
  constructor
  . refine ⟨_, hle, fun b hb => (hcov.mem b hb).imp_right Counted.mem, ?_⟩
    intro b hb
    exact (hcov.disk b).resolve_right fun hcounted => hb hcounted.mem
  . intro hlh
    have hnodup := hcov.nodup (by rw [hlh]; exact List.nodup_nil)
    refine ⟨hnodup, Nat.le_trans ?_ hle⟩
    apply (List.subperm_of_subset hnodup ?_).length_le
    intro b hb
    rcases hcov.mem b hb with hold | hcounted
    . rw [hlh] at hold
      cases hold
    . exact hcounted.mem

theorem chunk_fits_transaction_of_end
    : ∃ s', State.writei { nearFull with outstanding := 1 } (Fin.last 0) (fun _ => 1) 70144 1536 = .ok (1536, s')
      ∧ s'.lh.length ≤ MAXOPBLOCKS := by
  have hok : ∃ s', State.writei { nearFull with outstanding := 1 } (Fin.last 0) (fun _ => 1) 70144 1536
      = .ok (1536, s') := by
    apply result_of_sat
    decide +kernel
  rcases hok with ⟨s', hok⟩
  have hwork : Work 59 { nearFull with outstanding := 1 } (Fin.last 0) :=
    ⟨open_nearFull.work.consistent, open_nearFull.work.type⟩
  exact ⟨s', hok, (chunk_fits_transaction hwork open_nearFull.sized (fun _ => 1) 70144 1536
    (by decide) hok).2 rfl |>.2⟩

end State
end Xv6.Fs
