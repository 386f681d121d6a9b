import Xv6.Fs.Content
import Xv6.Fs.Lemmas.Refs
import Xv6.Lib.Count
import Xv6.Lib.Reach

namespace Xv6.Fs.Shared

open Outcome

abbrev MAXCHUNK : Nat := (MAXOPBLOCKS - 1 - 1 - 2) / 2 * 512

inductive Pc
  | idle
  | loop (rest : List UInt8)
  | begun (rest : List UInt8)
  | locked (rest : List UInt8)
  | fetched (off : UInt32) (rest : List UInt8)
  | written (r : Int) (rest : List UInt8)
  | advanced (r : Int) (rest : List UInt8)
  | unlocked (r : Int) (rest : List UInt8)
  deriving DecidableEq, Repr

namespace Pc

/-- The bytes that have still to be written. -/
def rest (pc : Pc) : List UInt8 :=
  match pc with
  | .idle => []
  | .loop rest | .begun rest | .locked rest | .fetched _ rest => rest
  | .written r rest | .advanced r rest | .unlocked r rest => rest.drop r.toNat

def inside (pc : Pc) : Bool :=
  match pc with
  | .locked _ | .fetched _ _ | .written _ _ | .advanced _ _ => true
  | _ => false

/-- The bytes that are written, but that `f->off` does not count yet. -/
def pending (pc : Pc) : Int :=
  match pc with
  | .written r _ => r.toNat
  | _ => 0

def Good (pc : Pc) (off : UInt32) : Prop :=
  match pc with
  | .fetched off' _ => off' = off
  | .written r rest | .advanced r rest | .unlocked r rest => r = min rest.length MAXCHUNK
  | _ => True

theorem Good.of_outside {pc : Pc} {off : UInt32} (h : pc.Good off) (hout : pc.inside = false) (off' : UInt32)
    : pc.Good off' := by
  cases pc with
  | fetched _ _ => cases hout
  | _ => exact h

theorem pending_of_outside {pc : Pc} (hout : pc.inside = false) : pc.pending = 0 := by
  cases pc with
  | written _ _ => cases hout
  | _ => rfl

end Pc

structure State (n : Nat) (P : Type) where
  fs : Fs.State n
  off : UInt32
  pc : P → Pc
  called : List (P × List UInt8) := []
  chunks : List (P × List UInt8) := []

inductive Act (P : Type)
  | filewrite (p : P) (addr : List UInt8)
  | run (p : P)
  deriving DecidableEq, Repr

namespace State

variable {n : Nat} {P : Type} [DecidableEq P]

def setPc (s : State n P) (p : P) (pc : Pc) : State n P :=
  { s with pc := Function.update s.pc p pc }

def write (s : State n P) (i : Fin n) (p : P) (off : UInt32) (rest : List UInt8) : Option (State n P) :=
  let n1 := min rest.length MAXCHUNK
  match s.fs.writei i (fun k => rest.getD k 0) off (UInt32.ofNat n1) with
  | .error _ => none
  | .ok (r, fs) =>
    some (setPc { s with
      fs := fs
      chunks := if r < 0 then s.chunks else s.chunks ++ [(p, rest.take r.toNat)] } p (.written r rest))

def finish (s : State n P) (p : P) (r : Int) (rest : List UInt8) : Option (State n P) :=
  let n1 := min rest.length MAXCHUNK
  if r < 0 then
    some (s.setPc p .idle)
  else if r = n1 then
    some (s.setPc p (.loop (rest.drop r.toNat)))
  else
    none

def run (s : State n P) (i : Fin n) (p : P) : Option (State n P) :=
  match s.pc p with
  | .idle => none
  | .loop rest =>
    if rest = [] then
      some (s.setPc p .idle)
    else
      match s.fs.beginOp with
      | .error _ => none
      | .ok fs => some (setPc { s with fs := fs } p (.begun rest))
  | .begun rest =>
    match s.fs.ilock i with
    | .error _ => none
    | .ok fs => some (setPc { s with fs := fs } p (.locked rest))
  | .locked rest => some (s.setPc p (.fetched s.off rest))
  | .fetched off rest => s.write i p off rest
  | .written r rest =>
    some (setPc { s with off := if 0 < r then s.off + UInt32.ofNat r.toNat else s.off } p (.advanced r rest))
  | .advanced r rest =>
    match s.fs.iunlock i with
    | .error _ => none
    | .ok fs => some (setPc { s with fs := fs } p (.unlocked r rest))
  | .unlocked r rest => finish { s with fs := s.fs.endOp } p r rest

def step (i : Fin n) (s : State n P) (a : Act P) : Option (State n P) :=
  match a with
  | .filewrite p addr =>
    if s.pc p = .idle then
      some (setPc { s with called := s.called ++ [(p, addr)] } p (.loop addr))
    else
      none
  | .run p => s.run i p

def Steps (i : Fin n) (s : State n P) (a : Act P) (s' : State n P) : Prop :=
  s.step i a = some s'

def total (l : List (P × List UInt8)) : Nat :=
  (l.flatMap Prod.snd).length

def of (p : P) (l : List (P × List UInt8)) : List UInt8 :=
  (l.filter fun c => c.1 = p).flatMap Prod.snd

omit [DecidableEq P] in
theorem total_append (l l' : List (P × List UInt8)) : total (l ++ l') = total l + total l' := by
  unfold total
  rw [List.flatMap_append, List.length_append]

theorem of_append (p : P) (l l' : List (P × List UInt8)) : of p (l ++ l') = of p l ++ of p l' := by
  unfold of
  rw [List.filter_append, List.flatMap_append]

theorem of_self (p : P) (l : List UInt8) : of p [(p, l)] = l := by
  simp [of]

theorem of_other {p q : P} (h : p ≠ q) (l : List UInt8) : of q [(p, l)] = [] := by
  simp [of, h]

structure Open (nmeta : Nat) (i : Fin n) (fs : Fs.State n) : Prop where
  work : Fs.State.Work nmeta fs i
  sized : Fs.State.Sized fs.disk (fs.inode i).din
  type : (fs.inode i).din.type = T_FILE
  valid : (fs.inode i).valid = true

theorem Open.congr {nmeta : Nat} {i : Fin n} {fs fs' : Fs.State n} (h : Open nmeta i fs) (hsb : fs'.sb = fs.sb)
    (hdisk : fs'.disk = fs.disk) (hinum : (fs'.inode i).inum = (fs.inode i).inum)
    (hdin : (fs'.inode i).din = (fs.inode i).din) (hvalid : (fs'.inode i).valid = (fs.inode i).valid)
    : Open nmeta i fs' ∧ fs'.data i = fs.data i := by
  have hview : fs'.view i = fs.view i := by
    unfold Fs.State.view
    rw [hsb, hdisk, hinum, hdin]
  refine ⟨⟨⟨?_, ?_⟩, ?_, ?_, ?_⟩, ?_⟩
  . rw [hsb, hdisk, hview]
    exact h.work.consistent
  . rw [hdin]
    exact h.work.type
  . rw [hdisk, hdin]
    exact h.sized
  . rw [hdin]
    exact h.type
  . rw [hvalid]
    exact h.valid
  . unfold Fs.State.data Fs.State.chunks
    rw [hdisk, hview, hinum, hdin]

structure Same (i : Fin n) (fs fs' : Fs.State n) : Prop where
  sb : fs'.sb = fs.sb
  disk : fs'.disk = fs.disk
  inum : (fs'.inode i).inum = (fs.inode i).inum
  din : (fs'.inode i).din = (fs.inode i).din
  valid : (fs'.inode i).valid = (fs.inode i).valid

theorem beginOp_same (i : Fin n) (fs : Fs.State n)
    : Sat (fun _ => True) (fun fs' => Same i fs fs' ∧ fs'.inode = fs.inode) fs.beginOp := by
  unfold Fs.State.beginOp Store.beginOp
  split
  . trivial
  . exact ⟨⟨rfl, rfl, rfl, rfl, rfl⟩, rfl⟩

theorem ilock_same {i : Fin n} {fs : Fs.State n} (hvalid : (fs.inode i).valid = true)
    : Sat (fun _ => True)
      (fun fs' => Same i fs fs' ∧ (fs.inode i).lock = false ∧ (fs'.inode i).lock = true) (fs.ilock i) := by
  unfold Fs.State.ilock
  split
  . trivial
  unfold Fs.State.acquiresleep
  split
  . trivial
  . next hfree =>
    have hself : (fs.setInode i { fs.inode i with lock := true }).inode i
        = { fs.inode i with lock := true } := Function.update_self ..
    change Sat _ _ ((fs.setInode i { fs.inode i with lock := true }).iload i)
    unfold Fs.State.iload
    dsimp only
    rw [hself, if_pos hvalid]
    refine ⟨⟨rfl, rfl, ?_, ?_, ?_⟩, Bool.eq_false_iff.mpr hfree, ?_⟩ <;> rw [hself]

theorem iunlock_same (i : Fin n) (fs : Fs.State n)
    : Sat (fun _ => True) (fun fs' => Same i fs fs' ∧ (fs'.inode i).lock = false) (fs.iunlock i) := by
  have hself : (fs.releasesleep i).inode i = { fs.inode i with lock := false } := Function.update_self ..
  unfold Fs.State.iunlock
  split
  . trivial
  . refine ⟨⟨rfl, rfl, ?_, ?_, ?_⟩, ?_⟩ <;> rw [hself]

theorem endOp_same (i : Fin n) (fs : Fs.State n) : Same i fs fs.endOp := by
  have hfs : fs.endOp.sb = fs.sb ∧ fs.endOp.disk = fs.disk := by
    unfold Fs.State.endOp Store.endOp
    dsimp only
    split <;> exact ⟨rfl, rfl⟩
  exact ⟨hfs.1, hfs.2, rfl, rfl, rfl⟩

def Mutex (lock : Bool) (pc : P → Pc) : Prop :=
  ∀ p, (pc p).inside = true → lock = true ∧ ∀ q, (pc q).inside = true → q = p

namespace Mutex

variable {lock : Bool} {pc : P → Pc} {p : P} {new : Pc}

theorem move (h : Mutex lock pc) (hnew : new.inside = (pc p).inside) : Mutex lock (Function.update pc p new) := by
  have hsame : ∀ q, (Function.update pc p new q).inside = (pc q).inside := by
    refine (Function.forall_update_iff pc fun q pc' => pc'.inside = (pc q).inside).mpr ⟨hnew, fun _ _ => rfl⟩
  intro q hq
  rw [hsame] at hq
  refine ⟨(h q hq).1, ?_⟩
  intro q' hq'
  rw [hsame] at hq'
  exact (h q hq).2 q' hq'

theorem eq_of_update (hout : ∀ q, q ≠ p → (pc q).inside = false) {q : P}
    (hq : (Function.update pc p new q).inside = true)
    : q = p := by
  by_contra hne
  rw [Function.update_of_ne hne, hout q hne] at hq
  cases hq

theorem enter (h : Mutex false pc) : Mutex true (Function.update pc p new) := by
  have hout : ∀ q, q ≠ p → (pc q).inside = false := by
    intro q _
    by_contra hin
    cases (h q (Bool.eq_true_of_not_eq_false hin)).1
  intro q hq
  refine ⟨rfl, ?_⟩
  intro q' hq'
  rw [eq_of_update hout hq, eq_of_update hout hq']

omit [DecidableEq P] in
theorem outside (h : Mutex lock pc) (hp : (pc p).inside = true) {q : P} (hq : q ≠ p) : (pc q).inside = false := by
  by_contra hin
  exact hq ((h p hp).2 q (Bool.eq_true_of_not_eq_false hin))

theorem leave (h : Mutex lock pc) (hp : (pc p).inside = true) (hnew : new.inside = false)
    : Mutex false (Function.update pc p new) := by
  intro q hq
  rw [eq_of_update (fun _ => h.outside hp) hq, Function.update_self, hnew] at hq
  cases hq

end Mutex

section
variable [Fintype P] {nmeta : Nat} {i : Fin n} {s0 s s' : State n P}

structure Inv (nmeta : Nat) (i : Fin n) (s0 s : State n P) : Prop where
  isOpen : Open nmeta i s.fs
  off : (s.off.toNat : Int) + Count.total Pc.pending s.pc = (s.fs.inode i).din.size.toNat
  data : s.fs.data i = s0.fs.data i ++ s.chunks.flatMap Prod.snd
  good : ∀ p, (s.pc p).Good s.off
  pieces : ∀ p, of p s.chunks ++ (s.pc p).rest = of p s.called
  count : (total s.chunks : Int) + Count.total (fun pc : Pc => (pc.rest.length : Int)) s.pc = total s.called
  mutex : Mutex (s.fs.inode i).lock s.pc

section
variable (h : Inv nmeta i s0 s)
include h

theorem Inv.pass {fs : Fs.State n} {p : P} {pc : Pc} (hsame : Same i s.fs fs)
    (hrest : pc.rest = (s.pc p).rest) (hpending : pc.pending = (s.pc p).pending) (hgood : pc.Good s.off)
    (hmutex : Mutex (fs.inode i).lock (Function.update s.pc p pc))
    : Inv nmeta i s0 (setPc { s with fs := fs } p pc) := by
  have hopen := h.isOpen.congr hsame.sb hsame.disk hsame.inum hsame.din hsame.valid
  refine ⟨hopen.1, ?_, hopen.2.trans h.data, ?_, ?_, ?_, hmutex⟩
  . change (s.off.toNat : Int) + Count.total _ (Function.update s.pc p pc) = (fs.inode i).din.size.toNat
    rw [Count.total_update, hpending, hsame.din, ← h.off]
    omega
  . exact (Function.forall_update_iff s.pc fun _ pc' => pc'.Good s.off).mpr ⟨hgood, fun q _ => h.good q⟩
  . refine (Function.forall_update_iff s.pc fun q pc' => of q s.chunks ++ pc'.rest = of q s.called).mpr
      ⟨?_, fun q _ => h.pieces q⟩
    rw [hrest]
    exact h.pieces p
  . change (total s.chunks : Int) + Count.total _ (Function.update s.pc p pc) = total s.called
    rw [Count.total_update, hrest, ← h.count]
    omega

theorem Inv.pending_eq {p : P} (hp : (s.pc p).inside = true)
    : Count.total Pc.pending s.pc = (s.pc p).pending := by
  apply Finset.sum_eq_single p
  . intro q _ hq
    exact Pc.pending_of_outside (h.mutex.outside hp hq)
  . intro hout
    exact absurd (Finset.mem_univ p) hout

theorem Inv.advance {p : P} {r : Int} {rest : List UInt8} (hpc : s.pc p = .written r rest)
    : Inv nmeta i s0 (setPc { s with off := if 0 < r then s.off + UInt32.ofNat r.toNat else s.off } p
      (.advanced r rest)) := by
  have hin : (s.pc p).inside = true := by
    rw [hpc]
    rfl
  have hoff := h.off
  rw [h.pending_eq hin, hpc] at hoff
  change (s.off.toNat : Int) + r.toNat = _ at hoff
  have hsize := (s.fs.inode i).din.size.toNat_lt
  have hadded : (if 0 < r then s.off + UInt32.ofNat r.toNat else s.off).toNat = s.off.toNat + r.toNat := by
    split
    . rw [UInt32.toNat_add, UInt32.toNat_ofNat']
      omega
    . omega
  refine ⟨h.isOpen, ?_, h.data, ?_, ?_, ?_, h.mutex.move (by rw [hpc]; rfl)⟩
  . change ((if 0 < r then s.off + UInt32.ofNat r.toNat else s.off).toNat : Int)
      + Count.total _ (Function.update s.pc p _) = (s.fs.inode i).din.size.toNat
    rw [Count.total_update, h.pending_eq hin, hadded, hpc, ← hoff]
    change _ + ((r.toNat : Int) - r.toNat + 0) = _
    omega
  . refine (Function.forall_update_iff s.pc fun _ pc' => pc'.Good _).mpr ⟨?_, ?_⟩
    . have hgood := h.good p
      rw [hpc] at hgood
      exact hgood
    . intro q hq
      exact (h.good q).of_outside (h.mutex.outside hin hq) _
  . refine (Function.forall_update_iff s.pc fun q pc' => of q s.chunks ++ pc'.rest = of q s.called).mpr
      ⟨?_, fun q _ => h.pieces q⟩
    have hpieces := h.pieces p
    rw [hpc] at hpieces
    exact hpieces
  . change (total s.chunks : Int) + Count.total _ (Function.update s.pc p _) = total s.called
    rw [Count.total_update, hpc, ← h.count]
    change _ + (_ - ((rest.drop r.toNat).length : Int) + ((rest.drop r.toNat).length : Int)) = _
    omega

theorem Inv.write {p : P} {off : UInt32} {rest : List UInt8}
    (hpc : s.pc p = .fetched off rest) (hmax : (s0.fs.data i).length + total s.called ≤ MAXFILE * BSIZE)
    (hstep : s.write i p off rest = some s')
    : Inv nmeta i s0 s' := by
  have hin : (s.pc p).inside = true := by
    rw [hpc]
    rfl
  have hfetched := h.good p
  rw [hpc] at hfetched
  change off = s.off at hfetched
  subst hfetched
  -- nobody else is inside, so the offset is the size
  have hpending := h.pending_eq hin
  have hoffsize := h.off
  rw [hpending, hpc] at hoffsize
  change (s.off.toNat : Int) + 0 = _ at hoffsize
  have hle := Count.le_total (w := fun pc : Pc => (pc.rest.length : Int)) (f := s.pc)
    (fun _ => Int.natCast_nonneg _) p
  have hcount := h.count
  rw [hpc] at hle
  have hlen : (s.fs.data i).length = (s0.fs.data i).length + total s.chunks := by
    rw [h.data, List.length_append]
    rfl
  have hsize := Fs.State.length_data s.fs i
  have hmaxval : MAXFILE * BSIZE = 71680 := rfl
  have hrest : s.off.toNat + rest.length ≤ MAXFILE * BSIZE := by
    change (rest.length : Int) ≤ _ at hle
    omega
  unfold State.write at hstep
  dsimp only at hstep
  generalize hm : min rest.length MAXCHUNK = m at hstep
  have hmle : m ≤ rest.length := by omega
  have hm32 : (UInt32.ofNat m).toNat = m := by
    apply UInt32.toNat_ofNat_of_lt'
    change m < 4294967296
    omega
  have hsat := Fs.State.writei_sat h.isOpen.work h.isOpen.sized (by rw [h.isOpen.type]; decide)
    (fun k => rest.getD k 0) s.off (UInt32.ofNat m)
  split at hstep
  . cases hstep
  . next r fs hwrite =>
    have hok : ¬(s.off > (s.fs.inode i).din.size ∨ s.off + UInt32.ofNat m < s.off
        ∨ s.off + UInt32.ofNat m > UInt32.ofNat (MAXFILE * BSIZE)) := by
      have hsum : (s.off + UInt32.ofNat m).toNat = s.off.toNat + m := by
        rw [UInt32.toNat_add, hm32]
        omega
      have hmax32 : (UInt32.ofNat (MAXFILE * BSIZE)).toNat = MAXFILE * BSIZE :=
        UInt32.toNat_ofNat_of_lt' (by decide)
      rintro (hbad | hbad | hbad)
      . have hbad : (s.fs.inode i).din.size.toNat < s.off.toNat := hbad
        omega
      . have hbad : (s.off + UInt32.ofNat m).toNat < s.off.toNat := hbad
        omega
      . have hbad : (UInt32.ofNat (MAXFILE * BSIZE)).toNat < (s.off + UInt32.ofNat m).toNat := hbad
        omega
    rcases hsat.of_ok hwrite with ⟨_, hbad⟩ | ⟨hr, _, hover⟩
    . exact absurd hbad hok
    dsimp only at hr hover
    rw [hm32] at hr hover
    subst hr
    rw [if_neg (by omega)] at hstep
    cases hstep
    rcases hover.self with ⟨a, z, hself⟩
    have hbytes : (List.range m).map (fun k => rest.getD k 0) = rest.take m := by
      apply List.ext_getElem
      . rw [List.length_map, List.length_range, List.length_take]
        omega
      . intro k hk hk'
        rw [List.length_map, List.length_range] at hk
        rw [List.getElem_map, List.getElem_range, List.getElem_take, List.getD_eq_getElem]
    refine ⟨⟨hover.work, hover.sized, ?_, ?_⟩, ?_, ?_, ?_, ?_, ?_, ?_⟩
    . change (fs.inode i).din.type = _
      rw [hself]
      exact h.isOpen.type
    . change (fs.inode i).valid = _
      rw [hself]
      exact h.isOpen.valid
    . change (s.off.toNat : Int) + Count.total _ (Function.update s.pc p _) = (fs.inode i).din.size.toNat
      rw [Count.total_update, hpending, hover.size]
      change _ + (_ - _ + (((m : Int).toNat : Nat) : Int)) = _
      omega
    . change fs.data i = s0.fs.data i ++ (s.chunks ++ [(p, rest.take m)]).flatMap Prod.snd
      rw [hover.data, hbytes, List.take_of_length_le (by omega), List.drop_eq_nil_of_le (by omega),
        List.append_nil, h.data, List.flatMap_append, List.append_assoc]
      simp only [List.flatMap_cons, List.flatMap_nil, List.append_nil]
    . exact (Function.forall_update_iff s.pc fun _ pc' => pc'.Good s.off).mpr
        ⟨congrArg Nat.cast hm.symm, fun q _ => h.good q⟩
    . refine (Function.forall_update_iff s.pc fun q pc' => of q (s.chunks ++ [(p, rest.take m)]) ++ pc'.rest
        = of q s.called).mpr ⟨?_, ?_⟩
      . have hpieces := h.pieces p
        rw [hpc] at hpieces
        rw [of_append, of_self, List.append_assoc]
        change of p s.chunks ++ (rest.take m ++ rest.drop m) = _
        rw [List.take_append_drop]
        exact hpieces
      . intro q hq
        rw [of_append, of_other (Ne.symm hq), List.append_nil]
        exact h.pieces q
    . change (total (s.chunks ++ [(p, rest.take m)]) : Int) + Count.total _ (Function.update s.pc p _)
        = total s.called
      have hone : total [(p, rest.take m)] = m := by
        simp only [total, List.flatMap_cons, List.flatMap_nil, List.append_nil, List.length_take]
        omega
      have hdropped : (rest.drop m).length = rest.length - m := List.length_drop
      rw [total_append, hone, Count.total_update, hpc, ← hcount]
      change ((total s.chunks + m : Nat) : Int) + (_ - (rest.length : Int) + ((rest.drop m).length : Int)) = _
      rw [hdropped]
      omega
    . have hlock : (fs.inode i).lock = (s.fs.inode i).lock := by rw [hself]
      change Mutex (fs.inode i).lock _
      rw [hlock]
      exact h.mutex.move (by rw [hpc]; rfl)

theorem Inv.run {p : P} (hmax : (s0.fs.data i).length + total s.called ≤ MAXFILE * BSIZE)
    (hstep : s.run i p = some s')
    : Inv nmeta i s0 s' := by
  have hgood := h.good p
  unfold State.run at hstep
  split at hstep
  . cases hstep
  . next rest hpc =>
    split at hstep
    . next hnil =>
      cases hstep
      refine h.pass ⟨rfl, rfl, rfl, rfl, rfl⟩ ?_ ?_ trivial (h.mutex.move ?_) <;> rw [hpc]
      . exact hnil.symm
      . rfl
      . rfl
    . split at hstep
      . cases hstep
      . next fs hbegin =>
        cases hstep
        rcases (beginOp_same i s.fs).of_ok hbegin with ⟨hsame, hinode⟩
        refine h.pass hsame ?_ ?_ trivial ?_
        . rw [hpc]
          rfl
        . rw [hpc]
          rfl
        . rw [hinode]
          exact h.mutex.move (by rw [hpc]; rfl)
  . next rest hpc =>
    split at hstep
    . cases hstep
    . next fs hlock =>
      cases hstep
      rcases (ilock_same h.isOpen.valid).of_ok hlock with ⟨hsame, hfree, hheld⟩
      have hmutex := h.mutex
      rw [hfree] at hmutex
      refine h.pass hsame (by rw [hpc]; rfl) (by rw [hpc]; rfl) trivial ?_
      rw [hheld]
      exact hmutex.enter
  . next rest hpc =>
    cases hstep
    exact h.pass ⟨rfl, rfl, rfl, rfl, rfl⟩ (by rw [hpc]; rfl) (by rw [hpc]; rfl) rfl
      (h.mutex.move (by rw [hpc]; rfl))
  . next off rest hpc => exact h.write hpc hmax hstep
  . next r rest hpc =>
    cases hstep
    exact h.advance hpc
  . next r rest hpc =>
    split at hstep
    . cases hstep
    . next fs hunlock =>
      cases hstep
      rcases (iunlock_same i s.fs).of_ok hunlock with ⟨hsame, hfree⟩
      rw [hpc] at hgood
      refine h.pass hsame (by rw [hpc]; rfl) (by rw [hpc]; rfl) hgood ?_
      rw [hfree]
      exact h.mutex.leave (by rw [hpc]; rfl) rfl
  . next r rest hpc =>
    rw [hpc] at hgood
    change r = _ at hgood
    unfold finish at hstep
    dsimp only at hstep
    rw [if_neg (by omega), if_pos (by rw [hgood])] at hstep
    cases hstep
    exact h.pass (endOp_same i s.fs) (by rw [hpc]; rfl) (by rw [hpc]; rfl) trivial
      (h.mutex.move (by rw [hpc]; rfl))

theorem Inv.call {p : P} {addr : List UInt8} (hpc : s.pc p = .idle)
    : Inv nmeta i s0 (setPc { s with called := s.called ++ [(p, addr)] } p (.loop addr)) := by
  refine ⟨h.isOpen, ?_, h.data, ?_, ?_, ?_, h.mutex.move (by rw [hpc]; rfl)⟩
  . change (s.off.toNat : Int) + Count.total _ (Function.update s.pc p (.loop addr))
      = (s.fs.inode i).din.size.toNat
    rw [Count.total_update, hpc, ← h.off]
    change _ + (_ - 0 + 0) = _
    omega
  . exact (Function.forall_update_iff s.pc fun _ pc' => pc'.Good s.off).mpr ⟨trivial, fun q _ => h.good q⟩
  . refine (Function.forall_update_iff s.pc fun q pc' => of q s.chunks ++ pc'.rest
      = of q (s.called ++ [(p, addr)])).mpr ⟨?_, ?_⟩
    . have hpieces := h.pieces p
      rw [hpc] at hpieces
      rw [of_append, of_self, ← hpieces, List.append_assoc]
      rfl
    . intro q hq
      rw [of_append, of_other (Ne.symm hq), List.append_nil]
      exact h.pieces q
  . change (total s.chunks : Int) + Count.total _ (Function.update s.pc p (.loop addr))
      = total (s.called ++ [(p, addr)])
    have hone : total [(p, addr)] = addr.length := by
      change ([(p, addr)].flatMap Prod.snd).length = addr.length
      simp only [List.flatMap_cons, List.flatMap_nil, List.append_nil]
    have hcount := h.count
    rw [total_append, hone, Count.total_update, hpc]
    change _ + (_ - ((0 : Nat) : Int) + (addr.length : Int)) = _
    omega

theorem Inv.step {a : Act P} (hstep : s.Steps i a s')
    (hmax : (s0.fs.data i).length + total s.called ≤ MAXFILE * BSIZE)
    : Inv nmeta i s0 s' := by
  unfold Steps State.step at hstep
  split at hstep
  . split at hstep
    . next hpc =>
      cases hstep
      exact h.call hpc
    . cases hstep
  . exact h.run hmax hstep

end

omit [Fintype P] in
theorem total_called_le {a : Act P} (hstep : s.Steps i a s') : total s.called ≤ total s'.called := by
  have hrun : ∀ p, s.run i p = some s' → s'.called = s.called := by
    intro p hrun
    unfold State.run State.write State.finish at hrun
    grind [setPc]
  unfold Steps State.step at hstep
  split at hstep
  . split at hstep
    . cases hstep
      change total s.called ≤ total (s.called ++ _)
      rw [total_append]
      omega
    . cases hstep
  . rw [hrun _ hstep]

structure Start (nmeta : Nat) (i : Fin n) (s : State n P) : Prop where
  isOpen : Open nmeta i s.fs
  off : s.off = (s.fs.inode i).din.size
  pc : ∀ p, s.pc p = .idle
  called : s.called = []
  chunks : s.chunks = []

theorem Start.inv (h : Start nmeta i s) : Inv nmeta i s s := by
  have hpending : Count.total Pc.pending s.pc = 0 := by
    apply Finset.sum_eq_zero
    intro p _
    rw [h.pc p]
    rfl
  refine ⟨h.isOpen, ?_, ?_, ?_, ?_, ?_, ?_⟩
  . rw [hpending, h.off, add_zero]
  . rw [h.chunks]
    exact (List.append_nil _).symm
  . intro p
    rw [h.pc p]
    trivial
  . intro p
    rw [h.pc p, h.chunks, h.called]
    rfl
  . have hzero : Count.total (fun pc : Pc => (pc.rest.length : Int)) s.pc = 0 := by
      apply Finset.sum_eq_zero
      intro p _
      dsimp only
      rw [h.pc p]
      rfl
    rw [h.chunks, h.called, hzero]
    rfl
  . intro p hp
    rw [h.pc p] at hp
    cases hp

theorem inv_of_reachable (h0 : Start nmeta i s0) (h : Reach.Reachable s0 (Steps i) s)
    (hmax : (s0.fs.data i).length + total s.called ≤ MAXFILE * BSIZE)
    : Inv nmeta i s0 s := by
  have hinv : (s0.fs.data i).length + total s.called ≤ MAXFILE * BSIZE → Inv nmeta i s0 s := by
    apply Reach.Reachable.induct
      (fun s => (s0.fs.data i).length + total s.called ≤ MAXFILE * BSIZE → Inv nmeta i s0 s) _ _ h
    . intro _
      exact h0.inv
    . intro s a s' _ ih hstep hmax'
      have hle := total_called_le hstep
      exact (ih (by omega)).step hstep (by omega)
  exact hinv hmax

/--
However the calls of `filewrite` are interleaved, the file holds its first content followed by the chunks,
each of them once and in one piece. The chunks of a process are, in their order, what it has asked to be
written but for what it has still to write. While nobody holds the lock of the inode, the offset has moved by the
length of the chunks.
-/
theorem no_lost_write (h0 : Start nmeta i s0) (h : Reach.Reachable s0 (Steps i) s)
    (hmax : (s0.fs.data i).length + total s.called ≤ MAXFILE * BSIZE)
    : s.fs.data i = s0.fs.data i ++ s.chunks.flatMap Prod.snd
      ∧ (∀ p, of p s.chunks ++ (s.pc p).rest = of p s.called)
      ∧ ((s.fs.inode i).lock = false → s.off.toNat = s0.off.toNat + total s.chunks) ∧ ((∀ p, s.pc p = .idle)
        → (∀ p, of p s.chunks = of p s.called) ∧ s.off.toNat = s0.off.toNat + total s.called) := by
  have hinv := inv_of_reachable h0 h hmax
  have hoff : (∀ p, (s.pc p).inside = false) → s.off.toNat = s0.off.toNat + total s.chunks := by
    intro hout
    have hpending : Count.total Pc.pending s.pc = 0 :=
      Finset.sum_eq_zero fun p _ => Pc.pending_of_outside (hout p)
    have hoff := hinv.off
    rw [hpending, add_zero, Nat.cast_inj, ← Fs.State.length_data, hinv.data, List.length_append,
      Fs.State.length_data, ← h0.off] at hoff
    exact hoff
  refine ⟨hinv.data, hinv.pieces, ?_, ?_⟩
  . intro hfree
    apply hoff
    intro p
    by_contra hin
    have hheld := (hinv.mutex p (Bool.eq_true_of_not_eq_false hin)).1
    rw [hfree] at hheld
    cases hheld
  intro hidle
  constructor
  . intro p
    have hpieces := hinv.pieces p
    rw [hidle p] at hpieces
    rw [← hpieces]
    exact (List.append_nil _).symm
  . have hzero : Count.total (fun pc : Pc => (pc.rest.length : Int)) s.pc = 0 := by
      apply Finset.sum_eq_zero
      intro p _
      dsimp only
      rw [hidle p]
      rfl
    have hcount := hinv.count
    have hoff := hoff fun p => by rw [hidle p]; rfl
    rw [hzero] at hcount
    omega

end
theorem no_lost_write_of_two
    : ∃ s : State 1 Bool, Reach.Reachable ⟨Fs.State.blank, 0, fun _ => .idle, [], []⟩ (Steps (Fin.last 0)) s
      ∧ (∀ p, s.pc p = .idle) ∧ s.fs.data (Fin.last 0) = [3, 1, 2] := by
  have hstart : Start 59 (Fin.last 0) (⟨Fs.State.blank, 0, fun _ => .idle, [], []⟩ : State 1 Bool) :=
    ⟨⟨Fs.State.work_blank, Fs.State.sized_blank, rfl, rfl⟩, rfl, fun _ => rfl, rfl, rfl⟩
  rcases Reach.exists_of_exec (b := (⟨Fs.State.blank, 0, fun _ => .idle, [], []⟩ : State 1 Bool))
      (f := step (Fin.last 0)) (fun _ _ _ h => h)
      [.filewrite false [1, 2], .run false, .filewrite true [3], .run true, .run true, .run true, .run true,
        .run true, .run true, .run false, .run false, .run true, .run false, .run false, .run false, .run false,
        .run false, .run true]
      (P := fun s => (∀ p, s.pc p = .idle) ∧ s.called = [(false, [1, 2]), (true, [3])]
        ∧ s.chunks = [(true, [3]), (false, [1, 2])]) (by decide +kernel)
    with ⟨s, hs, hp⟩
  rw [decide_eq_true_iff] at hp
  rcases hp with ⟨hidle, hcalled, hchunks⟩
  have hmax : ((⟨Fs.State.blank, 0, fun _ => .idle, [], []⟩ : State 1 Bool).fs.data (Fin.last 0)).length
      + total s.called ≤ MAXFILE * BSIZE := by
    rw [hcalled, Fs.State.length_data]
    decide
  have hdata := (no_lost_write hstart hs hmax).1
  rw [hchunks] at hdata
  exact ⟨s, hs, hidle, hdata⟩

end State
end Xv6.Fs.Shared
