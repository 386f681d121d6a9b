import Xv6.Bcache.Lemmas
import Mathlib.Data.Nat.Count

namespace Xv6

def Buf.held {P : Type} (b : Buf P) : Int :=
  match b.lock with
  | none => 0
  | some _ => 1

theorem Buf.held_nonneg {P : Type} (b : Buf P) : 0 ≤ b.held := by
  unfold Buf.held
  split
  . omega
  . omega

namespace Bcache

open Ring Reach

variable {n : Nat} {P : Type}

namespace Pc

def inBget : Pc n → Option (Fin n)
  | .bget _ _ i _ => some i
  | _ => none

def inBrelse : Pc n → Option (Fin n)
  | .brelse i _ => some i
  | _ => none

@[simp]
theorem inBget_at (line : Line n) : (Pc.at line).inBget = none := rfl

@[simp]
theorem inBget_bget (dev blockno : Nat) (i : Fin n) (ret : Ret n)
    : (Pc.bget dev blockno i ret).inBget = some i := rfl

@[simp]
theorem inBget_bread (dev blockno : Nat) (i : Fin n) (ret : Ret n)
    : (Pc.bread dev blockno i ret).inBget = none := rfl

@[simp]
theorem inBget_brelse (i : Fin n) (next : Line n) : (Pc.brelse i next).inBget = none := rfl

@[simp]
theorem inBrelse_at (line : Line n) : (Pc.at line).inBrelse = none := rfl

@[simp]
theorem inBrelse_bget (dev blockno : Nat) (i : Fin n) (ret : Ret n)
    : (Pc.bget dev blockno i ret).inBrelse = none := rfl

@[simp]
theorem inBrelse_bread (dev blockno : Nat) (i : Fin n) (ret : Ret n)
    : (Pc.bread dev blockno i ret).inBrelse = none := rfl

@[simp]
theorem inBrelse_brelse (i : Fin n) (next : Line n) : (Pc.brelse i next).inBrelse = some i := rfl

def Free (pc : Pc n) : Prop :=
  pc.inBget = none ∧ pc.inBrelse = none

def refs (i : Fin n) (pc : Pc n) : Int :=
  if pc.inBget = some i ∨ pc.inBrelse = some i then 1 else 0

theorem Free.refs_eq {pc : Pc n} (h : pc.Free) (i : Fin n) : pc.refs i = 0 := by
  simp [refs, h.1, h.2]

theorem refs_nonneg (i : Fin n) (pc : Pc n) : 0 ≤ pc.refs i := by
  unfold refs
  split
  . omega
  . omega

theorem refs_bget (dev blockno : Nat) (i j : Fin n) (ret : Ret n)
    : (Pc.bget dev blockno i ret).refs j = if i = j then 1 else 0 := by
  simp [refs]

theorem refs_brelse (i j : Fin n) (next : Line n)
    : (Pc.brelse i next).refs j = if i = j then 1 else 0 := by
  simp [refs]

theorem free_at (line : Line n) : (Pc.at line).Free :=
  ⟨rfl, rfl⟩

theorem free_bread (dev blockno : Nat) (i : Fin n) (ret : Ret n)
    : (Pc.bread dev blockno i ret).Free :=
  ⟨rfl, rfl⟩

end Pc

namespace State

structure SameKey (b b' : Buf P) : Prop where
  dev : b'.dev = b.dev
  blockno : b'.blockno = b.blockno
  refcnt : b'.refcnt = b.refcnt
  lock : b'.lock = b.lock

theorem SameKey.refl (b : Buf P) : SameKey b b :=
  ⟨rfl, rfl, rfl, rfl⟩

theorem SameKey.held {b b' : Buf P} (h : SameKey b b') : b'.held = b.held := by
  unfold Buf.held
  rw [h.lock]

theorem sameKey_sync (disk : Disk) (b : Buf P) : SameKey b (Memide.sync disk b).2 := by
  unfold Memide.sync
  split
  . exact ⟨rfl, rfl, rfl, rfl⟩
  . exact ⟨rfl, rfl, rfl, rfl⟩

theorem apply_update {β : Type} (f : Buf P → β) {g : Fin n → Buf P} {i : Fin n} {b : Buf P}
    (h : f b = f (g i)) (j : Fin n)
    : f (Function.update g i b j) = f (g j) := by
  by_cases hj : j = i
  . subst hj
    rw [Function.update_self]
    exact h
  . rw [Function.update_of_ne hj]

theorem sameKey_setBuf {s : State n P} {i : Fin n} {b : Buf P} (h : SameKey (s.buf i) b) (j : Fin n)
    : SameKey (s.buf j) ((s.setBuf i b).buf j) := by
  unfold setBuf buf
  by_cases hj : j = i
  . subst hj
    rw [Cache.buf_setBuf_self]
    exact h
  . rw [Cache.buf_setBuf_of_ne _ _ hj]
    apply SameKey.refl

section
variable [DecidableEq P] {s s' : State n P} {p : P}

inductive Effect (s : State n P) (p : P) (s' : State n P) : Prop
  | quiet (hlinks : s'.cache.links = s.cache.links) (hkey : ∀ i, SameKey (s.buf i) (s'.buf i))
    (hfree : (s.pc p).Free) (hpc : ∃ pc, pc.Free ∧ s'.pc = Function.update s.pc p pc)
  | get {dev blockno : Nat} {i : Fin n} {cache : Cache n P} {ret : Ret n} (hfree : (s.pc p).Free)
    (hget : s.cache.bget dev blockno = .ok (i, cache))
    (hs' : s' = { s with cache := cache }.setPc p (.bget dev blockno i ret))
  | acquire {dev blockno : Nat} {i : Fin n} {ret : Ret n} (hpc : s.pc p = .bget dev blockno i ret)
    (hlock : (s.buf i).lock = none) (hs' : s' = s.acquiresleep p dev blockno i ret)
  | release {i : Fin n} {next : Line n} (hfree : (s.pc p).Free) (hlock : (s.buf i).lock = some p)
    (hs' : s' = (s.setBuf i { s.buf i with lock := none }).setPc p (.brelse i next))
  | put {i : Fin n} {next : Line n} (hpc : s.pc p = .brelse i next)
    (hs' : s' = s.brelseRest p i next)

def Gets (s s' : State n P) (i : Fin n) : Prop :=
  ∃ p, (s'.pc p).inBget = some i ∧ (s.pc p).inBget ≠ some i

def Puts (s s' : State n P) (i : Fin n) : Prop :=
  ∃ p, (s.pc p).inBrelse = some i ∧ (s'.pc p).inBrelse ≠ some i

theorem gets_iff {i : Fin n} {pc : Pc n} (hpc : s'.pc = Function.update s.pc p pc)
    : Gets s s' i ↔ pc.inBget = some i ∧ (s.pc p).inBget ≠ some i := by
  unfold Gets
  rw [hpc]
  constructor
  . rintro ⟨q, hq, hold⟩
    by_cases hqp : q = p
    . subst hqp
      rw [Function.update_self] at hq
      exact ⟨hq, hold⟩
    . rw [Function.update_of_ne hqp] at hq
      cases hold hq
  . rintro ⟨hnew, hold⟩
    refine ⟨p, ?_, hold⟩
    rw [Function.update_self]
    exact hnew

theorem puts_iff {i : Fin n} {pc : Pc n} (hpc : s'.pc = Function.update s.pc p pc)
    : Puts s s' i ↔ (s.pc p).inBrelse = some i ∧ pc.inBrelse ≠ some i := by
  unfold Puts
  rw [hpc]
  constructor
  . rintro ⟨q, hold, hq⟩
    by_cases hqp : q = p
    . subst hqp
      rw [Function.update_self] at hq
      exact ⟨hold, hq⟩
    . rw [Function.update_of_ne hqp] at hq
      cases hq hold
  . rintro ⟨hold, hnew⟩
    refine ⟨p, hold, ?_⟩
    rw [Function.update_self]
    exact hnew

theorem Ran.effect {op : Op n} (h : Ran s p op s') (hfree : (s.pc p).Free) : Effect s p s' := by
  have hsame : s.pc = Function.update s.pc p (s.pc p) := (Function.update_eq_self ..).symm
  cases h with
  | bread hget => exact .get hfree hget rfl
  | memmove i data next =>
    exact .quiet rfl (sameKey_setBuf ⟨rfl, rfl, rfl, rfl⟩) hfree ⟨_, Pc.free_at next, rfl⟩
  | @bwrite i next hlock hdev =>
    exact .quiet rfl (sameKey_setBuf ⟨rfl, rfl, rfl, rfl⟩) hfree ⟨_, Pc.free_at next, rfl⟩
  | @logWrite i next hn hsize hout =>
    exact .quiet rfl (sameKey_setBuf ⟨rfl, rfl, rfl, rfl⟩) hfree ⟨_, Pc.free_at next, rfl⟩
  | brelse hlock => exact .release hfree hlock rfl
  | beginOp hcommitting => exact .quiet rfl (fun i => .refl _) hfree ⟨_, hfree, hsame⟩
  | endOp hcommitting => exact .quiet rfl (fun i => .refl _) hfree ⟨_, hfree, hsame⟩
  | endCommit hcommitting hout =>
    exact .quiet rfl (fun i => .refl _) hfree ⟨_, Pc.free_at _, rfl⟩
  | goto next => exact .quiet rfl (fun i => .refl _) hfree ⟨_, Pc.free_at _, rfl⟩
  | clear next => exact .quiet rfl (fun i => .refl _) hfree ⟨_, Pc.free_at _, rfl⟩
  | finish => exact .quiet rfl (fun i => .refl _) hfree ⟨_, Pc.free_at _, rfl⟩

theorem Step.effect {a : Act n P} (h : Step s a s') : ∃ p, Effect s p s' := by
  cases h with
  | @call _ p _ _ ha hpc hran =>
    refine ⟨p, hran.effect ?_⟩
    rw [hpc]
    apply Pc.free_at
  | @commit p _ _ _ hpc hcode hran =>
    refine ⟨p, hran.effect ?_⟩
    rw [hpc]
    apply Pc.free_at
  | @acquiresleep p dev blockno i ret hpc hlock => exact ⟨p, .acquire hpc hlock rfl⟩
  | @hit p dev blockno i ret hpc hvalid =>
    refine ⟨p, .quiet rfl (fun i => .refl _) ?_ ⟨_, Pc.free_at _, rfl⟩⟩
    rw [hpc]
    apply Pc.free_bread
  | @sync p dev blockno i ret hpc hvalid hdev =>
    refine ⟨p, .quiet rfl (sameKey_setBuf (sameKey_sync ..)) ?_ ⟨_, Pc.free_at _, rfl⟩⟩
    rw [hpc]
    apply Pc.free_bread
  | @put p i next hpc => exact ⟨p, .put hpc rfl⟩

end

section
variable [Fintype P]

structure Inv (s : State n P) : Prop where
  linked : s.cache.Linked
  unique : ∀ i j, (s.buf i).dev ≠ 0 → (s.buf i).dev = (s.buf j).dev
    → (s.buf i).blockno = (s.buf j).blockno → i = j
  refcnt : ∀ i, ((s.buf i).refcnt : Int) = (s.buf i).held + Count.total (Pc.refs i) s.pc

theorem inv_init (links : Links (Fin n)) (disk : Disk) (disksize dev start size : Nat)
    : (init links disk disksize dev start size : State n P).Inv := by
  constructor
  . apply Cache.linked_binit
  . intro i j hdev
    cases hdev rfl
  . intro i
    simp [init, buf, Buf.held, Cache.binit, Count.total, Pc.refs]

theorem total_refs_nonneg (s : State n P) (i : Fin n) : 0 ≤ Count.total (Pc.refs i) s.pc := by
  apply Count.total_nonneg
  intro p
  apply Pc.refs_nonneg

theorem Inv.refcnt_pos_of_refs {s : State n P} (hinv : s.Inv) {p : P} {i : Fin n} (h : (s.pc p).refs i = 1)
    : 0 < (s.buf i).refcnt := by
  have hcount := hinv.refcnt i
  have hheld := (s.buf i).held_nonneg
  have hsum : (s.pc p).refs i ≤ Count.total (Pc.refs i) s.pc := by
    apply Count.le_total
    intro q
    apply Pc.refs_nonneg
  omega

theorem Inv.refcnt_pos_of_lock {s : State n P} (hinv : s.Inv) {i : Fin n} (h : (s.buf i).lock ≠ none)
    : 0 < (s.buf i).refcnt := by
  have hcount := hinv.refcnt i
  have htotal := s.total_refs_nonneg i
  have hheld : (s.buf i).held = 1 := by
    unfold Buf.held
    split
    . next hnone => cases h hnone
    . rfl
  omega

variable [DecidableEq P] {s s' : State n P} {p : P} {i : Fin n}

theorem total_refs_update (s : State n P) (p : P) (i : Fin n) (pc : Pc n)
    : Count.total (Pc.refs i) (Function.update s.pc p pc)
      = Count.total (Pc.refs i) s.pc - (s.pc p).refs i + pc.refs i :=
  Count.total_update ..

theorem Inv.of_update (hinv : s.Inv) {b : Buf P} {pc : Pc n} (hlinked : s'.cache.Linked)
    (hbuf : s'.cache.buf = Function.update s.cache.buf i b) (hpc : s'.pc = Function.update s.pc p pc)
    (hkey : (b.dev = (s.buf i).dev ∧ b.blockno = (s.buf i).blockno)
      ∨ ∀ j, (s.buf j).dev = b.dev → (s.buf j).blockno ≠ b.blockno)
    (hother : ∀ j, j ≠ i → pc.refs j = (s.pc p).refs j) (hcount : (b.refcnt : Int) - (s.buf i).refcnt
      = b.held - (s.buf i).held + (pc.refs i - (s.pc p).refs i))
    : s'.Inv := by
  have hself : s'.buf i = b := by
    unfold buf
    rw [hbuf, Function.update_self]
  have hne : ∀ j, j ≠ i → s'.buf j = s.buf j := by
    intro j hj
    unfold buf
    rw [hbuf, Function.update_of_ne hj]
  constructor
  . exact hlinked
  . intro j k hdev hdevs hblocknos
    by_cases hj : j = i
    . by_cases hk : k = i
      . rw [hj, hk]
      . rw [hj, hself] at hdev hdevs hblocknos
        rw [hne k hk] at hdevs hblocknos
        rw [hj]
        rcases hkey with hsame | hfresh
        . apply hinv.unique i k
          . rwa [← hsame.1]
          . rwa [← hsame.1]
          . rwa [← hsame.2]
        . cases hfresh k hdevs.symm hblocknos.symm
    . rw [hne j hj] at hdev hdevs hblocknos
      by_cases hk : k = i
      . rw [hk, hself] at hdevs hblocknos
        rw [hk]
        rcases hkey with hsame | hfresh
        . apply hinv.unique j i hdev
          . rwa [← hsame.1]
          . rwa [← hsame.2]
        . cases hfresh j hdevs hblocknos
      . rw [hne k hk] at hdevs hblocknos
        exact hinv.unique j k hdev hdevs hblocknos
  . intro j
    have hold := hinv.refcnt j
    rw [hpc, total_refs_update]
    by_cases hj : j = i
    . rw [hj] at hold ⊢
      rw [hself]
      omega
    . rw [hne j hj, hother j hj]
      omega

theorem Inv.of_get (hinv : s.Inv) (hfree : (s.pc p).Free) {dev blockno : Nat} {cache : Cache n P}
    (ret : Ret n) (hget : s.cache.bget dev blockno = .ok (i, cache))
    : ({ s with cache := cache }.setPc p (.bget dev blockno i ret)).Inv := by
  have hrefs : ∀ j, j ≠ i → (Pc.bget dev blockno i ret).refs j = (s.pc p).refs j := by
    intro j hj
    rw [hfree.refs_eq, Pc.refs_bget, if_neg (Ne.symm hj)]
  have hself : (Pc.bget dev blockno i ret).refs i - (s.pc p).refs i = 1 := by
    rw [hfree.refs_eq, Pc.refs_bget, if_pos rfl]
    rfl
  cases hinv.linked.gets hget with
  | hit hdev hblockno =>
    refine hinv.of_update hinv.linked rfl rfl (.inl ⟨rfl, rfl⟩) hrefs ?_
    rw [hself]
    simp [buf, Buf.held]
  | miss hnone hrefcnt hdirty =>
    refine hinv.of_update hinv.linked rfl rfl (.inr hnone) hrefs ?_
    rw [hself]
    simp [buf, Buf.held, hrefcnt]

theorem Effect.inv (h : Effect s p s') (hinv : s.Inv) : s'.Inv := by
  cases h with
  | quiet hlinks hkey hfree hpc =>
    rcases hpc with ⟨pc, hpc, hs'⟩
    constructor
    . rcases hinv.linked with ⟨l, hrep, hmem⟩
      refine ⟨l, ?_, hmem⟩
      rw [hlinks]
      exact hrep
    . intro i j
      rw [(hkey i).dev, (hkey j).dev, (hkey i).blockno, (hkey j).blockno]
      apply hinv.unique
    . intro i
      have hold := hinv.refcnt i
      rw [(hkey i).refcnt, hs', total_refs_update, hfree.refs_eq, hpc.refs_eq, (hkey i).held]
      omega
  | get hfree hget hs' =>
    rw [hs']
    exact hinv.of_get hfree _ hget
  | @acquire dev blockno i ret hpc hlock hs' =>
    rw [hs']
    have hold : (s.buf i).held = 0 := by simp [Buf.held, hlock]
    refine hinv.of_update hinv.linked rfl rfl (.inl ⟨rfl, rfl⟩) ?_ ?_
    . intro j hj
      rw [hpc, (Pc.free_bread ..).refs_eq, Pc.refs_bget, if_neg (Ne.symm hj)]
    . rw [hpc, (Pc.free_bread ..).refs_eq, Pc.refs_bget, if_pos rfl, hold]
      simp [Buf.held]
  | @release i next hfree hlock hs' =>
    rw [hs']
    have hold : (s.buf i).held = 1 := by simp [Buf.held, hlock]
    refine hinv.of_update hinv.linked rfl rfl (.inl ⟨rfl, rfl⟩) ?_ ?_
    . intro j hj
      rw [hfree.refs_eq, Pc.refs_brelse, if_neg (Ne.symm hj)]
    . rw [hfree.refs_eq, Pc.refs_brelse, if_pos rfl, hold]
      simp [Buf.held]
  | @put i next hpc hs' =>
    rw [hs']
    have hrefs : (s.pc p).refs i = 1 := by rw [hpc, Pc.refs_brelse, if_pos rfl]
    have hpos := hinv.refcnt_pos_of_refs hrefs
    refine hinv.of_update (hinv.linked.put i) (Cache.buf_put ..) rfl (.inl ⟨rfl, rfl⟩) ?_ ?_
    . intro j hj
      rw [hpc, (Pc.free_at _).refs_eq, Pc.refs_brelse, if_neg (Ne.symm hj)]
    . rw [hpc, (Pc.free_at _).refs_eq, Pc.refs_brelse, if_pos rfl]
      simp only [Buf.held, buf] at hpos ⊢
      omega

theorem inv_of_trace {tr : Trace (Steps (n := n) (P := P))} (h0 : (tr.state 0).Inv) {k : Nat} (hk : k ≤ tr.length)
    : (tr.state k).Inv := by
  apply tr.induct Inv _ (Nat.zero_le k) hk h0
  intro s a s' hinv hstep
  rcases hstep.step.effect with ⟨p, heffect⟩
  exact heffect.inv hinv

instance (s s' : State n P) (i : Fin n) : Decidable (Gets s s' i) :=
  inferInstanceAs (Decidable (∃ _, _))

instance (s s' : State n P) (i : Fin n) : Decidable (Puts s s' i) :=
  inferInstanceAs (Decidable (∃ _, _))

theorem Effect.refcnt (h : Effect s p s') (hinv : s.Inv) (i : Fin n)
    : (s'.buf i).refcnt + (if Puts s s' i then 1 else 0)
      = (s.buf i).refcnt + if Gets s s' i then 1 else 0 := by
  cases h with
  | quiet hlinks hkey hfree hpc =>
    rcases hpc with ⟨pc, hpc, hs'⟩
    rw [(hkey i).refcnt]
    simp [gets_iff hs', puts_iff hs', hfree.2, hpc.1]
  | @get dev blockno j cache ret hfree hget hs' =>
    have hpc : s'.pc = Function.update s.pc p (.bget dev blockno j ret) := by rw [hs']; rfl
    have hbuf : s'.buf i = cache.buf i := by rw [hs']; rfl
    rw [hbuf, (hinv.linked.gets hget).refcnt]
    simp [gets_iff hpc, puts_iff hpc, hfree.1, hfree.2, buf]
  | @acquire dev blockno j ret hpc hlock hs' =>
    have hpc' : s'.pc = Function.update s.pc p (.bread dev blockno j ret) := by rw [hs']; rfl
    have hkey : (s'.buf i).refcnt = (s.buf i).refcnt := by
      rw [hs']
      exact apply_update Buf.refcnt (by rfl) i
    rw [hkey]
    simp [gets_iff hpc', puts_iff hpc', hpc]
  | @release j next hfree hlock hs' =>
    have hpc : s'.pc = Function.update s.pc p (.brelse j next) := by rw [hs']; rfl
    have hkey : (s'.buf i).refcnt = (s.buf i).refcnt := by
      rw [hs']
      exact apply_update Buf.refcnt (by rfl) i
    rw [hkey]
    simp [gets_iff hpc, puts_iff hpc, hfree.2]
  | @put j next hpc hs' =>
    have hpc' : s'.pc = Function.update s.pc p (.at next) := by rw [hs']; rfl
    have hbuf : s'.buf i = (s.cache.put j).buf i := by rw [hs']; rfl
    rw [hbuf, Cache.buf_put]
    by_cases hi : i = j
    . have hrefs : (s.pc p).refs j = 1 := by rw [hpc, Pc.refs_brelse, if_pos rfl]
      have hpos := hinv.refcnt_pos_of_refs hrefs
      subst hi
      simp only [buf] at hpos
      simp [gets_iff hpc', puts_iff hpc', hpc, buf]
      omega
    . simp [gets_iff hpc', puts_iff hpc', hpc, buf, hi, Ne.symm hi]

theorem Effect.key_eq (h : Effect s p s') (hinv : s.Inv) (hused : 0 < (s.buf i).refcnt ∨ (s.buf i).dirty = true)
    : (s'.buf i).dev = (s.buf i).dev ∧ (s'.buf i).blockno = (s.buf i).blockno := by
  cases h with
  | quiet hlinks hkey hfree hpc => exact ⟨(hkey i).dev, (hkey i).blockno⟩
  | @get dev blockno j cache ret hfree hget hs' =>
    have hbuf : s'.buf i = cache.buf i := by rw [hs']; rfl
    rw [hbuf]
    exact (hinv.linked.gets hget).key_eq hused
  | @acquire dev blockno j ret hpc hlock hs' =>
    rw [hs']
    exact ⟨apply_update Buf.dev (by rfl) i, apply_update Buf.blockno (by rfl) i⟩
  | @release j next hfree hlock hs' =>
    rw [hs']
    exact ⟨apply_update Buf.dev (by rfl) i, apply_update Buf.blockno (by rfl) i⟩
  | @put j next hpc hs' =>
    have hbuf : s'.buf i = (s.cache.put j).buf i := by rw [hs']; rfl
    rw [hbuf, Cache.buf_put]
    exact ⟨apply_update Buf.dev (by rfl) i, apply_update Buf.blockno (by rfl) i⟩

theorem refcnt_of_trace {tr : Trace (Steps (n := n) (P := P))} (h0 : (tr.state 0).Inv)
    (hzero : ((tr.state 0).buf i).refcnt = 0) {k : Nat} (hk : k ≤ tr.length)
    : ((tr.state k).buf i).refcnt + Nat.count (fun t => Puts (tr.state t) (tr.state (t + 1)) i) k
      = Nat.count (fun t => Gets (tr.state t) (tr.state (t + 1)) i) k := by
  induction k with
  | zero => simp [hzero]
  | succ k ih =>
    have hold := ih (by omega)
    rcases (tr.next k hk).step.effect with ⟨p, heffect⟩
    have hstep := heffect.refcnt (inv_of_trace h0 (Nat.le_of_succ_le hk)) i
    rw [Nat.count_succ, Nat.count_succ]
    omega

end

section
variable [DecidableEq P]

theorem run_ne_loops {s : State n P} (h : s.cache.Linked) (p : P) (op : Op n)
    : s.run p op ≠ some (.error .loops) := by
  cases op with
  | bread dev blockno ret =>
    simp only [run, State.bread]
    rcases h.bget_cases dev blockno with ⟨i, cache, hok, -⟩ | ⟨herr, -⟩
    . rw [hok]
      simp [bind, Except.bind, pure, Except.pure]
    . rw [herr]
      simp [bind, Except.bind]
  | bwrite i next =>
    simp only [run, State.bwrite, State.iderw]
    split
    . simp
    . split
      . simp [bind, Except.bind, pure, Except.pure]
      . simp [bind, Except.bind]
  | logWrite i next =>
    simp only [run, State.logWrite]
    split
    . simp
    . split
      . simp
      . simp
  | brelse i next =>
    simp only [run, State.brelse]
    split
    . simp
    . simp
  | beginOp => simp [run]
  | endOp =>
    simp only [run, State.endOp]
    split
    . simp
    . split
      . simp
      . simp
  | _ => simp [run]

theorem breadRest_ne_loops (s : State n P) (p : P) (i : Fin n) (ret : Ret n)
    : s.breadRest p i ret ≠ .error .loops := by
  unfold breadRest
  split
  . simp [bind, Except.bind, pure, Except.pure]
  unfold State.iderw
  split
  . simp [bind, Except.bind, pure, Except.pure]
  . simp [bind, Except.bind]

theorem step_ne_loops {s : State n P} (h : s.cache.Linked) (a : Act n P)
    : s.step a ≠ some (.error .loops) := by
  have hcall : ∀ p op, s.call p op ≠ some (.error .loops) := by
    intro p op
    unfold State.call
    split
    . exact run_ne_loops h p op
    . simp
  cases a with
  | next p =>
    simp only [step, State.next]
    split
    . next line hpc =>
      cases s.code line with
      | none => simp
      | some op => exact run_ne_loops h p op
    . split
      . simp
      . simp
    . simpa using breadRest_ne_loops s p _ _
    . simp
  | _ => exact hcall _ _

end

/--
The buffer cache after any run from `binit` on. The ring: following `next` from `bcache.head`, which is
`none`, leads to each buffer exactly once and back, and `prev` is the inverse of `next`. No two
buffers are for one block. The reference count is the number of calls of `bget` without those that a
`brelse` has matched. A buffer with references or with `B_DIRTY` stays the buffer of its block.
-/
theorem cache_represented [DecidableEq P] [Fintype P] (tr : Trace (Steps (n := n) (P := P)))
    {links : Links (Fin n)} {disk : Disk} {disksize dev start size : Nat}
    (h0 : tr.state 0 = init links disk disksize dev start size) {k : Nat} (hk : k ≤ tr.length)
    : ((∀ i, ∃! m, m < n ∧ (tr.state k).cache.links.next^[m + 1] none = some i)
        ∧ (tr.state k).cache.links.next^[n + 1] none = none
        ∧ Function.LeftInverse (tr.state k).cache.links.prev (tr.state k).cache.links.next
        ∧ Function.RightInverse (tr.state k).cache.links.prev (tr.state k).cache.links.next)
      ∧ (∀ i j, ((tr.state k).buf i).dev ≠ 0
        → ((tr.state k).buf i).dev = ((tr.state k).buf j).dev
        → ((tr.state k).buf i).blockno = ((tr.state k).buf j).blockno → i = j)
      ∧ (∀ i, ((tr.state k).buf i).refcnt
          + Nat.count (fun t => Puts (tr.state t) (tr.state (t + 1)) i) k
        = Nat.count (fun t => Gets (tr.state t) (tr.state (t + 1)) i) k)
      ∧ (∀ i, 0 < ((tr.state k).buf i).refcnt ∨ ((tr.state k).buf i).dirty = true
        → k < tr.length → ((tr.state (k + 1)).buf i).dev = ((tr.state k).buf i).dev
          ∧ ((tr.state (k + 1)).buf i).blockno = ((tr.state k).buf i).blockno)
      ∧ ∀ a, (tr.state k).step a ≠ some (.error .loops) := by
  have hinit : (tr.state 0).Inv := by
    rw [h0]
    apply inv_init
  have hinv := inv_of_trace hinit hk
  refine ⟨?_, hinv.unique, ?_, ?_, step_ne_loops hinv.linked⟩
  . exact hinv.linked.ring
  . intro i
    apply refcnt_of_trace hinit _ hk
    rw [h0]
    rfl
  . intro i hused hlt
    rcases (tr.next k hlt).step.effect with ⟨p, heffect⟩
    exact heffect.key_eq hinv hused

theorem cache_represented_of_threeReads
    : ∃ tr : Trace (Steps (n := 2) (P := Unit)), tr.length = 15
      ∧ ((tr.state 15).buf 0).blockno = 7 ∧ ((tr.state 15).buf 0).refcnt = 1
      ∧ (tr.state 15).cache.links.next^[3] none = none := by
  let tr : Trace (Steps (n := 2) (P := Unit)) :=
    .ofExec (attempt step) of_attempt (init ⟨id, id⟩ (fun _ => .zero) 100 1 2 30)
      [.bread () 1 5, .next (), .next (), .bread () 1 6, .next (), .next (),
        .brelse () 0, .next (), .brelse () 1, .next (), .bread () 1 7, .next (), .next (),
        .beginOp (), .logWrite () 0]
      (.next ()) (by decide +kernel)
  refine ⟨tr, rfl, by decide +kernel, by decide +kernel, ?_⟩
  exact (cache_represented tr rfl (Nat.le_refl 15)).1.2.1

end State
end Bcache
end Xv6
