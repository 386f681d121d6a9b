import Xv6.Fs.Lemmas.Refs
import Xv6.Lib.Count
import Xv6.Lib.Reach

/-!
The inode cache under any interleaving of the processes that use it. `icache.lock`
makes `iget`, `idup` and the last statement of `iput` atomic. The rest of `iput`, `ilock` and the changes
made by the holder of an inode's lock are steps of their own.
-/

namespace Xv6.Fs.Icache

inductive Pc (n : Nat)
  | idle
  | ialloc (dev inum : Nat)
  | iput (i : Fin n)
  | iputLocked (i : Fin n)
  | iputFree (i : Fin n)
  | iputRelease (i : Fin n)
  | iputDrop (i : Fin n)
  deriving DecidableEq, Repr

def Pc.target {n : Nat} (pc : Pc n) : Option (Fin n) :=
  match pc with
  | .iput i | .iputLocked i | .iputFree i | .iputRelease i | .iputDrop i => some i
  | _ => none

structure State (n : Nat) (P : Type) where
  fs : Fs.State n
  pc : P → Pc n
  held : P → Fin n → Nat

inductive Act (n : Nat)
  | iget (dev inum : Nat)
  | idup (i : Fin n)
  | ialloc (dev : Nat) (type : Int16)
  | iput (i : Fin n)
  | ilock (i : Fin n)
  | iunlock (i : Fin n)
  | update (i : Fin n) (di : Dinode)
  | beginOp
  | endOp
  | run

namespace State

variable {n : Nat} {P : Type} [DecidableEq P]

def setPc (s : State n P) (p : P) (pc : Pc n) : State n P :=
  { s with pc := Function.update s.pc p pc }

def setHeld (s : State n P) (p : P) (i : Fin n) (k : Nat) : State n P :=
  { s with held := Function.update s.held p (Function.update (s.held p) i k) }

def iget (s : State n P) (p : P) (dev inum : Nat) : Option (State n P) :=
  match s.fs.iget dev inum with
  | .error _ => none
  | .ok (i, fs) => some ((setHeld { s with fs := fs } p i (s.held p i + 1)).setPc p .idle)

def claim (s : State n P) (type : Int16) : Option (Nat × Fs.State n) :=
  let free := (List.range' 1 (s.fs.sb.ninodes - 1)).find? fun inum =>
    (Dinode.get (s.fs.disk (s.fs.sb.iblock inum)) (Fs.State.dinodeOff inum)).type = 0
  match free with
  | none => none
  | some inum =>
    let bp := s.fs.disk (s.fs.sb.iblock inum)
    let data := (Dinode.fresh type).put bp (Fs.State.dinodeOff inum)
    match s.fs.logWrite (s.fs.sb.iblock inum) data with
    | .error _ => none
    | .ok fs => some (inum, fs)

def run (s : State n P) (p : P) : Option (State n P) :=
  match s.pc p with
  | .idle => none
  | .ialloc dev inum => s.iget p dev inum
  | .iput i =>
    match s.fs.acquiresleep i with
    | .error _ => none
    | .ok fs => some (setPc { s with fs := fs } p (.iputLocked i))
  | .iputLocked i =>
    let ip := s.fs.inode i
    if ip.valid ∧ ip.din.nlink = 0 ∧ ip.ref = 1 then
      some (s.setPc p (.iputFree i))
    else
      some (s.setPc p (.iputRelease i))
  | .iputFree i =>
    match s.fs.freeInode i with
    | .error _ => none
    | .ok fs => some (setPc { s with fs := fs } p (.iputRelease i))
  | .iputRelease i => some (setPc { s with fs := s.fs.releasesleep i } p (.iputDrop i))
  | .iputDrop i => some ((setHeld { s with fs := s.fs.drop i } p i (s.held p i - 1)).setPc p .idle)

def step (s : State n P) (a : P × Act n) : Option (State n P) :=
  let p := a.1
  match a.2 with
  | .run => s.run p
  | .iget dev inum => if s.pc p = .idle then s.iget p dev inum else none
  | .idup i =>
    if s.pc p = .idle ∧ 0 < s.held p i then
      some (setHeld { s with fs := s.fs.idup i } p i (s.held p i + 1))
    else
      none
  | .ialloc dev type =>
    if s.pc p = .idle then
      match s.claim type with
      | none => none
      | some (inum, fs) => some (setPc { s with fs := fs } p (.ialloc dev inum))
    else
      none
  | .iput i => if s.pc p = .idle ∧ 0 < s.held p i then some (s.setPc p (.iput i)) else none
  | .beginOp =>
    match s.fs.beginOp with
    | .error _ => none
    | .ok fs => some { s with fs := fs }
  | .endOp => some { s with fs := s.fs.endOp }
  | .ilock i =>
    if s.pc p = .idle ∧ 0 < s.held p i then
      match s.fs.ilock i with
      | .error _ => none
      | .ok fs => some { s with fs := fs }
    else
      none
  | .iunlock i =>
    if s.pc p = .idle ∧ 0 < s.held p i then
      match s.fs.iunlock i with
      | .error _ => none
      | .ok fs => some { s with fs := fs }
    else
      none
  | .update i di =>
    if s.pc p = .idle ∧ 0 < s.held p i ∧ (s.fs.inode i).lock then
      match (s.fs.setDin i di).iupdate i with
      | .error _ => none
      | .ok fs => some { s with fs := fs }
    else
      none

def Steps (s : State n P) (a : P × Act n) (s' : State n P) : Prop :=
  s.step a = some s'

def Used (s : State n P) (i : Fin n) : Prop :=
  0 < (s.fs.ids i).1

def key (s : State n P) (i : Fin n) : Nat × Nat :=
  (s.fs.ids i).2

structure Keeps (s s' : State n P) : Prop where
  ids : s'.fs.ids = s.fs.ids
  held : s'.held = s.held

variable [Fintype P] {s s' : State n P}

structure Inv (s : State n P) : Prop where
  single : ∀ i j, s.Used i → s.Used j → s.key i = s.key j → i = j
  refs : ∀ i, (s.fs.ids i).1 = Count.total (fun h : Fin n → Nat => (h i : Int)) s.held
  target : ∀ p i, (s.pc p).target = some i → 0 < s.held p i

namespace Inv

omit [DecidableEq P] in
theorem used (h : s.Inv) {p : P} {i : Fin n} (hheld : 0 < s.held p i) : s.Used i := by
  have hle := Count.le_total (w := fun h : Fin n → Nat => (h i : Int)) (f := s.held)
    (fun _ => Int.natCast_nonneg _) p
  unfold Used
  rw [h.refs i]
  omega

omit [DecidableEq P] in
theorem keeps (h : s.Inv) (hkeeps : Keeps s s') (htarget : ∀ p i, (s'.pc p).target = some i → 0 < s'.held p i)
    : s'.Inv where
  single := by
    intro i j
    unfold Used key
    rw [hkeeps.ids]
    exact h.single i j
  refs := by
    intro i
    rw [hkeeps.ids, hkeeps.held]
    exact h.refs i
  target := htarget

theorem setPc (h : s.Inv) {p : P} {pc : Pc n} (hpc : ∀ i, pc.target = some i → 0 < s.held p i)
    : (s.setPc p pc).Inv := by
  refine h.keeps ⟨rfl, rfl⟩ ?_
  intro q i hq
  change Pc.target (Function.update s.pc p pc q) = some i at hq
  by_cases hqp : q = p
  . rw [hqp, Function.update_self] at hq
    rw [hqp]
    exact hpc i hq
  . rw [Function.update_of_ne hqp] at hq
    exact h.target q i hq

omit [DecidableEq P] in
theorem withFs (h : s.Inv) {fs : Fs.State n} (hids : fs.ids = s.fs.ids) : Inv { s with fs := fs } :=
  h.keeps ⟨hids, rfl⟩ h.target

theorem setHeld (h : s.Inv) {fs : Fs.State n} {p : P} {i : Fin n} {k : Nat} {c : Nat × Nat}
    (hids : fs.ids = Function.update s.fs.ids i ((s.fs.ids i).1 + ((k : Int) - s.held p i), c))
    (hsingle : ∀ j, j ≠ i → s.Used j → s.key j ≠ c)
    (htarget : ∀ j, (s.pc p).target = some j → 0 < if j = i then k else s.held p j)
    : Inv (State.setHeld { s with fs := fs } p i k) := by
  have hself : (fs.ids i) = ((s.fs.ids i).1 + ((k : Int) - s.held p i), c) := by
    rw [hids, Function.update_self]
  have hother : ∀ j, j ≠ i → fs.ids j = s.fs.ids j := by
    intro j hj
    rw [hids, Function.update_of_ne hj]
  constructor
  . intro j j' hj hj' heq
    change 0 < (fs.ids j).1 at hj
    change 0 < (fs.ids j').1 at hj'
    change (fs.ids j).2 = (fs.ids j').2 at heq
    by_cases hji : j = i
    . by_cases hji' : j' = i
      . rw [hji, hji']
      . rw [hji, hself, hother j' hji'] at heq
        rw [hother j' hji'] at hj'
        exact absurd heq.symm (hsingle j' hji' hj')
    . by_cases hji' : j' = i
      . rw [hji', hself, hother j hji] at heq
        rw [hother j hji] at hj
        exact absurd heq (hsingle j hji hj)
      . rw [hother j hji] at hj heq
        rw [hother j' hji'] at hj' heq
        exact h.single j j' hj hj' heq
  . intro j
    change (fs.ids j).1 = Count.total _ (Function.update s.held p (Function.update (s.held p) i k))
    rw [Count.total_update, ← h.refs j]
    by_cases hji : j = i
    . rw [hji, hself, Function.update_self]
      dsimp only
      omega
    . rw [hother j hji, Function.update_of_ne hji]
      omega
  . intro q j hq
    change 0 < Function.update s.held p (Function.update (s.held p) i k) q j
    have hheld := h.target q j hq
    by_cases hqp : q = p
    . rw [hqp] at hq ⊢
      have hpos := htarget j hq
      rw [Function.update_self]
      by_cases hji : j = i
      . rw [if_pos hji] at hpos
        rw [hji, Function.update_self]
        exact hpos
      . rw [if_neg hji] at hpos
        rw [Function.update_of_ne hji]
        exact hpos
    . rw [Function.update_of_ne hqp]
      exact hheld

end Inv

theorem iget_cases {fs fs' : Fs.State n} {dev inum : Nat} {i : Fin n} (h : fs.iget dev inum = .ok (i, fs'))
    : fs'.ids = Function.update fs.ids i ((fs.ids i).1 + 1, dev, inum)
      ∧ (0 < (fs.ids i).1 ∧ (fs.ids i).2 = (dev, inum)
        ∨ (fs.ids i).1 = 0 ∧ ∀ j, 0 < (fs.ids j).1 → (fs.ids j).2 ≠ (dev, inum)) := by
  have hupdate : ∀ ip : Inode, (fs.setInode i ip).ids = Function.update fs.ids i (ip.ref, ip.dev, ip.inum) := by
    intro ip
    exact Function.comp_update (fun ip : Inode => (ip.ref, ip.dev, ip.inum)) fs.inode i ip
  unfold Fs.State.iget at h
  dsimp only at h
  split at h
  . next i' hhit =>
    cases h
    have hfound := List.find?_some hhit
    rw [decide_eq_true_iff] at hfound
    rcases hfound with ⟨hpos, hdev, hinum⟩
    have hkey : (fs.ids i).2 = (dev, inum) := Prod.ext hdev hinum
    refine ⟨?_, .inl ⟨hpos, hkey⟩⟩
    rw [hupdate, ← hkey]
    rfl
  . next hmiss =>
    split at h
    . cases h
    . next i' hempty =>
      cases h
      have hzero := List.find?_some hempty
      rw [decide_eq_true_iff] at hzero
      have hids : (fs.ids i).1 = 0 := hzero
      refine ⟨?_, .inr ⟨hids, ?_⟩⟩
      . rw [hupdate, hids]
        rfl
      . intro j hj hkey
        have hnone := List.find?_eq_none.mp hmiss j (List.mem_finRange j)
        rw [decide_eq_true_iff] at hnone
        exact hnone ⟨hj, congrArg Prod.fst hkey, congrArg Prod.snd hkey⟩

theorem ids_idup (fs : Fs.State n) (i : Fin n)
    : (fs.idup i).ids = Function.update fs.ids i ((fs.ids i).1 + 1, (fs.ids i).2) :=
  Function.comp_update (fun ip : Inode => (ip.ref, ip.dev, ip.inum)) fs.inode i _

theorem ids_drop (fs : Fs.State n) (i : Fin n)
    : (fs.drop i).ids = Function.update fs.ids i ((fs.ids i).1 - 1, (fs.ids i).2) :=
  Function.comp_update (fun ip : Inode => (ip.ref, ip.dev, ip.inum)) fs.inode i _

namespace Inv

omit [DecidableEq P] in
theorem key_ne (h : s.Inv) {i : Fin n} (hused : s.Used i) (j : Fin n) (hj : j ≠ i) (hjused : s.Used j)
    : s.key j ≠ s.key i :=
  fun heq => hj (h.single j i hjused hused heq)

theorem iget (h : s.Inv) {p : P} {dev inum : Nat} (hpc : (s.pc p).target = none)
    (hstep : s.iget p dev inum = some s')
    : s'.Inv ∧ ∀ i, s.Used i → s'.key i = s.key i := by
  unfold State.iget at hstep
  split at hstep
  . cases hstep
  . next i fs hget =>
    cases hstep
    rcases iget_cases hget with ⟨hids, hcases⟩
    constructor
    . apply Inv.setPc _ (by simp [Pc.target])
      apply h.setHeld (c := (dev, inum))
      . rw [hids]
        congr 2
        omega
      . intro j hj hused
        rcases hcases with ⟨hpos, hkey⟩ | ⟨_, hmiss⟩
        . rw [← hkey]
          exact h.key_ne hpos j hj hused
        . exact hmiss j hused
      . intro j hj
        rw [hpc] at hj
        cases hj
    . intro j hused
      change (fs.ids j).2 = (s.fs.ids j).2
      rw [hids]
      by_cases hji : j = i
      . rw [hji, Function.update_self]
        rcases hcases with ⟨_, hkey⟩ | ⟨hzero, _⟩
        . exact hkey.symm
        . rw [hji] at hused
          unfold Used at hused
          omega
      . rw [Function.update_of_ne hji]

theorem of_ids (h : s.Inv) {fs : Fs.State n} (hids : fs.ids = s.fs.ids) {p : P} {pc : Pc n}
    (hpc : ∀ i, pc.target = some i → 0 < s.held p i)
    : (State.setPc { s with fs := fs } p pc).Inv
      ∧ ∀ i, s.Used i → (State.setPc { s with fs := fs } p pc).key i = s.key i := by
  refine ⟨(h.withFs hids).setPc hpc, ?_⟩
  intro i _
  change (fs.ids i).2 = (s.fs.ids i).2
  rw [hids]

theorem run (h : s.Inv) {p : P} (hstep : s.run p = some s')
    : s'.Inv ∧ ∀ i, s.Used i → s'.key i = s.key i := by
  have hheld := h.target p
  unfold State.run at hstep
  split at hstep
  . cases hstep
  . next dev inum hpc =>
    exact h.iget (by rw [hpc]; rfl) hstep
  . next i hpc =>
    rw [hpc] at hheld
    split at hstep
    . cases hstep
    . next fs hfs =>
      cases hstep
      exact h.of_ids ((s.fs.acquiresleep_ids i).of_ok hfs) hheld
  . next i hpc =>
    rw [hpc] at hheld
    dsimp only at hstep
    split at hstep
    . cases hstep
      exact h.of_ids rfl hheld
    . cases hstep
      exact h.of_ids rfl hheld
  . next i hpc =>
    rw [hpc] at hheld
    split at hstep
    . cases hstep
    . next fs hfs =>
      cases hstep
      exact h.of_ids ((s.fs.freeInode_ids i).of_ok hfs) hheld
  . next i hpc =>
    rw [hpc] at hheld
    cases hstep
    exact h.of_ids (s.fs.ids_releasesleep i) hheld
  . next i hpc =>
    rw [hpc] at hheld
    have hpos := hheld i rfl
    cases hstep
    constructor
    . -- the process is done with the inode
      have hidle : (s.setPc p .idle).Inv := h.setPc (by simp [Pc.target])
      have hswap : (State.setHeld { s with fs := s.fs.drop i } p i (s.held p i - 1)).setPc p .idle
          = State.setHeld { s.setPc p .idle with fs := s.fs.drop i } p i (s.held p i - 1) := rfl
      rw [hswap]
      apply hidle.setHeld (c := s.key i)
      . rw [ids_drop]
        change _ = Function.update s.fs.ids i ((s.fs.ids i).1 + (((s.held p i - 1 : Nat) : Int) - s.held p i), _)
        congr 2
        omega
      . exact h.key_ne (h.used hpos)
      . intro j hj
        change (Function.update s.pc p .idle p).target = some j at hj
        rw [Function.update_self] at hj
        cases hj
    . intro j _
      change ((s.fs.drop i).ids j).2 = (s.fs.ids j).2
      rw [ids_drop]
      by_cases hji : j = i
      . rw [hji, Function.update_self]
      . rw [Function.update_of_ne hji]

theorem step (h : s.Inv) {a : P × Act n} (hstep : s.Steps a s')
    : s'.Inv ∧ ∀ i, s.Used i → s'.key i = s.key i := by
  have hfs : ∀ fs : Fs.State n, fs.ids = s.fs.ids
      → Inv { s with fs := fs } ∧ ∀ i, s.Used i → State.key { s with fs := fs } i = s.key i := by
    intro fs hids
    refine ⟨h.withFs hids, ?_⟩
    intro i _
    change (fs.ids i).2 = (s.fs.ids i).2
    rw [hids]
  unfold Steps State.step at hstep
  dsimp only at hstep
  split at hstep
  . exact h.run hstep
  . split at hstep
    . next hpc => exact h.iget (by rw [hpc]; rfl) hstep
    . cases hstep
  . next i _ =>
    split at hstep
    . next hcond =>
      cases hstep
      constructor
      . apply h.setHeld (c := s.key i)
        . rw [ids_idup]
          unfold key
          congr 2
          omega
        . exact h.key_ne (h.used hcond.2)
        . intro j hj
          rw [hcond.1] at hj
          cases hj
      . intro j _
        change ((s.fs.idup i).ids j).2 = (s.fs.ids j).2
        rw [ids_idup]
        by_cases hji : j = i
        . rw [hji, Function.update_self]
        . rw [Function.update_of_ne hji]
    . cases hstep
  . split at hstep
    . split at hstep
      . cases hstep
      . next inum fs hclaim =>
        cases hstep
        have hids : fs.ids = s.fs.ids := by
          unfold claim at hclaim
          dsimp only at hclaim
          split at hclaim
          . cases hclaim
          split at hclaim
          . cases hclaim
          . next fs' hwrite =>
            cases hclaim
            exact (s.fs.logWrite_ids _ _).of_ok hwrite
        exact h.of_ids hids (by simp [Pc.target])
    . cases hstep
  . next i _ =>
    split at hstep
    . next hcond =>
      cases hstep
      apply h.of_ids rfl
      intro j hj
      cases hj
      exact hcond.2
    . cases hstep
  . split at hstep
    . cases hstep
    . next fs hbegin =>
      cases hstep
      exact hfs fs (s.fs.beginOp_ids.of_ok hbegin)
  . cases hstep
    exact hfs _ rfl
  . split at hstep
    . split at hstep
      . cases hstep
      . next fs hlock =>
        cases hstep
        exact hfs fs ((s.fs.ilock_ids _).of_ok hlock)
    . cases hstep
  . split at hstep
    . split at hstep
      . cases hstep
      . next fs hunlock =>
        cases hstep
        exact hfs fs ((s.fs.iunlock_ids _).of_ok hunlock)
    . cases hstep
  . split at hstep
    . split at hstep
      . cases hstep
      . next fs hupdate =>
        cases hstep
        exact hfs fs ((s.fs.setDin_iupdate_ids _ _).of_ok hupdate)
    . cases hstep

end Inv

structure Start (s : State n P) : Prop where
  ref : ∀ i, (s.fs.inode i).ref = 0
  held : ∀ p i, s.held p i = 0
  pc : ∀ p, s.pc p = .idle

omit [DecidableEq P] in
theorem Start.inv (h : s.Start) : s.Inv where
  single := by
    intro i j hi
    have hzero : (s.fs.ids i).1 = 0 := h.ref i
    unfold Used at hi
    omega
  refs := by
    intro i
    change (s.fs.inode i).ref = _
    rw [h.ref i]
    symm
    apply Finset.sum_eq_zero
    intro p _
    dsimp only
    rw [h.held]
    rfl
  target := by
    intro p i hp
    rw [h.pc p] at hp
    cases hp

theorem inv_of_reachable {s0 : State n P} (h0 : s0.Start) (h : Reach.Reachable s0 Steps s) : s.Inv := by
  apply Reach.Reachable.induct Inv h0.inv _ h
  intro s a s' _ hinv hstep
  exact (hinv.step hstep).1

end State
end Xv6.Fs.Icache
