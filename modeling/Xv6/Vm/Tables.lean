import Xv6.Lib.TwoLevel
import Xv6.Vm.Resize
import Xv6.Vm.Words

namespace Xv6
namespace Vm
namespace Words

variable {k : Kmem} {r : Nat}

@[ext]
structure Frame where
  addr : UInt32
  aligned : addr.toNat % 4096 = 0
deriving DecidableEq

def slot (p : Frame) (i : Fin 1024) : UInt32 :=
  p.addr + 4 * UInt32.ofNat i

def dirIndex (va : UInt32) : Fin 1024 :=
  ⟨(pdx va).toNat, by
    have := va.toNat_lt
    rw [toNat_pdx]
    omega⟩

def tabIndex (va : UInt32) : Fin 1024 :=
  ⟨(ptx va).toNat, by
    rw [toNat_ptx]
    omega⟩

variable {p q : Frame} {i j : Fin 1024} {m : Mem}

theorem slot_dirIndex (p : Frame) (va : UInt32) : slot p (dirIndex va) = p.addr + 4 * pdx va := by
  unfold slot dirIndex
  rw [UInt32.ofNat_toNat]

theorem slot_tabIndex (p : Frame) (va : UInt32) : slot p (tabIndex va) = p.addr + 4 * ptx va := by
  unfold slot tabIndex
  rw [UInt32.ofNat_toNat]

theorem toNat_slot (p : Frame) (i : Fin 1024) : (slot p i).toNat = p.addr.toNat + 4 * i := by
  have hp := p.aligned
  have hlt := p.addr.toNat_lt
  have hfour : (4 : UInt32).toNat = 4 := rfl
  have hi : (UInt32.ofNat i).toNat = i := UInt32.toNat_ofNat_of_lt' (Nat.lt_of_lt_of_le i.2 (by decide))
  unfold slot
  rw [UInt32.toNat_add, UInt32.toNat_mul, hi, hfour]
  omega

theorem slot_inj (h : slot p i = slot q j) : p = q ∧ i = j := by
  have hp := p.aligned
  have hq := q.aligned
  have heq := UInt32.toNat_inj.mpr h
  rw [toNat_slot, toNat_slot] at heq
  refine ⟨Frame.ext (UInt32.toNat_inj.mp ?_), Fin.ext ?_⟩
  . omega
  . omega

theorem update_slot_of_ne (h : ¬(q = p ∧ j = i)) (m : Mem) (w : UInt32)
    : Function.update m (slot p i) w (slot q j) = m (slot q j) :=
  Function.update_of_ne (fun heq => h (slot_inj heq)) ..

theorem clear_slot_self (m : Mem) (p : Frame) (i : Fin 1024) : clear m p.addr (slot p i) = 0 := by
  apply if_pos
  have hlt := p.addr.toNat_lt
  have hsize : (4096 : UInt32).toNat = 4096 := rfl
  rw [UInt32.lt_iff_toNat_lt, UInt32.toNat_sub, toNat_slot]
  omega

theorem clear_slot_of_ne (h : q ≠ p) (m : Mem) (j : Fin 1024) : clear m p.addr (slot q j) = m (slot q j) := by
  apply if_neg
  have hp := p.aligned
  have hq := q.aligned
  have hltp := p.addr.toNat_lt
  have hltq := q.addr.toNat_lt
  have hne : q.addr.toNat ≠ p.addr.toNat := fun heq => h (Frame.ext (UInt32.toNat_inj.mp heq))
  have hsize : (4096 : UInt32).toNat = 4096 := rfl
  rw [UInt32.lt_iff_toNat_lt, UInt32.toNat_sub, toNat_slot]
  omega

def table (w : UInt32) : Frame :=
  ⟨p2v (pteAddr w), by
    have hbase : (0x80000000 : UInt32).toNat = 2 ^ 31 := rfl
    unfold p2v
    rw [UInt32.toNat_add, toNat_pteAddr]
    omega⟩

def page (r : Nat) : Frame :=
  table (UInt32.ofNat r)

theorem p2v_ofNat (h : r % 4096 = 0) (hlt : r < PHYSTOP) : p2v (UInt32.ofNat r) = (page r).addr := by
  have hstop : PHYSTOP = 234881024 := rfl
  have hr : (UInt32.ofNat r).toNat = r := UInt32.toNat_ofNat_of_lt' (Nat.lt_of_lt_of_le hlt (by decide))
  have haddr : pteAddr (UInt32.ofNat r) = UInt32.ofNat r := by
    apply UInt32.toNat_inj.mp
    rw [toNat_pteAddr, hr]
    omega
  change _ = p2v (pteAddr (UInt32.ofNat r))
  rw [haddr]

theorem toNat_v2p_page (h : r % 4096 = 0) (hlt : r < PHYSTOP) : (v2p (page r).addr).toNat = r := by
  rw [← p2v_ofNat h hlt, v2p, p2v, UInt32.add_sub_cancel]
  exact UInt32.toNat_ofNat_of_lt' (Nat.lt_of_lt_of_le hlt (by decide))

def pdeOf (p : Frame) : UInt32 :=
  v2p p.addr ||| PTE_P ||| PTE_W ||| PTE_U

theorem pdeOf_eq (p : Frame) : pdeOf p = v2p p.addr ||| 7 := by
  unfold pdeOf
  rw [UInt32.or_assoc, UInt32.or_assoc]
  rfl

theorem pdeOf_present (p : Frame) : pdeOf p &&& PTE_P ≠ 0 := by
  rw [pdeOf_eq]
  exact or_and_PTE_P _ _ rfl

theorem table_pdeOf (p : Frame) : table (pdeOf p) = p := by
  have hp := p.aligned
  have hlt := p.addr.toNat_lt
  have hbase : (0x80000000 : UInt32).toNat = 2 ^ 31 := rfl
  have haddr : pteAddr (v2p p.addr) = v2p p.addr := by
    apply UInt32.toNat_inj.mp
    unfold v2p
    rw [toNat_pteAddr, UInt32.toNat_sub]
    omega
  apply Frame.ext
  change p2v (pteAddr (pdeOf p)) = p.addr
  rw [pdeOf_eq, pteAddr_or _ (by decide), haddr]
  exact UInt32.sub_add_cancel ..

def tree (m : Mem) (pgdir : Frame) : TwoLevel (Fin 1024) (Fin 1024) Frame UInt32 where
  dir i := if m (slot pgdir i) &&& PTE_P = 0 then none else some (table (m (slot pgdir i)))
  cell t j := if t = pgdir ∨ m (slot t j) &&& PTE_P = 0 then none else some (m (slot t j))

theorem tree_attach (m : Mem) {pgdir t : Frame} (ht : t ≠ pgdir) (i : Fin 1024)
    : tree (Function.update (clear m t.addr) (slot pgdir i) (pdeOf t)) pgdir = (tree m pgdir).attach i t := by
  unfold TwoLevel.attach tree
  congr
  . funext i'
    by_cases hi : i' = i
    . rw [hi, Function.update_self, Function.update_self, if_neg (pdeOf_present t), table_pdeOf]
    . rw [Function.update_of_ne hi, update_slot_of_ne (fun h => hi h.2), clear_slot_of_ne ht.symm]
  . funext t' j
    by_cases hdir : t' = pgdir
    . rw [if_pos (.inl hdir), Function.update_of_ne (by rw [hdir]; exact ht.symm)]
      exact (if_pos (.inl hdir)).symm
    rw [update_slot_of_ne (fun h => hdir h.1)]
    by_cases htt : t' = t
    . rw [htt, clear_slot_self, Function.update_self]
      exact if_pos (.inr rfl)
    . rw [clear_slot_of_ne htt, Function.update_of_ne htt]

theorem tree_put (m : Mem) {pgdir t : Frame} (ht : t ≠ pgdir) (j : Fin 1024) {w : UInt32} (hw : w &&& PTE_P ≠ 0)
    : tree (Function.update m (slot t j) w) pgdir = (tree m pgdir).put t j w := by
  unfold TwoLevel.put tree
  congr
  . funext i
    rw [update_slot_of_ne (fun h => ht h.1.symm)]
  . funext t' j'
    by_cases htt : t' = t
    . rw [htt, Function.update_self]
      by_cases hj : j' = j
      . rw [hj, Function.update_self, Function.update_self, if_neg (not_or_intro ht hw)]
      . rw [Function.update_of_ne hj, update_slot_of_ne (fun h => hj h.2)]
    . rw [Function.update_of_ne htt, update_slot_of_ne (fun h => htt h.1)]

structure Tables where
  kmem : Kmem
  mem : Mem
  pgdir : Frame
  unshared : (tree mem pgdir).Unshared
  root : ∀ i, (tree mem pgdir).dir i ≠ some pgdir
  nodup : kmem.freelist.Nodup
  free : ∀ r ∈ kmem.freelist, r % 4096 = 0 ∧ r < PHYSTOP
  apart : ∀ r ∈ kmem.freelist, page r ≠ pgdir ∧ ∀ i, (tree mem pgdir).dir i ≠ some (page r)

namespace Tables

variable {T T' : Tables} {va : UInt32} {t : Frame}

abbrev tree (T : Tables) : TwoLevel (Fin 1024) (Fin 1024) Frame UInt32 :=
  Words.tree T.mem T.pgdir

def lookup (T : Tables) (va : UInt32) : Option UInt32 :=
  match walkpgdir T.kmem T.mem T.pgdir.addr va false with
  | (_, _, none) => none
  | (_, _, some pte) => if T.mem pte &&& PTE_P = 0 then none else some (T.mem pte)

def translate (T : Tables) (va : UInt32) : Option (UInt32 × UInt32) :=
  (T.lookup va).map fun pte => (pteAddr pte ||| (va &&& 0xFFF), pteFlags pte)

def find (T : Tables) (va : UInt32) : Option UInt32 :=
  T.tree.find (dirIndex va) (tabIndex va)

def starve (T : Tables) {k : Kmem} (hk : kalloc T.kmem = (k, none)) : Tables :=
  have hlist : k.freelist = T.kmem.freelist := by
    obtain ⟨_, ⟨_, hlist⟩ | ⟨_, hsome, _⟩⟩ := kalloc_pops hk
    . exact hlist
    . cases hsome
  { T with
    kmem := k
    nodup := by rw [hlist]; exact T.nodup
    free := by rw [hlist]; exact T.free
    apart := by rw [hlist]; exact T.apart }

theorem mem_of_kalloc (hk : kalloc T.kmem = (k, some r)) : r ∈ T.kmem.freelist := by
  rw [(kalloc_takes hk).2]
  exact List.mem_cons_self

def attach (T : Tables) {k : Kmem} {r : Nat} (hk : kalloc T.kmem = (k, some r)) (i : Fin 1024) : Tables :=
  have hlist : T.kmem.freelist = r :: k.freelist := (kalloc_takes hk).2
  have hr := mem_of_kalloc hk
  have hsub : ∀ x ∈ k.freelist, x ∈ T.kmem.freelist := by
    intro x hx
    rw [hlist]
    exact List.mem_cons_of_mem r hx
  have htree := tree_attach T.mem (T.apart r hr).1 i
  { kmem := k
    mem := Function.update (clear T.mem (page r).addr) (slot T.pgdir i) (pdeOf (page r))
    pgdir := T.pgdir
    unshared := by
      rw [htree]
      exact T.unshared.attach (T.apart r hr).2
    root := by
      rw [htree]
      intro i'
      by_cases hi : i' = i
      . rw [hi, TwoLevel.dir_attach_self]
        exact fun h => (T.apart r hr).1 (Option.some.inj h)
      . rw [TwoLevel.dir_attach_of_ne hi]
        exact T.root i'
    nodup := by
      have hnodup := T.nodup
      rw [hlist] at hnodup
      exact (List.nodup_cons.mp hnodup).2
    free := fun x hx => T.free x (hsub x hx)
    apart := by
      intro x hx
      refine ⟨(T.apart x (hsub x hx)).1, ?_⟩
      rw [htree]
      intro i'
      by_cases hi : i' = i
      . rw [hi, TwoLevel.dir_attach_self]
        intro h
        have heq := congrArg (fun p : Frame => (v2p p.addr).toNat) (Option.some.inj h)
        rw [toNat_v2p_page (T.free r hr).1 (T.free r hr).2, toNat_v2p_page (T.free x (hsub x hx)).1
          (T.free x (hsub x hx)).2] at heq
        have hnodup := T.nodup
        rw [hlist, heq] at hnodup
        exact (List.nodup_cons.mp hnodup).1 hx
      . rw [TwoLevel.dir_attach_of_ne hi]
        exact (T.apart x (hsub x hx)).2 i' }

def put (T : Tables) {i : Fin 1024} (ht : T.tree.dir i = some t) (j : Fin 1024) {w : UInt32}
    (hw : w &&& PTE_P ≠ 0) : Tables :=
  have hne : t ≠ T.pgdir := by
    rintro rfl
    exact T.root i ht
  have hdir : (Words.tree (Function.update T.mem (slot t j) w) T.pgdir).dir = T.tree.dir := by
    rw [tree_put T.mem hne j hw]
    rfl
  { kmem := T.kmem
    mem := Function.update T.mem (slot t j) w
    pgdir := T.pgdir
    unshared := by
      unfold TwoLevel.Unshared
      rw [hdir]
      exact T.unshared
    root := by
      rw [hdir]
      exact T.root
    nodup := T.nodup
    free := T.free
    apart := by
      rw [hdir]
      exact T.apart }

theorem tree_attach (hk : kalloc T.kmem = (k, some r)) (i : Fin 1024)
    : (T.attach hk i).tree = T.tree.attach i (page r) := by
  exact Words.tree_attach T.mem (T.apart r (mem_of_kalloc hk)).1 i

theorem tree_put {i : Fin 1024} (ht : T.tree.dir i = some t) (j : Fin 1024) {w : UInt32} (hw : w &&& PTE_P ≠ 0)
    : (T.put ht j hw).tree = T.tree.put t j w := by
  apply Words.tree_put
  . intro heq
    exact T.root i (ht.trans (congrArg some heq))
  . exact hw

theorem find_attach (hk : kalloc T.kmem = (k, some r)) (h : T.tree.dir (dirIndex va) = none)
    : (T.attach hk (dirIndex va)).find = T.find := by
  funext x
  unfold find
  rw [tree_attach, TwoLevel.find_attach h (T.apart r (mem_of_kalloc hk)).2]

theorem word_of_dir_eq_none {i : Fin 1024} (h : T.tree.dir i = none) : T.mem (slot T.pgdir i) &&& PTE_P = 0 := by
  by_contra hp
  exact Option.some_ne_none _ ((if_neg hp).symm.trans h)

theorem word_of_dir_eq_some {i : Fin 1024} (h : T.tree.dir i = some t)
    : T.mem (slot T.pgdir i) &&& PTE_P ≠ 0 ∧ table (T.mem (slot T.pgdir i)) = t := by
  have hp : T.mem (slot T.pgdir i) &&& PTE_P ≠ 0 := by
    intro hp
    exact Option.some_ne_none _ (h.symm.trans (if_pos hp))
  exact ⟨hp, Option.some.inj ((if_neg hp).symm.trans h)⟩

theorem walkpgdir_of_dir (h : T.tree.dir (dirIndex va) = some t) (alloc : Bool)
    : walkpgdir T.kmem T.mem T.pgdir.addr va alloc = (T.kmem, T.mem, some (slot t (tabIndex va))) := by
  obtain ⟨hp, ht⟩ := word_of_dir_eq_some h
  unfold walkpgdir
  rw [← slot_dirIndex, if_pos hp, slot_tabIndex, ← ht]
  rfl

section
variable (h : T.tree.dir (dirIndex va) = none)
include h

theorem walkpgdir_of_none
    : walkpgdir T.kmem T.mem T.pgdir.addr va false = (T.kmem, T.mem, none) := by
  unfold walkpgdir
  rw [← slot_dirIndex, if_neg (not_not.mpr (word_of_dir_eq_none h))]
  rfl

theorem walkpgdir_starve (hk : kalloc T.kmem = (k, none))
    : walkpgdir T.kmem T.mem T.pgdir.addr va true = (k, T.mem, none) := by
  unfold walkpgdir
  rw [← slot_dirIndex, if_neg (not_not.mpr (word_of_dir_eq_none h)), hk]
  rfl

theorem walkpgdir_attach
    (hk : kalloc T.kmem = (k, some r))
    : walkpgdir T.kmem T.mem T.pgdir.addr va true
      = (k, (T.attach hk (dirIndex va)).mem, some (slot (page r) (tabIndex va))) := by
  have hr := mem_of_kalloc hk
  unfold walkpgdir
  rw [← slot_dirIndex, if_neg (not_not.mpr (word_of_dir_eq_none h)), hk, slot_tabIndex]
  dsimp only
  rw [p2v_ofNat (T.free r hr).1 (T.free r hr).2]
  rfl

end

theorem index_eq_iff (x y : UInt32)
    : dirIndex x = dirIndex y ∧ tabIndex x = tabIndex y ↔ x.toNat / 4096 = y.toNat / 4096 := by
  unfold dirIndex tabIndex
  rw [Fin.mk.injEq, Fin.mk.injEq, toNat_pdx, toNat_pdx, toNat_ptx, toNat_ptx]
  omega

theorem find_congr {x : UInt32} (h : x.toNat / 4096 = va.toNat / 4096) : T.find x = T.find va := by
  obtain ⟨hdir, htab⟩ := (index_eq_iff x va).mpr h
  unfold find
  rw [hdir, htab]

section put

variable {x w : UInt32} (ht : T.tree.dir (dirIndex va) = some t) (hw : w &&& PTE_P ≠ 0)

theorem find_put_self (h : x.toNat / 4096 = va.toNat / 4096) : (T.put ht (tabIndex va) hw).find x = some w := by
  rw [find_congr h]
  unfold find
  rw [tree_put]
  exact TwoLevel.find_put_self ht ..

theorem find_put_of_ne (h : x.toNat / 4096 ≠ va.toNat / 4096)
    : (T.put ht (tabIndex va) hw).find x = T.find x := by
  unfold find
  rw [tree_put]
  exact TwoLevel.find_put_of_ne T.unshared ht (mt (index_eq_iff x va).mp h) w

end put

theorem word_of_find_eq_none (ht : T.tree.dir (dirIndex va) = some t) (h : T.find va = none)
    : T.mem (slot t (tabIndex va)) &&& PTE_P = 0 := by
  unfold find at h
  rw [TwoLevel.find_of_dir ht] at h
  by_contra hp
  apply Option.some_ne_none _ ((if_neg (not_or_intro _ hp)).symm.trans h)
  rintro rfl
  exact T.root _ ht

def pageDir (T : Tables) : PageDir where
  page := (v2p T.pgdir.addr).toNat
  table i := if h : i < 1024 then (T.tree.dir ⟨i, h⟩).map fun t => (v2p t.addr).toNat else none
  pte v := if v < 2 ^ 20 then (T.find (UInt32.ofNat (4096 * v))).bind fun w => Exec.Walk.entry w.toNat else none

theorem dirIndex_val (va : UInt32) : (dirIndex va).val = va.toNat / 4096 / 1024 := by
  change (pdx va).toNat = _
  rw [toNat_pdx]
  omega

theorem toNat_page {v : Nat} (h : v < 2 ^ 20) : (UInt32.ofNat (4096 * v)).toNat = 4096 * v := by
  apply UInt32.toNat_ofNat_of_lt'
  change _ < 2 ^ 32
  omega

theorem pageDir_table (T : Tables) (va : UInt32)
    : T.pageDir.table (va.toNat / 4096 / 1024) = (T.tree.dir (dirIndex va)).map fun t => (v2p t.addr).toNat := by
  rw [← dirIndex_val]
  exact dif_pos (dirIndex va).2

theorem pageDir_pte (T : Tables) (va : UInt32)
    : T.pageDir.pte (va.toNat / 4096) = (T.find va).bind fun w => Exec.Walk.entry w.toNat := by
  have hlt := va.toNat_lt
  have hpage : (UInt32.ofNat (4096 * (va.toNat / 4096))).toNat / 4096 = va.toNat / 4096 := by
    rw [toNat_page (by omega)]
    omega
  rw [← find_congr hpage]
  exact if_pos (by omega)

theorem pageDir_attach (hk : kalloc T.kmem = (k, some r)) (h : T.tree.dir (dirIndex va) = none)
    : (T.attach hk (dirIndex va)).pageDir = T.pageDir.setTable (va.toNat / 4096 / 1024) r := by
  have hr := T.free r (mem_of_kalloc hk)
  unfold pageDir PageDir.setTable
  rw [find_attach hk h, tree_attach]
  congr 1
  funext i
  by_cases hi : i = va.toNat / 4096 / 1024
  . rw [hi, Function.update_self, ← dirIndex_val, dif_pos (dirIndex va).2]
    change ((T.tree.attach (dirIndex va) (page r)).dir (dirIndex va)).map _ = _
    rw [TwoLevel.dir_attach_self, Option.map_some, toNat_v2p_page hr.1 hr.2]
  rw [Function.update_of_ne hi]
  dsimp only
  by_cases hlt : i < 1024
  . rw [dif_pos hlt, dif_pos hlt, TwoLevel.dir_attach_of_ne]
    intro heq
    rw [← dirIndex_val, ← heq] at hi
    exact hi rfl
  . rw [dif_neg hlt, dif_neg hlt]

theorem pageDir_put (ht : T.tree.dir (dirIndex va) = some t) {w : UInt32} (hw : w &&& PTE_P ≠ 0)
    : (T.put ht (tabIndex va) hw).pageDir = T.pageDir.setPte (va.toNat / 4096) (Exec.Walk.entry w.toNat) := by
  have hpte : (T.put ht (tabIndex va) hw).pageDir.pte
      = Function.update T.pageDir.pte (va.toNat / 4096) (Exec.Walk.entry w.toNat) := by
    funext v
    by_cases hv : v = va.toNat / 4096
    . rw [hv, Function.update_self, pageDir_pte, find_put_self _ _ rfl]
      rfl
    rw [Function.update_of_ne hv]
    unfold pageDir
    dsimp only
    by_cases hlt : v < 2 ^ 20
    . rw [if_pos hlt, if_pos hlt, find_put_of_ne _ _ (by rw [toNat_page hlt]; omega)]
    . rw [if_neg hlt, if_neg hlt]
  unfold PageDir.setPte
  rw [← hpte]
  unfold pageDir
  rw [tree_put ht (tabIndex va) hw]
  rfl

def missing (T : Tables) (i : Fin 1024) : Nat :=
  if T.tree.dir i = none then 1 else 0

theorem missing_put_le {i : Fin 1024} (ht : T.tree.dir i = some t) (j : Fin 1024) {w : UInt32}
    (hw : w &&& PTE_P ≠ 0) (i' : Fin 1024)
    : (T.put ht j hw).missing i' ≤ if i' = i then 0 else 1 := by
  unfold missing
  rw [tree_put]
  change (if T.tree.dir i' = none then 1 else 0) ≤ _
  by_cases hi : i' = i
  . rw [hi, ht, if_pos rfl, if_neg (Option.some_ne_none t)]
  . rw [if_neg hi]
    split <;> decide

structure Walked (T T' : Tables) (va : UInt32) (t : Frame) : Prop where
  pgdir : T'.pgdir = T.pgdir
  walk : walkpgdir T.kmem T.mem T.pgdir.addr va true = (T'.kmem, T'.mem, some (slot t (tabIndex va)))
  dir : T'.tree.dir (dirIndex va) = some t
  find : T'.find = T.find
  model : Vm.walkpgdir T.kmem T.pageDir (va.toNat / 4096) = (T'.kmem, T'.pageDir, true)
  plenty : ∀ n, Plenty T.kmem (n + T.missing (dirIndex va)) → Plenty T'.kmem n

theorem walkpgdir_cases (T : Tables) (va : UInt32)
    : (T.tree.dir (dirIndex va) = none ∧ ∃ k, kalloc T.kmem = (k, none)) ∨ ∃ T' t, Walked T T' va t := by
  cases hdir : T.tree.dir (dirIndex va) with
  | some t =>
    refine .inr ⟨T, t, rfl, walkpgdir_of_dir hdir true, hdir, rfl, ?_, ?_⟩
    . unfold Vm.walkpgdir
      rw [pageDir_table, hdir]
      rfl
    . intro n hn
      unfold missing at hn
      rw [hdir, if_neg (Option.some_ne_none t)] at hn
      exact hn
  | none =>
    cases hk : kalloc T.kmem with
    | mk k r =>
      cases r with
      | none => exact .inl ⟨rfl, k, rfl⟩
      | some r =>
        refine .inr ⟨T.attach hk (dirIndex va), page r, rfl, walkpgdir_attach hdir hk, ?_, ?_, ?_, ?_⟩
        . rw [tree_attach]
          exact TwoLevel.dir_attach_self ..
        . exact find_attach hk hdir
        . unfold Vm.walkpgdir
          rw [pageDir_table, hdir, pageDir_attach hk hdir, hk]
          rfl
        . intro n hn
          unfold missing at hn
          rw [hdir, if_pos rfl] at hn
          obtain ⟨k', _, hk', hplenty⟩ := hn.kalloc
          rw [hk] at hk'
          cases hk'
          exact hplenty

section round

variable {T₁ : Tables} {a pa last perm : UInt32} {fuel : Nat}

theorem mapLoop_starve (h : T.tree.dir (dirIndex a) = none) (hk : kalloc T.kmem = (k, none))
    : mapLoop T.pgdir.addr last perm T.kmem T.mem a pa (fuel + 1) = some (.ok (k, T.mem, -1)) := by
  rw [mapLoop, walkpgdir_starve h hk]

theorem pte_present (pa perm : UInt32) : (pa ||| perm ||| PTE_P) &&& PTE_P ≠ 0 :=
  or_and_PTE_P _ _ rfl

theorem mapLoop_succ (h : Walked T T₁ a t) (hfree : T.find a = none)
    : mapLoop T.pgdir.addr last perm T.kmem T.mem a pa (fuel + 1)
      = if a = last then
          some (.ok (T₁.kmem, (T₁.put h.dir (tabIndex a) (pte_present pa perm)).mem, 0))
        else
          mapLoop T.pgdir.addr last perm T₁.kmem (T₁.put h.dir (tabIndex a) (pte_present pa perm)).mem
            (a + 4096) (pa + 4096) fuel := by
  have hword := word_of_find_eq_none h.dir (by rw [h.find]; exact hfree)
  rw [mapLoop, h.walk]
  dsimp only
  rw [if_neg (not_not.mpr hword)]
  rfl

theorem mapPage_starve (h : T.tree.dir (dirIndex a) = none) (hk : kalloc T.kmem = (k, none)) (e : Pte)
    : mapPage T.kmem T.pageDir (a.toNat / 4096) e = .ok (k, T.pageDir, false) := by
  unfold mapPage Vm.walkpgdir
  rw [pageDir_table, h, Option.map_none, hk]

theorem mapPage_walked (h : Walked T T₁ a t) (hfree : T.find a = none) (hpa : pa.toNat % 4096 = 0)
    (hperm : pteAddr perm = 0)
    : mapPage T.kmem T.pageDir (a.toNat / 4096) (pteOf pa perm)
      = .ok (T₁.kmem, (T₁.put h.dir (tabIndex a) (pte_present pa perm)).pageDir, true) := by
  unfold mapPage
  rw [h.model, pageDir_put, entry_pte hpa hperm]
  dsimp only
  rw [pageDir_pte, h.find, hfree]
  rfl

theorem mapLoop_of_mapPage {k k' : Kmem} {d d' : PageDir} {v n : Nat} {e : Pte}
    (h : mapPage k d v e = .ok (k', d', true))
    : Vm.mapLoop k d v (n + 1) e = Vm.mapLoop k' d' (v + 1) n { e with pa := e.pa + 4096 } := by
  rw [Vm.mapLoop, h]
  rfl

structure Maps (T T' : Tables) (a last pa perm : UInt32) (r : Int) : Prop where
  pgdir : T'.pgdir = T.pgdir
  outside : ∀ x, ¬(a.toNat ≤ x.toNat ∧ x.toNat < last.toNat + 4096) → T'.find x = T.find x
  result : (r = 0 ∧ ∀ x, a.toNat ≤ x.toNat → x.toNat < last.toNat + 4096 →
      T'.find x = some (pa + (pgRoundDown x - a) ||| perm ||| PTE_P))
    ∨ r = -1 ∧ ∃ k, kalloc k = (T'.kmem, none)
  model : pteAddr perm = 0 → pa.toNat % 4096 = 0 → pa.toNat + (last.toNat - a.toNat) < 2 ^ 32 →
    Vm.mapLoop T.kmem T.pageDir (a.toNat / 4096) ((last.toNat - a.toNat) / 4096 + 1) (pteOf pa perm)
      = .ok (T'.kmem, T'.pageDir, r = 0)
  plenty : Plenty T.kmem (last.toNat / 2 ^ 22 - a.toNat / 2 ^ 22 + T.missing (dirIndex a)) → r = 0

theorem maps_starve (h : T.tree.dir (dirIndex a) = none) (hk : kalloc T.kmem = (k, none))
    : Maps T (T.starve hk) a last pa perm (-1) := by
  refine ⟨rfl, fun _ _ => rfl, .inr ⟨rfl, T.kmem, hk⟩, ?_, ?_⟩
  . intro _ _ _
    rw [Vm.mapLoop, mapPage_starve h hk]
    rfl
  . intro henough
    unfold missing at henough
    rw [h, if_pos rfl] at henough
    obtain ⟨k', r, hk', _⟩ := henough.kalloc
    rw [hk] at hk'
    cases hk'

theorem exists_maps_of_starve {n : Nat} (h : T.tree.dir (dirIndex a) = none)
    (hk : kalloc T.kmem = (k, none))
    : ∃ T' r, Maps T T' a last pa perm r ∧ ∀ fuel, n < fuel →
      mapLoop T.pgdir.addr last perm T.kmem T.mem a pa fuel = some (.ok (T'.kmem, T'.mem, r)) := by
  refine ⟨_, _, maps_starve h hk, ?_⟩
  intro fuel hfuel
  obtain ⟨fuel, rfl⟩ := Nat.exists_eq_add_one.mpr (Nat.zero_lt_of_lt hfuel)
  exact mapLoop_starve h hk

theorem pgRoundDown_eq {x : UInt32} (ha : a.toNat % 4096 = 0) (h : x.toNat / 4096 = a.toNat / 4096)
    : pgRoundDown x = a := by
  apply UInt32.toNat_inj.mp
  rw [toNat_pgRoundDown]
  omega

theorem maps_last (h : Walked T T₁ a t) (hfree : T.find a = none) (ha : a.toNat % 4096 = 0) (hlast : a = last)
    : Maps T (T₁.put h.dir (tabIndex a) (pte_present pa perm)) a last pa perm 0 := by
  subst hlast
  refine ⟨h.pgdir, ?_, .inl ⟨rfl, ?_⟩, ?_, fun _ => rfl⟩
  . intro x hx
    rw [find_put_of_ne _ _ (by omega), h.find]
  . intro x hx hx'
    have hpage : x.toNat / 4096 = a.toNat / 4096 := by omega
    rw [find_put_self _ _ hpage, pgRoundDown_eq ha hpage, UInt32.sub_self, UInt32.add_zero]
  . intro hperm hpa _
    rw [mapLoop_of_mapPage (mapPage_walked h hfree hpa hperm), Nat.sub_self]
    rfl

theorem maps_next {r : Int} (h : Walked T T₁ a t) (hfree : T.find a = none) (ha : a.toNat % 4096 = 0)
    (hlt : a.toNat < last.toNat) (hlast : last.toNat % 4096 = 0)
    (hrest : Maps (T₁.put h.dir (tabIndex a) (pte_present pa perm)) T' (a + 4096) last (pa + 4096) perm r)
    : Maps T T' a last pa perm r := by
  have hend := last.toNat_lt
  have hsize : (4096 : UInt32).toNat = 4096 := rfl
  have hnext : (a + 4096).toNat = a.toNat + 4096 := by
    rw [UInt32.toNat_add]
    omega
  have hpgdir := hrest.pgdir.trans h.pgdir
  obtain ⟨_, houtside, hresult, hmodel, hplenty⟩ := hrest
  rw [hnext] at houtside hresult hmodel hplenty
  refine ⟨hpgdir, ?_, ?_, ?_, ?_⟩
  . intro x hx
    rw [houtside x (by omega), find_put_of_ne _ _ (by omega), h.find]
  . rcases hresult with ⟨hr, hmapped⟩ | hfail
    . refine .inl ⟨hr, ?_⟩
      intro x hx hx'
      by_cases hpage : x.toNat / 4096 = a.toNat / 4096
      . rw [houtside x (by omega), find_put_self _ _ hpage, pgRoundDown_eq ha hpage, UInt32.sub_self,
          UInt32.add_zero]
      . have hpa : pa + 4096 + (pgRoundDown x - (a + 4096)) = pa + (pgRoundDown x - a) := by grind
        rw [hmapped x (by omega) hx', hpa]
    . exact .inr hfail
  . intro hperm hpa hwrap
    have hpa' : (pa + 4096).toNat = pa.toNat + 4096 := by
      rw [UInt32.toNat_add]
      omega
    have hpages : (last.toNat - a.toNat) / 4096 = (last.toNat - (a.toNat + 4096)) / 4096 + 1 := by omega
    have hv : (a.toNat + 4096) / 4096 = a.toNat / 4096 + 1 := by omega
    have hpte : pteOf (pa + 4096) perm = { pteOf pa perm with pa := (pteOf pa perm).pa + 4096 } := by
      unfold pteOf
      rw [hpa']
    rw [hpages, mapLoop_of_mapPage (mapPage_walked h hfree hpa hperm), ← hpte, ← hv]
    exact hmodel hperm (by omega) (by omega)
  . intro henough
    have hle := missing_put_le h.dir (tabIndex a) (pte_present pa perm) (dirIndex (a + 4096))
    have hindex : dirIndex (a + 4096) = dirIndex a ↔ (a.toNat + 4096) / 2 ^ 22 = a.toNat / 2 ^ 22 := by
      unfold dirIndex
      rw [Fin.mk.injEq, toNat_pdx, toNat_pdx, hnext]
    have henough := h.plenty _ henough
    refine hplenty ⟨henough.plan, Nat.le_trans ?_ henough.pages⟩
    split at hle
    . omega
    . omega

theorem mapLoop_maps {n : Nat} (T : Tables) (pa perm : UInt32) (ha : a.toNat % 4096 = 0)
    (hlast : last.toNat = a.toNat + 4096 * n)
    (hfree : ∀ x, a.toNat ≤ x.toNat → x.toNat < last.toNat + 4096 → T.find x = none)
    : ∃ T' r, Maps T T' a last pa perm r ∧ ∀ fuel, n < fuel →
      mapLoop T.pgdir.addr last perm T.kmem T.mem a pa fuel = some (.ok (T'.kmem, T'.mem, r)) := by
  have hend := last.toNat_lt
  -- The induction is on the pages that are left, since `a + 4096` wraps behind the last page of the address space.
  induction n generalizing T a pa with
  | zero =>
    have heq : a = last := UInt32.toNat_inj.mp hlast.symm
    rcases T.walkpgdir_cases a with ⟨hdir, k, hk⟩ | ⟨T₁, t, h⟩
    . exact exists_maps_of_starve hdir hk
    . refine ⟨_, _, maps_last h (hfree a (Nat.le_refl _) (by omega)) ha heq, ?_⟩
      intro fuel hfuel
      obtain ⟨fuel, rfl⟩ := Nat.exists_eq_add_one.mpr hfuel
      rw [mapLoop_succ h (hfree a (Nat.le_refl _) (by omega)), if_pos heq]
      rfl
  | succ n ih =>
    have hsize : (4096 : UInt32).toNat = 4096 := rfl
    have hnext : (a + 4096).toNat = a.toNat + 4096 := by
      rw [UInt32.toNat_add]
      omega
    have hne : a ≠ last := by
      rintro rfl
      omega
    rcases T.walkpgdir_cases a with ⟨hdir, k, hk⟩ | ⟨T₁, t, h⟩
    . exact exists_maps_of_starve hdir hk
    . have hrest : ∀ x, (a + 4096).toNat ≤ x.toNat → x.toNat < last.toNat + 4096 →
          (T₁.put h.dir (tabIndex a) (pte_present pa perm)).find x = none := by
        intro x hx hx'
        rw [find_put_of_ne _ _ (by omega), h.find]
        exact hfree x (by omega) hx'
      obtain ⟨T', r, hmaps, hloop⟩ := ih (T₁.put h.dir (tabIndex a) (pte_present pa perm)) (pa + 4096)
        (by omega) (by omega) hrest
      refine ⟨T', r, maps_next h (hfree a (Nat.le_refl _) (by omega)) ha (by omega) (by omega) hmaps, ?_⟩
      intro fuel hfuel
      obtain ⟨fuel, rfl⟩ := Nat.exists_eq_add_one.mpr (Nat.zero_lt_of_lt hfuel)
      rw [mapLoop_succ h (hfree a (Nat.le_refl _) (by omega)), if_neg hne, ← hloop fuel (by omega)]
      change _ = mapLoop T₁.pgdir.addr _ _ _ _ _ _ _
      rw [h.pgdir]
      rfl

end round

theorem lookup_eq_find (T : Tables) (va : UInt32) : T.lookup va = T.find va := by
  unfold lookup find
  cases hdir : T.tree.dir (dirIndex va) with
  | none =>
    rw [walkpgdir_of_none hdir, TwoLevel.find_of_dir_eq_none hdir]
  | some t =>
    have hne : t ≠ T.pgdir := by
      rintro rfl
      exact T.root _ hdir
    rw [walkpgdir_of_dir hdir, TwoLevel.find_of_dir hdir]
    change _ = if t = T.pgdir ∨ T.mem (slot t (tabIndex va)) &&& PTE_P = 0 then none else _
    simp only [hne, false_or]

theorem translate_eq_none_iff (T : Tables) (va : UInt32) : T.translate va = none ↔ T.find va = none := by
  unfold translate
  rw [Option.map_eq_none_iff, lookup_eq_find]

end Tables

def Meets (va size x : UInt32) : Prop :=
  ∃ y, va.toNat ≤ y ∧ y < va.toNat + size.toNat ∧ y / 4096 = x.toNat / 4096

theorem toNat_last {va size : UInt32} (hsize : 0 < size.toNat) (hend : va.toNat + size.toNat ≤ 2 ^ 32)
    : (va + size - 1).toNat = va.toNat + size.toNat - 1 := by
  have hone : (1 : UInt32).toNat = 1 := rfl
  rw [UInt32.toNat_sub, UInt32.toNat_add, hone]
  omega

theorem meets_iff {va size : UInt32} (hsize : 0 < size.toNat) (hend : va.toNat + size.toNat ≤ 2 ^ 32) (x : UInt32)
    : Meets va size x ↔ (pgRoundDown va).toNat ≤ x.toNat
      ∧ x.toNat < (pgRoundDown (va + size - 1)).toNat + 4096 := by
  rw [toNat_pgRoundDown, toNat_pgRoundDown, toNat_last hsize hend]
  constructor
  . rintro ⟨y, hy, hy', hpage⟩
    omega
  . rintro ⟨hx, hx'⟩
    by_cases hlt : x.toNat < va.toNat
    . exact ⟨va.toNat, Nat.le_refl _, by omega, by omega⟩
    . by_cases hge : va.toNat + size.toNat ≤ x.toNat
      . exact ⟨va.toNat + size.toNat - 1, by omega, by omega, by omega⟩
      . exact ⟨x.toNat, by omega, by omega, rfl⟩

theorem exists_maps (T : Tables) {va size : UInt32} (pa perm : UInt32) (hsize : 0 < size.toNat)
    (hend : va.toNat + size.toNat ≤ 2 ^ 32) (hfree : ∀ x, Meets va size x → T.translate x = none)
    : ∃ T' r, T.Maps T' (pgRoundDown va) (pgRoundDown (va + size - 1)) pa perm r ∧ ∀ fuel, 2 ^ 20 ≤ fuel →
      mappages T.kmem T.mem T.pgdir.addr va size pa perm fuel = some (.ok (T'.kmem, T'.mem, r)) := by
  have hva := toNat_pgRoundDown va
  have hlast := toNat_pgRoundDown (va + size - 1)
  rw [toNat_last hsize hend] at hlast
  have hfind : ∀ x, (pgRoundDown va).toNat ≤ x.toNat → x.toNat < (pgRoundDown (va + size - 1)).toNat + 4096 →
      T.find x = none := by
    intro x hx hx'
    exact (T.translate_eq_none_iff x).mp (hfree x ((meets_iff hsize hend x).mpr ⟨hx, hx'⟩))
  have hrange : (pgRoundDown (va + size - 1)).toNat
      = (pgRoundDown va).toNat + 4096 * ((va.toNat + size.toNat - 1) / 4096 - va.toNat / 4096) := by
    omega
  obtain ⟨T', r, hmaps, hloop⟩ := T.mapLoop_maps pa perm (by omega) hrange hfind
  exact ⟨T', r, hmaps, fun fuel hfuel => hloop fuel (by omega)⟩

/-- On page directories without regard to their words, `mappages` is the one of the model. -/
theorem mappages_refines (T : Tables) {va size pa perm : UInt32} (hsize : 0 < size.toNat)
    (hend : va.toNat + size.toNat ≤ 2 ^ 32) (hpa : pa.toNat % 4096 = 0) (hperm : pteAddr perm = 0)
    (hwrap : pa.toNat + ((va.toNat + size.toNat - 1) / 4096 - va.toNat / 4096) * 4096 < 2 ^ 32)
    (hfree : ∀ x, Meets va size x → T.translate x = none)
    : ∃ (T' : Tables) (r : Int), T'.pgdir = T.pgdir ∧ (∀ fuel, 2 ^ 20 ≤ fuel →
        mappages T.kmem T.mem T.pgdir.addr va size pa perm fuel = some (.ok (T'.kmem, T'.mem, r)))
      ∧ Vm.mappages T.kmem T.pageDir va.toNat size.toNat (pteOf pa perm) = .ok (T'.kmem, T'.pageDir, r = 0) := by
  obtain ⟨T', r, hmaps, hloop⟩ := exists_maps T pa perm hsize hend hfree
  refine ⟨T', r, hmaps.pgdir, hloop, ?_⟩
  have hva := toNat_pgRoundDown va
  have hlast := toNat_pgRoundDown (va + size - 1)
  rw [toNat_last hsize hend] at hlast
  have hfirst : (pgRoundDown va).toNat / 4096 = va.toNat / 4096 := by omega
  have hpages : ((pgRoundDown (va + size - 1)).toNat - (pgRoundDown va).toNat) / 4096 + 1
      = (va.toNat + size.toNat - 1) / 4096 + 1 - va.toNat / 4096 := by
    omega
  have hmodel := hmaps.model hperm hpa (by omega)
  rw [hfirst, hpages] at hmodel
  exact hmodel

/--
`mappages` ends, also at the top of the address space, and leaves all other translations alone. It succeeds if
there are pages for the tables, and then the pages of the range are mapped from `pa` on.
-/
theorem mappages_extends (T : Tables) (va size pa perm : UInt32) (hsize : 0 < size.toNat)
    (hend : va.toNat + size.toNat ≤ 2 ^ 32) (hpa : pa.toNat % 4096 = 0)
    (hfree : ∀ x, Meets va size x → T.translate x = none)
    : ∃ (T' : Tables) (r : Int), T'.pgdir = T.pgdir ∧ (∀ fuel, 2 ^ 20 ≤ fuel →
        mappages T.kmem T.mem T.pgdir.addr va size pa perm fuel = some (.ok (T'.kmem, T'.mem, r)))
      ∧ (∀ x, ¬Meets va size x → T'.translate x = T.translate x) ∧ (r = 0 ∧ (∀ x, Meets va size x →
          T'.lookup x = some (pa + (pgRoundDown x - pgRoundDown va) ||| perm ||| PTE_P)
          ∧ (pteAddr perm = 0 → T'.translate x = some (pa + (x - pgRoundDown va), perm ||| PTE_P)))
        ∨ r = -1 ∧ ∃ k, kalloc k = (T'.kmem, none))
      ∧ (Plenty T.kmem ((va.toNat + size.toNat - 1) / 2 ^ 22 - va.toNat / 2 ^ 22 + 1) → r = 0) := by
  obtain ⟨T', r, hmaps, hloop⟩ := exists_maps T pa perm hsize hend hfree
  refine ⟨T', r, hmaps.pgdir, hloop, ?_, ?_, ?_⟩
  . intro x hx
    unfold Tables.translate
    rw [Tables.lookup_eq_find, Tables.lookup_eq_find, hmaps.outside x (mt (meets_iff hsize hend x).mpr hx)]
  . rcases hmaps.result with ⟨hr, hmapped⟩ | hfail
    . refine .inl ⟨hr, ?_⟩
      intro x hx
      obtain ⟨hge, hle⟩ := (meets_iff hsize hend x).mp hx
      have hlookup : T'.lookup x = some (pa + (pgRoundDown x - pgRoundDown va) ||| perm ||| PTE_P) := by
        rw [Tables.lookup_eq_find, hmapped x hge hle]
      refine ⟨hlookup, ?_⟩
      intro hperm
      have hframe : (pa + (pgRoundDown x - pgRoundDown va)).toNat % 4096 = 0 := by
        have hlt := va.toNat_lt
        rw [UInt32.toNat_add, UInt32.toNat_sub, toNat_pgRoundDown, toNat_pgRoundDown]
        omega
      unfold Tables.translate
      rw [hlookup, Option.map_some, translate_of_pte x hframe hperm]
      congr 2
      grind
    . exact .inr hfail
  . intro henough
    apply hmaps.plenty
    refine ⟨henough.plan, Nat.le_trans ?_ henough.pages⟩
    rw [toNat_pgRoundDown, toNat_pgRoundDown, toNat_last hsize hend]
    unfold Tables.missing
    split <;> omega

theorem dir_zero (p : Frame) (i : Fin 1024) : (tree (fun _ => 0) p).dir i = none :=
  if_pos (show (0 : UInt32) &&& PTE_P = 0 from rfl)

def cleared : Tables where
  kmem := ⟨[0x401000, 0x402000, 0x403000, 0x404000, 0x405000, 0x406000, 0x407000, 0x408000], [], fun _ _ => 1⟩
  mem _ := 0
  pgdir := page 0x400000
  unshared i _ t h := by
    rw [dir_zero] at h
    cases h
  root i h := by
    rw [dir_zero] at h
    cases h
  nodup := by decide
  free := by decide
  apart r hr := by
    refine ⟨?_, ?_⟩
    . revert r
      decide
    . intro i h
      rw [dir_zero] at h
      cases h

theorem mappages_extends_devices
    : ∃ (T' : Tables), mappages cleared.kmem cleared.mem cleared.pgdir.addr 0xFE000000 0x2000000 0xFE000000 PTE_W
        (2 ^ 20) = some (.ok (T'.kmem, T'.mem, 0))
      ∧ T'.translate 0xFEE00020 = some (0xFEE00020, PTE_W ||| PTE_P) := by
  obtain ⟨T', r, _, hloop, _, hresult, hplenty⟩ := mappages_extends cleared 0xFE000000 0x2000000 0xFE000000 PTE_W
    (by decide) (by decide) (by decide)
    (fun x _ => (cleared.translate_eq_none_iff x).mpr (TwoLevel.find_of_dir_eq_none (dir_zero ..) _))
  have hr : r = 0 := hplenty ⟨nofun, by decide⟩
  subst hr
  refine ⟨T', hloop _ (Nat.le_refl _), ?_⟩
  rcases hresult with ⟨_, hmapped⟩ | ⟨hfail, _⟩
  . exact (hmapped 0xFEE00020 ⟨0xFEE00020, by decide, by decide, rfl⟩).2 rfl
  . cases hfail

theorem mappages_refines_devices
    : ∃ (T' : Tables) (r : Int),
      Vm.mappages cleared.kmem cleared.pageDir 0xFE000000 0x2000000 (pteOf 0xFE000000 PTE_W)
        = .ok (T'.kmem, T'.pageDir, r = 0) := by
  obtain ⟨T', r, -, -, hmodel⟩ := @mappages_refines cleared 0xFE000000 0x2000000 0xFE000000 PTE_W
    (by decide) (by decide) (by decide) rfl (by decide)
    (fun x _ => (cleared.translate_eq_none_iff x).mpr (TwoLevel.find_of_dir_eq_none (dir_zero ..) _))
  exact ⟨T', r, hmodel⟩

end Words
end Vm
end Xv6
