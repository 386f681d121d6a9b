import Xv6.Fs.Content

namespace Xv6

namespace Dinode

variable {di : Dinode} {k : Nat}

def cut (di : Dinode) (zeroed : List Nat) : Dinode :=
  { di with addrs := fun k => if k.val ∈ zeroed then 0 else di.addrs k }

theorem addrs_eq_zero {k : Fin (NDIRECT + 1)} (h : di.addr k.val = 0) : di.addrs k = 0 := by
  unfold addr at h
  rw [dif_pos k.isLt] at h
  exact UInt32.toNat_inj.mp h

theorem addr_cut (di : Dinode) (zeroed : List Nat) (k : Nat)
    : (di.cut zeroed).addr k = if k ∈ zeroed then 0 else di.addr k := by
  unfold addr cut
  split
  . dsimp only
    split <;> rfl
  . split <;> rfl

theorem cut_setAddr (di : Dinode) (zeroed : List Nat) (k : Nat)
    : (di.cut zeroed).setAddr k 0 = di.cut (zeroed ++ [k]) := by
  unfold cut setAddr
  dsimp only
  congr 1
  funext j
  by_cases hj : j.val = k
  . rw [if_pos hj, if_pos (by rw [hj]; exact List.mem_append_right _ (List.mem_singleton_self k))]
    rfl
  rw [if_neg hj]
  refine if_congr ⟨fun hmem => List.mem_append_left _ hmem, ?_⟩ rfl rfl
  intro hmem
  rcases List.mem_append.mp hmem with hmem | hmem
  . exact hmem
  . exact absurd (List.mem_singleton.mp hmem) hj

theorem cut_append_of_zero (zeroed : List Nat) (h : di.addr k = 0)
    : di.cut (zeroed ++ [k]) = di.cut zeroed := by
  rw [← cut_setAddr]
  unfold cut setAddr
  dsimp only
  congr 1
  funext j
  split
  . next hj =>
    rw [← hj] at h
    rw [addrs_eq_zero h, ite_self]
    rfl
  . rfl

def emptied (di : Dinode) : Dinode :=
  { di with addrs := fun _ => 0, size := 0 }

theorem addr_emptied (di : Dinode) (k : Nat) : di.emptied.addr k = 0 := by
  unfold addr emptied
  split <;> rfl

theorem cut_eq_emptied {zeroed : List Nat} (h : ∀ k, k ≤ NDIRECT → di.addr k ≠ 0 → k ∈ zeroed)
    : { di.cut zeroed with size := 0 } = di.emptied := by
  unfold cut emptied
  dsimp only
  congr 1
  funext k
  split
  . rfl
  . next hmem =>
    apply addrs_eq_zero
    by_contra hne
    exact hmem (h k.val (Nat.le_of_lt_succ k.isLt) hne)

end Dinode

namespace Fs

open Outcome

def Full (e : Halt) : Prop :=
  e = .tooBig ∨ e = .outsideOfTrans

theorem Store.Limit.full {st : Store} {e : Halt} (h : st.Limit k 0 e) : Full e := by
  rcases h with ⟨hfull, _⟩ | ⟨_, hlt⟩
  . exact hfull
  . exact absurd hlt (Nat.not_lt_zero _)

def cleared (f : Nat × Nat → Nat) (x : Nat) (done : List Nat) (p : Nat × Nat) : Nat :=
  if p.1 = x ∧ p.2 ∈ done then 0 else f p

theorem cleared_append (f : Nat × Nat → Nat) (x : Nat) (done : List Nat) (k : Nat)
    : cleared f x (done ++ [k]) = Function.update (cleared f x done) (x, k) 0 := by
  funext p
  by_cases hp : p = (x, k)
  . rw [hp, Function.update_self]
    exact if_pos ⟨rfl, List.mem_append_right _ (List.mem_singleton_self k)⟩
  rw [Function.update_of_ne hp]
  refine if_congr ⟨?_, ?_⟩ rfl rfl
  . rintro ⟨hx, hmem⟩
    rcases List.mem_append.mp hmem with hmem | hmem
    . exact ⟨hx, hmem⟩
    . exact absurd (Prod.ext hx (List.mem_singleton.mp hmem)) hp
  . rintro ⟨hx, hmem⟩
    exact ⟨hx, List.mem_append_left _ hmem⟩

theorem cleared_append_of_zero {f : Nat × Nat → Nat} {x k : Nat} (done : List Nat) (h : f (x, k) = 0)
    : cleared f x (done ++ [k]) = cleared f x done := by
  have hzero : cleared f x done (x, k) = 0 := by
    unfold cleared
    split
    . rfl
    . exact h
  rw [cleared_append, ← hzero]
  exact Function.update_eq_self ..

theorem slot_of_empty {d : Disk} (h : ∀ k, di.addr k = 0) (k : Nat) : slot d di k = 0 := by
  by_cases hk : k ≤ NDIRECT
  . rw [slot_of_le hk, h]
  . exact slot_of_no_indirect hk (h _)

theorem owner_update_of_empty {d d' : Disk} {tab : Nat → Dinode} {x : Nat} (h : ∀ k, di.addr k = 0)
    (hdata : ∀ y, owner d tab (y, NDIRECT) ≠ 0 → d' (owner d tab (y, NDIRECT)) = d (owner d tab (y, NDIRECT)))
    : owner d' (Function.update tab x di) = fun p => if p.1 = x then 0 else owner d tab p := by
  have howner := owner_congr hdata
  funext p
  split
  . next hp =>
    unfold owner
    rw [hp, Function.update_self, slot_of_empty h, ite_self]
  . next hp =>
    rw [← howner]
    unfold owner
    rw [Function.update_of_ne hp]

theorem mem_of_range_eq {m k : Nat} {pre post : List Nat} (h : List.range m = pre ++ k :: post)
    : k < m ∧ k ∉ pre := by
  constructor
  . apply List.mem_range.mp
    rw [h]
    exact List.mem_append_right _ List.mem_cons_self
  . have hnodup : (pre ++ k :: post).Nodup := by
      rw [← h]
      exact List.nodup_range
    rw [List.nodup_middle, List.nodup_cons] at hnodup
    intro hmem
    exact hnodup.1 (List.mem_append_left _ hmem)

namespace State

variable {n : Nat} {s s' : State n} {i : Fin n} {nmeta : Nat} {done zeroed : List Nat}

structure Freed (nmeta : Nat) (s s' : State n) (i : Fin n) (done zeroed : List Nat) : Prop where
  sb : s'.sb = s.sb
  devsw : s'.devsw = s.devsw
  others : ∀ j, j ≠ i → s'.inode j = s.inode j
  self : s'.inode i = { s.inode i with din := (s.inode i).din.cut zeroed }
  table : s'.sb.table s'.disk = s.sb.table s.disk
  data : ∀ c, nmeta ≤ c → s'.disk c = s.disk c
  marked : Marked s'.sb nmeta s'.disk (cleared (s.own i) (s.inode i).inum done)

namespace Freed

theorem refl (h : Work nmeta s i) : Freed nmeta s s i [] [] where
  sb := rfl
  devsw := rfl
  others := fun _ _ => rfl
  self := by
    have hcut : (s.inode i).din.cut [] = (s.inode i).din := by
      unfold Dinode.cut
      simp
    rw [hcut]
  table := rfl
  data := fun _ _ => rfl
  marked := by
    have hcleared : cleared (s.own i) (s.inode i).inum [] = s.own i := by
      funext p
      unfold cleared
      simp
    rw [hcleared]
    exact h.consistent.toMarked

section
variable (h : Freed nmeta s s' i done zeroed)
include h

theorem bfree (hk : k ∉ done)
    (hne : s.own i ((s.inode i).inum, k) ≠ 0)
    : Sat Full (fun s'' => Freed nmeta s s'' i (done ++ [k]) zeroed)
      (s'.bfree (s.own i ((s.inode i).inum, k))) := by
  have hkept : cleared (s.own i) (s.inode i).inum done ((s.inode i).inum, k)
      = s.own i ((s.inode i).inum, k) := if_neg fun hcond => hk hcond.2
  have hsat := Store.bfree_sat (s := s'.toStore) h.marked (x := ((s.inode i).inum, k)) (by rw [hkept]; exact hne)
  rw [hkept] at hsat
  apply Sat.bind (hsat.mono (fun _ he => he.full) (fun _ h => h))
  rintro st ⟨hmarked, hwrote, hdata, htable⟩
  refine ⟨hwrote.sb.trans h.sb, h.devsw, h.others, h.self, htable.trans h.table, ?_, ?_⟩
  . intro c hc
    exact (hdata c hc).trans (h.data c hc)
  . rw [cleared_append]
    exact hmarked

theorem skip (hzero : s.own i ((s.inode i).inum, k) = 0)
    : Freed nmeta s s' i (done ++ [k]) zeroed :=
  { h with
    marked := by
      rw [cleared_append_of_zero _ hzero]
      exact h.marked }

theorem setAddr (k : Nat)
    : Freed nmeta s (s'.setDin i ((s'.inode i).din.setAddr k 0)) i done (zeroed ++ [k]) :=
  { h with
    others := by
      intro j hj
      rw [← h.others j hj]
      exact Function.update_of_ne hj ..
    self := by
      have hself : (s'.setDin i ((s'.inode i).din.setAddr k 0)).inode i
          = { s'.inode i with din := (s'.inode i).din.setAddr k 0 } := Function.update_self ..
      rw [hself, h.self]
      dsimp only
      rw [Dinode.cut_setAddr] }

theorem freeAddr (hwork : Work nmeta s i) (hk : k ≤ NDIRECT)
    (hdone : k ∉ done) (hzeroed : k ∉ zeroed)
    : Sat Full (fun s'' => Freed nmeta s s'' i (done ++ [k]) (zeroed ++ [k])) (s'.freeAddr i k) := by
  have hown : s.own i ((s.inode i).inum, k) = (s.inode i).din.addr k := by
    rw [hwork.own_eq, slot_of_le hk]
  have haddr : (s'.inode i).din.addr k = (s.inode i).din.addr k := by
    rw [h.self]
    dsimp only
    rw [Dinode.addr_cut, if_neg hzeroed]
  unfold State.freeAddr
  dsimp only
  rw [haddr, ← hown]
  split
  . next hzero =>
    rw [sat_ok]
    have hskip := h.skip hzero
    rw [hown] at hzero
    refine { hskip with self := ?_ }
    rw [Dinode.cut_append_of_zero _ hzero]
    exact hskip.self
  . next hne =>
    apply Sat.bind (h.bfree hdone hne)
    intro s1 h1
    exact h1.setAddr k

theorem freeIndirect (hwork : Work nmeta s i)
    (hind : (s.inode i).din.addr NDIRECT ≠ 0) (hdone : ∀ k, k ∈ done → k < NDIRECT)
    : Sat Full (fun s'' => Freed nmeta s s'' i (done ++ (List.range NINDIRECT).map (NDIRECT + 1 + ·)) zeroed)
      (s'.freeIndirect (s.disk ((s.inode i).din.addr NDIRECT))) := by
  have hND : NDIRECT = 12 := rfl
  have hNI : NINDIRECT = 128 := rfl
  unfold State.freeIndirect
  refine Sat.foldlM (fun pre s'' => Freed nmeta s s'' i (done ++ pre.map (NDIRECT + 1 + ·)) zeroed)
    (List.range NINDIRECT) [] s' ?_ ?_
  . rw [List.map_nil, List.append_nil]
    exact h
  . intro pre j post s1 heq h1
    rw [List.nil_append] at heq
    rcases mem_of_range_eq heq with ⟨hlt, hpre⟩
    have hown : s.own i ((s.inode i).inum, NDIRECT + 1 + j)
        = (s.disk ((s.inode i).din.addr NDIRECT)).getLE (4 * j) 4 := by
      rw [hwork.own_eq, slot_of_gt (by omega) (by omega) hind]
      congr 2
      omega
    have hnot : NDIRECT + 1 + j ∉ done ++ pre.map (NDIRECT + 1 + ·) := by
      intro hmem
      rcases List.mem_append.mp hmem with hmem | hmem
      . have hlt' := hdone _ hmem
        omega
      . rcases List.mem_map.mp hmem with ⟨j', hj', heq'⟩
        have hjj : j' = j := by omega
        rw [hjj] at hj'
        exact hpre hj'
    rw [List.map_append, List.map_singleton, ← List.append_assoc]
    dsimp only
    rw [← hown]
    split
    . next hzero => exact h1.skip hzero
    . next hne => exact h1.bfree hnot hne

end

end Freed

theorem freeDirect_sat (h : Work nmeta s i)
    : Sat Full (fun s' => Freed nmeta s s' i (List.range NDIRECT) (List.range NDIRECT))
      ((List.range NDIRECT).foldlM (fun s k => s.freeAddr i k) s) := by
  refine Sat.foldlM (fun pre s' => Freed nmeta s s' i pre pre) (List.range NDIRECT) [] s (Freed.refl h) ?_
  intro pre k post s' heq hfreed
  rw [List.nil_append] at heq
  rcases mem_of_range_eq heq with ⟨hlt, hpre⟩
  exact hfreed.freeAddr h (Nat.le_of_lt hlt) hpre hpre

structure Emptied (nmeta : Nat) (s s' : State n) (i : Fin n) (di : Dinode) : Prop where
  sb : s'.sb = s.sb
  devsw : s'.devsw = s.devsw
  others : ∀ j, j ≠ i → s'.inode j = s.inode j
  self : s'.inode i = { s.inode i with din := di }
  table : s'.sb.table s'.disk = Function.update (s.sb.table s.disk) (s.inode i).inum di
  consistent : Consistent s'.sb nmeta s'.disk (s'.sb.table s'.disk)
  data : ∀ c, nmeta ≤ c → s'.disk c = s.disk c

theorem Freed.finish (h : Freed nmeta s s' i done zeroed) (hwork : Work nmeta s i)
    (hdone : ∀ k, s.own i ((s.inode i).inum, k) ≠ 0 → k ∈ done)
    (hzeroed : ∀ k, k ≤ NDIRECT → (s.inode i).din.addr k ≠ 0 → k ∈ zeroed)
    : Sat Full (fun s'' => Emptied nmeta s s'' i (s.inode i).din.emptied)
      ((s'.setDin i { (s'.inode i).din with size := 0 }).iupdate i) := by
  have hdin : { (s'.inode i).din with size := 0 } = (s.inode i).din.emptied := by
    rw [h.self]
    exact Dinode.cut_eq_emptied hzeroed
  rw [hdin]
  have hself : (s'.setDin i (s.inode i).din.emptied).inode i
      = { s.inode i with din := (s.inode i).din.emptied } := by
    have hset : (s'.setDin i (s.inode i).din.emptied).inode i
        = { s'.inode i with din := (s.inode i).din.emptied } :=
      Function.update_self ..
    rw [hset, h.self]
  have hview : (s'.setDin i (s.inode i).din.emptied).view i
      = Function.update (s.view i) (s.inode i).inum (s.inode i).din.emptied := by
    unfold view
    rw [hself, Function.update_idem]
    change Function.update (s'.sb.table s'.disk) _ _ = _
    rw [h.table]
  have howner : owner s'.disk (Function.update (s.view i) (s.inode i).inum (s.inode i).din.emptied)
      = cleared (s.own i) (s.inode i).inum done := by
    rw [owner_update_of_empty (Dinode.addr_emptied _)]
    . funext p
      unfold cleared
      by_cases hp : p.1 = (s.inode i).inum
      . rw [if_pos hp]
        split
        . rfl
        . next hcond =>
          by_contra hne
          apply hcond
          refine ⟨hp, hdone p.2 ?_⟩
          rw [← hp]
          exact fun hzero => hne hzero.symm
      . rw [if_neg hp, if_neg (fun hcond => hp hcond.1)]
    . intro y hy
      exact h.data _ (hwork.consistent.owner_ge hy)
  have hcons : Consistent (s'.setDin i (s.inode i).din.emptied).sb nmeta (s'.setDin i (s.inode i).din.emptied).disk
      ((s'.setDin i (s.inode i).din.emptied).view i) := by
    rw [hview]
    change Consistent s'.sb nmeta s'.disk _
    refine ⟨?_, ?_⟩
    . rw [howner]
      exact h.marked
    . intro y hy
      rw [h.sb] at hy
      have hlt := hwork.inum_lt
      rw [Function.update_of_ne (by omega)]
      exact hwork.consistent.unallocated y hy
  have hinum : ((s'.setDin i (s.inode i).din.emptied).inode i).inum
      < (s'.setDin i (s.inode i).din.emptied).sb.ninodes := by
    rw [hself]
    change _ < s'.sb.ninodes
    rw [h.sb]
    exact hwork.inum_lt
  apply (iupdate_saved hcons hinum).mono (fun _ he => he.full)
  intro s'' hsaved
  have htable := hsaved.table
  rw [hview] at htable
  refine ⟨hsaved.wrote.sb.trans h.sb, hsaved.devsw.trans h.devsw, ?_, ?_, ?_, ?_, ?_⟩
  . intro j hj
    rw [hsaved.inode, ← h.others j hj]
    exact Function.update_of_ne hj ..
  . rw [hsaved.inode]
    exact hself
  . rw [htable]
    unfold view
    rw [Function.update_idem]
  . have hcons' := hsaved.consistent
    rw [← hsaved.table] at hcons'
    exact hcons'
  . intro c hc
    exact (hsaved.data c hc).trans (h.data c hc)

theorem itrunc_sat (h : Work nmeta s i)
    : Sat Full (fun s' => Emptied nmeta s s' i (s.inode i).din.emptied) (s.itrunc i) := by
  have hND : NDIRECT = 12 := rfl
  have hNI : NINDIRECT = 128 := rfl
  unfold itrunc
  apply Sat.bind (freeDirect_sat h)
  intro s1 h1
  have haddr : (s1.inode i).din.addr NDIRECT = (s.inode i).din.addr NDIRECT := by
    rw [h1.self]
    dsimp only
    rw [Dinode.addr_cut, if_neg (by rw [List.mem_range]; omega)]
  have hown : s.own i ((s.inode i).inum, NDIRECT) = (s.inode i).din.addr NDIRECT := by
    rw [h.own_eq, slot_of_le (Nat.le_refl _)]
  dsimp only
  rw [haddr]
  split
  . next hind =>
    apply h1.finish h
    . intro k hk
      rw [List.mem_range]
      by_contra hge
      rw [h.own_eq] at hk
      by_cases hkeq : k = NDIRECT
      . rw [hkeq, slot_of_le (Nat.le_refl _)] at hk
        exact hk hind
      . exact hk (slot_of_no_indirect (by omega) hind)
    . intro k hk hne
      rw [List.mem_range]
      by_contra hge
      have hkeq : k = NDIRECT := by omega
      rw [hkeq] at hne
      exact hne hind
  . next hind =>
    have hge := h.consistent.owner_ge (x := ((s.inode i).inum, NDIRECT)) (by
      change s.own i ((s.inode i).inum, NDIRECT) ≠ 0
      rw [hown]
      exact hind)
    change nmeta ≤ s.own i ((s.inode i).inum, NDIRECT) at hge
    rw [hown] at hge
    rw [h1.data _ hge]
    apply Sat.bind (h1.freeIndirect h hind (fun k hk => List.mem_range.mp hk))
    intro s2 h2
    apply Sat.bind (h2.freeAddr h (Nat.le_refl NDIRECT) ?_ ?_)
    . intro s3 h3
      apply h3.finish h
      . intro k hk
        rw [List.mem_append, List.mem_append, List.mem_range, List.mem_map, List.mem_singleton]
        by_cases hlt : k < NDIRECT
        . exact .inl (.inl hlt)
        by_cases hkeq : k = NDIRECT
        . exact .inr hkeq
        refine .inl (.inr ⟨k - (NDIRECT + 1), ?_, by omega⟩)
        rw [List.mem_range]
        by_contra hge'
        apply hk
        rw [h.own_eq]
        unfold slot
        rw [if_neg (by omega), if_neg (by omega)]
      . intro k hk _
        rw [List.mem_append, List.mem_range, List.mem_singleton]
        omega
    . intro hmem
      rw [List.mem_append, List.mem_range, List.mem_map] at hmem
      rcases hmem with hmem | ⟨j, _, hj⟩ <;> omega
    . rw [List.mem_range]
      omega

theorem freeInode_sat (h : Work nmeta s i)
    : Sat Full (fun s' => ∃ s1, Emptied nmeta s s1 i { (s.inode i).din.emptied with type := 0 }
        ∧ s' = s1.setInode i { s1.inode i with valid := false }) (s.freeInode i) := by
  unfold freeInode
  apply Sat.bind (itrunc_sat h)
  intro s1 h1
  dsimp only
  have hdin : { (s1.inode i).din with type := 0 } = { (s.inode i).din.emptied with type := 0 } := by
    rw [h1.self]
  rw [hdin]
  generalize hdi : ({ (s.inode i).din.emptied with type := 0 } : Dinode) = di
  have haddr : ∀ k, di.addr k = 0 := by
    intro k
    rw [← hdi]
    exact (s.inode i).din.addr_emptied k
  have hself : (s1.setDin i di).inode i = { s.inode i with din := di } := by
    have hset : (s1.setDin i di).inode i = { s1.inode i with din := di } := Function.update_self ..
    rw [hset, h1.self]
  have hview : (s1.setDin i di).view i = Function.update (s.sb.table s.disk) (s.inode i).inum di := by
    unfold view
    rw [hself]
    change Function.update (s1.sb.table s1.disk) _ _ = _
    rw [h1.table, Function.update_idem]
  have hview1 : (s1.setDin i di).view i = Function.update (s1.sb.table s1.disk) (s.inode i).inum di := by
    rw [hview, h1.table, Function.update_idem]
  have hlt := h.inum_lt
  have hcons : Consistent (s1.setDin i di).sb nmeta (s1.setDin i di).disk ((s1.setDin i di).view i) := by
    rw [hview1]
    change Consistent s1.sb nmeta s1.disk _
    have howner : owner s1.disk (Function.update (s1.sb.table s1.disk) (s.inode i).inum di)
        = owner s1.disk (s1.sb.table s1.disk) := by
      rw [owner_update_of_empty haddr (fun _ _ => rfl)]
      funext p
      split
      . next hp =>
        unfold owner
        rw [hp, h1.table, Function.update_self, slot_of_empty (Dinode.addr_emptied _), ite_self]
      . rfl
    refine ⟨?_, ?_⟩
    . rw [howner]
      exact h1.consistent.toMarked
    . intro y hy
      rw [h1.sb] at hy
      rw [Function.update_of_ne (by omega)]
      apply h1.consistent.unallocated
      rw [h1.sb]
      exact hy
  have hinum : ((s1.setDin i di).inode i).inum < (s1.setDin i di).sb.ninodes := by
    rw [hself]
    change _ < s1.sb.ninodes
    rw [h1.sb]
    exact hlt
  apply Sat.bind ((iupdate_saved hcons hinum).mono (fun _ he => he.full) (fun _ h => h))
  intro s2 h2
  refine ⟨s2, ⟨h2.wrote.sb.trans h1.sb, h2.devsw.trans h1.devsw, ?_, ?_, ?_, ?_, ?_⟩, rfl⟩
  . intro j hj
    rw [h2.inode, ← h1.others j hj]
    exact Function.update_of_ne hj ..
  . rw [h2.inode]
    exact hself
  . rw [h2.table, hview]
  . have hcons' := h2.consistent
    rw [← h2.table] at hcons'
    exact hcons'
  . intro c hc
    exact (h2.data c hc).trans (h1.data c hc)

end State
end Fs
end Xv6
