import Xv6.Bcache.Impl
import Xv6.Lib.Count

namespace Xv6.Bcache

open Ring

variable {n : Nat} {P : Type} {dev blockno : Nat} {c c' : Cache n P} {i : Fin n} {op : Op n} {a : Act n P}

namespace Cache

@[simp]
theorem buf_setBuf_self (c : Cache n P) (i : Fin n) (b : Buf P) : (c.setBuf i b).buf i = b :=
  Function.update_self ..

theorem buf_setBuf_of_ne (c : Cache n P) {i j : Fin n} (b : Buf P) (h : j ≠ i)
    : (c.setBuf i b).buf j = c.buf j :=
  Function.update_of_ne h ..

def Linked (c : Cache n P) : Prop :=
  ∃ l, c.links.Represents l ∧ ∀ i, i ∈ l

theorem length_eq_of_forall_mem {l : List (Fin n)} (hnodup : l.Nodup) (hmem : ∀ i, i ∈ l)
    : l.length = n := by
  have hperm : l.Perm (List.finRange n) := by
    apply (List.perm_ext_iff_of_nodup hnodup (List.nodup_finRange n)).mpr
    intro i
    simp [hmem i]
  rw [hperm.length_eq, List.length_finRange]

theorem linked_binit (links : Links (Fin n)) : (binit links : Cache n P).Linked := by
  have hfold : ∀ l l' : List (Fin n), ∀ links : Links (Fin n), links.Represents l' → (l ++ l').Nodup
      → (l.foldl Links.insertFront links).Represents (l.reverse ++ l') := by
    intro l
    induction l with
    | nil =>
      intro l' links h _
      exact h
    | cons i l ih =>
      intro l' links h hnodup
      rw [List.reverse_cons, List.append_assoc, List.foldl_cons]
      rw [List.cons_append, List.nodup_cons] at hnodup
      apply ih
      . apply h.insertFront
        intro hi
        exact hnodup.1 (List.mem_append_right _ hi)
      . apply List.nodup_middle.mpr
        exact List.nodup_cons.mpr hnodup
  refine ⟨_, hfold (List.finRange n) [] _ (Links.represents_clear links) ?_, ?_⟩
  . simp [List.nodup_finRange]
  . simp

theorem Linked.ring {c : Cache n P} (h : c.Linked)
    : (∀ i, ∃! m, m < n ∧ c.links.next^[m + 1] none = some i) ∧ c.links.next^[n + 1] none = none
      ∧ Function.LeftInverse c.links.prev c.links.next ∧ Function.RightInverse c.links.prev c.links.next := by
  rcases h with ⟨l, hrep, hmem⟩
  have hlen := length_eq_of_forall_mem hrep.nodup hmem
  have hall : ∀ x, x ∈ none :: l.map some := by
    intro x
    cases x with
    | none => exact List.mem_cons_self
    | some i => simp [hmem i]
  refine ⟨?_, ?_, ?_, ?_⟩
  . intro i
    rcases List.getElem?_of_mem (hmem i) with ⟨m, hm⟩
    have hlt : m < n := by
      rw [← hlen]
      exact (List.getElem?_eq_some_iff.mp hm).1
    refine ⟨m, ⟨hlt, ?_⟩, ?_⟩
    . rw [hrep.seg.iterate_next (by omega)]
      exact hm
    . rintro m' ⟨hlt', hm'⟩
      rw [hrep.seg.iterate_next (by omega), ← hm] at hm'
      apply (List.getElem?_inj (by omega) hrep.nodup).mp
      exact hm'
  . rw [hrep.seg.iterate_next (Nat.le_of_eq hlen.symm), List.getElem?_eq_none (Nat.le_of_eq hlen)]
  . intro x
    exact hrep.seg.prev_next (hall x)
  . intro x
    exact hrep.seg.next_prev (hall x)

inductive Gets (c : Cache n P) (dev blockno : Nat) : Fin n → Cache n P → Prop
  | hit (i : Fin n) (hdev : (c.buf i).dev = dev) (hblockno : (c.buf i).blockno = blockno)
    : Gets c dev blockno i (c.share i)
  | miss (i : Fin n) (hnone : ∀ j, (c.buf j).dev = dev → (c.buf j).blockno ≠ blockno)
    (hrefcnt : (c.buf i).refcnt = 0) (hdirty : (c.buf i).dirty = false)
    : Gets c dev blockno i (c.recycle i dev blockno)

theorem Gets.refcnt (h : c.Gets dev blockno i c')
    (j : Fin n)
    : (c'.buf j).refcnt = (c.buf j).refcnt + if i = j then 1 else 0 := by
  by_cases hj : j = i
  . subst hj
    cases h with
    | hit hdev hblockno => simp [share]
    | miss hnone hrefcnt hdirty => simp [recycle, hrefcnt]
  . cases h with
    | hit hdev hblockno => simp [share, buf_setBuf_of_ne _ _ hj, Ne.symm hj]
    | miss hnone hrefcnt hdirty => simp [recycle, buf_setBuf_of_ne _ _ hj, Ne.symm hj]

theorem Gets.key (h : c.Gets dev blockno i c')
    : (c'.buf i).dev = dev ∧ (c'.buf i).blockno = blockno := by
  cases h with
  | hit hdev hblockno => simp [share, hdev, hblockno]
  | miss hnone hrefcnt hdirty => simp [recycle]

theorem Gets.key_eq {i j : Fin n} (h : c.Gets dev blockno i c')
    (hused : 0 < (c.buf j).refcnt ∨ (c.buf j).dirty = true)
    : (c'.buf j).dev = (c.buf j).dev ∧ (c'.buf j).blockno = (c.buf j).blockno := by
  by_cases hj : j = i
  . subst hj
    cases h with
    | hit hdev hblockno => simp [share]
    | miss hnone hrefcnt hdirty => simp [hrefcnt, hdirty] at hused
  . cases h with
    | hit hdev hblockno => simp [share, buf_setBuf_of_ne _ _ hj]
    | miss hnone hrefcnt hdirty => simp [recycle, buf_setBuf_of_ne _ _ hj]

theorem bget_eq {c : Cache n P} {l : List (Fin n)} (hrep : c.links.Represents l) (hmem : ∀ i, i ∈ l)
    (dev blockno : Nat)
    : c.bget dev blockno
      = match l.find? (c.caches dev blockno) with
        | some i => .ok (i, c.share i)
        | none =>
          match l.reverse.find? c.unused with
          | some i => .ok (i, c.recycle i dev blockno)
          | none => .error .noBuffers := by
  have hlen := length_eq_of_forall_mem hrep.nodup hmem
  unfold bget
  rw [hrep.seg.scan_next _ (Nat.le_of_eq hlen), hrep.seg.scan_prev _ (Nat.le_of_eq hlen)]
  cases l.find? (c.caches dev blockno) with
  | some i => rfl
  | none =>
    cases l.reverse.find? c.unused with
    | some i => rfl
    | none => rfl

theorem Linked.bget_cases {c : Cache n P} (h : c.Linked) (dev blockno : Nat)
    : (∃ i c', c.bget dev blockno = .ok (i, c') ∧ c.Gets dev blockno i c') ∨ (c.bget dev blockno = .error .noBuffers
        ∧ ∀ i, (c.buf i).refcnt = 0 → (c.buf i).dirty = true) := by
  rcases h with ⟨l, hrep, hmem⟩
  rw [bget_eq hrep hmem]
  cases hhit : l.find? (c.caches dev blockno) with
  | some i =>
    left
    refine ⟨i, _, rfl, ?_⟩
    have htest := List.find?_some hhit
    simp only [caches, decide_eq_true_eq] at htest
    apply Gets.hit i htest.1 htest.2
  | none =>
    have hnone : ∀ j, (c.buf j).dev = dev → (c.buf j).blockno ≠ blockno := by
      intro j hdev hblockno
      have := List.find?_eq_none.mp hhit j (hmem j)
      simp [caches, hdev, hblockno] at this
    cases hmiss : l.reverse.find? c.unused with
    | some i =>
      left
      refine ⟨i, _, rfl, ?_⟩
      have htest := List.find?_some hmiss
      simp only [unused, decide_eq_true_eq] at htest
      apply Gets.miss i hnone htest.1 htest.2
    | none =>
      right
      refine ⟨rfl, ?_⟩
      intro i hrefcnt
      have := List.find?_eq_none.mp hmiss i (List.mem_reverse.mpr (hmem i))
      simpa [unused, hrefcnt] using this

theorem Linked.gets (h : c.Linked)
    (hget : c.bget dev blockno = .ok (i, c'))
    : c.Gets dev blockno i c' := by
  rcases h.bget_cases dev blockno with ⟨j, c'', hok, hgets⟩ | ⟨herr, -⟩
  . rw [hok] at hget
    cases hget
    exact hgets
  . rw [herr] at hget
    cases hget

theorem links_put (c : Cache n P) (i : Fin n)
    : (c.put i).links
      = if (c.buf i).refcnt - 1 = 0 then (c.links.unlink i).insertFront i else c.links := by
  simp only [put, buf_setBuf_self]
  split
  . rfl
  . rfl

theorem links_put_cases (c : Cache n P) (i : Fin n)
    : (c.put i).links = c.links ∨ (c.put i).links = (c.links.unlink i).insertFront i := by
  rw [links_put]
  split
  . exact .inr rfl
  . exact .inl rfl

theorem buf_put (c : Cache n P) (i : Fin n)
    : (c.put i).buf = Function.update c.buf i { c.buf i with refcnt := (c.buf i).refcnt - 1 } := by
  unfold put
  dsimp only
  split
  . rfl
  . rfl

theorem refcnt_put (c : Cache n P) (i j : Fin n)
    : ((c.put i).buf j).refcnt = if j = i then (c.buf i).refcnt - 1 else (c.buf j).refcnt := by
  rw [buf_put]
  by_cases hj : j = i
  . rw [if_pos hj, hj, Function.update_self]
  . rw [if_neg hj, Function.update_of_ne hj]

theorem Linked.put {c : Cache n P} (h : c.Linked) (i : Fin n) : (c.put i).Linked := by
  rcases h with ⟨l, hrep, hmem⟩
  rcases c.links_put_cases i with heq | heq
  . refine ⟨l, ?_, hmem⟩
    rw [heq]
    exact hrep
  . rcases List.append_of_mem (hmem i) with ⟨l₁, l₂, rfl⟩
    have hnodup := List.nodup_middle.mp hrep.nodup
    refine ⟨i :: (l₁ ++ l₂), ?_, ?_⟩
    . rw [heq]
      apply hrep.unlink.insertFront
      exact (List.nodup_cons.mp hnodup).1
    . intro j
      have := hmem j
      simp only [List.mem_append, List.mem_cons] at this ⊢
      tauto

end Cache

def Act.call : Act n P → Option (P × Op n)
  | .bread p dev blockno => some (p, .bread dev blockno .user)
  | .modify p i data => some (p, .memmove i data .user)
  | .bwrite p i => some (p, .bwrite i .user)
  | .logWrite p i => some (p, .logWrite i .user)
  | .brelse p i => some (p, .brelse i .user)
  | .beginOp p => some (p, .beginOp)
  | .endOp p => some (p, .endOp)
  | .next _ => none

namespace State

variable [DecidableEq P] {s s' : State n P} {p : P}

def written (s : State n P) (p : P) (i : Fin n) (next : Line n) : State n P :=
  let b := s.buf i
  let s := { s with disk := Function.update s.disk b.blockno b.data }
  ((s.setBuf i { b with valid := true, dirty := false }).record i).setPc p (.at next)

def synced (s : State n P) (p : P) (i : Fin n) (next : Line n) : State n P :=
  let r := Memide.sync s.disk (s.buf i)
  ({ s with disk := r.1 }.setBuf i r.2).setPc p (.at next)

def logged (s : State n P) (p : P) (i : Fin n) (next : Line n) : State n P :=
  let s := { s with lh := absorb s.lh (s.buf i).blockno }
  ((s.setBuf i { s.buf i with dirty := true }).record i).setPc p (.at next)

inductive Ran (s : State n P) (p : P) : Op n → State n P → Prop
  | bread {dev blockno : Nat} {ret : Ret n} {i : Fin n} {cache : Cache n P}
    (hget : s.cache.bget dev blockno = .ok (i, cache))
    : Ran s p (.bread dev blockno ret) ({ s with cache := cache }.setPc p (.bget dev blockno i ret))
  | memmove (i : Fin n) (data : Block) (next : Line n)
    : Ran s p (.memmove i data next) (s.memmove p i data next)
  | bwrite {i : Fin n} {next : Line n} (hlock : (s.buf i).lock = some p) (hdev : (s.buf i).dev = 1)
    : Ran s p (.bwrite i next) (s.written p i next)
  | logWrite {i : Fin n} {next : Line n} (hn : s.lh.length < LOGSIZE)
    (hsize : (s.lh.length : Int) < s.size - 1) (hout : 1 ≤ s.outstanding)
    : Ran s p (.logWrite i next) (s.logged p i next)
  | brelse {i : Fin n} {next : Line n} (hlock : (s.buf i).lock = some p)
    : Ran s p (.brelse i next)
      ((s.setBuf i { s.buf i with lock := none }).setPc p (.brelse i next))
  | beginOp (hcommitting : s.committing = false)
    : Ran s p .beginOp { s with outstanding := s.outstanding + 1 }
  | endOp (hcommitting : s.committing = false)
    : Ran s p .endOp { s with outstanding := s.outstanding - 1 }
  | endCommit (hcommitting : s.committing = false) (hout : s.outstanding = 1)
    : Ran s p .endOp ({ s with outstanding := 0, committing := true }.setPc p (.at .start))
  | goto (next : Line n) : Ran s p (.goto next) (s.setPc p (.at next))
  | clear (next : Line n) : Ran s p (.clear next) ({ s with lh := [] }.setPc p (.at next))
  | finish : Ran s p .finish ({ s with committing := false }.setPc p (.at .user))

theorem ran_of_bwrite {next : Line n} (h : s.bwrite p i next = .ok s')
    : Ran s p (.bwrite i next) s' := by
  unfold State.bwrite at h
  split at h
  . cases h
  unfold State.iderw at h
  split at h
  . next disk b hsync =>
    have hok := Memide.of_iderw_eq_ok hsync
    cases hok.2.2.2.2
    cases h
    exact Ran.bwrite hok.1 hok.2.2.1
  . cases h

theorem ran_of_run (h : s.run p op = some (.ok s')) : Ran s p op s' := by
  cases op with
  | bread dev blockno ret =>
    simp only [run, State.bread, Option.some.injEq] at h
    cases hget : s.cache.bget dev blockno with
    | error e =>
      rw [hget] at h
      cases h
    | ok r =>
      rw [hget] at h
      cases h
      exact Ran.bread hget
  | memmove i data next =>
    cases h
    exact Ran.memmove i data next
  | bwrite i next => exact ran_of_bwrite (Option.some.inj h)
  | logWrite i next =>
    simp only [run, State.logWrite, Option.some.injEq] at h
    split at h
    . cases h
    . next hn =>
      split at h
      . cases h
      cases h
      apply Ran.logWrite
      . omega
      . omega
      . omega
  | brelse i next =>
    simp only [run, State.brelse, Option.some.injEq] at h
    split at h
    . cases h
    . next hlock =>
      cases h
      exact Ran.brelse (not_not.mp hlock)
  | beginOp =>
    simp only [run, State.beginOp] at h
    split at h
    . cases h
    . next hwait =>
      cases h
      apply Ran.beginOp
      simp only [not_or, Bool.not_eq_true] at hwait
      exact hwait.1
  | endOp =>
    simp only [run, State.endOp, Option.some.injEq] at h
    split at h
    . cases h
    . next hcommitting =>
      simp only [Bool.not_eq_true] at hcommitting
      split at h
      . next hout =>
        cases h
        have hone : s.outstanding = 1 := by omega
        rw [hout]
        exact Ran.endCommit hcommitting hone
      . cases h
        exact Ran.endOp hcommitting
  | goto next =>
    cases h
    exact Ran.goto next
  | clear next =>
    cases h
    exact Ran.clear next
  | finish =>
    cases h
    exact Ran.finish
  | wild => cases h

theorem Ran.pc_of_ne (h : Ran s p op s') {q : P} (hq : q ≠ p) : s'.pc q = s.pc q := by
  cases h with
  | beginOp => rfl
  | endOp => rfl
  | _ => exact Function.update_of_ne hq ..

theorem Ran.layout (h : Ran s p op s') : s'.start = s.start ∧ s'.size = s.size := by
  cases h with
  | _ => exact ⟨rfl, rfl⟩

inductive Step (s : State n P) : Act n P → State n P → Prop
  | call {a : Act n P} {p : P} {op : Op n} {s' : State n P} (ha : a.call = some (p, op))
    (hpc : s.pc p = .at .user) (hran : Ran s p op s')
    : Step s a s'
  | commit {p : P} {line : Line n} {op : Op n} {s' : State n P} (hpc : s.pc p = .at line)
    (hcode : s.code line = some op) (hran : Ran s p op s')
    : Step s (.next p) s'
  | acquiresleep {p : P} {dev blockno : Nat} {i : Fin n} {ret : Ret n}
    (hpc : s.pc p = .bget dev blockno i ret) (hlock : (s.buf i).lock = none)
    : Step s (.next p) (s.acquiresleep p dev blockno i ret)
  | hit {p : P} {dev blockno : Nat} {i : Fin n} {ret : Ret n}
    (hpc : s.pc p = .bread dev blockno i ret) (hvalid : (s.buf i).valid = true)
    : Step s (.next p) (s.setPc p (.at (ret.line i)))
  | sync {p : P} {dev blockno : Nat} {i : Fin n} {ret : Ret n}
    (hpc : s.pc p = .bread dev blockno i ret) (hvalid : (s.buf i).valid = false)
    (hdev : (s.buf i).dev = 1)
    : Step s (.next p) (s.synced p i (ret.line i))
  | put {p : P} {i : Fin n} {next : Line n} (hpc : s.pc p = .brelse i next)
    : Step s (.next p) (s.brelseRest p i next)

theorem step_of_call (ha : a.call = some (p, op)) (h : s.call p op = some (.ok s'))
    : Step s a s' := by
  unfold State.call at h
  split at h
  . next hpc => exact Step.call ha hpc (ran_of_run h)
  . cases h

theorem step_of_breadRest {ret : Ret n}
    (hpc : s.pc p = .bread dev blockno i ret) (h : s.breadRest p i ret = .ok s')
    : Step s (.next p) s' := by
  unfold breadRest at h
  cases hvalid : (s.buf i).valid with
  | true =>
    rw [hvalid] at h
    cases h
    exact Step.hit hpc hvalid
  | false =>
    simp only [hvalid, Bool.false_eq_true, if_false, State.iderw] at h
    cases hsync : Memide.iderw s.disksize s.disk p (s.buf i) with
    | error e =>
      rw [hsync] at h
      cases h
    | ok r =>
      have hok := Memide.of_iderw_eq_ok hsync
      cases hok.2.2.2.2
      rw [hsync] at h
      cases h
      exact Step.sync hpc hvalid hok.2.2.1

theorem step_of_next (h : s.next p = some (.ok s')) : Step s (.next p) s' := by
  unfold State.next at h
  cases hpc : s.pc p with
  | «at» line =>
    rw [hpc] at h
    cases hcode : s.code line with
    | none =>
      simp only [hcode] at h
      cases h
    | some op =>
      simp only [hcode] at h
      exact Step.commit hpc hcode (ran_of_run h)
  | bget dev blockno i ret =>
    simp only [hpc] at h
    split at h
    . next hlock =>
      cases h
      exact Step.acquiresleep hpc hlock
    . cases h
  | bread dev blockno i ret =>
    simp only [hpc] at h
    exact step_of_breadRest hpc (Option.some.inj h)
  | brelse i ret =>
    simp only [hpc] at h
    cases h
    exact Step.put hpc

theorem Steps.step (h : Steps s a s') : Step s a s' := by
  cases a with
  | bread p dev blockno => exact step_of_call rfl h
  | modify p i data => exact step_of_call rfl h
  | bwrite p i => exact step_of_call rfl h
  | logWrite p i => exact step_of_call rfl h
  | brelse p i => exact step_of_call rfl h
  | beginOp p => exact step_of_call rfl h
  | endOp p => exact step_of_call rfl h
  | next p => exact step_of_next h

theorem Step.layout (h : Step s a s') : s'.start = s.start ∧ s'.size = s.size := by
  cases h with
  | call ha hpc hran => exact hran.layout
  | commit hpc hcode hran => exact hran.layout
  | _ => exact ⟨rfl, rfl⟩

end State
end Xv6.Bcache
