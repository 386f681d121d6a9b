import Xv6.Bcache.Representation

namespace Xv6.Bcache

open Ring Reach

variable {n : Nat} {P : Type} {line next : Line n} {dev blockno : Nat} {ret : Ret n} {pc : Pc n} {b : Buf P}

namespace State

structure BufOk (s : State n P) (i : Fin n) : Prop where
  device : (s.buf i).valid = true → (s.buf i).dev = ROOTDEV
  dirty : (s.buf i).dirty = true → (s.buf i).valid = true
  data : (s.buf i).valid = true → s.unwritten i = false → (s.buf i).data = s.store (s.buf i).blockno
  unwritten : s.unwritten i = true → (s.buf i).lock ≠ none
  held : ∀ p, (s.buf i).lock = some p
    → (s.buf i).valid = true ∨ ∃ dev blockno ret, s.pc p = .bread dev blockno i ret

def Clean (s : State n P) (b : Nat) : Prop :=
  ∀ i, (s.buf i).dev = ROOTDEV → (s.buf i).blockno = b → (s.buf i).dirty = false

structure Coherent (s : State n P) : Prop where
  bufOk : ∀ i, s.BufOk i
  disk : ∀ b, s.Clean b → s.disk b = s.store b

structure Keeps (s s' : State n P) (i : Fin n) : Prop where
  dev : (s'.buf i).dev = (s.buf i).dev
  blockno : (s'.buf i).blockno = (s.buf i).blockno
  valid : (s'.buf i).valid = (s.buf i).valid
  dirty : (s'.buf i).dirty = (s.buf i).dirty
  lock : (s'.buf i).lock = (s.buf i).lock
  data : (s'.buf i).data = (s.buf i).data
  unwritten : s'.unwritten i = s.unwritten i

theorem keeps_of_eq {s s' : State n P} {i : Fin n} (hbuf : s'.buf i = s.buf i)
    (hunwritten : s'.unwritten i = s.unwritten i)
    : Keeps s s' i := by
  constructor
  . rw [hbuf]
  . rw [hbuf]
  . rw [hbuf]
  . rw [hbuf]
  . rw [hbuf]
  . rw [hbuf]
  . exact hunwritten

theorem keeps_of_refcnt {s s' : State n P} {i : Fin n} {k : Nat}
    (hbuf : s'.cache.buf = Function.update s.cache.buf i { s.buf i with refcnt := k })
    (hunwritten : s'.unwritten = s.unwritten) (j : Fin n)
    : Keeps s s' j := by
  have hfield : ∀ {β : Type} (f : Buf P → β), f { s.buf i with refcnt := k } = f (s.buf i)
      → f (s'.buf j) = f (s.buf j) := by
    intro β f hf
    unfold buf
    rw [hbuf]
    exact apply_update f hf j
  constructor
  . exact hfield Buf.dev rfl
  . exact hfield Buf.blockno rfl
  . exact hfield Buf.valid rfl
  . exact hfield Buf.dirty rfl
  . exact hfield Buf.lock rfl
  . exact hfield Buf.data rfl
  . rw [hunwritten]

theorem coherent_init (links : Links (Fin n)) (disk : Disk) (disksize dev start size : Nat)
    : (init links disk disksize dev start size : State n P).Coherent := by
  constructor
  . intro i
    constructor
    . intro h
      cases h
    . intro h
      cases h
    . intro h
      cases h
    . intro h
      cases h
    . intro p h
      cases h
  . intro b _
    rfl

variable {s s' : State n P} {i j : Fin n}

theorem BufOk.frame (h : s.BufOk j) (hkeep : Keeps s s' j)
    (hstore : (s.buf j).valid = true → s'.store (s.buf j).blockno = s.store (s.buf j).blockno)
    (hpc : ∀ q dev blockno ret, s.pc q = .bread dev blockno j ret
      → s'.pc q = .bread dev blockno j ret ∨ (s.buf j).valid = true)
    : s'.BufOk j := by
  constructor
  . rw [hkeep.valid, hkeep.dev]
    exact h.device
  . rw [hkeep.valid, hkeep.dirty]
    exact h.dirty
  . rw [hkeep.valid, hkeep.unwritten, hkeep.data, hkeep.blockno]
    intro hvalid hunwritten
    rw [hstore hvalid]
    exact h.data hvalid hunwritten
  . rw [hkeep.unwritten, hkeep.lock]
    exact h.unwritten
  . intro q hlock
    rw [hkeep.lock] at hlock
    rw [hkeep.valid]
    rcases h.held q hlock with hvalid | ⟨dev, blockno, ret, hread⟩
    . exact .inl hvalid
    . rcases hpc q dev blockno ret hread with hsame | hvalid
      . exact .inr ⟨dev, blockno, ret, hsame⟩
      . exact .inl hvalid

theorem Clean.of_keeps {b : Nat} (h : s'.Clean b) (hkeep : ∀ j, Keeps s s' j) : s.Clean b := by
  intro j hdev hblockno
  rw [← (hkeep j).dirty]
  apply h
  . rw [(hkeep j).dev]
    exact hdev
  . rw [(hkeep j).blockno]
    exact hblockno

theorem Coherent.of_keeps (h : s.Coherent) (hkeep : ∀ j, Keeps s s' j) (hstore : s'.store = s.store)
    (hdisk : s'.disk = s.disk) (hpc : ∀ q dev blockno j ret, s.pc q = .bread dev blockno j ret
      → s'.pc q = .bread dev blockno j ret ∨ (s.buf j).valid = true)
    : s'.Coherent := by
  constructor
  . intro j
    apply (h.bufOk j).frame (hkeep j)
    . intro _
      rw [hstore]
    . intro q dev blockno ret
      apply hpc
  . intro b hclean
    rw [hstore, hdisk]
    exact h.disk b (hclean.of_keeps hkeep)

theorem Coherent.of_update (h : s.Coherent)
    (hpc : ∀ q dev blockno j ret, j ≠ i → s.pc q = .bread dev blockno j ret → s'.pc q = .bread dev blockno j ret)
    (hbuf : s'.cache.buf = Function.update s.cache.buf i b)
    (hunwritten : ∀ j, j ≠ i → s'.unwritten j = s.unwritten j) (hstore : ∀ j, j ≠ i → (s.buf j).valid = true
      → s'.store (s.buf j).blockno = s.store (s.buf j).blockno)
    (hself : s'.BufOk i) (hdisk : ∀ b, s'.Clean b → s'.disk b = s'.store b)
    : s'.Coherent := by
  constructor
  . intro j
    by_cases hj : j = i
    . rw [hj]
      exact hself
    apply (h.bufOk j).frame
    . apply keeps_of_eq _ (hunwritten j hj)
      unfold buf
      rw [hbuf, Function.update_of_ne hj]
    . exact hstore j hj
    . intro q dev blockno ret hq
      exact .inl (hpc q dev blockno j ret hj hq)
  . exact hdisk

theorem Clean.of_update (hbuf : s'.cache.buf = Function.update s.cache.buf i b)
    {blockno : Nat} (h : s'.Clean blockno)
    (hself : (s.buf i).dev = ROOTDEV → (s.buf i).blockno = blockno → (s.buf i).dirty = false)
    : s.Clean blockno := by
  intro j hdev hblockno
  by_cases hj : j = i
  . subst hj
    exact hself hdev hblockno
  have hsame : s'.buf j = s.buf j := by
    unfold buf
    rw [hbuf, Function.update_of_ne hj]
  rw [← hsame]
  apply h
  . rw [hsame]
    exact hdev
  . rw [hsame]
    exact hblockno

theorem not_bread_of_at {p : P} {line : Line n} (h : s.pc p = .at line) (dev blockno : Nat)
    (j : Fin n) (ret : Ret n)
    : s.pc p ≠ .bread dev blockno j ret := by
  rw [h]
  intro hfalse
  cases hfalse

theorem ne_of_blockno {s : State n P} [Fintype P] (hinv : s.Inv) (h : s.Coherent)
    (hdev : (s.buf i).dev = ROOTDEV) (hj : j ≠ i) (hvalid : (s.buf j).valid = true)
    : (s.buf j).blockno ≠ (s.buf i).blockno := by
  intro heq
  have hdevj := (h.bufOk j).device hvalid
  apply hj
  apply hinv.unique j i
  . rw [hdevj]
    decide
  . rw [hdevj, hdev]
  . exact heq

theorem Coherent.valid_of_lock (h : s.Coherent) {p : P} {line : Line n} (hpc : s.pc p = .at line)
    (hlock : (s.buf i).lock = some p)
    : (s.buf i).valid = true := by
  rcases (h.bufOk i).held p hlock with hvalid | ⟨dev, blockno, ret, hread⟩
  . exact hvalid
  . cases not_bread_of_at hpc _ _ _ _ hread

section
variable [DecidableEq P] {p : P}

theorem pc_of_update (hpc : s'.pc = Function.update s.pc p pc)
    (hnot : ∀ dev blockno j ret, s.pc p ≠ .bread dev blockno j ret) (q : P) (dev blockno : Nat)
    (j : Fin n) (ret : Ret n) (h : s.pc q = .bread dev blockno j ret)
    : s'.pc q = .bread dev blockno j ret := by
  have hqp : q ≠ p := by
    rintro rfl
    exact hnot _ _ _ _ h
  rw [hpc, Function.update_of_ne hqp]
  exact h

section
variable (h : s.Coherent)
include h

theorem Coherent.of_idle (hpc : s'.pc = Function.update s.pc p pc)
    (hnot : ∀ dev blockno j ret, s.pc p ≠ .bread dev blockno j ret)
    (hkeep : ∀ j, Keeps s s' j) (hstore : s'.store = s.store) (hdisk : s'.disk = s.disk)
    : s'.Coherent := by
  apply h.of_keeps hkeep hstore hdisk
  intro q dev blockno j ret hq
  exact .inl (pc_of_update hpc hnot q dev blockno j ret hq)

theorem Coherent.of_step (hpc : s'.pc = Function.update s.pc p pc)
    (hnot : ∀ dev blockno j ret, s.pc p ≠ .bread dev blockno j ret)
    (hbuf : s'.cache.buf = Function.update s.cache.buf i b)
    (hunwritten : ∀ j, j ≠ i → s'.unwritten j = s.unwritten j) (hstore : ∀ j, j ≠ i → (s.buf j).valid = true
      → s'.store (s.buf j).blockno = s.store (s.buf j).blockno)
    (hself : s'.BufOk i) (hdisk : ∀ b, s'.Clean b → s'.disk b = s'.store b)
    : s'.Coherent := by
  apply h.of_update _ hbuf hunwritten hstore hself hdisk
  intro q dev blockno j ret _ hq
  exact pc_of_update hpc hnot q dev blockno j ret hq

theorem Coherent.get [Fintype P] (hinv : s.Inv) {line : Line n}
    (hpc : s.pc p = .at line) {cache : Cache n P} (ret : Ret n)
    (hget : s.cache.bget dev blockno = .ok (i, cache))
    : ({ s with cache := cache }.setPc p (.bget dev blockno i ret)).Coherent := by
  cases hinv.linked.gets hget with
  | hit hdev hblockno =>
    exact h.of_idle rfl (not_bread_of_at hpc) (keeps_of_refcnt rfl rfl) rfl rfl
  | miss hnone hrefcnt hdirty =>
    have hlock : (s.buf i).lock = none := by
      cases hlock : (s.buf i).lock with
      | none => rfl
      | some q =>
        have hpos : 0 < (s.buf i).refcnt := hinv.refcnt_pos_of_lock (by rw [hlock]; nofun)
        exact absurd hrefcnt (Nat.ne_of_gt hpos)
    have hself : ({ s with cache := s.cache.recycle i dev blockno }.setPc p
        (.bget dev blockno i ret)).buf i
        = { s.buf i with
            dev := dev, blockno := blockno, valid := false, dirty := false, refcnt := 1 } :=
      Function.update_self ..
    refine h.of_step rfl (not_bread_of_at hpc) rfl (fun j _ => rfl) (fun j _ _ => rfl) ?_ ?_
    . constructor
      . rw [hself]
        intro hfalse
        cases hfalse
      . rw [hself]
        intro hfalse
        cases hfalse
      . rw [hself]
        intro hfalse
        cases hfalse
      . intro hunwritten
        cases (h.bufOk i).unwritten hunwritten hlock
      . intro q
        rw [hself]
        intro hq
        rw [hlock] at hq
        cases hq
    . intro b hclean
      apply h.disk
      apply Clean.of_update rfl hclean
      intro _ _
      exact hdirty

theorem Coherent.acquiresleep
    (hpc : s.pc p = .bget dev blockno i ret)
    : (s.acquiresleep p dev blockno i ret).Coherent := by
  have hnot : ∀ dev blockno j ret, s.pc p ≠ .bread dev blockno j ret := by
    rw [hpc]
    intro dev' blockno' j ret' hfalse
    cases hfalse
  have hself : (s.acquiresleep p dev blockno i ret).buf i = { s.buf i with lock := some p } :=
    Function.update_self ..
  have hread : (s.acquiresleep p dev blockno i ret).pc p = .bread dev blockno i ret :=
    Function.update_self ..
  refine h.of_step rfl hnot rfl (fun j _ => rfl) (fun j _ _ => rfl) ?_ ?_
  . constructor
    . rw [hself]
      exact (h.bufOk i).device
    . rw [hself]
      exact (h.bufOk i).dirty
    . rw [hself]
      exact (h.bufOk i).data
    . rw [hself]
      intro _ hfalse
      cases hfalse
    . intro q hq
      rw [hself] at hq
      cases hq
      exact .inr ⟨_, _, _, hread⟩
  . intro b hclean
    apply h.disk
    apply Clean.of_update rfl hclean
    intro hdev hblockno
    have := hclean i
    rw [hself] at this
    exact this hdev hblockno

theorem Coherent.hit
    (hpc : s.pc p = .bread dev blockno i ret) (hvalid : (s.buf i).valid = true) (line : Line n)
    : (s.setPc p (.at line)).Coherent := by
  refine h.of_keeps (fun j => keeps_of_eq rfl rfl) rfl rfl ?_
  intro q dev' blockno' j ret' hq
  by_cases hqp : q = p
  . right
    rw [hqp, hpc] at hq
    cases hq
    exact hvalid
  . left
    rw [← hq]
    exact Function.update_of_ne hqp ..

theorem Coherent.synced [Fintype P] (hinv : s.Inv)
    (hpc : s.pc p = .bread dev blockno i ret) (hvalid : (s.buf i).valid = false)
    (hdev : (s.buf i).dev = ROOTDEV) (line : Line n)
    : (s.synced p i line).Coherent := by
  have hdirty : (s.buf i).dirty = false := by
    cases hdirty : (s.buf i).dirty with
    | false => rfl
    | true =>
      rw [(h.bufOk i).dirty hdirty] at hvalid
      cases hvalid
  have hsync : Memide.sync s.disk (s.buf i)
      = (s.disk, { s.buf i with data := s.disk (s.buf i).blockno, valid := true }) := by
    unfold Memide.sync
    rw [if_neg]
    rw [hdirty]
    intro hfalse
    cases hfalse
  -- No other buffer is for this block, so that the disk has what was last written to it.
  have hdisk : s.disk (s.buf i).blockno = s.store (s.buf i).blockno := by
    apply h.disk
    intro j hdevj hblockno
    have hij : j = i := by
      apply hinv.unique j i
      . rw [hdevj]
        decide
      . rw [hdevj, hdev]
      . exact hblockno
    rw [hij]
    exact hdirty
  unfold State.synced
  simp only [hsync]
  have hself : (({ s with disk := s.disk }.setBuf i
      { s.buf i with data := s.disk (s.buf i).blockno, valid := true }).setPc p (.at line)).buf i
      = { s.buf i with data := s.disk (s.buf i).blockno, valid := true } :=
    Function.update_self ..
  refine h.of_update ?_ rfl (fun j _ => rfl) (fun j _ _ => rfl) ?_ ?_
  . intro q dev' blockno' j ret' hj hq
    have hqp : q ≠ p := by
      rintro rfl
      rw [hpc] at hq
      cases hq
      exact hj rfl
    rw [← hq]
    exact Function.update_of_ne hqp ..
  . constructor
    . rw [hself]
      intro _
      exact hdev
    . rw [hself]
      intro _
      rfl
    . rw [hself]
      intro _ _
      exact hdisk
    . rw [hself]
      exact (h.bufOk i).unwritten
    . intro q _
      rw [hself]
      exact .inl rfl
  . intro b hclean
    apply h.disk
    apply Clean.of_update rfl hclean
    intro _ _
    exact hdirty

theorem Coherent.memmove {data : Block}
    (hpc : s.pc p = .at line) (hlock : (s.buf i).lock = some p)
    : (s.memmove p i data next).Coherent := by
  have hself : (s.memmove p i data next).buf i = { s.buf i with data := data } :=
    Function.update_self ..
  have hunwritten : (s.memmove p i data next).unwritten i = true := Function.update_self ..
  have hvalid := h.valid_of_lock hpc hlock
  refine h.of_step rfl (not_bread_of_at hpc) rfl (fun j hj => Function.update_of_ne hj ..)
    (fun j _ _ => rfl) ?_ ?_
  . constructor
    . rw [hself]
      exact (h.bufOk i).device
    . rw [hself]
      exact (h.bufOk i).dirty
    . rw [hunwritten]
      intro _ hfalse
      cases hfalse
    . rw [hself, hlock]
      intro _ hfalse
      cases hfalse
    . intro q _
      rw [hself]
      exact .inl hvalid
  . intro b hclean
    apply h.disk
    apply Clean.of_update rfl hclean
    intro hdev hblockno
    have := hclean i
    rw [hself] at this
    exact this hdev hblockno

theorem Coherent.written [Fintype P] (hinv : s.Inv)
    (hpc : s.pc p = .at line) (hlock : (s.buf i).lock = some p) (hdev : (s.buf i).dev = ROOTDEV)
    : (s.written p i next).Coherent := by
  have hself : (s.written p i next).buf i = { s.buf i with valid := true, dirty := false } :=
    Function.update_self ..
  have hstore : (s.written p i next).store
      = Function.update s.store (s.buf i).blockno (s.buf i).data := by
    simp [State.written, State.setPc, record, setBuf, buf]
  have hdisk : (s.written p i next).disk
      = Function.update s.disk (s.buf i).blockno (s.buf i).data := rfl
  refine h.of_step rfl (not_bread_of_at hpc) rfl (fun j hj => Function.update_of_ne hj ..) ?_ ?_ ?_
  . intro j hj hvalid
    rw [hstore, Function.update_of_ne (ne_of_blockno hinv h hdev hj hvalid)]
  . constructor
    . rw [hself]
      intro _
      exact hdev
    . rw [hself]
      intro hfalse
      cases hfalse
    . rw [hself, hstore]
      intro _ _
      rw [Function.update_self]
    . rw [hself, hlock]
      intro _ hfalse
      cases hfalse
    . intro q _
      rw [hself]
      exact .inl rfl
  . intro b hclean
    rw [hstore, hdisk]
    by_cases hb : b = (s.buf i).blockno
    . rw [hb, Function.update_self, Function.update_self]
    rw [Function.update_of_ne hb, Function.update_of_ne hb]
    apply h.disk
    apply Clean.of_update rfl hclean
    intro _ hblockno
    cases hb hblockno.symm

theorem Coherent.logged [Fintype P] (hinv : s.Inv)
    (hpc : s.pc p = .at line) (hlock : (s.buf i).lock = some p)
    : (s.logged p i next).Coherent := by
  have hvalid := h.valid_of_lock hpc hlock
  have hdev := (h.bufOk i).device hvalid
  have hself : (s.logged p i next).buf i = { s.buf i with dirty := true } :=
    Function.update_self ..
  have hstore : (s.logged p i next).store
      = Function.update s.store (s.buf i).blockno (s.buf i).data := by
    simp [State.logged, State.setPc, record, setBuf, buf]
  refine h.of_step rfl (not_bread_of_at hpc) rfl (fun j hj => Function.update_of_ne hj ..) ?_ ?_ ?_
  . intro j hj hvalidj
    rw [hstore, Function.update_of_ne (ne_of_blockno hinv h hdev hj hvalidj)]
  . constructor
    . rw [hself]
      intro _
      exact hdev
    . rw [hself]
      intro _
      exact hvalid
    . rw [hself, hstore]
      intro _ _
      rw [Function.update_self]
    . rw [hself, hlock]
      intro _ hfalse
      cases hfalse
    . intro q _
      rw [hself]
      exact .inl hvalid
  . intro b hclean
    -- The block of this buffer is not clean.
    have hb : b ≠ (s.buf i).blockno := by
      rintro rfl
      have := hclean i
      rw [hself] at this
      cases this hdev rfl
    rw [hstore, Function.update_of_ne hb]
    apply h.disk
    apply Clean.of_update rfl hclean
    intro _ hblockno
    cases hb hblockno.symm

theorem Coherent.releasesleep (hpc : s.pc p = .at line)
    (hwritten : s.unwritten i = false)
    : ((s.setBuf i { s.buf i with lock := none }).setPc p (.brelse i next)).Coherent := by
  have hself : ((s.setBuf i { s.buf i with lock := none }).setPc p (.brelse i next)).buf i
      = { s.buf i with lock := none } :=
    Function.update_self ..
  refine h.of_step rfl (not_bread_of_at hpc) rfl (fun j _ => rfl) (fun j _ _ => rfl) ?_ ?_
  . constructor
    . rw [hself]
      exact (h.bufOk i).device
    . rw [hself]
      exact (h.bufOk i).dirty
    . rw [hself]
      exact (h.bufOk i).data
    . intro hunwritten
      cases hwritten.symm.trans hunwritten
    . intro q
      rw [hself]
      intro hfalse
      cases hfalse
  . intro b hclean
    apply h.disk
    apply Clean.of_update rfl hclean
    intro hdev hblockno
    have := hclean i
    rw [hself] at this
    exact this hdev hblockno

end

theorem keeps_brelseRest (s : State n P) (p : P) (i : Fin n) (next : Line n) (j : Fin n)
    : Keeps s (s.brelseRest p i next) j := by
  apply keeps_of_refcnt
  . exact Cache.buf_put ..
  . rfl

end
end State
end Xv6.Bcache
