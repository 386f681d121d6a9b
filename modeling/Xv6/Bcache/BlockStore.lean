import Xv6.Bcache.CommitLines

namespace Xv6.Bcache

open Ring Reach

variable {n : Nat} {P : Type}

def State.writes (s : State n P) (a : Act n P) (b : Nat) (data : Block) : Block :=
  match a with
  | .bwrite _ i | .logWrite _ i => if (s.buf i).blockno = b then (s.buf i).data else data
  | _ => data

def lastWritten (state : Nat → State n P) (act : Nat → Act n P) (b : Nat) : Nat → Block
  | 0 => (state 0).disk b
  | k + 1 => (state k).writes (act k) b (lastWritten state act b k)

namespace State

def Proper (s : State n P) : Act n P → Prop
  | .bread _ dev _ => dev = ROOTDEV
  | .modify p i _ => (s.buf i).lock = some p
  | .logWrite p i => (s.buf i).lock = some p
  | .brelse _ i => s.unwritten i = false
  | _ => True

def Separate (s : State n P) : Act n P → Prop
  | .bwrite _ i => (s.buf i).blockno ∉ s.lh ∧ ¬s.InLog (s.buf i).blockno
  | .logWrite _ i => ¬s.InLog (s.buf i).blockno
  | _ => True

instance decidableSeparate (s : State n P) : (a : Act n P) → Decidable (s.Separate a)
  | .bwrite _ i =>
    inferInstanceAs (Decidable ((s.buf i).blockno ∉ s.lh ∧ ¬s.InLog (s.buf i).blockno))
  | .logWrite _ i => inferInstanceAs (Decidable (¬s.InLog (s.buf i).blockno))
  | .bread _ _ _ | .modify _ _ _ | .brelse _ _ | .beginOp _ | .endOp _ | .next _ =>
    inferInstanceAs (Decidable True)

section
variable [DecidableEq P]

instance decidableProper (s : State n P) : (a : Act n P) → Decidable (s.Proper a)
  | .bread _ dev _ => inferInstanceAs (Decidable (dev = ROOTDEV))
  | .modify p i _ => inferInstanceAs (Decidable ((s.buf i).lock = some p))
  | .logWrite p i => inferInstanceAs (Decidable ((s.buf i).lock = some p))
  | .brelse _ i => inferInstanceAs (Decidable (s.unwritten i = false))
  | .bwrite _ _ | .beginOp _ | .endOp _ | .next _ => inferInstanceAs (Decidable True)

def ProperSteps (s : State n P) (a : Act n P) (s' : State n P) : Prop :=
  s.Proper a ∧ Steps s a s'

def SeparateSteps (s : State n P) (a : Act n P) (s' : State n P) : Prop :=
  s.Separate a ∧ ProperSteps s a s'

end

variable {s s' : State n P} {p : P}

theorem eq_clear_of_code {line next : Line n} (h : s.code line = some (.clear next))
    : line = .clear := by
  cases line with
  | clear => rfl
  | start =>
    simp only [code, Option.some.injEq] at h
    split at h
    . cases h
    . cases h
  | copy dst tail =>
    simp only [code] at h
    split at h
    . cases h
    . cases dst with
      | log => cases h
      | home => cases h
  | copyHome dst tail l =>
    simp only [code] at h
    split at h
    . cases h
    . cases h
  | memmove dst tail l i =>
    cases dst with
    | log => cases h
    | home => cases h
  | copyWrite dst tail l i =>
    cases dst with
    | log => cases h
    | home => cases h
  | relseSrc dst tail l i =>
    cases dst with
    | log => cases h
    | home => cases h
  | relseDst dst tail l i =>
    cases dst with
    | log => cases h
    | home => cases h
  | headRelse erase i =>
    cases erase with
    | false => cases h
    | true => cases h
  | _ => cases h

section
variable [DecidableEq P]

theorem layout_of_trace {tr : Trace (SeparateSteps (n := n) (P := P))} {k : Nat} (hk : k ≤ tr.length)
    : (tr.state k).start = (tr.state 0).start ∧ (tr.state k).size = (tr.state 0).size := by
  apply tr.induct (fun s => s.start = (tr.state 0).start ∧ s.size = (tr.state 0).size) _
    (Nat.zero_le k) hk ⟨rfl, rfl⟩
  intro s a s' hs hstep
  rcases hstep.2.2.step.layout with ⟨hstart, hsize⟩
  exact ⟨hstart.trans hs.1, hsize.trans hs.2⟩

theorem Step.entry_eq {a : Act n P} (hstep : Step s a s') {u b : Nat} (hb : s.lh[u]? = some b)
    (hnot : ¬s.Installed u)
    : s'.lh[u]? = some b := by
  have hran : ∀ p line op, s.pc p = .at line → (∀ next, op = .clear next → line = .clear)
      → Ran s p op s' → s'.lh[u]? = some b := by
    intro p line op hpc hclear hran
    cases hran with
    | @logWrite i next hn hsize hout =>
      change (absorb s.lh (s.buf i).blockno)[u]? = some b
      rw [absorb_eq]
      split
      . exact hb
      . rw [List.getElem?_append_left (List.getElem?_eq_some_iff.mp hb).1]
        exact hb
    | clear next =>
      rw [hclear next rfl] at hpc
      cases hnot ⟨p, by rw [hpc]; rfl⟩
    | _ => exact hb
  cases hstep with
  | @call _ p op _ ha hpc hop =>
    apply hran p .user op hpc _ hop
    rintro next rfl
    cases a with
    | _ => cases ha
  | @commit p line op _ hpc hcode hop =>
    apply hran p line op hpc _ hop
    rintro next rfl
    exact eq_clear_of_code hcode
  | _ => exact hb

variable [Fintype P]

theorem StoreInv.call (h : s.StoreInv) {a : Act n P} {op : Op n} (ha : a.call = some (p, op))
    (hpc : s.pc p = .at .user) (hran : Ran s p op s') (hproper : s.Proper a) (hseparate : s.Separate a)
    : s'.Coherent ∧ s'.LogInv := by
  have hnone : ∀ u : Nat, (Line.user : Line n).installed u = true → False := nofun
  cases a with
  | bread q dev blockno =>
    cases ha
    cases hran with
    | bread hget =>
      exact ⟨h.coherent.get h.inv hpc _ hget,
        h.log.get h.inv hpc hget trivial (fun _ => rfl) (fun u hu => (hnone u hu).elim)⟩
  | modify q i data =>
    cases ha
    cases hran with
    | memmove =>
      exact ⟨h.coherent.memmove hpc hproper,
        h.log.memmove h.inv hpc hproper (fun _ => rfl) trivial (fun u hu => (hnone u hu).elim)⟩
  | bwrite q i =>
    cases ha
    cases hran with
    | bwrite hlock hdev =>
      refine ⟨h.coherent.written h.inv hpc hlock hdev,
        h.log.written h.inv hpc hlock (fun _ => rfl) (fun _ => hseparate) trivial
          (fun u hu => (hnone u hu).elim) ?_⟩
      intro u hu
      cases hseparate.1 (List.mem_of_getElem? hu)
  | logWrite q i =>
    cases ha
    cases hran with
    | logWrite hn hsize hout =>
      exact ⟨h.coherent.logged h.inv hpc hproper,
        h.log.logged h.inv h.coherent hpc hproper hseparate hsize hout⟩
  | brelse q i =>
    cases ha
    cases hran with
    | brelse hlock =>
      exact ⟨h.coherent.releasesleep hpc hproper,
        h.log.releasesleep h.inv hpc hlock (fun _ => rfl) trivial (fun u hu => (hnone u hu).elim)⟩
  | beginOp q =>
    cases ha
    cases hran with
    | beginOp hcommitting =>
      refine ⟨?_, h.log.outstanding hcommitting _⟩
      exact h.coherent.of_keeps (fun j => keeps_of_eq rfl rfl) rfl rfl (fun _ _ _ _ _ hq => .inl hq)
  | endOp q =>
    cases ha
    cases hran with
    | endOp hcommitting =>
      refine ⟨?_, h.log.outstanding hcommitting _⟩
      exact h.coherent.of_keeps (fun j => keeps_of_eq rfl rfl) rfl rfl (fun _ _ _ _ _ hq => .inl hq)
    | endCommit hcommitting hout =>
      refine ⟨?_, h.log.endCommit h.inv hcommitting⟩
      exact h.coherent.of_idle rfl (not_bread_of_at hpc) (fun j => keeps_of_eq rfl rfl) rfl rfl
  | next q => cases ha

theorem StoreInv.step (h : s.StoreInv) {a : Act n P} (hstep : SeparateSteps s a s')
    : s'.StoreInv := by
  rcases hstep with ⟨hseparate, hproper, hsteps⟩
  have hstep := hsteps.step
  rcases hstep.effect with ⟨q, heffect⟩
  have hinv := heffect.inv h.inv
  cases hstep with
  | call ha hpc hran =>
    rcases h.call ha hpc hran hproper hseparate with ⟨hcoherent, hlog⟩
    exact ⟨hinv, hcoherent, hlog⟩
  | commit hpc hcode hran =>
    have hline := h.line hpc hcode hran
    exact ⟨hinv, hline.coherent, hline.log⟩
  | acquiresleep hpc hlock =>
    exact ⟨hinv, h.coherent.acquiresleep hpc, h.log.acquiresleep h.inv h.coherent hpc hlock⟩
  | hit hpc hvalid =>
    exact ⟨hinv, h.coherent.hit hpc hvalid _, h.log.hit h.inv h.coherent hpc hvalid⟩
  | sync hpc hvalid hdev =>
    exact ⟨hinv, h.coherent.synced h.inv hpc hvalid hdev _, h.log.synced h.inv hpc hvalid hdev⟩
  | put hpc =>
    refine ⟨hinv, ?_, h.log.put h.inv hpc⟩
    refine h.coherent.of_idle rfl ?_ (keeps_brelseRest _ _ _ _) rfl rfl
    rw [hpc]
    nofun

theorem storeInv_of_trace {tr : Trace (SeparateSteps (n := n) (P := P))}
    (h0 : (tr.state 0).StoreInv) {k : Nat} (hk : k ≤ tr.length)
    : (tr.state k).StoreInv := by
  apply tr.induct StoreInv _ (Nat.zero_le k) hk h0
  intro s a s' hinv hstep
  exact hinv.step hstep

theorem StoreInv.store_step (h : s.StoreInv) {a : Act n P} (hstep : Step s a s') {b : Nat} (hb : ¬s.InLog b)
    : s'.store b = s.writes a b (s.store b) := by
  cases hstep with
  | @call _ p op _ ha hpc hran =>
    cases hran with
    | @bwrite i next hlock hdev =>
      cases a with
      | bwrite q j =>
        cases ha
        rw [store_written, Function.update_apply, writes]
        simp only [eq_comm]
      | _ => cases ha
    | @logWrite i next hn hsize hout =>
      cases a with
      | logWrite q j =>
        cases ha
        rw [store_logged, Function.update_apply, writes]
        simp only [eq_comm]
      | _ => cases ha
    | _ =>
      cases a with
      | bwrite q j => cases ha
      | logWrite q j => cases ha
      | _ => rfl
  | commit hpc hcode hran => exact (h.line hpc hcode hran).store b hb
  | _ => rfl

theorem store_eq_lastWritten {tr : Trace (SeparateSteps (n := n) (P := P))}
    (h0 : (tr.state 0).StoreInv) (hstore : (tr.state 0).store = (tr.state 0).disk) {b k : Nat}
    (hk : k ≤ tr.length) (hb : ¬(tr.state 0).InLog b)
    : (tr.state k).store b = lastWritten tr.state tr.act b k := by
  induction k with
  | zero => exact congrFun hstore b
  | succ k ih =>
    have hle := Nat.le_of_succ_le hk
    have hstep := (tr.next k hk).2.2.step
    have hbk : ¬(tr.state k).InLog b := by
      unfold InLog
      rw [(layout_of_trace hle).1, (layout_of_trace hle).2]
      exact hb
    rw [(storeInv_of_trace h0 hle).store_step hstep hbk, ih hle]
    rfl

theorem StoreInv.bread_returns (h : s.StoreInv) {a : Act n P} (hstep : Step s a s')
    (h' : s'.StoreInv) {dev b : Nat} {i : Fin n} {ret : Ret n}
    (hpc : s.pc p = .bread dev b i ret) (hreturn : s'.pc p ≠ .bread dev b i ret)
    : (s'.buf i).lock = some p ∧ (s'.buf i).dev = dev ∧ (s'.buf i).blockno = b ∧ (s'.buf i).data = s'.store b := by
  have hkey := h.log.key p
  rw [hpc] at hkey
  rcases hkey with ⟨hdev, hblockno, hlock, hunwritten⟩
  -- Only a step of `p` itself can be the return.
  have hother : ∀ q, q ≠ p → s'.pc p = s.pc p → False := by
    intro q _ hsame
    exact hreturn (hsame.trans hpc)
  cases hstep with
  | @call _ q _ _ ha hq hran =>
    have hpq : p ≠ q := by
      rintro rfl
      rw [hpc] at hq
      cases hq
    cases hother q hpq.symm (hran.pc_of_ne hpq)
  | @commit q _ _ _ hq hcode hran =>
    have hpq : p ≠ q := by
      rintro rfl
      rw [hpc] at hq
      cases hq
    cases hother q hpq.symm (hran.pc_of_ne hpq)
  | @acquiresleep q _ _ _ _ hq hfree =>
    have hpq : p ≠ q := by
      rintro rfl
      rw [hpc] at hq
      cases hq
    cases hother q hpq.symm (Function.update_of_ne hpq ..)
  | @put q _ _ hq =>
    have hpq : p ≠ q := by
      rintro rfl
      rw [hpc] at hq
      cases hq
    cases hother q hpq.symm (Function.update_of_ne hpq ..)
  | @hit q dev' b' j ret' hq hvalid =>
    by_cases hpq : p = q
    . subst hpq
      rw [hpc] at hq
      cases hq
      refine ⟨hlock, hdev, hblockno, ?_⟩
      rw [← hblockno]
      exact (h.coherent.bufOk i).data hvalid hunwritten
    . cases hother q (Ne.symm hpq) (Function.update_of_ne hpq ..)
  | @sync q dev' b' j ret' hq hvalid hroot =>
    by_cases hpq : p = q
    . subst hpq
      rw [hpc] at hq
      cases hq
      have hself : (s.synced p i (ret.line i)).buf i = (Memide.sync s.disk (s.buf i)).2 :=
        Function.update_self ..
      have hsame := sameKey_sync s.disk (s.buf i)
      have hvalid' : ((s.synced p i (ret.line i)).buf i).valid = true := by
        rw [hself]
        unfold Memide.sync
        split
        . rfl
        . rfl
      have hdata := (h'.coherent.bufOk i).data hvalid' hunwritten
      rw [hself, hsame.blockno, hblockno] at hdata
      rw [hself, hsame.lock, hsame.dev, hsame.blockno]
      exact ⟨hlock, hdev, hblockno, hdata⟩
    . cases hother q (Ne.symm hpq) (Function.update_of_ne hpq ..)

theorem StoreInv.pinned_step (h : s.StoreInv) {a : Act n P} (hstep : Step s a s')
    (h' : s'.StoreInv) {u b : Nat} (hb : s.lh[u]? = some b) (hnot : ¬s.Installed u)
    : ∃ i, s.Pinned i b ∧ (¬s'.Installed u → s'.Pinned i b) := by
  rcases h.log.pinned u b hb hnot with ⟨i, hi⟩
  refine ⟨i, hi, ?_⟩
  intro hnot'
  rcases h'.log.pinned u b (hstep.entry_eq hb hnot) hnot' with ⟨j, hj⟩
  rcases hstep.effect with ⟨p, heffect⟩
  rcases heffect.key_eq h.inv (.inr hi.dirty) with ⟨hdev, hblockno⟩
  have hji : j = i := by
    apply h'.inv.unique j i
    . rw [hj.dev]
      decide
    . rw [hj.dev, hdev, hi.dev]
    . rw [hj.blockno, hblockno, hi.blockno]
  rw [← hji]
  exact hj

/--
The buffer cache, the log and the disk in every run of processes that leave the blocks of the log to
`commit`: `bread` returns a buffer of the block it was asked for with what was last written to that
block, a block that waits in the log is valid and dirty in one and the same buffer until it is
installed, and no block waits twice.
-/
theorem one_block_store (tr : Trace (SeparateSteps (n := n) (P := P))) {links : Links (Fin n)}
    {disk : Disk} {disksize start size : Nat}
    (h0 : tr.state 0 = init links disk disksize ROOTDEV start size) {k : Nat} (hk : k < tr.length)
    : (∀ p dev b i ret, (tr.state k).pc p = .bread dev b i ret → (tr.state (k + 1)).pc p ≠ .bread dev b i ret
        → ((tr.state (k + 1)).buf i).lock = some p ∧ ((tr.state (k + 1)).buf i).dev = dev
          ∧ ((tr.state (k + 1)).buf i).blockno = b ∧ ((tr.state (k + 1)).buf i).data = (tr.state (k + 1)).store b
          ∧ (¬(start ≤ b ∧ b < start + size)
            → ((tr.state (k + 1)).buf i).data = lastWritten tr.state tr.act b (k + 1)))
      ∧ (∀ u b : Nat, (tr.state k).lh[u]? = some b → ¬(tr.state k).Installed u → ∃ i, (tr.state k).Pinned i b
          ∧ (¬(tr.state (k + 1)).Installed u → (tr.state (k + 1)).Pinned i b)) ∧ (tr.state k).lh.Nodup := by
  have hinit : (tr.state 0).StoreInv := by
    rw [h0]
    exact ⟨inv_init .., coherent_init .., logInv_init ..⟩
  have hinv := storeInv_of_trace hinit (Nat.le_of_lt hk)
  have hinv' := storeInv_of_trace hinit hk
  have hstep := (tr.next k hk).2.2.step
  refine ⟨?_, ?_, hinv.log.nodup⟩
  . intro p dev b i ret hpc hreturn
    rcases hinv.bread_returns hstep hinv' hpc hreturn with ⟨hlock, hdev, hblockno, hdata⟩
    refine ⟨hlock, hdev, hblockno, hdata, ?_⟩
    intro hb
    rw [hdata]
    apply store_eq_lastWritten hinit _ hk
    . rw [h0]
      exact hb
    . rw [h0]
      rfl
  . intro u b hb hnot
    exact hinv.pinned_step hstep hinv' hb hnot

end

def readBlock (p : P) (b : Nat) : List (Act n P) :=
  [.bread p ROOTDEV b, .next p, .next p]

def releaseBlock (p : P) (i : Fin n) : List (Act n P) :=
  [.brelse p i, .next p]

def logOneBlock (p : P) (b : Nat) (i : Fin n) (data : Block) : List (Act n P) :=
  .beginOp p :: readBlock p b ++ [.modify p i data, .logWrite p i] ++ releaseBlock p i ++ [.endOp p]
    ++ List.replicate 21 (.next p)

def finishCommit (p : P) : List (Act n P) :=
  List.replicate 22 (.next p)

section
variable [DecidableEq P]

def separateStep (s : State n P) (a : Act n P) : Option (State n P) :=
  if s.Separate a ∧ s.Proper a then attempt step s a else none

theorem separateSteps_of_separateStep (s : State n P) (a : Act n P) (s' : State n P)
    (h : separateStep s a = some s')
    : SeparateSteps s a s' := by
  unfold separateStep at h
  split at h
  . next hgood => exact ⟨hgood.1, hgood.2, of_attempt s a s' h⟩
  . cases h

def properStep (s : State n P) (a : Act n P) : Option (State n P) :=
  if s.Proper a then attempt step s a else none

theorem properSteps_of_properStep (s : State n P) (a : Act n P) (s' : State n P) (h : properStep s a = some s')
    : ProperSteps s a s' := by
  unfold properStep at h
  split at h
  . next hgood => exact ⟨hgood, of_attempt s a s' h⟩
  . cases h

end

theorem one_block_store_of_commit
    : ∃ tr : Trace (SeparateSteps (n := 3) (P := Bool)), (tr.state 54).pc true = .bread ROOTDEV 40 0 .user
      ∧ (tr.state 55).pc true = .at .user ∧ ((tr.state 55).buf 0).data = lastWritten tr.state tr.act 40 55 := by
  let tr : Trace (SeparateSteps (n := 3) (P := Bool)) :=
    .ofExec separateStep separateSteps_of_separateStep
      (init ⟨id, id⟩ (fun _ => .zero) 100 ROOTDEV 2 30)
      (logOneBlock false 40 0 (fun _ => 1) ++ finishCommit false ++ readBlock true 40) (.next true)
      (by decide +kernel)
  have hread : (tr.state 54).pc true = .bread ROOTDEV 40 0 .user := by decide +kernel
  have hreturn : (tr.state 55).pc true = .at .user := by decide +kernel
  refine ⟨tr, hread, hreturn, ?_⟩
  have hstore := (one_block_store tr rfl (k := 54) (by decide +kernel)).1 true ROOTDEV 40 0 .user hread
  apply (hstore _).2.2.2.2
  . decide
  . rw [hreturn]
    nofun

def bwriteLogged (p q : P) (b : Nat) (i : Fin n) : List (Act n P) :=
  logOneBlock p b i (fun _ => 1) ++ readBlock q b ++ [.modify q i fun _ => 2, .bwrite q i]
    ++ releaseBlock q i ++ finishCommit p ++ readBlock q b

/--
If `bwrite` is used for a block that waits in the log, then the block is not dirty any more before
it is installed, and `install_trans` overwrites what `bwrite` wrote.
-/
theorem bwrite_of_logged_block_is_lost
    : ∃ tr : Trace (ProperSteps (n := 3) (P := Bool)),
      tr.state 0 = init ⟨id, id⟩ (fun _ => .zero) 100 ROOTDEV 2 30
      ∧ ((tr.state 35).lh = [40] ∧ ((tr.state 35).buf 0).blockno = 40
        ∧ ((tr.state 35).buf 0).dirty = false)
      ∧ (tr.state 61).pc true = .bread ROOTDEV 40 0 .user
      ∧ (tr.state 62).pc true = .at .user
      ∧ ((tr.state 62).buf 0).data ≠ lastWritten tr.state tr.act 40 62 := by
  let tr : Trace (ProperSteps (n := 3) (P := Bool)) :=
    .ofExec properStep properSteps_of_properStep (init ⟨id, id⟩ (fun _ => .zero) 100 ROOTDEV 2 30)
      (bwriteLogged false true 40 0) (.next true) (by decide +kernel)
  refine ⟨tr, rfl, ⟨by decide +kernel, by decide +kernel, by decide +kernel⟩, by decide +kernel,
    by decide +kernel, ?_⟩
  intro h
  have hbyte : ((tr.state 62).buf 0).data 0 ≠ lastWritten tr.state tr.act 40 62 0 := by
    decide +kernel
  exact hbyte (congrFun h 0)

end State
end Xv6.Bcache
