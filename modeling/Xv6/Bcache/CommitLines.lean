import Xv6.Bcache.LogSteps

namespace Xv6.Bcache

open Ring Reach

variable {n : Nat} {P : Type} {op : Op n} {tail : Nat} {i : Fin n} {dst : Dst} {erase : Bool}

namespace State

structure StoreInv [Fintype P] (s : State n P) : Prop where
  inv : s.Inv
  coherent : s.Coherent
  log : s.LogInv

variable {s s' : State n P} {p : P}

theorem LogInv.inLog_entry (h : s.LogInv) {tail b : Nat} (hb : s.lh[tail]? = some b)
    : s.InLog (s.start + tail + 1) :=
  inLog_of_lt h.fits (List.getElem?_eq_some_iff.mp hb).1

theorem LogInv.not_inLog (h : s.LogInv) {tail b : Nat} (hb : s.lh[tail]? = some b) : ¬s.InLog b :=
  h.home b (List.mem_of_getElem? hb)

theorem HasBoth.ne {tail b : Nat} {l h : Fin n} (hboth : s.HasBoth p tail l h b) (hlog : s.LogInv)
    : l ≠ h := by
  rintro rfl
  apply hlog.not_inLog hboth.entry
  rw [← hboth.home.blockno, hboth.log.blockno]
  exact hlog.inLog_entry hboth.entry

theorem LogInv.size_pos (h : s.LogInv) (hpos : 0 < s.lh.length) : 0 < s.size := by
  rcases h.fits with hnil | hlt
  . rw [hnil] at hpos
    cases hpos
  . omega

theorem inLog_start (hsize : 0 < s.size) : s.InLog s.start := by
  unfold InLog
  omega

theorem Copied.of_store (h : s.Copied tail) (hlh : s'.lh = s.lh) (hstart : s'.start = s.start)
    (hstore : ∀ u b, u < tail → s.lh[u]? = some b
      → s'.store (s.start + u + 1) = s.store (s.start + u + 1) ∧ s'.store b = s.store b)
    : s'.Copied tail := by
  intro u b hu hb
  rw [hlh] at hb
  rcases hstore u b hu hb with ⟨hlog, hhome⟩
  rw [hstart, hlog, hhome]
  exact h u b hu hb

theorem Phase.of_store_eq (h : s.Phase dst tail) (hlh : s'.lh = s.lh)
    (hstart : s'.start = s.start) (hstore : s'.store = s.store)
    : s'.Phase dst tail := by
  constructor
  . rw [hlh]
    exact h.pos
  . rw [hlh]
    apply h.copied.of_store hlh hstart
    intro u b _ _
    rw [hstore]
    exact ⟨rfl, rfl⟩

theorem HeadPhase.of_store_eq (h : s.HeadPhase erase) (hlh : s'.lh = s.lh)
    (hstart : s'.start = s.start) (hsize : s'.size = s.size) (hstore : s'.store = s.store)
    : s'.HeadPhase erase := by
  constructor
  . rw [hsize]
    exact h.size
  . rw [hlh]
    exact h.erased
  . intro herase
    exact (h.copied herase).of_store_eq hlh hstart hstore

theorem Has.of_update {b : Buf P} (hbuf : s'.cache.buf = Function.update s.cache.buf i b)
    (hsame : b.lock = (s.buf i).lock ∧ b.dev = (s.buf i).dev ∧ b.blockno = (s.buf i).blockno)
    (hvalid : (s.buf i).valid = true → b.valid = true) {j : Fin n} {blockno : Nat} (h : s.Has p j blockno)
    : s'.Has p j blockno := by
  rcases hsame with ⟨hlock, hdev, hblockno⟩
  constructor
  . unfold buf
    rw [hbuf]
    exact (apply_update Buf.lock hlock j).trans h.lock
  . unfold buf
    rw [hbuf]
    exact (apply_update Buf.dev hdev j).trans h.dev
  . unfold buf
    rw [hbuf]
    exact (apply_update Buf.blockno hblockno j).trans h.blockno
  . unfold buf
    rw [hbuf]
    by_cases hj : j = i
    . rw [hj, Function.update_self]
      rw [hj] at h
      exact hvalid h.valid
    . rw [Function.update_of_ne hj]
      exact h.valid

theorem StoreInv.data_eq [Fintype P] (h : s.StoreInv) {b : Nat} (hhas : s.Has p i b)
    (hwritten : s.unwritten i = false)
    : (s.buf i).data = s.store b := by
  rw [(h.coherent.bufOk i).data hhas.valid hwritten, hhas.blockno]

section
variable [DecidableEq P] [Fintype P]

structure LineStep (s s' : State n P) : Prop where
  coherent : s'.Coherent
  log : s'.LogInv
  store : ∀ b, ¬s.InLog b → s'.store b = s.store b

section
variable (h : s.StoreInv)
include h

theorem StoreInv.line_bread {line : Line n} (hpc : s.pc p = .at line)
    {dev b : Nat} {ret : Ret n} (hran : Ran s p (.bread dev b ret) s') (hret : s.RetOk p b ret)
    (hline : line ≠ .user) (hinst : ∀ u i, line.installed u = true → (ret.line i).installed u = true)
    : LineStep s s' := by
  cases hran with
  | bread hget =>
    exact ⟨h.coherent.get h.inv hpc ret hget,
      h.log.get h.inv hpc hget hret (fun huser => absurd huser hline) (fun u => hinst u _),
      fun _ _ => rfl⟩

theorem StoreInv.line_brelse {line next : Line n} (hpc : s.pc p = .at line) (hran : Ran s p (.brelse i next) s')
    (hwritten : s.unwritten i = false) (hline : line ≠ .user)
    (hok : ∀ s' : State n P, (∀ j, j ≠ i → Keeps s s' j) → s'.lh = s.lh → s'.start = s.start
      → s'.size = s.size → s'.store = s.store → s'.LineOk p next)
    (hinst : ∀ u, line.installed u = true → next.installed u = true)
    : LineStep s s' := by
  cases hran with
  | brelse hlock =>
    refine ⟨h.coherent.releasesleep hpc hwritten,
      h.log.releasesleep h.inv hpc hlock (fun huser => absurd huser hline) ?_ hinst,
      fun _ _ => rfl⟩
    refine hok _ ?_ rfl rfl rfl rfl
    intro j hj
    exact keeps_of_eq (Function.update_of_ne hj ..) rfl

theorem StoreInv.line_goto {line next : Line n} (hpc : s.pc p = .at line)
    (hran : Ran s p (.goto next) s') (hline : line ≠ .user) (hok : s.LineOk p next)
    (hinst : ∀ u, u < s.lh.length → line.installed u = true → next.installed u = true)
    : LineStep s s' := by
  cases hran with
  | goto =>
    refine ⟨?_, h.log.goto h.inv hpc (fun huser => absurd huser hline) hok hinst, fun _ _ => rfl⟩
    exact h.coherent.of_idle rfl (not_bread_of_at hpc) (fun j => keeps_of_eq rfl rfl) rfl rfl

theorem StoreInv.line_memmove {line next : Line n} (hpc : s.pc p = .at line) {b : Nat} {data : Block}
    (hran : Ran s p (.memmove i data next) s')
    (hhas : s.Has p i b) (hline : line ≠ .user) (hok : (s.memmove p i data next).LineOk p next)
    (hinst : ∀ u, line.installed u = true → next.installed u = true)
    : LineStep s s' := by
  cases hran with
  | memmove =>
    exact ⟨h.coherent.memmove hpc hhas.lock,
      h.log.memmove h.inv hpc hhas.lock (fun huser => absurd huser hline) hok hinst,
      fun _ _ => rfl⟩

theorem StoreInv.line_bwrite {line next : Line n} (hpc : s.pc p = .at line) (hran : Ran s p (.bwrite i next) s')
    (hline : line ≠ .user)
    (hblock : s.InLog (s.buf i).blockno ∨ (s.buf i).data = s.store (s.buf i).blockno)
    (hok : (s.written p i next).LineOk p next) (hinst : ∀ u, line.installed u = true → next.installed u = true)
    (hlast : ∀ u, s.lh[u]? = some (s.buf i).blockno → next.installed u = true)
    : LineStep s s' := by
  cases hran with
  | bwrite hlock hdev =>
    refine ⟨h.coherent.written h.inv hpc hlock hdev,
      h.log.written h.inv hpc hlock (fun huser => absurd huser hline)
        (fun huser => absurd huser hline) hok hinst hlast, ?_⟩
    intro b hb
    rw [store_written]
    rcases hblock with hlog | hsame
    . rw [Function.update_of_ne]
      rintro rfl
      exact hb hlog
    . rw [hsame, Function.update_eq_self]

end

omit [Fintype P] in
theorem data_memmove (s : State n P) (p : P) (i : Fin n) (data : Block) (next : Line n)
    : ((s.memmove p i data next).buf i).data = data := by
  simp [State.memmove, State.setPc, setBuf, buf]

omit [Fintype P] in
theorem HasBoth.memmove {tail b : Nat} {l h : Fin n} (hboth : s.HasBoth p tail l h b) (i : Fin n)
    (data : Block) (next : Line n)
    : (s.memmove p i data next).HasBoth p tail l h b := by
  refine ⟨hboth.entry, ?_, ?_⟩
  . refine hboth.log.of_update rfl ?_ (by exact id)
    exact ⟨rfl, rfl, rfl⟩
  . refine hboth.home.of_update rfl ?_ (by exact id)
    exact ⟨rfl, rfl, rfl⟩

omit [Fintype P] in
theorem HasBoth.written {tail b : Nat} {l h : Fin n} (hboth : s.HasBoth p tail l h b) (i : Fin n) (next : Line n)
    : (s.written p i next).HasBoth p tail l h b := by
  refine ⟨hboth.entry, ?_, ?_⟩
  . refine hboth.log.of_update rfl ?_ (by exact fun _ => rfl)
    exact ⟨rfl, rfl, rfl⟩
  . refine hboth.home.of_update rfl ?_ (by exact fun _ => rfl)
    exact ⟨rfl, rfl, rfl⟩

section
variable (h : s.StoreInv)
include h

theorem StoreInv.line_copy
    (hpc : s.pc p = .at (.copy dst tail)) (hcode : s.code (.copy dst tail) = some op) (hran : Ran s p op s')
    : LineStep s s' := by
  have hphase : s.Phase dst tail := by
    have := h.log.pcOk p
    rw [hpc] at this
    exact this
  simp only [code] at hcode
  split at hcode
  . next htail =>
    cases hcode
    apply h.line_bread hpc hran ⟨rfl, htail, hphase⟩ nofun
    intro u i hu
    cases dst with
    | log => cases hu
    | home => exact hu
  . next htail =>
    have hsize := h.log.size_pos hphase.pos
    cases dst with
    | log =>
      cases hcode
      apply h.line_goto hpc hran nofun
      . refine ⟨hsize, nofun, fun _ => ⟨hphase.pos, ?_⟩⟩
        intro u b hu hb
        have hu' : u < tail := by
          have : u < s.lh.length := hu
          omega
        exact hphase.copied u b hu' hb
      . intro u _ hu
        cases hu
    | home =>
      cases hcode
      apply h.line_goto hpc hran nofun hsize
      intro u _ _
      rfl

theorem StoreInv.line_copyHome {l : Fin n}
    (hpc : s.pc p = .at (.copyHome dst tail l)) (hcode : s.code (.copyHome dst tail l) = some op)
    (hran : Ran s p op s')
    : LineStep s s' := by
  have hok := h.log.pcOk p
  rw [hpc] at hok
  rcases hok with ⟨-, hlog, hwritten, hphase⟩
  simp only [code] at hcode
  split at hcode
  . next b hb =>
    cases hcode
    apply h.line_bread hpc hran ⟨hb, hlog, hwritten, hphase⟩ nofun
    intro u i hu
    cases dst with
    | log => cases hu
    | home => exact hu
  . cases hcode
    cases hran

theorem StoreInv.line_copyMove {l i : Fin n}
    (hpc : s.pc p = .at (.memmove dst tail l i)) (hcode : s.code (.memmove dst tail l i) = some op)
    (hran : Ran s p op s')
    : LineStep s s' := by
  have hok := h.log.pcOk p
  rw [hpc] at hok
  rcases hok with ⟨b, hboth, hl, hh, hphase⟩
  have hne := hboth.ne h.log
  cases dst with
  | log =>
    cases hcode
    apply h.line_memmove hpc hran hboth.log nofun
    . refine ⟨b, hboth.memmove .., ?_, ?_, hphase.of_store_eq rfl rfl rfl⟩
      . exact (Function.update_of_ne hne.symm ..).trans hh
      . rw [data_memmove]
        exact h.data_eq hboth.home hh
    . intro u hu
      cases hu
  | home =>
    cases hcode
    have hcopied : s.store (s.start + tail + 1) = s.store b :=
      hphase.copied tail b (List.getElem?_eq_some_iff.mp hboth.entry).1 hboth.entry
    apply h.line_memmove hpc hran hboth.home nofun
    . refine ⟨b, hboth.memmove .., ?_, ?_, hphase.of_store_eq rfl rfl rfl⟩
      . exact (Function.update_of_ne hne ..).trans hl
      . rw [data_memmove, h.data_eq hboth.log hl]
        exact hcopied
    . intro u hu
      exact hu

theorem StoreInv.line_writeLog {l i : Fin n}
    (hpc : s.pc p = .at (.copyWrite .log tail l i))
    (hcode : s.code (.copyWrite .log tail l i) = some op) (hran : Ran s p op s')
    : LineStep s s' := by
  have hok := h.log.pcOk p
  rw [hpc] at hok
  rcases hok with ⟨b, hboth, hh, hdata, hphase⟩
  have hinLog := h.log.inLog_entry hboth.entry
  cases hcode
  apply h.line_bwrite hpc hran nofun
  . left
    rw [hboth.log.blockno]
    exact hinLog
  . refine ⟨b, hboth.written .., Function.update_self .., ?_, hphase.pos, ?_⟩
    . exact (Function.update_of_ne (hboth.ne h.log).symm ..).trans hh
    . -- Entry `tail` is copied now, and no other log block and no home block is written.
      intro u c hu hc
      change u < tail + 1 at hu
      change s.lh[u]? = some c at hc
      have hne : c ≠ s.start + tail + 1 := by
        rintro rfl
        exact h.log.not_inLog hc hinLog
      rw [store_written, hboth.log.blockno]
      change Function.update s.store _ _ (s.start + u + 1) = _
      rw [Function.update_of_ne hne]
      rcases Nat.lt_succ_iff_lt_or_eq.mp hu with hlt | rfl
      . rw [Function.update_of_ne (by omega)]
        exact hphase.copied u c hlt hc
      . rw [Function.update_self, hdata]
        rw [hboth.entry] at hc
        cases hc
        rfl
  . intro u hu
    cases hu
  . intro u hu
    rw [hboth.log.blockno] at hu
    cases h.log.not_inLog hu hinLog

theorem StoreInv.line_installTrans {l i : Fin n}
    (hpc : s.pc p = .at (.copyWrite .home tail l i))
    (hcode : s.code (.copyWrite .home tail l i) = some op) (hran : Ran s p op s')
    : LineStep s s' := by
  have hok := h.log.pcOk p
  rw [hpc] at hok
  rcases hok with ⟨b, hboth, hl, hdata, hphase⟩
  have hsame : (s.buf i).data = s.store (s.buf i).blockno := by
    rw [hboth.home.blockno]
    exact hdata
  have hstore : (s.written p i (.relseSrc .home tail l i)).store = s.store := by
    rw [store_written, hsame, Function.update_eq_self]
  cases hcode
  apply h.line_bwrite hpc hran nofun (.inr hsame)
  . refine ⟨b, hboth.written .., ?_, Function.update_self .., hphase.pos, ?_⟩
    . exact (Function.update_of_ne (hboth.ne h.log) ..).trans hl
    . refine hphase.copied.of_store rfl rfl ?_
      intro u c _ _
      rw [hstore]
      exact ⟨rfl, rfl⟩
  . intro u hu
    simp only [Line.installed, decide_eq_true_eq] at hu ⊢
    omega
  . intro u hu
    rw [hboth.home.blockno, ← hboth.entry] at hu
    have hlt := (List.getElem?_eq_some_iff.mp hboth.entry).1
    have heq : u = tail := by
      apply (List.getElem?_inj _ h.log.nodup).mp hu
      rw [hboth.entry] at hu
      exact (List.getElem?_eq_some_iff.mp hu).1
    simp [Line.installed, heq]

theorem StoreInv.line_relseSrc {l i : Fin n}
    (hpc : s.pc p = .at (.relseSrc dst tail l i)) (hcode : s.code (.relseSrc dst tail l i) = some op)
    (hran : Ran s p op s')
    : LineStep s s' := by
  have hok := h.log.pcOk p
  rw [hpc] at hok
  rcases hok with ⟨b, hboth, hl, hh, hphase⟩
  have hne := hboth.ne h.log
  cases dst with
  | log =>
    cases hcode
    apply h.line_brelse hpc hran hh nofun
    . intro s' hkeep hlh hstart _ hstore
      refine ⟨?_, (hkeep l hne).unwritten.trans hl, hphase.of_store_eq hlh hstart hstore⟩
      rw [hstart]
      exact hboth.log.keep (hkeep l hne)
    . intro u hu
      cases hu
  | home =>
    cases hcode
    apply h.line_brelse hpc hran hl nofun
    . intro s' hkeep hlh hstart _ hstore
      exact ⟨b, hboth.home.keep (hkeep i hne.symm), (hkeep i hne.symm).unwritten.trans hh,
        hphase.of_store_eq hlh hstart hstore⟩
    . intro u hu
      exact hu

theorem StoreInv.line_relseDst {l i : Fin n}
    (hpc : s.pc p = .at (.relseDst dst tail l i)) (hcode : s.code (.relseDst dst tail l i) = some op)
    (hran : Ran s p op s')
    : LineStep s s' := by
  have hok := h.log.pcOk p
  rw [hpc] at hok
  cases dst with
  | log =>
    rcases hok with ⟨hlog, hl, hphase⟩
    cases hcode
    apply h.line_brelse hpc hran hl nofun
    . intro s' _ hlh hstart _ hstore
      exact hphase.of_store_eq hlh hstart hstore
    . intro u hu
      cases hu
  | home =>
    rcases hok with ⟨b, hhome, hh, hphase⟩
    cases hcode
    apply h.line_brelse hpc hran hh nofun
    . intro s' _ hlh hstart _ hstore
      exact hphase.of_store_eq hlh hstart hstore
    . intro u hu
      simp only [Line.installed, decide_eq_true_eq] at hu ⊢
      omega

theorem StoreInv.line_headWrite
    (hpc : s.pc p = .at (.headWrite erase i)) (hcode : s.code (.headWrite erase i) = some op) (hran : Ran s p op s')
    : LineStep s s' := by
  have hok := h.log.pcOk p
  rw [hpc] at hok
  rcases hok with ⟨hhas, hphase⟩
  have hinLog := inLog_start hphase.size
  cases hcode
  apply h.line_bwrite hpc hran nofun
  . left
    rw [hhas.blockno]
    exact hinLog
  . refine ⟨?_, Function.update_self .., hphase.size, hphase.erased, ?_⟩
    . refine hhas.of_update rfl ?_ (by exact fun _ => rfl)
      exact ⟨rfl, rfl, rfl⟩
    . intro herase
      refine ⟨(hphase.copied herase).pos, ?_⟩
      refine (hphase.copied herase).copied.of_store rfl rfl ?_
      intro u b _ hb
      have hne : b ≠ s.start := by
        rintro rfl
        exact h.log.not_inLog hb hinLog
      rw [store_written, hhas.blockno, Function.update_of_ne (by omega), Function.update_of_ne hne]
      exact ⟨rfl, rfl⟩
  . intro u hu
    cases hu
  . intro u hu
    rw [hhas.blockno] at hu
    cases h.log.not_inLog hu hinLog

theorem StoreInv.line_headFill
    (hpc : s.pc p = .at (.headFill erase i)) (hcode : s.code (.headFill erase i) = some op) (hran : Ran s p op s')
    : LineStep s s' := by
  have hok := h.log.pcOk p
  rw [hpc] at hok
  rcases hok with ⟨hhas, hphase⟩
  cases hcode
  apply h.line_memmove hpc hran hhas nofun
  . refine ⟨?_, hphase.of_store_eq rfl rfl rfl rfl⟩
    refine hhas.of_update rfl ?_ (by exact id)
    exact ⟨rfl, rfl, rfl⟩
  . intro u hu
    cases hu

theorem StoreInv.line_headRelse
    (hpc : s.pc p = .at (.headRelse erase i)) (hcode : s.code (.headRelse erase i) = some op) (hran : Ran s p op s')
    : LineStep s s' := by
  have hok := h.log.pcOk p
  rw [hpc] at hok
  rcases hok with ⟨hhas, hwritten, hphase⟩
  cases erase with
  | false =>
    cases hcode
    apply h.line_brelse hpc hran hwritten nofun
    . intro s' _ hlh hstart _ hstore
      exact (hphase.copied rfl).of_store_eq hlh hstart hstore
    . intro u hu
      cases hu
  | true =>
    cases hcode
    apply h.line_brelse hpc hran hwritten nofun
    . intro s' _ hlh _ _ _
      exact hlh.trans (hphase.erased rfl)
    . intro u hu
      cases hu

theorem StoreInv.line {line : Line n} (hpc : s.pc p = .at line)
    (hcode : s.code line = some op) (hran : Ran s p op s')
    : LineStep s s' := by
  cases line with
  | user => cases hcode
  | start =>
    simp only [code, Option.some.injEq] at hcode
    split at hcode
    . next hpos =>
      cases hcode
      apply h.line_goto hpc hran nofun ⟨hpos, nofun⟩
      intro u _ hu
      cases hu
    . next hnil =>
      cases hcode
      apply h.line_goto hpc hran nofun
      . exact List.eq_nil_of_length_eq_zero (Nat.eq_zero_of_not_pos hnil)
      . intro u _ hu
        cases hu
  | copy dst tail => exact h.line_copy hpc hcode hran
  | copyHome dst tail l => exact h.line_copyHome hpc hcode hran
  | memmove dst tail l i => exact h.line_copyMove hpc hcode hran
  | copyWrite dst tail l i =>
    cases dst with
    | log => exact h.line_writeLog hpc hcode hran
    | home => exact h.line_installTrans hpc hcode hran
  | relseSrc dst tail l i => exact h.line_relseSrc hpc hcode hran
  | relseDst dst tail l i => exact h.line_relseDst hpc hcode hran
  | head erase =>
    have hok := h.log.pcOk p
    rw [hpc] at hok
    cases hcode
    apply h.line_bread hpc hran ⟨rfl, hok⟩ nofun
    intro u i hu
    cases hu
  | headFill erase i => exact h.line_headFill hpc hcode hran
  | headWrite erase i => exact h.line_headWrite hpc hcode hran
  | headRelse erase i => exact h.line_headRelse hpc hcode hran
  | clear =>
    cases hcode
    cases hran
    refine ⟨?_, h.log.clear h.inv hpc, fun _ _ => rfl⟩
    exact h.coherent.of_idle rfl (not_bread_of_at hpc) (fun j => keeps_of_eq rfl rfl) rfl rfl
  | finish =>
    cases hcode
    cases hran
    refine ⟨?_, h.log.finish h.inv hpc, fun _ _ => rfl⟩
    exact h.coherent.of_idle rfl (not_bread_of_at hpc) (fun j => keeps_of_eq rfl rfl) rfl rfl

end

end
end State
end Xv6.Bcache
