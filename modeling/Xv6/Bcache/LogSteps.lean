import Xv6.Bcache.Commit

namespace Xv6.Bcache

open Ring Reach

variable {n : Nat} {P : Type} {dev blockno : Nat} {line next : Line n} {ret : Ret n} {b : Buf P} {j : Fin n}

theorem absorb_eq (lh : List Nat) (b : Nat) : absorb lh b = if b ∈ lh then lh else lh ++ [b] := by
  unfold absorb
  dsimp only
  by_cases hb : b ∈ lh
  . have hlt : lh.findIdx (· = b) < lh.length := by
      apply List.findIdx_lt_length_of_exists
      exact ⟨b, hb, by simp⟩
    have hget : lh[lh.findIdx (· = b)] = b := by
      have := List.findIdx_getElem (w := hlt)
      simpa using this
    rw [if_neg (Nat.ne_of_lt hlt), if_pos hb]
    calc lh.set (lh.findIdx (· = b)) b
        = lh.set (lh.findIdx (· = b)) lh[lh.findIdx (· = b)] := by rw [hget]
      _ = lh := List.set_getElem_self hlt
  . have heq : lh.findIdx (· = b) = lh.length := by
      apply List.findIdx_eq_length.mpr
      intro x hx
      simp only [decide_eq_false_iff_not]
      rintro rfl
      exact hb hx
    rw [if_pos heq, if_neg hb]

theorem nodup_absorb {lh : List Nat} (h : lh.Nodup) {b : Nat} : (absorb lh b).Nodup := by
  rw [absorb_eq]
  split
  . exact h
  . next hb =>
    apply List.nodup_append.mpr
    refine ⟨h, by simp, ?_⟩
    rintro x hx y hy rfl
    simp only [List.mem_singleton] at hy
    rw [hy] at hx
    exact hb hx

theorem length_absorb_le (lh : List Nat) (b : Nat) : (absorb lh b).length ≤ lh.length + 1 := by
  rw [absorb_eq]
  split
  . exact Nat.le_succ _
  . simp

theorem mem_absorb {lh : List Nat} {b b' : Nat} : b' ∈ absorb lh b ↔ b' ∈ lh ∨ b' = b := by
  rw [absorb_eq]
  split
  . next hb =>
    constructor
    . exact .inl
    . rintro (h | rfl)
      . exact h
      . exact hb
  . simp

namespace State

variable {s s' : State n P} {p : P} {i : Fin n}

theorem keeps_of_ne (hbuf : s'.cache.buf = Function.update s.cache.buf i b)
    (hunwritten : ∀ j, j ≠ i → s'.unwritten j = s.unwritten j) (hj : j ≠ i)
    : Keeps s s' j := by
  apply keeps_of_eq _ (hunwritten j hj)
  unfold buf
  rw [hbuf, Function.update_of_ne hj]

theorem bufStep_of_update (hbuf : s'.cache.buf = Function.update s.cache.buf i b)
    (hunwritten : ∀ j, j ≠ i → s'.unwritten j = s.unwritten j) (hlock : ∀ q, q ≠ p → (s.buf i).lock ≠ some q)
    (hkey : b.dev = (s.buf i).dev ∧ b.blockno = (s.buf i).blockno)
    : BufStep s s' p := by
  constructor
  . intro q j hq hj
    apply keeps_of_ne hbuf hunwritten
    rintro rfl
    exact hlock q hq hj
  . intro j _
    unfold buf
    rw [hbuf]
    exact ⟨apply_update Buf.dev hkey.1 j, apply_update Buf.blockno hkey.2 j⟩

theorem localStep_of_update (hbuf : s'.cache.buf = Function.update s.cache.buf i b)
    (hunwritten : ∀ j, j ≠ i → s'.unwritten j = s.unwritten j)
    (hlog : s'.dev = s.dev ∧ s'.start = s.start ∧ s'.size = s.size ∧ s'.lh = s.lh
      ∧ s'.committing = s.committing ∧ s'.outstanding = s.outstanding)
    (hlock : ∀ q, q ≠ p → (s.buf i).lock ≠ some q) (hkey : b.dev = (s.buf i).dev ∧ b.blockno = (s.buf i).blockno)
    (hstore : (s.pc p).line = .user → ∀ b, b ∈ s.lh ∨ s.InLog b → s'.store b = s.store b)
    : LocalStep s s' p := by
  rcases hlog with ⟨hdev, hstart, hsize, hlh, hcommitting, houtstanding⟩
  exact ⟨bufStep_of_update hbuf hunwritten hlock hkey, hdev, hstart, hsize, hlh, hcommitting,
    houtstanding, hstore⟩

theorem Pinned.keep {b : Nat} (h : s.Pinned i b) (hkeep : Keeps s s' i) : s'.Pinned i b := by
  constructor
  . rw [hkeep.dev]
    exact h.dev
  . rw [hkeep.blockno]
    exact h.blockno
  . rw [hkeep.valid]
    exact h.valid
  . rw [hkeep.dirty]
    exact h.dirty

theorem Pinned.of_update (hbuf : s'.cache.buf = Function.update s.cache.buf i b)
    (hsame : b.dev = (s.buf i).dev ∧ b.blockno = (s.buf i).blockno ∧ b.valid = (s.buf i).valid
      ∧ b.dirty = (s.buf i).dirty) {blockno : Nat} (h : s.Pinned j blockno)
    : s'.Pinned j blockno := by
  rcases hsame with ⟨hdev, hblockno, hvalid, hdirty⟩
  constructor
  . unfold buf
    rw [hbuf]
    exact (apply_update Buf.dev hdev j).trans h.dev
  . unfold buf
    rw [hbuf]
    exact (apply_update Buf.blockno hblockno j).trans h.blockno
  . unfold buf
    rw [hbuf]
    exact (apply_update Buf.valid hvalid j).trans h.valid
  . unfold buf
    rw [hbuf]
    exact (apply_update Buf.dirty hdirty j).trans h.dirty

theorem lock_ne_of_lock (hlock : (s.buf i).lock = some p) (q : P) (hq : q ≠ p)
    : (s.buf i).lock ≠ some q := by
  rw [hlock]
  intro heq
  exact hq (Option.some.inj heq).symm

theorem localStep_of_keeps (hkeep : ∀ j, Keeps s s' j)
    (hlog : s'.dev = s.dev ∧ s'.start = s.start ∧ s'.size = s.size ∧ s'.lh = s.lh
      ∧ s'.committing = s.committing ∧ s'.outstanding = s.outstanding) (hstore : s'.store = s.store)
    : LocalStep s s' p := by
  rcases hlog with ⟨hdev, hstart, hsize, hlh, hcommitting, houtstanding⟩
  refine ⟨⟨?_, ?_⟩, hdev, hstart, hsize, hlh, hcommitting, houtstanding, ?_⟩
  . intro q j _ _
    exact hkeep j
  . intro j _
    exact ⟨(hkeep j).dev, (hkeep j).blockno⟩
  . intro _ b _
    rw [hstore]

theorem LocalStep.frame (hl : LocalStep s s' p) (hstore : s'.store = s.store)
    (hkeep : ∀ j, (s.buf j).lock = some p → (s.buf j).valid = true → Keeps s s' j)
    : Frame s s' p :=
  ⟨hl.lh, hl.start, hl.size, fun _ _ => congrFun hstore _, hkeep⟩

theorem LogInv.outstanding (h : s.LogInv) (hcommitting : s.committing = false) (m : Int)
    : { s with outstanding := m }.LogInv := by
  have hidle := h.idle (.inl hcommitting)
  refine ⟨h.dev, h.nodup, h.home, h.fits, ?_, ?_, h.key, ?_, ?_⟩
  . intro q r hq
    cases hq (hidle q)
  . intro q hq
    cases hq (hidle q)
  . intro q
    exact pcOk_of_user (hidle q)
  . intro u b hb _
    rcases h.pinned u b hb (not_installed_of_idle hidle u) with ⟨i, hi⟩
    exact ⟨i, hi.keep (keeps_of_eq rfl rfl)⟩

section
variable [DecidableEq P]

theorem store_written (s : State n P) (p : P) (i : Fin n) (next : Line n)
    : (s.written p i next).store = Function.update s.store (s.buf i).blockno (s.buf i).data := by
  simp [State.written, State.setPc, record, setBuf, buf]

theorem store_logged (s : State n P) (p : P) (i : Fin n) (next : Line n)
    : (s.logged p i next).store = Function.update s.store (s.buf i).blockno (s.buf i).data := by
  simp [State.logged, State.setPc, record, setBuf, buf]

variable [Fintype P]

theorem keeps_of_gets (hinv : s.Inv) {cache : Cache n P} {pc : Pc n}
    (hgets : s.cache.Gets dev blockno i cache) (hused : (s.buf j).lock ≠ none ∨ (s.buf j).dirty = true)
    : Keeps s ({ s with cache := cache }.setPc p pc) j := by
  cases hgets with
  | hit hdev hblockno =>
    apply keeps_of_refcnt
    . rfl
    . rfl
  | miss hnone hrefcnt hdirty =>
    have hj : j ≠ i := by
      rintro rfl
      rcases hused with hlock | hdirty'
      . exact absurd hrefcnt (Nat.ne_of_gt (hinv.refcnt_pos_of_lock hlock))
      . exact Bool.false_ne_true (hdirty.symm.trans hdirty')
    exact keeps_of_eq (Function.update_of_ne hj ..) rfl

section
variable (h : s.LogInv)
include h

theorem LogInv.get (hinv : s.Inv) {line : Line n} (hpc : s.pc p = .at line) {cache : Cache n P}
    (hget : s.cache.bget dev blockno = .ok (i, cache)) (hret : s.RetOk p blockno ret)
    (hline : line = .user → ret.line i = .user)
    (hinst : ∀ u, line.installed u = true → (ret.line i).installed u = true)
    : ({ s with cache := cache }.setPc p (.bget dev blockno i ret)).LogInv := by
  have hgets := hinv.linked.gets hget
  have hl : LocalStep s ({ s with cache := cache }.setPc p (.bget dev blockno i ret)) p := by
    refine ⟨⟨?_, ?_⟩, rfl, rfl, rfl, rfl, rfl, rfl, fun _ _ _ => rfl⟩
    . intro q j _ hj
      apply keeps_of_gets hinv hgets
      left
      rw [hj]
      intro hfalse
      cases hfalse
    . intro j hj
      exact hgets.key_eq (.inl hj)
  refine h.of_step hinv hl rfl ?_ ?_ ?_ ?_ ?_
  . rw [hpc]
    exact hline
  . exact hgets.key
  . apply RetOk.frame h.fits _ hret
    apply hl.frame rfl
    intro j hj _
    apply keeps_of_gets hinv hgets
    left
    rw [hj]
    intro hfalse
    cases hfalse
  . intro u _
    rw [hpc]
    exact hinst u
  . intro u b j _ _ hj
    apply hj.keep
    apply keeps_of_gets hinv hgets
    exact .inr hj.dirty

theorem LogInv.acquiresleep (hinv : s.Inv) (hc : s.Coherent) (hpc : s.pc p = .bget dev blockno i ret)
    (hlock : (s.buf i).lock = none)
    : (s.acquiresleep p dev blockno i ret).LogInv := by
  have hself : (s.acquiresleep p dev blockno i ret).buf i = { s.buf i with lock := some p } :=
    Function.update_self ..
  have hne : ∀ q j, (s.buf j).lock = some q → j ≠ i := by
    rintro q _ hj rfl
    rw [hlock] at hj
    cases hj
  have hl : LocalStep s (s.acquiresleep p dev blockno i ret) p := by
    refine localStep_of_update rfl (fun _ _ => rfl) ⟨rfl, rfl, rfl, rfl, rfl, rfl⟩ ?_ ⟨rfl, rfl⟩
      (fun _ _ _ => rfl)
    intro q _ hq
    exact hne q i hq rfl
  have hkey := h.key p
  have hok := h.pcOk p
  rw [hpc] at hkey hok
  refine h.of_step hinv hl rfl ?_ ?_ ?_ ?_ ?_
  . rw [hpc]
    exact id
  . refine ⟨?_, ?_, ?_, ?_⟩
    . rw [hself]
      exact hkey.1
    . rw [hself]
      exact hkey.2
    . rw [hself]
    . change s.unwritten i = false
      by_contra hunwritten
      exact (hc.bufOk i).unwritten (by simpa using hunwritten) hlock
  . apply RetOk.frame h.fits _ hok
    apply hl.frame rfl
    intro j hj _
    exact keeps_of_eq (Function.update_of_ne (hne p j hj) ..) rfl
  . intro u _
    rw [hpc]
    exact id
  . intro u b j _ _ hj
    refine hj.of_update rfl ?_
    exact ⟨rfl, rfl, rfl, rfl⟩

theorem LogInv.hit (hinv : s.Inv) (hc : s.Coherent)
    (hpc : s.pc p = .bread dev blockno i ret) (hvalid : (s.buf i).valid = true)
    : (s.setPc p (.at (ret.line i))).LogInv := by
  have hkeep : ∀ j, Keeps s (s.setPc p (.at (ret.line i))) j := fun j => keeps_of_eq rfl rfl
  have hl : LocalStep s (s.setPc p (.at (ret.line i))) p :=
    localStep_of_keeps hkeep ⟨rfl, rfl, rfl, rfl, rfl, rfl⟩ rfl
  have hkey := h.key p
  have hok := h.pcOk p
  rw [hpc] at hkey hok
  refine h.of_step hinv hl rfl ?_ trivial ?_ ?_ ?_
  . rw [hpc]
    exact id
  . have hhas : s.Has p i blockno :=
      ⟨hkey.2.2.1, (hc.bufOk i).device hvalid, hkey.2.1, hvalid⟩
    exact LineOk.frame h.fits (hl.frame rfl fun j _ _ => hkeep j) (hok.line hhas hkey.2.2.2)
  . intro u _
    rw [hpc]
    exact id
  . intro u b j _ _ hj
    exact hj.keep (hkeep j)

theorem LogInv.synced (hinv : s.Inv) (hpc : s.pc p = .bread dev blockno i ret) (hvalid : (s.buf i).valid = false)
    (hdev : (s.buf i).dev = ROOTDEV)
    : (s.synced p i (ret.line i)).LogInv := by
  have hself : (s.synced p i (ret.line i)).buf i = (Memide.sync s.disk (s.buf i)).2 :=
    Function.update_self ..
  have hsame := sameKey_sync s.disk (s.buf i)
  have hvalid' : (Memide.sync s.disk (s.buf i)).2.valid = true := by
    unfold Memide.sync
    split
    . rfl
    . rfl
  have hkey := h.key p
  have hok := h.pcOk p
  rw [hpc] at hkey hok
  have hl : LocalStep s (s.synced p i (ret.line i)) p :=
    localStep_of_update rfl (fun _ _ => rfl) ⟨rfl, rfl, rfl, rfl, rfl, rfl⟩
      (lock_ne_of_lock hkey.2.2.1) ⟨hsame.dev, hsame.blockno⟩ (fun _ _ _ => rfl)
  have hkeep : ∀ j, (s.buf j).valid = true → Keeps s (s.synced p i (ret.line i)) j := by
    intro j hj
    have hji : j ≠ i := by
      rintro rfl
      exact Bool.false_ne_true (hvalid.symm.trans hj)
    exact keeps_of_eq (Function.update_of_ne hji ..) rfl
  refine h.of_step hinv hl rfl ?_ trivial ?_ ?_ ?_
  . rw [hpc]
    exact id
  . apply RetOk.line
    . apply RetOk.frame h.fits _ hok
      apply hl.frame rfl
      intro j _ hj
      exact hkeep j hj
    . constructor
      . rw [hself, hsame.lock]
        exact hkey.2.2.1
      . rw [hself, hsame.dev]
        exact hdev
      . rw [hself, hsame.blockno]
        exact hkey.2.1
      . rw [hself]
        exact hvalid'
    . exact hkey.2.2.2
  . intro u _
    rw [hpc]
    exact id
  . intro u b j _ _ hj
    exact hj.keep (hkeep j hj.valid)

theorem LogInv.memmove (hinv : s.Inv) {data : Block}
    (hpc : s.pc p = .at line) (hlock : (s.buf i).lock = some p)
    (hline : line = .user → next = .user) (hok : (s.memmove p i data next).LineOk p next)
    (hinst : ∀ u, line.installed u = true → next.installed u = true)
    : (s.memmove p i data next).LogInv := by
  have hself : (s.memmove p i data next).buf i = { s.buf i with data := data } :=
    Function.update_self ..
  have hunwritten : ∀ j, j ≠ i → (s.memmove p i data next).unwritten j = s.unwritten j :=
    fun j hj => Function.update_of_ne hj ..
  have hl : LocalStep s (s.memmove p i data next) p :=
    localStep_of_update rfl hunwritten ⟨rfl, rfl, rfl, rfl, rfl, rfl⟩ (lock_ne_of_lock hlock)
      ⟨rfl, rfl⟩ (fun _ _ _ => rfl)
  refine h.of_step hinv hl rfl ?_ trivial hok ?_ ?_
  . rw [hpc]
    exact hline
  . intro u _
    rw [hpc]
    exact hinst u
  . intro u b j _ _ hj
    refine hj.of_update rfl ?_
    exact ⟨rfl, rfl, rfl, rfl⟩

theorem LogInv.written (hinv : s.Inv) (hpc : s.pc p = .at line)
    (hlock : (s.buf i).lock = some p) (hline : line = .user → next = .user)
    (hhome : line = .user → (s.buf i).blockno ∉ s.lh ∧ ¬s.InLog (s.buf i).blockno)
    (hok : (s.written p i next).LineOk p next) (hinst : ∀ u, line.installed u = true → next.installed u = true)
    (hlast : ∀ u, s.lh[u]? = some (s.buf i).blockno → next.installed u = true)
    : (s.written p i next).LogInv := by
  have hunwritten : ∀ j, j ≠ i → (s.written p i next).unwritten j = s.unwritten j :=
    fun j hj => Function.update_of_ne hj ..
  have hl : LocalStep s (s.written p i next) p := by
    refine localStep_of_update rfl hunwritten ⟨rfl, rfl, rfl, rfl, rfl, rfl⟩ (lock_ne_of_lock hlock)
      ⟨rfl, rfl⟩ ?_
    rw [hpc]
    intro huser b hb
    have hne : b ≠ (s.buf i).blockno := by
      rintro rfl
      rcases hb with hb | hb
      . exact (hhome huser).1 hb
      . exact (hhome huser).2 hb
    rw [store_written, Function.update_of_ne hne]
  refine h.of_step hinv hl rfl ?_ trivial hok ?_ ?_
  . rw [hpc]
    exact hline
  . intro u _
    rw [hpc]
    exact hinst u
  . intro u b j hb hnot hj
    have hji : j ≠ i := by
      rintro rfl
      rw [← hj.blockno] at hb
      exact Bool.false_ne_true (hnot.symm.trans (hlast u hb))
    exact hj.keep (keeps_of_ne rfl hunwritten hji)

theorem LogInv.releasesleep (hinv : s.Inv)
    (hpc : s.pc p = .at line) (hlock : (s.buf i).lock = some p) (hline : line = .user → next = .user)
    (hok : ((s.setBuf i { s.buf i with lock := none }).setPc p (.brelse i next)).LineOk p next)
    (hinst : ∀ u, line.installed u = true → next.installed u = true)
    : ((s.setBuf i { s.buf i with lock := none }).setPc p (.brelse i next)).LogInv := by
  have hself : ((s.setBuf i { s.buf i with lock := none }).setPc p (.brelse i next)).buf i
      = { s.buf i with lock := none } :=
    Function.update_self ..
  have hl : LocalStep s ((s.setBuf i { s.buf i with lock := none }).setPc p (.brelse i next)) p :=
    localStep_of_update rfl (fun _ _ => rfl) ⟨rfl, rfl, rfl, rfl, rfl, rfl⟩ (lock_ne_of_lock hlock)
      ⟨rfl, rfl⟩ (fun _ _ _ => rfl)
  refine h.of_step hinv hl rfl ?_ trivial hok ?_ ?_
  . rw [hpc]
    exact hline
  . intro u _
    rw [hpc]
    exact hinst u
  . intro u b j _ _ hj
    refine hj.of_update rfl ?_
    exact ⟨rfl, rfl, rfl, rfl⟩

theorem LogInv.put (hinv : s.Inv) {next : Line n} (hpc : s.pc p = .brelse i next)
    : (s.brelseRest p i next).LogInv := by
  have hkeep := keeps_brelseRest s p i next
  have hl : LocalStep s (s.brelseRest p i next) p :=
    localStep_of_keeps hkeep ⟨rfl, rfl, rfl, rfl, rfl, rfl⟩ rfl
  have hok := h.pcOk p
  rw [hpc] at hok
  refine h.of_step hinv hl rfl ?_ trivial ?_ ?_ ?_
  . rw [hpc]
    exact id
  . exact LineOk.frame h.fits (hl.frame rfl fun j _ _ => hkeep j) hok
  . intro u _
    rw [hpc]
    exact id
  . intro u b j _ _ hj
    exact hj.keep (hkeep j)

theorem LogInv.goto (hinv : s.Inv) (hpc : s.pc p = .at line)
    (hline : line = .user → next = .user) (hok : s.LineOk p next)
    (hinst : ∀ u, u < s.lh.length → line.installed u = true → next.installed u = true)
    : (s.setPc p (.at next)).LogInv := by
  have hkeep : ∀ j, Keeps s (s.setPc p (.at next)) j := fun j => keeps_of_eq rfl rfl
  have hl : LocalStep s (s.setPc p (.at next)) p :=
    localStep_of_keeps hkeep ⟨rfl, rfl, rfl, rfl, rfl, rfl⟩ rfl
  refine h.of_step hinv hl rfl ?_ trivial ?_ ?_ ?_
  . rw [hpc]
    exact hline
  . exact LineOk.frame h.fits (hl.frame rfl fun j _ _ => hkeep j) hok
  . intro u hu
    rw [hpc]
    exact hinst u hu
  . intro u b j _ _ hj
    exact hj.keep (hkeep j)

theorem LogInv.of_idle (hinv : s.Inv) {line : Line n}
    (hpc : s'.pc = Function.update s.pc p (.at line)) (hkeep : ∀ j, Keeps s s' j)
    (hidle : ∀ q, q ≠ p → (s.pc q).line = .user) (hlog : s'.dev = s.dev ∧ s'.start = s.start ∧ s'.size = s.size)
    (hlh : s'.lh = s.lh ∨ s'.lh = []) (hcommitting : line ≠ .user → s'.committing = true ∧ s'.outstanding = 0)
    (hok : s'.LineOk p line) (hpinned : ∀ (u b : Nat), s'.lh[u]? = some b → ∃ i, s'.Pinned i b)
    : s'.LogInv := by
  rcases hlog with ⟨hdev, hstart, hsize⟩
  have hself : s'.pc p = .at line := by
    rw [hpc]
    exact Function.update_self ..
  have hother : ∀ q, q ≠ p → s'.pc q = s.pc q := by
    intro q hq
    rw [hpc]
    exact Function.update_of_ne hq ..
  have honly : ∀ q, (s'.pc q).line ≠ .user → q = p := by
    intro q hq
    by_contra hqp
    apply hq
    rw [hother q hqp]
    exact hidle q hqp
  constructor
  . rw [hdev]
    exact h.dev
  . rcases hlh with hlh | hlh
    . rw [hlh]
      exact h.nodup
    . rw [hlh]
      exact List.nodup_nil
  . intro b hb
    unfold InLog
    rw [hstart, hsize]
    rcases hlh with hlh | hlh
    . rw [hlh] at hb
      exact h.home b hb
    . rw [hlh] at hb
      cases hb
  . rcases hlh with hlh | hlh
    . rw [hlh, hsize]
      exact h.fits
    . exact .inl hlh
  . intro q r hq hr
    rw [honly q hq, honly r hr]
  . intro q hq
    apply hcommitting
    rw [honly q hq, hself] at hq
    exact hq
  . intro q
    by_cases hqp : q = p
    . rw [hqp, hself]
      trivial
    . rw [hother q hqp]
      apply (h.key q).frame hinv _ hqp
      exact ⟨fun _ j _ _ => hkeep j, fun j _ => ⟨(hkeep j).dev, (hkeep j).blockno⟩⟩
  . intro q
    by_cases hqp : q = p
    . rw [hqp, hself]
      exact hok
    . rw [hother q hqp]
      exact pcOk_of_user (hidle q hqp)
  . intro u b hb _
    exact hpinned u b hb

theorem LogInv.endCommit (hinv : s.Inv) (hcommitting : s.committing = false)
    : ({ s with outstanding := 0, committing := true }.setPc p (.at .start)).LogInv := by
  have hidle := h.idle (.inl hcommitting)
  refine h.of_idle hinv rfl (fun j => keeps_of_eq rfl rfl) (fun q _ => hidle q) ⟨rfl, rfl, rfl⟩
    (.inl rfl) (fun _ => ⟨rfl, rfl⟩) trivial ?_
  intro u b hb
  rcases h.pinned u b hb (not_installed_of_idle hidle u) with ⟨i, hi⟩
  exact ⟨i, hi.keep (keeps_of_eq rfl rfl)⟩

theorem LogInv.clear (hinv : s.Inv) (hpc : s.pc p = .at .clear)
    : ({ s with lh := [] }.setPc p (.at (.head true))).LogInv := by
  have hline : (s.pc p).line ≠ .user := by
    rw [hpc]
    intro hfalse
    cases hfalse
  have hok := h.pcOk p
  rw [hpc] at hok
  refine h.of_idle hinv rfl (fun j => keeps_of_eq rfl rfl) (h.others_idle hline) ⟨rfl, rfl, rfl⟩
    (.inr rfl) (fun _ => h.committing p hline) ⟨hok, fun _ => rfl, nofun⟩ ?_
  intro u b hb
  cases hb

theorem LogInv.finish (hinv : s.Inv) (hpc : s.pc p = .at .finish)
    : ({ s with committing := false }.setPc p (.at .user)).LogInv := by
  have hline : (s.pc p).line ≠ .user := by
    rw [hpc]
    intro hfalse
    cases hfalse
  have hlh := h.pcOk p
  rw [hpc] at hlh
  change s.lh = [] at hlh
  refine h.of_idle hinv rfl (fun j => keeps_of_eq rfl rfl) (h.others_idle hline) ⟨rfl, rfl, rfl⟩
    (.inl rfl) (fun hne => absurd rfl hne) trivial ?_
  intro u b hb
  change s.lh[u]? = some b at hb
  rw [hlh] at hb
  cases hb

theorem LogInv.logged (hinv : s.Inv) (hc : s.Coherent) {line : Line n}
    (hpc : s.pc p = .at line) (hlock : (s.buf i).lock = some p)
    (hhome : ¬s.InLog (s.buf i).blockno) (hsize : (s.lh.length : Int) < s.size - 1) (hout : 1 ≤ s.outstanding)
    : (s.logged p i .user).LogInv := by
  have hidle := h.idle (.inr (by omega))
  have hvalid := hc.valid_of_lock hpc hlock
  have hself : (s.logged p i .user).buf i = { s.buf i with dirty := true } :=
    Function.update_self ..
  have hunwritten : ∀ j, j ≠ i → (s.logged p i .user).unwritten j = s.unwritten j :=
    fun j hj => Function.update_of_ne hj ..
  have hl : BufStep s (s.logged p i .user) p :=
    bufStep_of_update rfl hunwritten (lock_ne_of_lock hlock) ⟨rfl, rfl⟩
  have hother : ∀ q, q ≠ p → (s.logged p i .user).pc q = s.pc q :=
    fun q hq => Function.update_of_ne hq ..
  have hnext : (s.logged p i .user).pc p = .at .user := Function.update_self ..
  have hidle' : ∀ q, ((s.logged p i .user).pc q).line = .user := by
    intro q
    by_cases hqp : q = p
    . rw [hqp, hnext]
      rfl
    . rw [hother q hqp]
      exact hidle q
  have hlh : (s.logged p i .user).lh = absorb s.lh (s.buf i).blockno := rfl
  constructor
  . exact h.dev
  . rw [hlh]
    exact nodup_absorb h.nodup
  . intro b hb
    rw [hlh, mem_absorb] at hb
    rcases hb with hb | rfl
    . exact h.home b hb
    . exact hhome
  . right
    have := length_absorb_le s.lh (s.buf i).blockno
    change (absorb s.lh (s.buf i).blockno).length < s.size
    omega
  . intro q r hq
    cases hq (hidle' q)
  . intro q hq
    cases hq (hidle' q)
  . intro q
    by_cases hqp : q = p
    . rw [hqp, hnext]
      trivial
    . rw [hother q hqp]
      exact (h.key q).frame hinv hl hqp
  . intro q
    exact pcOk_of_user (hidle' q)
  . intro u b hb _
    by_cases hbi : b = (s.buf i).blockno
    . refine ⟨i, ?_⟩
      constructor
      . rw [hself]
        exact (hc.bufOk i).device hvalid
      . rw [hself, hbi]
      . rw [hself]
        exact hvalid
      . rw [hself]
    . have hmem : b ∈ s.lh := by
        rcases mem_absorb.mp (List.mem_of_getElem? hb) with hmem | heq
        . exact hmem
        . cases hbi heq
      rcases List.getElem?_of_mem hmem with ⟨u', hu'⟩
      rcases h.pinned u' b hu' (not_installed_of_idle hidle u') with ⟨j, hj⟩
      have hji : j ≠ i := by
        rintro rfl
        exact hbi hj.blockno.symm
      exact ⟨j, hj.keep (keeps_of_ne rfl hunwritten hji)⟩

end

end
end State
end Xv6.Bcache
