import Xv6.Bcache.Coherence

namespace Xv6.Bcache

open Ring Reach

variable {n : Nat} {P : Type}

def Pc.line : Pc n → Line n
  | .at line => line
  | .bget _ _ i ret => ret.line i
  | .bread _ _ i ret => ret.line i
  | .brelse _ next => next

def Line.installed (u : Nat) : Line n → Bool
  | .copy .home tail => u < tail
  | .copyHome .home tail _ => u < tail
  | .memmove .home tail _ _ => u < tail
  | .copyWrite .home tail _ _ => u < tail
  | .relseSrc .home tail _ _ => u ≤ tail
  | .relseDst .home tail _ _ => u ≤ tail
  | .clear => true
  | _ => false

def Dst.logged (dst : Dst) (tail m : Nat) : Nat :=
  match dst with
  | .log => tail
  | .home => m

namespace State

def InLog (s : State n P) (b : Nat) : Prop :=
  s.start ≤ b ∧ b < s.start + s.size

instance (s : State n P) (b : Nat) : Decidable (s.InLog b) :=
  inferInstanceAs (Decidable (_ ∧ _))

def Installed (s : State n P) (u : Nat) : Prop :=
  ∃ p, (s.pc p).line.installed u = true

structure Pinned (s : State n P) (i : Fin n) (b : Nat) : Prop where
  dev : (s.buf i).dev = ROOTDEV
  blockno : (s.buf i).blockno = b
  valid : (s.buf i).valid = true
  dirty : (s.buf i).dirty = true

structure Has (s : State n P) (p : P) (i : Fin n) (b : Nat) : Prop where
  lock : (s.buf i).lock = some p
  dev : (s.buf i).dev = ROOTDEV
  blockno : (s.buf i).blockno = b
  valid : (s.buf i).valid = true

def Copied (s : State n P) (tail : Nat) : Prop :=
  ∀ u b, u < tail → s.lh[u]? = some b → s.store (s.start + u + 1) = s.store b

structure Phase (s : State n P) (dst : Dst) (tail : Nat) : Prop where
  pos : 0 < s.lh.length
  copied : s.Copied (dst.logged tail s.lh.length)

structure HeadPhase (s : State n P) (erase : Bool) : Prop where
  size : 0 < s.size
  erased : erase = true → s.lh = []
  copied : erase = false → s.Phase .home 0

structure HasBoth (s : State n P) (p : P) (tail : Nat) (l h : Fin n) (b : Nat) : Prop where
  entry : s.lh[tail]? = some b
  log : s.Has p l (s.start + tail + 1)
  home : s.Has p h b

def RetOk (s : State n P) (p : P) (b : Nat) : Ret n → Prop
  | .user => True
  | .log dst tail => b = s.start + tail + 1 ∧ tail < s.lh.length ∧ s.Phase dst tail
  | .home dst tail l =>
    s.lh[tail]? = some b ∧ s.Has p l (s.start + tail + 1) ∧ s.unwritten l = false
      ∧ s.Phase dst tail
  | .head erase => b = s.start ∧ s.HeadPhase erase

def LineOk (s : State n P) (p : P) : Line n → Prop
  | .user => True
  | .start => True
  | .copy dst tail => s.Phase dst tail
  | .copyHome dst tail l =>
    tail < s.lh.length ∧ s.Has p l (s.start + tail + 1) ∧ s.unwritten l = false ∧ s.Phase dst tail
  | .memmove dst tail l h =>
    ∃ b, s.HasBoth p tail l h b ∧ s.unwritten l = false ∧ s.unwritten h = false ∧ s.Phase dst tail
  | .copyWrite .log tail l h =>
    ∃ b, s.HasBoth p tail l h b ∧ s.unwritten h = false ∧ (s.buf l).data = s.store b
      ∧ s.Phase .log tail
  | .copyWrite .home tail l h =>
    ∃ b, s.HasBoth p tail l h b ∧ s.unwritten l = false ∧ (s.buf h).data = s.store b
      ∧ s.Phase .home tail
  | .relseSrc dst tail l h =>
    ∃ b, s.HasBoth p tail l h b ∧ s.unwritten l = false ∧ s.unwritten h = false
      ∧ s.Phase dst (tail + 1)
  | .relseDst .log tail l _ =>
    s.Has p l (s.start + tail + 1) ∧ s.unwritten l = false ∧ s.Phase .log (tail + 1)
  | .relseDst .home tail _ h =>
    ∃ b, s.Has p h b ∧ s.unwritten h = false ∧ s.Phase .home (tail + 1)
  | .head erase => s.HeadPhase erase
  | .headFill erase i => s.Has p i s.start ∧ s.HeadPhase erase
  | .headWrite erase i => s.Has p i s.start ∧ s.HeadPhase erase
  | .headRelse erase i => s.Has p i s.start ∧ s.unwritten i = false ∧ s.HeadPhase erase
  | .clear => 0 < s.size
  | .finish => s.lh = []

def PcOk (s : State n P) (p : P) : Pc n → Prop
  | .at line => s.LineOk p line
  | .bget _ b _ ret => s.RetOk p b ret
  | .bread _ b _ ret => s.RetOk p b ret
  | .brelse _ next => s.LineOk p next

def KeyOk (s : State n P) (p : P) : Pc n → Prop
  | .bget dev b i _ => (s.buf i).dev = dev ∧ (s.buf i).blockno = b
  | .bread dev b i _ =>
    (s.buf i).dev = dev ∧ (s.buf i).blockno = b ∧ (s.buf i).lock = some p ∧ s.unwritten i = false
  | _ => True

structure LogInv (s : State n P) : Prop where
  dev : s.dev = ROOTDEV
  nodup : s.lh.Nodup
  home : ∀ b ∈ s.lh, ¬s.InLog b
  fits : s.lh = [] ∨ s.lh.length < s.size
  one : ∀ p q, (s.pc p).line ≠ .user → (s.pc q).line ≠ .user → p = q
  committing : ∀ p, (s.pc p).line ≠ .user → s.committing = true ∧ s.outstanding = 0
  key : ∀ p, s.KeyOk p (s.pc p)
  pcOk : ∀ p, s.PcOk p (s.pc p)
  pinned : ∀ u b, s.lh[u]? = some b → ¬s.Installed u → ∃ i, s.Pinned i b

theorem logInv_init (links : Links (Fin n)) (disk : Disk) (disksize start size : Nat)
    : (init links disk disksize ROOTDEV start size : State n P).LogInv := by
  constructor
  . rfl
  . exact List.nodup_nil
  . nofun
  . exact .inl rfl
  . intro p q h
    cases h rfl
  . intro p h
    cases h rfl
  . intro p
    trivial
  . intro p
    trivial
  . nofun

variable {s s' : State n P} {p : P} {i : Fin n} {b : Nat}

structure Frame (s s' : State n P) (p : P) : Prop where
  lh : s'.lh = s.lh
  start : s'.start = s.start
  size : s'.size = s.size
  store : ∀ b, b ∈ s.lh ∨ s.InLog b → s'.store b = s.store b
  buf : ∀ i, (s.buf i).lock = some p → (s.buf i).valid = true → Keeps s s' i

theorem Has.keep (h : s.Has p i b) (hkeep : Keeps s s' i) : s'.Has p i b := by
  constructor
  . rw [hkeep.lock]
    exact h.lock
  . rw [hkeep.dev]
    exact h.dev
  . rw [hkeep.blockno]
    exact h.blockno
  . rw [hkeep.valid]
    exact h.valid

theorem Has.frame (h : s.Has p i b) (hf : Frame s s' p) : s'.Has p i b :=
  h.keep (hf.buf i h.lock h.valid)

theorem inLog_of_lt (hfits : s.lh = [] ∨ s.lh.length < s.size) {u : Nat} (hu : u < s.lh.length)
    : s.InLog (s.start + u + 1) := by
  have hlt : s.lh.length < s.size := by
    rcases hfits with hnil | hlt
    . rw [hnil] at hu
      cases hu
    . exact hlt
  unfold InLog
  omega

section
variable (hfits : s.lh = [] ∨ s.lh.length < s.size) (hf : Frame s s' p)
include hfits hf

theorem Copied.frame {tail : Nat} (h : s.Copied tail) : s'.Copied tail := by
  intro u b hu hb
  rw [hf.lh] at hb
  have hlt := (List.getElem?_eq_some_iff.mp hb).1
  rw [hf.start, hf.store _ (.inr (inLog_of_lt hfits hlt)), hf.store b (.inl (List.mem_of_getElem? hb))]
  exact h u b hu hb

theorem Phase.frame {dst : Dst} {tail : Nat} (h : s.Phase dst tail) : s'.Phase dst tail := by
  constructor
  . rw [hf.lh]
    exact h.pos
  . rw [hf.lh]
    exact h.copied.frame hfits hf

theorem HeadPhase.frame {erase : Bool} (h : s.HeadPhase erase) : s'.HeadPhase erase := by
  constructor
  . rw [hf.size]
    exact h.size
  . rw [hf.lh]
    exact h.erased
  . intro herase
    exact (h.copied herase).frame hfits hf

omit hfits in
theorem HasBoth.frame {tail : Nat} {l h : Fin n} (hb : s.HasBoth p tail l h b)
    : s'.HasBoth p tail l h b := by
  constructor
  . rw [hf.lh]
    exact hb.entry
  . rw [hf.start]
    exact hb.log.frame hf
  . exact hb.home.frame hf

omit hfits in
theorem unwritten_frame (hhas : s.Has p i b) (h : s.unwritten i = false)
    : s'.unwritten i = false := by
  rw [(hf.buf i hhas.lock hhas.valid).unwritten]
  exact h

theorem RetOk.frame {ret : Ret n} (h : s.RetOk p b ret) : s'.RetOk p b ret := by
  cases ret with
  | user => trivial
  | log dst tail =>
    rcases h with ⟨hb, htail, hphase⟩
    refine ⟨?_, ?_, hphase.frame hfits hf⟩
    . rw [hf.start]
      exact hb
    . rw [hf.lh]
      exact htail
  | home dst tail l =>
    rcases h with ⟨hb, hlog, hunwritten, hphase⟩
    refine ⟨?_, ?_, unwritten_frame hf hlog hunwritten, hphase.frame hfits hf⟩
    . rw [hf.lh]
      exact hb
    . rw [hf.start]
      exact hlog.frame hf
  | head erase =>
    rcases h with ⟨hb, hphase⟩
    refine ⟨?_, hphase.frame hfits hf⟩
    rw [hf.start]
    exact hb

theorem LineOk.frame {line : Line n} (h : s.LineOk p line) : s'.LineOk p line := by
  cases line with
  | user => trivial
  | start => trivial
  | copy dst tail => exact Phase.frame hfits hf h
  | copyHome dst tail l =>
    rcases h with ⟨htail, hlog, hunwritten, hphase⟩
    refine ⟨?_, ?_, unwritten_frame hf hlog hunwritten, hphase.frame hfits hf⟩
    . rw [hf.lh]
      exact htail
    . rw [hf.start]
      exact hlog.frame hf
  | memmove dst tail l h' =>
    rcases h with ⟨b, hboth, hl, hh, hphase⟩
    exact ⟨b, hboth.frame hf, unwritten_frame hf hboth.log hl,
      unwritten_frame hf hboth.home hh, hphase.frame hfits hf⟩
  | copyWrite dst tail l h' =>
    cases dst with
    | log =>
      rcases h with ⟨b, hboth, hunwritten, hdata, hphase⟩
      refine ⟨b, hboth.frame hf, unwritten_frame hf hboth.home hunwritten, ?_,
        hphase.frame hfits hf⟩
      rw [(hf.buf l hboth.log.lock hboth.log.valid).data, hf.store b (.inl (List.mem_of_getElem? hboth.entry))]
      exact hdata
    | home =>
      rcases h with ⟨b, hboth, hunwritten, hdata, hphase⟩
      refine ⟨b, hboth.frame hf, unwritten_frame hf hboth.log hunwritten, ?_,
        hphase.frame hfits hf⟩
      rw [(hf.buf h' hboth.home.lock hboth.home.valid).data, hf.store b (.inl (List.mem_of_getElem? hboth.entry))]
      exact hdata
  | relseSrc dst tail l h' =>
    rcases h with ⟨b, hboth, hl, hh, hphase⟩
    exact ⟨b, hboth.frame hf, unwritten_frame hf hboth.log hl,
      unwritten_frame hf hboth.home hh, hphase.frame hfits hf⟩
  | relseDst dst tail l h' =>
    cases dst with
    | log =>
      rcases h with ⟨hlog, hunwritten, hphase⟩
      refine ⟨?_, unwritten_frame hf hlog hunwritten, hphase.frame hfits hf⟩
      rw [hf.start]
      exact hlog.frame hf
    | home =>
      rcases h with ⟨b, hhome, hunwritten, hphase⟩
      exact ⟨b, hhome.frame hf, unwritten_frame hf hhome hunwritten, hphase.frame hfits hf⟩
  | head erase => exact HeadPhase.frame hfits hf h
  | headFill erase i =>
    refine ⟨?_, h.2.frame hfits hf⟩
    rw [hf.start]
    exact h.1.frame hf
  | headWrite erase i =>
    refine ⟨?_, h.2.frame hfits hf⟩
    rw [hf.start]
    exact h.1.frame hf
  | headRelse erase i =>
    rcases h with ⟨hhas, hunwritten, hphase⟩
    refine ⟨?_, unwritten_frame hf hhas hunwritten, hphase.frame hfits hf⟩
    rw [hf.start]
    exact hhas.frame hf
  | clear =>
    change 0 < s'.size
    rw [hf.size]
    exact h
  | finish =>
    change s'.lh = []
    rw [hf.lh]
    exact h

theorem PcOk.frame {pc : Pc n} (h : s.PcOk p pc) : s'.PcOk p pc := by
  cases pc with
  | «at» line => exact LineOk.frame hfits hf h
  | bget dev b i ret => exact RetOk.frame hfits hf h
  | bread dev b i ret => exact RetOk.frame hfits hf h
  | brelse i next => exact LineOk.frame hfits hf h

end

theorem pcOk_of_user {pc : Pc n} (h : pc.line = .user) : s.PcOk p pc := by
  cases pc with
  | «at» line =>
    cases h
    trivial
  | bget dev b i ret =>
    cases ret with
    | user => trivial
    | _ => cases h
  | bread dev b i ret =>
    cases ret with
    | user => trivial
    | _ => cases h
  | brelse i next =>
    cases h
    trivial

theorem LogInv.idle (h : s.LogInv) (hnot : s.committing = false ∨ s.outstanding ≠ 0) (q : P)
    : (s.pc q).line = .user := by
  by_contra hq
  rcases h.committing q hq with ⟨hcommitting, houtstanding⟩
  rcases hnot with hnot | hnot
  . exact Bool.false_ne_true (hnot.symm.trans hcommitting)
  . exact hnot houtstanding

theorem not_installed_of_idle (hidle : ∀ q, (s.pc q).line = .user) (u : Nat) : ¬s.Installed u := by
  rintro ⟨q, hq⟩
  rw [hidle q] at hq
  cases hq

theorem LogInv.others_idle (h : s.LogInv) (hp : (s.pc p).line ≠ .user) (q : P) (hq : q ≠ p)
    : (s.pc q).line = .user := by
  by_contra hcommit
  exact hq (h.one q p hcommit hp)

theorem RetOk.line {ret : Ret n} (h : s.RetOk p b ret) (hhas : s.Has p i b) (hunwritten : s.unwritten i = false)
    : s.LineOk p (ret.line i) := by
  cases ret with
  | user => trivial
  | log dst tail =>
    rcases h with ⟨rfl, htail, hphase⟩
    exact ⟨htail, hhas, hunwritten, hphase⟩
  | home dst tail l =>
    rcases h with ⟨hb, hlog, hl, hphase⟩
    exact ⟨b, ⟨hb, hlog, hhas⟩, hl, hunwritten, hphase⟩
  | head erase =>
    rcases h with ⟨rfl, hphase⟩
    exact ⟨hhas, hphase⟩

structure BufStep (s s' : State n P) (p : P) : Prop where
  locked : ∀ q i, q ≠ p → (s.buf i).lock = some q → Keeps s s' i
  used : ∀ i, 0 < (s.buf i).refcnt
    → (s'.buf i).dev = (s.buf i).dev ∧ (s'.buf i).blockno = (s.buf i).blockno

structure LocalStep (s s' : State n P) (p : P) : Prop extends BufStep s s' p where
  dev : s'.dev = s.dev
  start : s'.start = s.start
  size : s'.size = s.size
  lh : s'.lh = s.lh
  committing : s'.committing = s.committing
  outstanding : s'.outstanding = s.outstanding
  store : (s.pc p).line = .user → ∀ b, b ∈ s.lh ∨ s.InLog b → s'.store b = s.store b

theorem KeyOk.frame [Fintype P] (hinv : s.Inv) (hl : BufStep s s' p) {q : P} (hq : q ≠ p) (h : s.KeyOk q (s.pc q))
    : s'.KeyOk q (s.pc q) := by
  cases hpc : s.pc q with
  | «at» line => trivial
  | brelse i next => trivial
  | bget dev b i ret =>
    rw [hpc] at h
    have hrefs : (s.pc q).refs i = 1 := by rw [hpc, Pc.refs_bget, if_pos rfl]
    rcases hl.used i (hinv.refcnt_pos_of_refs hrefs) with ⟨hdev, hblockno⟩
    exact ⟨hdev.trans h.1, hblockno.trans h.2⟩
  | bread dev b i ret =>
    rw [hpc] at h
    rcases h with ⟨hdev, hblockno, hlock, hunwritten⟩
    have hkeep := hl.locked q i hq hlock
    exact ⟨hkeep.dev.trans hdev, hkeep.blockno.trans hblockno, hkeep.lock.trans hlock,
      hkeep.unwritten.trans hunwritten⟩

theorem LogInv.of_step [DecidableEq P] [Fintype P] (h : s.LogInv) (hinv : s.Inv) {pc : Pc n}
    (hl : LocalStep s s' p) (hpc : s'.pc = Function.update s.pc p pc)
    (hline : (s.pc p).line = .user → pc.line = .user) (hkey : s'.KeyOk p pc) (hok : s'.PcOk p pc)
    (hmono : ∀ u, u < s.lh.length → (s.pc p).line.installed u = true → pc.line.installed u = true)
    (hpin : ∀ u b i, s.lh[u]? = some b → pc.line.installed u = false → s.Pinned i b → s'.Pinned i b)
    : s'.LogInv := by
  have hself : s'.pc p = pc := by
    rw [hpc]
    exact Function.update_self ..
  have hother : ∀ q, q ≠ p → s'.pc q = s.pc q := by
    intro q hq
    rw [hpc]
    exact Function.update_of_ne hq ..
  -- Whoever is in `commit` now was there before.
  have hold : ∀ q, (s'.pc q).line ≠ .user → (s.pc q).line ≠ .user := by
    intro q hq huser
    apply hq
    by_cases hqp : q = p
    . rw [hqp, hself]
      rw [hqp] at huser
      exact hline huser
    . rw [hother q hqp]
      exact huser
  constructor
  . rw [hl.dev]
    exact h.dev
  . rw [hl.lh]
    exact h.nodup
  . intro b hb
    rw [hl.lh] at hb
    unfold InLog
    rw [hl.start, hl.size]
    exact h.home b hb
  . rw [hl.lh, hl.size]
    exact h.fits
  . intro q r hq hr
    exact h.one q r (hold q hq) (hold r hr)
  . intro q hq
    rw [hl.committing, hl.outstanding]
    exact h.committing q (hold q hq)
  . intro q
    by_cases hqp : q = p
    . rw [hqp, hself]
      exact hkey
    . rw [hother q hqp]
      exact (h.key q).frame hinv hl.toBufStep hqp
  . intro q
    by_cases hqp : q = p
    . rw [hqp, hself]
      exact hok
    rw [hother q hqp]
    by_cases huser : (s.pc q).line = .user
    . exact pcOk_of_user huser
    have hpuser : (s.pc p).line = .user := by
      by_contra hpuser
      exact hqp (h.one q p huser hpuser)
    apply (h.pcOk q).frame h.fits
    exact ⟨hl.lh, hl.start, hl.size, hl.store hpuser, fun i hlock _ => hl.locked q i hqp hlock⟩
  . intro u b hb hnot
    rw [hl.lh] at hb
    have hpcnot : pc.line.installed u = false := by
      by_contra hinst
      apply hnot
      refine ⟨p, ?_⟩
      rw [hself]
      simpa using hinst
    have hnotOld : ¬s.Installed u := by
      rintro ⟨q, hq⟩
      apply hnot
      refine ⟨q, ?_⟩
      by_cases hqp : q = p
      . rw [hqp, hself]
        rw [hqp] at hq
        exact hmono u (List.getElem?_eq_some_iff.mp hb).1 hq
      . rw [hother q hqp]
        exact hq
    rcases h.pinned u b hb hnotOld with ⟨i, hi⟩
    exact ⟨i, hpin u b i hb hpcnot hi⟩

end State
end Xv6.Bcache
