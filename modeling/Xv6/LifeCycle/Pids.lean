import Xv6.LifeCycle.OneCpu

namespace Xv6

theorem int32_lt (i : Int) : int32 i < 2 ^ 31 := by
  unfold int32
  have := Int.bmod_lt (x := i) (m := 2 ^ 32) (by decide)
  omega

theorem int32_succ {i : Int} (hpos : 0 < i) (hlt : i < 2 ^ 31)
    : int32 (i + 1) = i + 1 ∨ int32 (i + 1) < 0 := by
  unfold int32
  rw [Int.bmod_def]
  omega

theorem int32_succ_ne (i : Int) : int32 (i + 1) ≠ i := by
  unfold int32
  rw [Int.bmod_def]
  omega

namespace LifeCycle

variable {P C : Type}

structure Pids (t : Table P C) : Prop where
  inj : ∀ p q, (t.proc p).Live → (t.proc q).Live → (t.proc p).pid = (t.proc q).pid → p = q
  pos : ∀ p, (t.proc p).Live → 0 < (t.proc p).pid
  lt : 0 < t.nextpid → ∀ p, (t.proc p).Live → (t.proc p).pid < t.nextpid
  range : t.nextpid < 2 ^ 31

structure Gone (x : Int) (t : Table P C) : Prop where
  lt : 0 < t.nextpid → x < t.nextpid
  ne : ∀ p, (t.proc p).Live → (t.proc p).pid ≠ x

variable {t t' : Table P C}

theorem Table.Initial.pids (h : t.Initial) : Pids t := by
  rcases h with ⟨hproc, _, _, _, hnext⟩
  constructor
  all_goals simp [hproc, hnext, Life.Live]

theorem Pids.congr (h : Pids t) (hnext : t'.nextpid = t.nextpid)
    (hproc : ∀ p, (t'.proc p).Live → (t.proc p).Live ∧ (t'.proc p).pid = (t.proc p).pid)
    : Pids t' where
  inj := by
    intro p q hp hq heq
    rw [(hproc p hp).2, (hproc q hq).2] at heq
    exact h.inj p q (hproc p hp).1 (hproc q hq).1 heq
  pos := by
    intro p hp
    rw [(hproc p hp).2]
    exact h.pos p (hproc p hp).1
  lt := by
    intro hpos p hp
    rw [hnext] at hpos ⊢
    rw [(hproc p hp).2]
    exact h.lt hpos p (hproc p hp).1
  range := by
    rw [hnext]
    exact h.range

theorem Gone.congr {x : Int} (h : Gone x t) (hnext : t'.nextpid = t.nextpid)
    (hproc : ∀ p, (t'.proc p).Live → (t.proc p).Live ∧ (t'.proc p).pid = (t.proc p).pid)
    : Gone x t' where
  lt := by
    rw [hnext]
    exact h.lt
  ne := by
    intro p hp
    rw [(hproc p hp).2]
    exact h.ne p (hproc p hp).1

variable [DecidableEq P]

theorem Pids.alloc (h : Pids t) {p : P} (hpos : 0 < t.nextpid) : Pids (t.alloc p) where
  inj := by
    have hother : ∀ q, (t.proc q).Live → (t.proc q).pid ≠ t.nextpid := by
      intro q hq
      have := h.lt hpos q hq
      omega
    intro q r hq hr heq
    have := h.inj q r
    simp only [Table.alloc, Table.setProc_proc, Life.Live] at *
    grind
  pos := by
    intro q hq
    have := h.pos q
    simp only [Table.alloc, Table.setProc_proc] at *
    split
    . exact hpos
    . next hne =>
      apply this
      simpa [hne] using hq
  lt := by
    intro hnext q hq
    have hsucc := int32_succ hpos h.range
    have := h.lt hpos q
    simp only [Table.alloc, Table.setProc_proc] at *
    split
    . dsimp
      omega
    . next hne =>
      have := this (by simpa [hne] using hq)
      omega
  range := int32_lt _

theorem Gone.alloc {x : Int} (h : Gone x t) {p : P} (hrange : t.nextpid < 2 ^ 31) (hpos : 0 < t.nextpid)
    : Gone x (t.alloc p) where
  lt := by
    intro hnext
    have hsucc := int32_succ hpos hrange
    have := h.lt hpos
    simp only [Table.alloc] at *
    omega
  ne := by
    intro q hq
    have hlt := h.lt hpos
    have := h.ne q
    simp only [Table.alloc, Table.setProc_proc] at *
    split
    . dsimp
      omega
    . next hne =>
      apply this
      simpa [hne] using hq

theorem setProc_live {p : P} {l : Life P} (hl : l.pid = (t.proc p).pid) (hlive : l.Live → (t.proc p).Live)
    : ∀ q, ((t.setProc p l).proc q).Live → (t.proc q).Live ∧ ((t.setProc p l).proc q).pid = (t.proc q).pid := by
  intro q hq
  rw [Table.setProc_proc] at hq ⊢
  split at hq
  . next heq =>
    subst heq
    simp [hl, hlive hq]
  . next hne => simp [hne, hq]

variable [DecidableEq C] {l : Option (P × P)}

theorem Table.Step.pid_cases (hforks : Forks t) (hcpu : OneCpu t) (hstep : Table.Step t l t')
    : (∃ p, t'.nextpid = (t.alloc p).nextpid ∧ ∀ q, (t'.proc q).Live →
          ((t.alloc p).proc q).Live ∧ (t'.proc q).pid = ((t.alloc p).proc q).pid) ∨ (t'.nextpid = t.nextpid
        ∧ ∀ q, (t'.proc q).Live → (t.proc q).Live ∧ (t'.proc q).pid = (t.proc q).pid) := by
  cases hstep with
  | boot p hinit hp =>
    refine .inl ⟨p, rfl, ?_⟩
    apply setProc_live
    . rfl
    . simp [Table.alloc, Life.Live]
  | forkAlloc c p np hcur hphase hfork hnp =>
    refine .inl ⟨np, rfl, ?_⟩
    apply setProc_live
    . rfl
    . exact id
  | tau => exact .inr ⟨rfl, fun q hq => ⟨hq, rfl⟩⟩
  | forkFail c p np hcur hphase hfork =>
    refine .inr ⟨rfl, ?_⟩
    simp only [Table.forkFail, Table.setProc_proc, Life.Live]
    grind
  | forkCopy c p np hcur hphase hfork =>
    refine .inr ⟨rfl, ?_⟩
    simp only [Table.forkCopy, Table.setProc_proc, Life.Live]
    grind
  | forkEnd c p np hcur hphase hfork =>
    have hnp := hforks.embryo p np _ hfork
    refine .inr ⟨rfl, ?_⟩
    simp only [Table.forkEnd, Table.setProc_proc, Life.Live]
    grind
  | yield c p hlock hcur hphase =>
    refine .inr ⟨rfl, setProc_live rfl ?_⟩
    simp [Life.Live, hcpu.cur_running hcur hphase]
  | sleep c p a hrun =>
    refine .inr ⟨rfl, setProc_live rfl ?_⟩
    simp [Life.Live, hcpu.canRun_running hrun]
  | waitSleep c p hrun hkids =>
    refine .inr ⟨rfl, setProc_live rfl ?_⟩
    simp [Life.Live, hcpu.canRun_running hrun]
  | waitReap c p z hrun hz hzombie =>
    refine .inr ⟨rfl, ?_⟩
    simp only [Table.resume, Table.reap, Table.setProc_proc, Life.Live]
    grind
  | resume c p hrun => exact .inr ⟨rfl, fun q hq => ⟨hq, rfl⟩⟩
  | wake W hlock =>
    refine .inr ⟨rfl, ?_⟩
    simp only [Table.wake, Life.wake, Life.Live]
    grind
  | exit c p W hlock hcur hphase hfork hinit hparent hpass =>
    have hrun := hcpu.cur_running hcur hphase
    refine .inr ⟨rfl, ?_⟩
    simp only [Table.sched, Table.exit, Life.wake, Life.reparent, Table.setProc_proc, Life.Live]
    grind
  | dispatch c p hpick hp =>
    refine .inr ⟨rfl, setProc_live rfl ?_⟩
    simp [Life.Live, hp]
  | retire c hpick => exact .inr ⟨rfl, fun q hq => ⟨hq, rfl⟩⟩

def Fresh (t t' : Table P C) : Prop :=
  t'.nextpid ≠ t.nextpid → 0 < t.nextpid

theorem Pids.step (h : Pids t) (hforks : Forks t) (hcpu : OneCpu t) (hstep : Table.Step t l t')
    (hfresh : Fresh t t')
    : Pids t' := by
  rcases hstep.pid_cases hforks hcpu with ⟨p, hnext, hproc⟩ | ⟨hnext, hproc⟩
  . have hpos : 0 < t.nextpid := by
      apply hfresh
      rw [hnext]
      exact int32_succ_ne _
    exact (h.alloc hpos).congr hnext hproc
  . exact h.congr hnext hproc

theorem Gone.step {x : Int} (h : Gone x t) (hpids : Pids t) (hforks : Forks t) (hcpu : OneCpu t)
    (hstep : Table.Step t l t') (hfresh : Fresh t t')
    : Gone x t' := by
  rcases hstep.pid_cases hforks hcpu with ⟨p, hnext, hproc⟩ | ⟨hnext, hproc⟩
  . have hpos : 0 < t.nextpid := by
      apply hfresh
      rw [hnext]
      exact int32_succ_ne _
    exact (h.alloc hpids.range hpos).congr hnext hproc
  . exact h.congr hnext hproc

theorem Gone.of_reap (h : Pids t) {p z : P} (hstep : Table.Step t (some (p, z)) t')
    : (t.proc z).parent = some p ∧ (t.proc z).state = .zombie ∧ Gone (t.proc z).pid t' := by
  cases hstep with
  | waitReap c p z hrun hz hzombie =>
    have hlive : (t.proc z).Live := by
      simp [Life.Live, hzombie]
    refine ⟨hz, hzombie, ?_, ?_⟩
    . intro hpos
      exact h.lt hpos z hlive
    . intro q hq heq
      have := h.inj q z
      simp only [Table.resume, Table.reap, Table.setProc_proc, Life.Live] at *
      grind

end LifeCycle
end Xv6
