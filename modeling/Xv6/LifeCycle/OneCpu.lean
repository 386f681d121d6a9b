import Xv6.LifeCycle.Basic

namespace Xv6
namespace LifeCycle

variable {P C : Type} {p : P} {c : C}

structure Forks (t : Table P C) : Prop where
  embryo : ∀ p np st, (t.proc p).fork = some (np, st) → (t.proc np).state = .embryo
  alive : ∀ p np st, (t.proc p).fork = some (np, st) → (t.proc p).Alive
  owner : ∀ p q np st st', (t.proc p).fork = some (np, st) → (t.proc q).fork = some (np, st') → p = q

/--
The current processes of the CPUs are the RUNNING ones. A CPU that has just returned to its scheduler
is the exception: its process has given up the CPU already, and the CPU holds the lock.
-/
structure OneCpu (t : Table P C) : Prop where
  idle : ∀ c, t.phase c = .idle ↔ t.cur c = none
  lock : ∀ c, t.lock = some c ↔ t.phase c = .dispatched ∨ t.phase c = .returned
  running : ∀ c p, t.cur c = some p → t.phase c ≠ .returned → (t.proc p).state = .running
  returned : ∀ c p, t.cur c = some p → t.phase c = .returned → (t.proc p).state ≠ .running
  inj : ∀ c d p, t.cur c = some p → t.cur d = some p → c = d
  onCpu : ∀ p, (t.proc p).state = .running → ∃ c, t.cur c = some p

namespace OneCpu

variable {t t' : Table P C}

theorem cur_running (h : OneCpu t) (hcur : t.cur c = some p) (hphase : t.phase c = .running)
    : (t.proc p).state = .running := by
  apply h.running c p hcur
  simp [hphase]

theorem canRun_running (h : OneCpu t) (hrun : t.CanRun c p)
    : (t.proc p).state = .running := by
  rcases hrun with ⟨hcur, hphase | ⟨hphase, _⟩⟩
  . apply h.running c p hcur
    simp [hphase]
  . exact h.cur_running hcur hphase

theorem phase_of_canRun (h : OneCpu t) {c d : C} (hrun : t.CanRun c p) (hne : d ≠ c)
    : t.phase d ≠ .dispatched ∧ t.phase d ≠ .returned := by
  have hd := h.lock d
  rcases hrun with ⟨_, hphase | ⟨_, hlock⟩⟩
  . have hc := (h.lock c).mpr (.inl hphase)
    rw [hc] at hd
    grind
  . rw [hlock] at hd
    grind

theorem phase_of_canPick (h : OneCpu t) {c d : C} (hpick : t.CanPick c) (hne : d ≠ c)
    : t.phase d ≠ .dispatched ∧ t.phase d ≠ .returned := by
  have hd := h.lock d
  rcases hpick with hphase | ⟨_, hlock⟩
  . have hc := (h.lock c).mpr (.inr hphase)
    rw [hc] at hd
    grind
  . rw [hlock] at hd
    grind

theorem congr (h : OneCpu t) (hcur : t'.cur = t.cur) (hphase : t'.phase = t.phase) (hlock : t'.lock = t.lock)
    (hproc : ∀ p, (t'.proc p).state = .running ↔ (t.proc p).state = .running)
    : OneCpu t' where
  idle := by
    rw [hcur, hphase]
    exact h.idle
  lock := by
    rw [hlock, hphase]
    exact h.lock
  running := by
    intro c p hc hp
    rw [hcur] at hc
    rw [hphase] at hp
    exact (hproc p).mpr (h.running c p hc hp)
  returned := by
    intro c p hc hp hrun
    rw [hcur] at hc
    rw [hphase] at hp
    exact h.returned c p hc hp ((hproc p).mp hrun)
  inj := by
    rw [hcur]
    exact h.inj
  onCpu := by
    intro p hp
    rw [hcur]
    exact h.onCpu p ((hproc p).mp hp)

variable [DecidableEq C]

theorem sched (h : OneCpu t) (hrun : t.CanRun c p) (hcur : t'.cur = t.cur)
    (hphase : t'.phase = t.phase) (hp : (t'.proc p).state ≠ .running)
    (hproc : ∀ q, q ≠ p → ((t'.proc q).state = .running ↔ (t.proc q).state = .running))
    : OneCpu (t'.sched c) where
  idle := by
    intro d
    have := h.idle d
    have := hrun.1
    simp only [Table.sched, hphase, hcur, Function.update_apply]
    grind
  lock := by
    intro d
    simp only [Table.sched, hphase, Function.update_apply]
    by_cases hd : d = c
    . simp [hd]
    . have := h.phase_of_canRun hrun hd
      grind
  running := by
    intro d q hq hd
    simp only [Table.sched, hphase, hcur, Function.update_apply] at hq hd ⊢
    by_cases hdc : d = c
    . simp [hdc] at hd
    have hqp : q ≠ p := by
      intro heq
      rw [heq] at hq
      exact hdc (h.inj d c p hq hrun.1)
    rw [hproc q hqp]
    apply h.running d q hq
    simpa [hdc] using hd
  returned := by
    intro d q hq hd
    simp only [Table.sched, hphase, hcur, Function.update_apply] at hq hd ⊢
    by_cases hdc : d = c
    . have := hrun.1
      grind
    . have := h.phase_of_canRun hrun hdc
      grind
  inj := by
    simp only [Table.sched, hcur]
    exact h.inj
  onCpu := by
    intro q hq
    simp only [Table.sched, hcur] at hq ⊢
    by_cases hqp : q = p
    . rw [hqp] at hq
      exact absurd hq hp
    . exact h.onCpu q ((hproc q hqp).mp hq)

theorem dispatch [DecidableEq P] (h : OneCpu t) (hpick : t.CanPick c)
    (hp : (t.proc p).state = .runnable)
    : OneCpu (t.dispatch c p) where
  idle := by
    intro d
    have := h.idle d
    simp only [Table.dispatch, Function.update_apply]
    grind
  lock := by
    intro d
    simp only [Table.dispatch, Function.update_apply]
    by_cases hd : d = c
    . simp [hd]
    . have := h.phase_of_canPick hpick hd
      grind
  running := by
    intro d q hq hd
    simp only [Table.dispatch, Table.setProc, Function.update_apply] at hq hd ⊢
    have := h.running d q
    grind
  returned := by
    intro d q hq hd
    simp only [Table.dispatch, Table.setProc, Function.update_apply] at hq hd ⊢
    by_cases hdc : d = c
    . simp [hdc] at hd
    . have := h.phase_of_canPick hpick hdc
      grind
  inj := by
    -- `p` was not RUNNING before, so that it is the current process of no other CPU.
    have hother : ∀ d, d ≠ c → t.cur d ≠ some p := by
      intro d hd hcur
      have := h.running d p hcur (h.phase_of_canPick hpick hd).2
      simp [hp] at this
    intro d e q hd he
    simp only [Table.dispatch, Function.update_apply] at hd he
    have := h.inj d e q
    grind
  onCpu := by
    intro q hq
    simp only [Table.dispatch, Table.setProc, Function.update_apply] at hq ⊢
    by_cases hqp : q = p
    . exact ⟨c, by simp [hqp]⟩
    rw [if_neg hqp] at hq
    rcases h.onCpu q hq with ⟨d, hd⟩
    refine ⟨d, ?_⟩
    have hdc : d ≠ c := by
      intro heq
      rw [heq] at hd
      rcases hpick with hphase | ⟨hphase, _⟩
      . exact h.returned c q hd hphase hq
      . have := (h.idle c).mp hphase
        simp [this] at hd
    simp [hdc, hd]

theorem retire (h : OneCpu t) (hpick : t.CanPick c) : OneCpu (t.retire c) where
  idle := by
    intro d
    have := h.idle d
    simp only [Table.retire, Function.update_apply]
    grind
  lock := by
    intro d
    simp only [Table.retire, Function.update_apply]
    by_cases hd : d = c
    . simp [hd]
    . have := h.phase_of_canPick hpick hd
      grind
  running := by
    intro d q hq hd
    simp only [Table.retire, Function.update_apply] at hq hd ⊢
    have := h.running d q
    grind
  returned := by
    intro d q hq hd
    simp only [Table.retire, Function.update_apply] at hq hd ⊢
    have := h.returned d q
    grind
  inj := by
    intro d e q hd he
    simp only [Table.retire, Function.update_apply] at hd he
    have := h.inj d e q
    grind
  onCpu := by
    intro q hq
    simp only [Table.retire, Function.update_apply] at hq ⊢
    rcases h.onCpu q hq with ⟨d, hd⟩
    refine ⟨d, ?_⟩
    have hdc : d ≠ c := by
      intro heq
      rw [heq] at hd
      rcases hpick with hphase | ⟨hphase, _⟩
      . exact h.returned c q hd hphase hq
      . have := (h.idle c).mp hphase
        simp [this] at hd
    simp [hdc, hd]

theorem resume (h : OneCpu t) (hrun : t.CanRun c p) : OneCpu (t.resume c) where
  idle := by
    intro d
    have := h.idle d
    have := hrun.1
    simp only [Table.resume, Function.update_apply]
    grind
  lock := by
    intro d
    simp only [Table.resume, Function.update_apply]
    by_cases hd : d = c
    . simp [hd]
    . have := h.phase_of_canRun hrun hd
      grind
  running := by
    intro d q hq hd
    simp only [Table.resume, Function.update_apply] at hq hd ⊢
    have := h.running d q
    have := h.canRun_running hrun
    have := hrun.1
    grind
  returned := by
    intro d q hq hd
    simp only [Table.resume, Function.update_apply] at hq hd ⊢
    have := h.returned d q
    grind
  inj := h.inj
  onCpu := h.onCpu

end OneCpu

namespace Forks

variable {t t' : Table P C}

theorem congr (h : Forks t) (hfork : ∀ p, (t'.proc p).fork = (t.proc p).fork)
    (hembryo : ∀ p, (t.proc p).state = .embryo → (t'.proc p).state = .embryo)
    (halive : ∀ p, (t.proc p).fork ≠ none → (t.proc p).Alive → (t'.proc p).Alive)
    : Forks t' where
  embryo := by
    intro p np st hp
    rw [hfork] at hp
    exact hembryo np (h.embryo p np st hp)
  alive := by
    intro p np st hp
    rw [hfork] at hp
    exact halive p (by simp [hp]) (h.alive p np st hp)
  owner := by
    intro p q np st st' hp hq
    rw [hfork] at hp hq
    exact h.owner p q np st st' hp hq

theorem of_proc_eq (h : Forks t) (hproc : t'.proc = t.proc) : Forks t' := by
  apply h.congr
  all_goals simp [hproc]

variable [DecidableEq P]

theorem setProc (h : Forks t) {l : Life P} (hp : (t.proc p).Alive) (hl : l.Alive)
    (hfork : l.fork = (t.proc p).fork)
    : Forks (t.setProc p l) := by
  have hne : (t.proc p).state ≠ .embryo := by
    rcases hp with hp | hp | hp
    all_goals simp [hp]
  apply h.congr
  . intro q
    by_cases hq : q = p
    . simp [hq, hfork]
    . simp [hq]
  . intro q hq
    have hqp : q ≠ p := by
      intro heq
      rw [heq] at hq
      exact hne hq
    simp [hqp, hq]
  . intro q _ hq
    by_cases hqp : q = p
    . simp [hqp, hl]
    . simp [hqp, hq]

theorem boot (h : Forks t) (hp : (t.proc p).state = .unused) : Forks (t.boot p) := by
  have hembryo := h.embryo
  have halive := h.alive
  have howner := h.owner
  constructor
  all_goals
    simp only [Table.boot, Table.alloc, Table.setProc_proc, Life.Alive] at *
    grind

theorem forkAlloc (h : Forks t) {p np : P} (hp : (t.proc p).Alive) (hnp : (t.proc np).state = .unused)
    : Forks (t.forkAlloc p np) := by
  have hembryo := h.embryo
  have halive := h.alive
  have howner := h.owner
  constructor
  all_goals
    simp only [Table.forkAlloc, Table.alloc, Table.setProc_proc, Life.Alive] at *
    grind

theorem forkDone (h : Forks t) {p np : P} {st : ForkStage} {l : Life P}
    (hfork : (t.proc p).fork = some (np, st)) (hl : l.fork = (t.proc np).fork)
    : Forks ((t.setProc np l).setProc p { (t.setProc np l).proc p with fork := none }) := by
  have hembryo := h.embryo
  have halive := h.alive
  have howner := h.owner
  constructor
  all_goals
    simp only [Table.setProc_proc, Life.Alive] at *
    grind

theorem forkCopy (h : Forks t) {p np : P} {st : ForkStage} (hfork : (t.proc p).fork = some (np, st))
    : Forks (t.forkCopy p np) := by
  have hembryo := h.embryo
  have halive := h.alive
  have howner := h.owner
  constructor
  all_goals
    simp only [Table.forkCopy, Table.setProc_proc, Life.Alive] at *
    grind

variable [DecidableEq C] {l : Option (P × P)}

theorem step (h : Forks t) (hcpu : OneCpu t) (hstep : Table.Step t l t') : Forks t' := by
  cases hstep with
  | tau => exact h
  | boot p hinit hp => exact h.boot hp
  | forkAlloc c p np hcur hphase hfork hnp =>
    exact h.forkAlloc (.inr (.inl (hcpu.cur_running hcur hphase))) hnp
  | forkFail c p np hcur hphase hfork => exact h.forkDone hfork rfl
  | forkCopy c p np hcur hphase hfork => exact h.forkCopy hfork
  | forkEnd c p np hcur hphase hfork => exact h.forkDone hfork rfl
  | yield c p hlock hcur hphase =>
    refine of_proc_eq (h.setProc (.inr (.inl (hcpu.cur_running hcur hphase))) ?_ ?_) rfl
    . exact .inl rfl
    . rfl
  | sleep c p a hrun =>
    refine of_proc_eq (h.setProc (.inr (.inl (hcpu.canRun_running hrun))) ?_ ?_) rfl
    . exact .inr (.inr rfl)
    . rfl
  | waitSleep c p hrun hkids =>
    refine of_proc_eq (h.setProc (.inr (.inl (hcpu.canRun_running hrun))) ?_ ?_) rfl
    . exact .inr (.inr rfl)
    . rfl
  | waitReap c p z hrun hz hzombie =>
    apply h.congr
    all_goals
      intro q
      by_cases hq : q = z
      . simp [Table.resume, Table.reap, hq, hzombie, Life.Alive]
      . simp [Table.resume, Table.reap, hq]
  | resume c p hrun => exact h.of_proc_eq rfl
  | wake W hlock =>
    apply h.congr
    all_goals
      intro q
      simp only [Table.wake, Life.wake, Life.Alive]
      grind
  | exit c p W hlock hcur hphase hfork hinit hparent hpass =>
    have hrun := hcpu.cur_running hcur hphase
    apply h.congr
    all_goals
      intro q
      simp only [Table.sched, Table.exit, Life.wake, Life.reparent, Table.setProc_proc, Life.Alive]
      grind
  | dispatch c p hpick hp =>
    refine of_proc_eq (h.setProc (.inl hp) ?_ ?_) rfl
    . exact .inr (.inl rfl)
    . rfl
  | retire c hpick => exact h.of_proc_eq rfl

end Forks

variable {t t' : Table P C}

theorem Table.Initial.forks (h : t.Initial) : Forks t := by
  constructor
  all_goals simp [h.1]

theorem Table.Initial.oneCpu (h : t.Initial) : OneCpu t := by
  rcases h with ⟨hproc, hcpu, hlock, _, _⟩
  constructor
  all_goals simp [hproc, hcpu, hlock]

variable [DecidableEq P] [DecidableEq C] {l : Option (P × P)}

theorem OneCpu.step (h : OneCpu t) (hforks : Forks t) (hstep : Table.Step t l t') : OneCpu t' := by
  cases hstep with
  | tau => exact h
  | boot p hinit hp =>
    refine h.congr rfl rfl rfl ?_
    intro q
    simp only [Table.boot, Table.alloc, Table.setProc_proc]
    grind
  | forkAlloc c p np hcur hphase hfork hnp =>
    refine h.congr rfl rfl rfl ?_
    intro q
    simp only [Table.forkAlloc, Table.alloc, Table.setProc_proc]
    grind
  | forkFail c p np hcur hphase hfork =>
    have hnp := hforks.embryo p np _ hfork
    refine h.congr rfl rfl rfl ?_
    intro q
    simp only [Table.forkFail, Table.setProc_proc]
    grind
  | forkCopy c p np hcur hphase hfork =>
    refine h.congr rfl rfl rfl ?_
    intro q
    simp only [Table.forkCopy, Table.setProc_proc]
    grind
  | forkEnd c p np hcur hphase hfork =>
    have hnp := hforks.embryo p np _ hfork
    refine h.congr rfl rfl rfl ?_
    intro q
    simp only [Table.forkEnd, Table.setProc_proc]
    grind
  | yield c p hlock hcur hphase =>
    refine h.sched ⟨hcur, .inr ⟨hphase, hlock⟩⟩ rfl rfl ?_ ?_
    . simp
    . intro q hq
      simp [hq]
  | sleep c p a hrun =>
    refine h.sched hrun rfl rfl ?_ ?_
    . simp
    . intro q hq
      simp [hq]
  | waitSleep c p hrun hkids =>
    refine h.sched hrun rfl rfl ?_ ?_
    . simp
    . intro q hq
      simp [hq]
  | waitReap c p z hrun hz hzombie =>
    have hreap : OneCpu (t.reap z) := by
      refine h.congr rfl rfl rfl ?_
      intro q
      simp only [Table.reap, Table.setProc_proc]
      grind
    exact hreap.resume hrun
  | resume c p hrun => exact h.resume hrun
  | wake W hlock =>
    refine h.congr rfl rfl rfl ?_
    intro q
    simp only [Table.wake, Life.wake]
    grind
  | exit c p W hlock hcur hphase hfork hinit hparent hpass =>
    refine h.sched ⟨hcur, .inr ⟨hphase, hlock⟩⟩ rfl rfl ?_ ?_
    . simp [Table.exit]
    . intro q hq
      simp only [Table.exit, Life.wake, Life.reparent, Table.setProc_proc, hq]
      grind
  | dispatch c p hpick hp => exact h.dispatch hpick hp
  | retire c hpick => exact h.retire hpick

end LifeCycle
end Xv6
