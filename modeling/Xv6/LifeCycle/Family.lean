import Xv6.LifeCycle.OneCpu

namespace Xv6
namespace LifeCycle

variable {P C : Type}

def Life.Started (l : Life P) : Prop :=
  l.Alive ∨ l.state = .zombie

structure Family (t : Table P C) : Prop where
  noInit : t.initproc = none → ∀ p, (t.proc p).state = .unused
  initAlive : ∀ r, t.initproc = some r → (t.proc r).Alive
  initParent : ∀ r, t.initproc = some r → (t.proc r).parent = none
  unused : ∀ p, (t.proc p).state = .unused → (t.proc p).parent = none
  embryo : ∀ p q, (t.proc p).state = .embryo → (t.proc p).parent = some q →
    (t.proc q).fork = some (p, .copied)
  allocated : ∀ p np, (t.proc p).fork = some (np, .allocated) → (t.proc np).parent = none
  copied : ∀ p np, (t.proc p).fork = some (np, .copied) → (t.proc np).parent = some p
  irrefl : ∀ p, (t.proc p).parent ≠ some p
  parent : ∀ p, (t.proc p).Started → t.initproc ≠ some p →
    ∃ q, (t.proc p).parent = some q ∧ (t.proc q).Alive
  chan : ∀ p q, (t.proc p).chan = some (.proc q) → q = p ∧ (t.proc p).state = .sleeping
  waiting : ∀ p z, (t.proc p).chan = some (.proc p) → (t.proc z).parent = some p →
    (t.proc z).state ≠ .zombie

namespace Family

variable {t t' : Table P C}

theorem parent_alive (h : Family t) {p q : P} (hp : (t.proc p).parent = some q)
    (hembryo : (t.proc p).state ≠ .embryo)
    : (t.proc q).Alive := by
  have hunused : (t.proc p).state ≠ .unused := by
    intro hu
    simp [h.unused p hu] at hp
  have hstarted : (t.proc p).Started := by
    unfold Life.Started Life.Alive
    cases hs : (t.proc p).state
    all_goals simp_all
  have hinit : t.initproc ≠ some p := by
    intro hi
    simp [h.initParent p hi] at hp
  rcases h.parent p hstarted hinit with ⟨q', hq', halive⟩
  rw [hp] at hq'
  cases hq'
  exact halive

theorem no_child (h : Family t) {p q : P} (hforks : Forks t) (hq : ¬(t.proc q).Alive)
    : (t.proc p).parent ≠ some q := by
  intro hp
  by_cases hembryo : (t.proc p).state = .embryo
  . exact hq (hforks.alive q p _ (h.embryo p q hembryo hp))
  . exact hq (h.parent_alive hp hembryo)

theorem congr (h : Family t) (hinit : t'.initproc = t.initproc)
    (hparent : ∀ p, (t'.proc p).parent = (t.proc p).parent) (hfork : ∀ p, (t'.proc p).fork = (t.proc p).fork)
    (hunused : ∀ p, (t'.proc p).state = .unused ↔ (t.proc p).state = .unused)
    (hembryo : ∀ p, (t'.proc p).state = .embryo ↔ (t.proc p).state = .embryo)
    (hzombie : ∀ p, (t'.proc p).state = .zombie ↔ (t.proc p).state = .zombie)
    (hchan : ∀ p q, (t'.proc p).chan = some (.proc q) → (t'.proc p).state = .sleeping
      ∧ ((t.proc p).chan = some (.proc q) ∨ q = p ∧ ∀ z, (t.proc z).parent = some p → (t.proc z).state ≠ .zombie))
    : Family t' := by
  have halive : ∀ p, (t'.proc p).Alive ↔ (t.proc p).Alive := by
    intro p
    have hu := hunused p
    have he := hembryo p
    have hz := hzombie p
    unfold Life.Alive
    cases hs : (t.proc p).state
    all_goals
      cases hs' : (t'.proc p).state
      all_goals simp_all
  have hstarted : ∀ p, (t'.proc p).Started ↔ (t.proc p).Started := by
    intro p
    unfold Life.Started
    rw [halive, hzombie]
  constructor
  . simpa only [hinit, hunused] using h.noInit
  . simpa only [hinit, halive] using h.initAlive
  . simpa only [hinit, hparent] using h.initParent
  . simpa only [hunused, hparent] using h.unused
  . simpa only [hembryo, hparent, hfork] using h.embryo
  . simpa only [hfork, hparent] using h.allocated
  . simpa only [hfork, hparent] using h.copied
  . simpa only [hparent] using h.irrefl
  . simpa only [hstarted, hinit, hparent, halive] using h.parent
  . intro p q hp
    rcases hchan p q hp with ⟨hsleep, hold | ⟨heq, _⟩⟩
    . exact ⟨(h.chan p q hold).1, hsleep⟩
    . exact ⟨heq, hsleep⟩
  . intro p z hp hz
    rw [hparent] at hz
    simp only [ne_eq, hzombie]
    rcases hchan p p hp with ⟨_, hold | ⟨_, hkids⟩⟩
    . exact h.waiting p z hold hz
    . exact hkids z hz

theorem of_proc_eq (h : Family t) (hproc : t'.proc = t.proc) (hinit : t'.initproc = t.initproc)
    : Family t' := by
  apply h.congr hinit
  all_goals simp only [hproc, implies_true]
  intro p q hp
  exact ⟨(h.chan p q hp).2, .inl hp⟩

theorem wake (h : Family t) (W : P → Prop) : Family (t.wake W) := by
  refine h.congr rfl ?_ ?_ ?_ ?_ ?_ ?_
  all_goals
    intro p
    have := h.chan p
    simp only [Table.wake, Life.wake]
    grind

end Family

theorem Table.Initial.family {t : Table P C} (h : t.Initial) : Family t := by
  rcases h with ⟨hproc, _, _, hinit, _⟩
  constructor
  all_goals simp [hproc, hinit, Life.Started, Life.Alive]

inductive Stage (p np : P) : ProcState → Option P → Option (P × ForkStage) → Prop
  | free : Stage p np .unused none none
  | allocated : Stage p np .embryo none (some (np, .allocated))
  | copied : Stage p np .embryo (some p) (some (np, .copied))
  | started : Stage p np .runnable (some p) none

namespace Stage

variable {p np q : P} {st : ProcState} {parent : Option P} {f : Option (P × ForkStage)}

theorem parent_of_unused (h : Stage p np .unused parent f) : parent = none := by
  cases h
  rfl

theorem fork_of_embryo (h : Stage p np .embryo (some q) f) : q = p ∧ f = some (np, .copied) := by
  cases h
  exact ⟨rfl, rfl⟩

theorem parent_of_allocated (h : Stage p np st parent (some (q, .allocated)))
    : q = np ∧ parent = none := by
  cases h
  exact ⟨rfl, rfl⟩

theorem parent_of_copied (h : Stage p np st parent (some (q, .copied)))
    : q = np ∧ parent = some p := by
  cases h
  exact ⟨rfl, rfl⟩

theorem eq_of_parent (h : Stage p np st (some q) f) : q = p := by
  cases h
  all_goals rfl

theorem ne_zombie (h : Stage p np st parent f) : st ≠ .zombie := by
  cases h
  all_goals simp

theorem parent_of_started (h : Stage p np st parent f) (hunused : st ≠ .unused) (hembryo : st ≠ .embryo)
    : parent = some p := by
  cases h
  case started => rfl
  all_goals contradiction

end Stage

variable [DecidableEq P] {t t' : Table P C} {l : Option (P × P)}

namespace Family

section
variable (h : Family t)
include h

theorem setProc {p : P} {l : Life P} (hp : (t.proc p).Alive) (hl : l.Alive)
    (hparent : l.parent = (t.proc p).parent) (hfork : l.fork = (t.proc p).fork)
    (hchan : ∀ q, l.chan = some (.proc q) → l.state = .sleeping ∧ ((t.proc p).chan = some (.proc q)
        ∨ q = p ∧ ∀ z, (t.proc z).parent = some p → (t.proc z).state ≠ .zombie))
    : Family (t.setProc p l) := by
  have hpstate : ∀ s, s = .unused ∨ s = .embryo ∨ s = .zombie → (l.state = s ↔ (t.proc p).state = s) := by
    intro s hs
    unfold Life.Alive at hp hl
    grind
  apply h.congr
  . rfl
  . intro q
    by_cases hq : q = p
    . simp [hq, hparent]
    . simp [hq]
  . intro q
    by_cases hq : q = p
    . simp [hq, hfork]
    . simp [hq]
  . intro q
    by_cases hq : q = p
    . simp [hq, hpstate]
    . simp [hq]
  . intro q
    by_cases hq : q = p
    . simp [hq, hpstate]
    . simp [hq]
  . intro q
    by_cases hq : q = p
    . simp [hq, hpstate]
    . simp [hq]
  . intro q r hq
    by_cases hqp : q = p
    . subst hqp
      simp only [Table.setProc_proc, ↓reduceIte] at hq ⊢
      exact hchan r hq
    . simp only [Table.setProc_proc, hqp, ↓reduceIte] at hq ⊢
      exact ⟨(h.chan q r hq).2, .inl hq⟩

theorem boot {p : P} (hinit : t.initproc = none) : Family (t.boot p) := by
  have hall := h.noInit hinit
  have hparent := fun q => h.unused q (hall q)
  have hchan := h.chan
  have hallocated := h.allocated
  have hcopied := h.copied
  constructor
  all_goals
    simp only [Table.boot, Table.alloc, Table.setProc_proc, Life.Started, Life.Alive] at *
    grind

theorem build (hforks : Forks t) {p np : P} {l : Life P} {f : Option (P × ForkStage)}
    (hp : (t.proc p).state = .running) (hnp : ¬(t.proc np).Alive)
    (hother : ∀ q z st, (t.proc q).fork = some (z, st) → (q = p ↔ z = np))
    (hstage : Stage p np l.state l.parent f) (hfork : l.fork = none) (hchan : l.chan = (t.proc np).chan)
    : Family ((t.setProc np l).setProc p { (t.setProc np l).proc p with fork := f }) := by
  have hne : p ≠ np := by
    rintro rfl
    exact hnp (.inr (.inl hp))
  have hchild : ∀ q, (t.proc q).parent ≠ some np := fun q => h.no_child hforks hnp
  generalize ht : (t.setProc np l).setProc p { (t.setProc np l).proc p with fork := f } = t'
  have hinit' : t'.initproc = t.initproc := by
    rw [← ht]
    rfl
  -- Apart from `np`, only the `fork` of `p` changes.
  have hstate' : ∀ q, (t'.proc q).state = if q = np then l.state else (t.proc q).state := by
    rw [← ht]
    grind [Table.setProc_proc]
  have hparent' : ∀ q, (t'.proc q).parent = if q = np then l.parent else (t.proc q).parent := by
    rw [← ht]
    grind [Table.setProc_proc]
  have hfork' : ∀ q, (t'.proc q).fork
      = if q = p then f else if q = np then none else (t.proc q).fork := by
    rw [← ht]
    grind [Table.setProc_proc]
  have hchan' : ∀ q z, (t'.proc q).chan = some (.proc z) → q ≠ np ∧ (t.proc q).chan = some (.proc z) := by
    have := h.chan np
    rw [← ht]
    grind [Table.setProc_proc, Life.Alive]
  have halive' : ∀ q, (t.proc q).Alive → q ≠ np ∧ (t'.proc q).Alive := by
    intro q hq
    have hqnp : q ≠ np := by
      rintro rfl
      exact hnp hq
    unfold Life.Alive
    rw [hstate', if_neg hqnp]
    exact ⟨hqnp, hq⟩
  have hinit : ∀ r, t.initproc = some r → r ≠ np := fun r hr => (halive' r (h.initAlive r hr)).1
  constructor
  . intro hnone
    rw [hinit'] at hnone
    simp [h.noInit hnone p] at hp
  . intro r hr
    rw [hinit'] at hr
    exact (halive' r (h.initAlive r hr)).2
  . intro r hr
    rw [hinit'] at hr
    rw [hparent', if_neg (hinit r hr)]
    exact h.initParent r hr
  . intro q hq
    rw [hstate'] at hq
    rw [hparent']
    split at hq
    . next hqnp =>
      rw [hq] at hstage
      rw [if_pos hqnp, hstage.parent_of_unused]
    . next hqnp =>
      rw [if_neg hqnp]
      exact h.unused q hq
  . intro q r hq hr
    rw [hstate'] at hq
    rw [hparent'] at hr
    rw [hfork']
    split at hq
    . next hqnp =>
      rw [if_pos hqnp] at hr
      rw [hq, hr] at hstage
      rw [if_pos hstage.fork_of_embryo.1, hstage.fork_of_embryo.2, hqnp]
    . next hqnp =>
      -- Somebody else builds `q`.
      rw [if_neg hqnp] at hr
      have hcopied := h.embryo q r hq hr
      have hrp : r ≠ p := fun heq => hqnp ((hother r q .copied hcopied).mp heq)
      have hrnp : r ≠ np := by
        rintro rfl
        exact hchild q hr
      rw [if_neg hrp, if_neg hrnp]
      exact hcopied
  . intro q z hz
    rw [hfork'] at hz
    rw [hparent']
    split at hz
    . rw [hz] at hstage
      rw [if_pos hstage.parent_of_allocated.1, hstage.parent_of_allocated.2]
    . next hqp =>
      split at hz
      . cases hz
      . rw [if_neg fun heq => hqp ((hother q z .allocated hz).mpr heq)]
        exact h.allocated q z hz
  . intro q z hz
    rw [hfork'] at hz
    rw [hparent']
    split at hz
    . next hqp =>
      rw [hz] at hstage
      rw [if_pos hstage.parent_of_copied.1, hstage.parent_of_copied.2, hqp]
    . next hqp =>
      split at hz
      . cases hz
      . rw [if_neg fun heq => hqp ((hother q z .copied hz).mpr heq)]
        exact h.copied q z hz
  . intro q hq
    rw [hparent'] at hq
    split at hq
    . next hqnp =>
      rw [hq] at hstage
      exact hne (hstage.eq_of_parent.symm.trans hqnp)
    . exact h.irrefl q hq
  . intro q hstarted hq
    rw [hinit'] at hq
    rw [hparent']
    split
    . next hqnp =>
      have hstarted : l.state ≠ .unused ∧ l.state ≠ .embryo := by
        simp only [Life.Started, Life.Alive, hstate', if_pos hqnp] at hstarted
        grind
      refine ⟨p, hstage.parent_of_started hstarted.1 hstarted.2, ?_⟩
      exact (halive' p (.inr (.inl hp))).2
    . next hqnp =>
      have hstarted : (t.proc q).Started := by
        simp only [Life.Started, Life.Alive, hstate', if_neg hqnp] at hstarted
        exact hstarted
      rcases h.parent q hstarted hq with ⟨r, hr, halive⟩
      exact ⟨r, hr, (halive' r halive).2⟩
  . intro q r hr
    rcases hchan' q r hr with ⟨hqnp, hr⟩
    rw [hstate', if_neg hqnp]
    exact h.chan q r hr
  . intro q z hq hz
    rcases hchan' q q hq with ⟨_, hq⟩
    rw [hparent'] at hz
    rw [hstate']
    split at hz
    . next hznp =>
      rw [if_pos hznp]
      exact hstage.ne_zombie
    . next hznp =>
      rw [if_neg hznp]
      exact h.waiting q z hq hz

theorem forkAlloc (hforks : Forks t) {p np : P} (hp : (t.proc p).state = .running)
    (hfork : (t.proc p).fork = none) (hnp : (t.proc np).state = .unused)
    : Family (t.forkAlloc p np) := by
  have hbuilt := h.build hforks hp (l := { t.proc np with state := .embryo, pid := t.nextpid, fork := none })
    (f := some (np, .allocated)) (by simp [Life.Alive, hnp]) ?_ ?_ rfl rfl
  . exact hbuilt.of_proc_eq rfl rfl
  . intro q z st hq
    constructor
    . rintro rfl
      rw [hfork] at hq
      cases hq
    . rintro rfl
      have := hforks.embryo q z st hq
      simp [hnp] at this
  . dsimp only
    rw [h.unused np hnp]
    exact .allocated

theorem rebuild (hforks : Forks t) {p np : P} {st : ForkStage} {l : Life P}
    {f : Option (P × ForkStage)} (hp : (t.proc p).state = .running)
    (hfork : (t.proc p).fork = some (np, st)) (hstage : Stage p np l.state l.parent f)
    (hlfork : l.fork = (t.proc np).fork) (hchan : l.chan = (t.proc np).chan)
    : Family ((t.setProc np l).setProc p { (t.setProc np l).proc p with fork := f }) := by
  have hnp : ¬(t.proc np).Alive := by
    simp [Life.Alive, hforks.embryo p np st hfork]
  apply h.build hforks hp hnp _ hstage _ hchan
  . intro q z st' hq
    constructor
    . rintro rfl
      rw [hfork] at hq
      cases hq
      rfl
    . rintro rfl
      exact hforks.owner q p z st' st hq hfork
  . rw [hlfork, Option.eq_none_iff_forall_ne_some]
    rintro ⟨z, st'⟩ hz
    exact hnp (hforks.alive np z st' hz)

theorem forkFail (hforks : Forks t) {p np : P} (hp : (t.proc p).state = .running)
    (hfork : (t.proc p).fork = some (np, .allocated))
    : Family (t.forkFail p np) := by
  unfold Table.forkFail
  apply h.rebuild hforks hp hfork
  . rw [h.allocated p np hfork]
    exact .free
  . rfl
  . rfl

theorem forkCopy (hforks : Forks t) {p np : P} (hp : (t.proc p).state = .running)
    (hfork : (t.proc p).fork = some (np, .allocated))
    : Family (t.forkCopy p np) := by
  unfold Table.forkCopy
  apply h.rebuild hforks hp hfork
  . rw [hforks.embryo p np .allocated hfork]
    exact .copied
  . rfl
  . rfl

theorem forkEnd (hforks : Forks t) {p np : P} (hp : (t.proc p).state = .running)
    (hfork : (t.proc p).fork = some (np, .copied))
    : Family (t.forkEnd p np) := by
  unfold Table.forkEnd
  apply h.rebuild hforks hp hfork
  . rw [h.copied p np hfork]
    exact .started
  . rfl
  . rfl

theorem reap (hforks : Forks t) {z : P} (hz : (t.proc z).state = .zombie)
    : Family (t.reap z) := by
  have hchild : ∀ q, (t.proc q).parent ≠ some z := by
    intro q
    apply h.no_child hforks
    simp [Life.Alive, hz]
  have hnofork : ∀ q st, (t.proc q).fork ≠ some (z, st) := by
    intro q st hq
    have := hforks.embryo q z st hq
    simp [hz] at this
  rcases h with ⟨h1, h2, h3, h4, h5, h6, h7, h8, h9, h10, h11⟩
  constructor
  all_goals
    simp only [Table.reap, Table.setProc_proc, Table.setProc_initproc, Life.Started,
      Life.Alive] at *
    grind

end

theorem exit_parent (t : Table P C) (p q : P) (W : P → Prop)
    : ((t.exit p W).proc q).parent
        = if (t.proc q).parent = some p then t.initproc else (t.proc q).parent := by
  simp only [Table.exit, Table.setProc_proc, Life.wake, Life.reparent]
  grind

theorem exit_fork (t : Table P C) (p q : P) (W : P → Prop)
    : ((t.exit p W).proc q).fork = (t.proc q).fork := by
  simp only [Table.exit, Table.setProc_proc, Life.wake, Life.reparent]
  grind

theorem exit_state_self (t : Table P C) (p : P) (W : P → Prop)
    : ((t.exit p W).proc p).state = .zombie := by
  simp [Table.exit]

theorem exit_state (t : Table P C) {p q : P} (W : P → Prop) (hq : q ≠ p) {s : ProcState}
    (hs : s = .unused ∨ s = .embryo ∨ s = .zombie)
    : ((t.exit p W).proc q).state = s ↔ (t.proc q).state = s := by
  simp only [Table.exit, Table.setProc_proc, Life.wake, Life.reparent]
  grind

theorem exit_alive (t : Table P C) {p q : P} (W : P → Prop) (hq : q ≠ p)
    : ((t.exit p W).proc q).Alive ↔ (t.proc q).Alive := by
  simp only [Table.exit, Table.setProc_proc, Life.wake, Life.reparent, Life.Alive]
  grind

theorem exit_chan (h : Family t) {p q r : P} {W : P → Prop} (hp : (t.proc p).state = .running)
    (hq : ((t.exit p W).proc q).chan = some (.proc r))
    : q ≠ p ∧ (t.proc q).chan = some (.proc r) ∧ ¬W q ∧ ((t.exit p W).proc q).state = .sleeping := by
  have := h.chan q r
  simp only [Table.exit, Table.setProc_proc, Life.wake, Life.reparent] at hq ⊢
  grind

theorem exit (h : Family t) {p : P} {W : P → Prop}
    (hp : (t.proc p).state = .running) (hfork : (t.proc p).fork = none) (hinit : t.initproc ≠ some p)
    (hparent : ∀ q, (t.proc p).parent = some q → (t.proc q).chan = some (.proc q) → W q)
    (hpass : ∀ z r, (t.proc z).parent = some p → (t.proc z).state = .zombie →
      t.initproc = some r → (t.proc r).chan = some (.proc r) → W r)
    : Family (t.exit p W) := by
  -- There is an init, as `p` is there, and it is not `p`.
  have hsome : ∃ r, t.initproc = some r := by
    cases hr : t.initproc with
    | none =>
      have := h.noInit hr p
      simp [hp] at this
    | some r => exact ⟨r, rfl⟩
  rcases hsome with ⟨r, hr⟩
  have hrp : r ≠ p := by
    intro heq
    exact hinit (heq ▸ hr)
  have hne : ∀ q s, s = .unused ∨ s = .embryo → ((t.exit p W).proc q).state = s → q ≠ p := by
    intro q s hs hq heq
    rw [heq, exit_state_self] at hq
    grind
  constructor
  . intro hnone
    change t.initproc = none at hnone
    simp [hr] at hnone
  . intro r' hr'
    change t.initproc = some r' at hr'
    rw [exit_alive]
    . exact h.initAlive r' hr'
    . intro heq
      exact hinit (heq ▸ hr')
  . intro r' hr'
    change t.initproc = some r' at hr'
    rw [exit_parent, h.initParent r' hr']
    simp
  . intro q hq
    have hqp := hne q _ (.inl rfl) hq
    rw [exit_state t W hqp (.inl rfl)] at hq
    rw [exit_parent, h.unused q hq]
    simp
  . intro q q' hq hq'
    have hqp := hne q _ (.inr rfl) hq
    rw [exit_state t W hqp (.inr (.inl rfl))] at hq
    rw [exit_parent] at hq'
    rw [exit_fork]
    split at hq'
    . next hchild => simp [h.embryo q p hq hchild] at hfork
    . exact h.embryo q q' hq hq'
  . intro q np hq
    rw [exit_fork] at hq
    rw [exit_parent, h.allocated q np hq]
    simp
  . intro q np hq
    rw [exit_fork] at hq
    have hqp : q ≠ p := by
      intro heq
      simp [heq, hfork] at hq
    rw [exit_parent, h.copied q np hq]
    simp [hqp]
  . intro q
    rw [exit_parent]
    split
    . next hchild =>
      intro heq
      have := h.initParent q heq
      simp [this] at hchild
    . exact h.irrefl q
  . intro q hq hqinit
    change t.initproc ≠ some q at hqinit
    -- Before the exit, `q` had been started already.
    have hstarted : (t.proc q).Started := by
      by_cases hqp : q = p
      . exact .inl (.inr (.inl (hqp ▸ hp)))
      . unfold Life.Started at hq ⊢
        rwa [exit_alive t W hqp, exit_state t W hqp (.inr (.inr rfl))] at hq
    rcases h.parent q hstarted hqinit with ⟨w, hw, hwalive⟩
    rw [exit_parent]
    by_cases hwp : w = p
    . rw [if_pos (hwp ▸ hw)]
      refine ⟨r, hr, ?_⟩
      rw [exit_alive t W hrp]
      exact h.initAlive r hr
    . rw [if_neg (by simp [hw, hwp])]
      refine ⟨w, hw, ?_⟩
      rwa [exit_alive t W hwp]
  . intro q q' hq
    have hold := h.exit_chan hp hq
    exact ⟨(h.chan q q' hold.2.1).1, hold.2.2.2⟩
  . intro q z hq hz hzombie
    rcases h.exit_chan hp hq with ⟨hqp, hchan, hwoken, _⟩
    rw [exit_parent] at hz
    by_cases hzp : z = p
    . -- the process that exits has woken its parent
      subst hzp
      rw [if_neg (h.irrefl z)] at hz
      exact hwoken (hparent q hz hchan)
    . rw [exit_state t W hzp (.inr (.inr rfl))] at hzombie
      split at hz
      . next hchild => exact hwoken (hpass z q hchild hzombie hz hchan)
      . exact h.waiting q z hchan hz hzombie

variable [DecidableEq C]

theorem step (h : Family t) (hforks : Forks t) (hcpu : OneCpu t) (hstep : Table.Step t l t')
    : Family t' := by
  cases hstep with
  | tau => exact h
  | boot p hinit hp => exact h.boot hinit
  | forkAlloc c p np hcur hphase hfork hnp =>
    exact h.forkAlloc hforks (hcpu.cur_running hcur hphase) hfork hnp
  | forkFail c p np hcur hphase hfork =>
    exact h.forkFail hforks (hcpu.cur_running hcur hphase) hfork
  | forkCopy c p np hcur hphase hfork =>
    exact h.forkCopy hforks (hcpu.cur_running hcur hphase) hfork
  | forkEnd c p np hcur hphase hfork =>
    exact h.forkEnd hforks (hcpu.cur_running hcur hphase) hfork
  | yield c p hlock hcur hphase =>
    have hrun := hcpu.cur_running hcur hphase
    refine of_proc_eq (h.setProc (.inr (.inl hrun)) ?_ ?_ ?_ ?_) rfl rfl
    . exact .inl rfl
    . rfl
    . rfl
    . intro q hq
      have := (h.chan p q hq).2
      simp [hrun] at this
  | sleep c p a hrun =>
    refine of_proc_eq (h.setProc (.inr (.inl (hcpu.canRun_running hrun))) ?_ ?_ ?_ ?_) rfl rfl
    . exact .inr (.inr rfl)
    . rfl
    . rfl
    . simp
  | waitSleep c p hrun hkids =>
    refine of_proc_eq (h.setProc (.inr (.inl (hcpu.canRun_running hrun))) ?_ ?_ ?_ ?_) rfl rfl
    . exact .inr (.inr rfl)
    . rfl
    . rfl
    . intro q hq
      simp only [Option.some.injEq, Chan.proc.injEq] at hq
      exact ⟨rfl, .inr ⟨hq.symm, hkids⟩⟩
  | waitReap c p z hrun hz hzombie => exact of_proc_eq (h.reap hforks hzombie) rfl rfl
  | resume c p hrun => exact h.of_proc_eq rfl rfl
  | wake W hlock => exact h.wake W
  | exit c p W hlock hcur hphase hfork hinit hparent hpass =>
    exact of_proc_eq
      (h.exit (hcpu.cur_running hcur hphase) hfork hinit hparent hpass) rfl rfl
  | dispatch c p hpick hp =>
    refine of_proc_eq (h.setProc (.inl hp) ?_ ?_ ?_ ?_) rfl rfl
    . exact .inr (.inl rfl)
    . rfl
    . rfl
    . intro q hq
      have := (h.chan p q hq).2
      simp [hp] at this
  | retire c hpick => exact h.of_proc_eq rfl rfl

end Family
end LifeCycle
end Xv6
