import Xv6.Proc.Lemmas.Holding
import Xv6.Proc.Lemmas.Pick
import Xv6.Proc.Lemmas.Refine

namespace Xv6

open Outcome

variable {n : Nat} {pr : Proc} {k? : Option QueueId}

def Proc.member (pr : Proc) : Option QueueId :=
  if pr.Ready ∧ pr.changeRunningQueue = false then pr.qType.queueId? else none

namespace Proc

theorem member_congr {pr pr' : Proc} (hstate : pr'.state = pr.state) (hqType : pr'.qType = pr.qType)
    (hflag : pr'.changeRunningQueue = pr.changeRunningQueue)
    : pr'.member = pr.member := by
  have hready : pr'.Ready ↔ pr.Ready := by
    simp [Ready, hstate]
  simp only [member, hready, hqType, hflag]

theorem member_of_ready (hready : pr.Ready) (hflag : pr.changeRunningQueue = false)
    : pr.member = pr.qType.queueId? := by
  rw [member, if_pos ⟨hready, hflag⟩]

theorem member_eq_of_ready {pr pr' : Proc} (hready : pr.Ready) (hready' : pr'.Ready)
    (hqType : pr'.qType = pr.qType) (hflag : pr'.changeRunningQueue = pr.changeRunningQueue)
    : pr'.member = pr.member := by
  simp only [member, hready, hready', hqType, hflag]

theorem member_of_not_ready (hready : ¬pr.Ready) : pr.member = none := by
  rw [member, if_neg fun h => hready h.1]

theorem member_of_flag (hflag : pr.changeRunningQueue = true) : pr.member = none := by
  rw [member, if_neg]
  simp [hflag]

end Proc

namespace Core

def waitSleeps (s : Core n) (p : ProcPtr) : Bool :=
  match s.waitScan p (List.finRange NPROC) false with
  | .found _ => false
  | .done havekids => havekids && !(s.proc p).killed

theorem waitSleeps_setProc {s : Core n} {p : ProcPtr}
    (hparent : pr.parent = (s.proc p).parent) (hstate : pr.state = (s.proc p).state)
    (hkilled : pr.killed = (s.proc p).killed)
    : (s.setProc p pr).waitSleeps p = s.waitSleeps p := by
  unfold waitSleeps
  rw [waitScan_congr (s := s)]
  . simp [hkilled]
  all_goals
    intro q
    by_cases hq : q = p
    . simp [hq, hparent, hstate]
    . simp [hq]

end Core

namespace State

variable {s s' : State n} {p : ProcPtr}

def membersBut (x : Option ProcPtr) (s : Core n) (p : ProcPtr) : Option QueueId :=
  if some p = x then none else (s.proc p).member

structure Queued (x : Option ProcPtr) (s : State n) : Prop where
  holding : Holding (membersBut x s.toCore) s
  flag : ∀ p, (s.proc p).changeRunningQueue = true → (s.proc p).state = .running
  out : ∀ p, some p = x → (s.proc p).Ready ∧ (s.proc p).changeRunningQueue = false

structure Entered (x : Option ProcPtr) (p : ProcPtr) (k? : Option QueueId) (s : State n) : Prop where
  holding : Holding (Function.update (membersBut x s.toCore) p k?) s
  flag : ∀ p, (s.proc p).changeRunningQueue = true → (s.proc p).state = .running
  out : ∀ p, some p = x → (s.proc p).Ready ∧ (s.proc p).changeRunningQueue = false

def DistinctPids (s : Core n) : Prop :=
  ∀ p q, (s.proc p).Ready → (s.proc q).Ready → (s.proc p).pid = (s.proc q).pid → p = q

def removable (s : State n) (p : ProcPtr) : Bool :=
  !(s.proc p).changeRunningQueue &&
    match (s.proc p).qType.queueId? with
    | some k => (s.entries k).length < NPROC
    | none => false

theorem removable_iff
    : s.removable p = true ↔ (s.proc p).changeRunningQueue = false
        ∧ ∃ k, (s.proc p).qType.queueId? = some k ∧ (s.entries k).length < NPROC := by
  unfold removable
  cases (s.proc p).qType.queueId? with
  | none => simp
  | some k => simp

variable {x : Option ProcPtr} {E : Halt → Prop}

namespace Queued

theorem init : Queued none (State.init (n := n)) where
  holding := by
    refine ⟨fun _ => [], lists_init, ?_⟩
    intro k p
    have hmember : (Proc.member {}) = none := by
      decide
    simp [membersBut, State.init, hmember]
  flag := by
    simp [State.init]
  out := by
    simp

section
variable (h : Queued x s)
include h

theorem of_member_eq (hqueue : s'.queue = s.queue)
    (hmember : ∀ p, some p ≠ x → (s'.proc p).member = (s.proc p).member)
    (hflag : ∀ p, (s'.proc p).changeRunningQueue = true → (s'.proc p).state = .running)
    (hout : ∀ p, some p = x → (s'.proc p).Ready ∧ (s'.proc p).changeRunningQueue = false)
    : Queued x s' where
  holding := by
    have heq : membersBut x s'.toCore = membersBut x s.toCore := by
      funext p
      unfold membersBut
      split
      . rfl
      . next hne => exact hmember p hne
    rw [heq]
    exact h.holding.of_queue_eq hqueue
  flag := hflag
  out := hout

theorem of_proc_eq {f : Core n → Core n} (hproc : (f s.toCore).proc = s.proc)
    : Queued x (s.onCore f) := by
  apply h.of_member_eq
  . funext k
    simp
  . simp [hproc]
  . simpa [hproc] using h.flag
  . simpa [hproc] using h.out

theorem setProc (hmember : some p ≠ x → pr.member = (s.proc p).member)
    (hflag : pr.changeRunningQueue = true → pr.state = .running)
    (hout : some p = x → pr.Ready ∧ pr.changeRunningQueue = false)
    : Queued x (s.setProc p pr) := by
  apply h.of_member_eq
  . funext k
    simp
  . intro q hq
    by_cases hqp : q = p
    . subst hqp
      simp [hmember hq]
    . simp [hqp]
  . intro q
    by_cases hqp : q = p
    . subst hqp
      simpa using hflag
    . simpa [hqp] using h.flag q
  . intro q
    by_cases hqp : q = p
    . subst hqp
      simpa using hout
    . simpa [hqp] using h.out q

theorem setProc_same (hstate : pr.state = (s.proc p).state)
    (hqType : pr.qType = (s.proc p).qType) (hflag : pr.changeRunningQueue = (s.proc p).changeRunningQueue)
    : Queued x (s.setProc p pr) := by
  apply h.setProc
  . intro _
    exact Proc.member_congr hstate hqType hflag
  . rw [hflag, hstate]
    exact h.flag p
  . intro hx
    rw [Proc.Ready, hflag, hstate]
    exact h.out p hx

theorem setProc_idle (hp : ¬(s.proc p).Ready) (hpr : ¬pr.Ready)
    (hflag : pr.changeRunningQueue = (s.proc p).changeRunningQueue)
    : Queued x (s.setProc p pr) := by
  have hnone : (s.proc p).changeRunningQueue ≠ true := by
    intro hset
    exact hp (.inr (h.flag p hset))
  apply h.setProc
  . intro _
    rw [Proc.member_of_not_ready hp, Proc.member_of_not_ready hpr]
  . intro hset
    exact absurd (hflag ▸ hset) hnone
  . intro hx
    exact absurd (h.out p hx).1 hp

end

theorem setProc_out (h : Queued (some p) s) (hstate : pr.state = (s.proc p).state)
    (hflag : pr.changeRunningQueue = (s.proc p).changeRunningQueue)
    : Queued (some p) (s.setProc p pr) := by
  apply h.setProc
  . intro hne
    exact absurd rfl hne
  . rw [hflag, hstate]
    exact h.flag p
  . intro hx
    rw [Proc.Ready, hflag, hstate]
    exact h.out p hx

theorem setProc_back (h : Queued (some p) s) (hpr : pr.member = none)
    (hflag : pr.changeRunningQueue = true → pr.state = .running)
    : Queued none (s.setProc p pr) where
  holding := by
    have heq : membersBut none (s.setProc p pr).toCore = membersBut (some p) s.toCore := by
      funext q
      unfold membersBut
      by_cases hqp : q = p
      . simp [hqp, hpr]
      . simp [hqp]
    rw [heq]
    apply h.holding.of_queue_eq
    funext k
    simp
  flag := by
    intro q
    by_cases hqp : q = p
    . subst hqp
      simpa using hflag
    . simpa [hqp] using h.flag q
  out := by
    simp

theorem append (h : Queued x s) (hp : membersBut x s.toCore p = none) (k : QueueId)
    : Sat E (fun s' => s'.toCore = s.toCore ∧ Entered x p (some k) s') (s.append k p) := by
  rcases h.holding.append hp k with ⟨s', hs', hcore, hholding⟩
  refine Sat.of_exists ⟨s', hs', hcore, ?_⟩
  constructor
  all_goals rw [hcore]
  . exact hholding
  . exact h.flag
  . exact h.out

theorem enqueue (h : Queued x s) (hp : membersBut x s.toCore p = none)
    : Sat E (fun s' => s'.toCore = s.toCore ∧ Entered x p (s.proc p).qType.queueId? s')
        (s.enqueue p) := by
  rcases h.holding.enqueue hp with ⟨s', hs', hcore, hholding⟩
  refine Sat.of_exists ⟨s', hs', hcore, ?_⟩
  constructor
  all_goals rw [hcore]
  . exact hholding
  . exact h.flag
  . exact h.out

theorem cleanupCorresQueue (h : Queued none s) (hready : (s.proc p).Ready)
    (hremovable : s.removable p = true) (hpids : DistinctPids s.toCore)
    : Sat E (fun s' => s'.toCore = s.toCore ∧ Queued (some p) s') (s.cleanupCorresQueue p) := by
  rcases removable_iff.mp hremovable with ⟨hflag, k, hk, hlen⟩
  have hmember : membersBut none s.toCore p = some k := by
    simp [membersBut, Proc.member_of_ready hready hflag, hk]
  -- Whoever is in a queue is ready.
  have hpid (q : ProcPtr) (hq : membersBut none s.toCore q = some k)
      (heq : (s.proc q).pid = (s.proc p).pid) : q = p := by
    refine hpids q p ?_ hready heq
    by_contra hne
    simp [membersBut, Proc.member_of_not_ready hne] at hq
  rcases h.holding.cleanupCorresQueue hmember hk (h.holding.length_lt_iff.mp hlen) hpid
    with ⟨s', hs', hcore, hholding⟩
  refine Sat.of_exists ⟨s', hs', hcore, ?_⟩
  constructor
  all_goals rw [hcore]
  . have heq : membersBut (some p) s.toCore = Function.update (membersBut none s.toCore) p none := by
      funext q
      by_cases hqp : q = p
      . simp [membersBut, hqp]
      . simp [membersBut, hqp]
    rw [heq]
    exact hholding
  . exact h.flag
  . intro q hq
    cases hq
    exact ⟨hready, hflag⟩

end Queued

namespace Entered

theorem setProc (h : Entered x p k? s) (hx : some p ≠ x)
    (hpr : pr.member = k?) (hflag : pr.changeRunningQueue = true → pr.state = .running)
    : Queued x (s.setProc p pr) where
  holding := by
    have heq : membersBut x (s.setProc p pr).toCore = Function.update (membersBut x s.toCore) p k? := by
      funext q
      by_cases hqp : q = p
      . simp [membersBut, hqp, hx, hpr]
      . simp [membersBut, hqp]
    rw [heq]
    apply h.holding.of_queue_eq
    funext k
    simp
  flag := by
    intro q
    by_cases hqp : q = p
    . subst hqp
      simpa using hflag
    . simpa [hqp] using h.flag q
  out := by
    intro q hq
    have hqp : q ≠ p := by
      intro heq
      rw [heq] at hq
      exact hx hq
    simpa [hqp] using h.out q hq

theorem back (h : Entered (some p) p k? s) (hk : (s.proc p).qType.queueId? = k?)
    : Queued none s where
  holding := by
    rcases h.out p rfl with ⟨hready, hflag⟩
    have heq : membersBut none s.toCore = Function.update (membersBut (some p) s.toCore) p k? := by
      funext q
      by_cases hqp : q = p
      . simp [membersBut, hqp, Proc.member_of_ready hready hflag, hk]
      . simp [membersBut, hqp]
    rw [heq]
    exact h.holding
  flag := h.flag
  out := by
    simp

end Entered

def ages (s : State n) (p : ProcPtr) : Bool :=
  (s.proc p).state = .runnable && AGING_BOUND < (s.proc p).waitingTime + 1 && (s.proc p).qType ≠ .rr

def cleans (s : State n) (op : Op n) (p : ProcPtr) : Bool :=
  match op with
  | .sleep c _ => (s.cpu c).proc = some p
  | .wait c => (s.cpu c).proc = some p && s.waitSleeps p
  | .afterSwtch c =>
    (s.cpu c).proc = some p && (s.proc p).context = .wait && s.waitSleeps p
  | .exit c => (s.cpu c).proc = some p && s.initproc ≠ some p
  | .agingMechanism _ => s.ages p
  | .changeQueue _ pid queueID _ =>
    (SchedQ.ofInt? queueID).isSome && s.toCore.findProc (fun pr => pr.pid = pid) = some p
      && (s.proc p).Ready
  | _ => false

theorem entries_setProc : (s.setProc p pr).entries = s.entries := by
  funext k
  simp [entries]

theorem removable_setProc_same (hqType : pr.qType = (s.proc p).qType)
    (hflag : pr.changeRunningQueue = (s.proc p).changeRunningQueue)
    : (s.setProc p pr).removable p = s.removable p := by
  unfold removable
  simp [hqType, hflag, entries_setProc]

theorem DistinctPids.congr {s s' : Core n} (h : DistinctPids s)
    (hstate : ∀ p, (s'.proc p).state = (s.proc p).state) (hpid : ∀ p, (s'.proc p).pid = (s.proc p).pid)
    : DistinctPids s' := by
  intro p q hp hq heq
  rw [Proc.Ready, hstate] at hp hq
  rw [hpid, hpid] at heq
  exact h p q hp hq heq

theorem DistinctPids.setProc {s : Core n} (h : DistinctPids s)
    (hstate : pr.state = (s.proc p).state) (hpid : pr.pid = (s.proc p).pid)
    : DistinctPids (s.setProc p pr) := by
  apply h.congr
  all_goals
    intro q
    by_cases hq : q = p
    . simp [hq, hstate, hpid]
    . simp [hq]

theorem DistinctPids.aged {s : Core n} (h : DistinctPids s) (done : List ProcPtr)
    : DistinctPids (aged s done) := by
  apply h.congr
  all_goals
    intro q
    simp only [State.aged, Core.mapProc_proc, Proc.age]
    split
    . split
      all_goals rfl
    . rfl

def Excused (e : Halt) : Prop :=
  ∀ m, e = .panic m → m = .initExiting ∨ m = .userinitAllocprocFailed

namespace Queued

theorem not_ready_of_sleeping (hsleep : (s.proc p).state = .sleeping) : ¬(s.proc p).Ready := by
  simp [Proc.Ready, hsleep]

theorem flag_of_not_ready (h : Queued x s) (hp : ¬(s.proc p).Ready)
    : (s.proc p).changeRunningQueue = false := by
  rw [← Bool.not_eq_true]
  intro hset
  exact hp (.inr (h.flag p hset))

def Arrived (x : Option ProcPtr) (p : ProcPtr) (k? : Option QueueId) (s : State n) : Prop :=
  ∀ pr : Proc, pr.Ready → pr.changeRunningQueue = (s.proc p).changeRunningQueue →
    pr.qType.queueId? = k? → Queued x (s.setProc p pr)

theorem arrived (h : Queued x s) (hp : ¬(s.proc p).Ready)
    (hcore : s'.toCore = s.toCore) (hentered : Entered x p k? s')
    : Arrived x p k? s' := by
  intro pr hready hflag hqType
  rw [hcore, h.flag_of_not_ready hp] at hflag
  apply hentered.setProc fun heq => hp (h.out p heq).1
  . rw [Proc.member_of_ready hready hflag, hqType]
  . simp [hflag]

theorem membersBut_of_not_ready (hp : ¬(s.proc p).Ready) : membersBut x s.toCore p = none := by
  unfold membersBut
  split
  . rfl
  . exact Proc.member_of_not_ready hp

section
variable (h : Queued x s)
include h

theorem enqueue_idle (hp : ¬(s.proc p).Ready)
    : Sat E (fun s' => s'.toCore = s.toCore ∧ Arrived x p (s.proc p).qType.queueId? s')
        (s.enqueue p) := by
  refine Sat.mono (h.enqueue (membersBut_of_not_ready hp)) (fun _ he => he) ?_
  rintro s' ⟨hcore, hentered⟩
  exact ⟨hcore, h.arrived hp hcore hentered⟩

theorem append_idle (hp : ¬(s.proc p).Ready) (k : QueueId)
    : Sat E (fun s' => s'.toCore = s.toCore ∧ Arrived x p (some k) s') (s.append k p) := by
  refine Sat.mono (h.append (membersBut_of_not_ready hp) k) (fun _ he => he) ?_
  rintro s' ⟨hcore, hentered⟩
  exact ⟨hcore, h.arrived hp hcore hentered⟩

theorem wakeup1_body (chan : Option (Chan ProcPtr)) (p : ProcPtr)
    : Sat E (Queued x) (wakeup1.body chan s p) := by
  unfold wakeup1.body
  split
  . next hcond =>
    refine Sat.bind (h.enqueue_idle (not_ready_of_sleeping hcond.1)) ?_
    rintro s1 ⟨hcore, h1⟩
    refine h1 _ (.inl rfl) rfl ?_
    rw [hcore]
  . exact h

theorem wakeup1 (chan : Option (Chan ProcPtr))
    : Sat E (Queued x) (s.wakeup1 chan) := by
  apply Sat.foldlM_const h
  intro p s' _ hs'
  exact hs'.wakeup1_body chan p

theorem exit_body (p z : ProcPtr) : Sat E (Queued x) (exit.body p s z) := by
  unfold exit.body
  split
  . have hset : Queued x (s.setProc z { s.proc z with parent := s.initproc }) :=
      h.setProc_same rfl rfl rfl
    dsimp only
    split
    . exact hset.wakeup1 _
    . exact hset
  . exact h

end

theorem setProc_stop (h : Queued (some p) s) (hpr : ¬pr.Ready)
    (hflag : pr.changeRunningQueue = (s.proc p).changeRunningQueue)
    : Queued none (s.setProc p pr) := by
  apply h.setProc_back (Proc.member_of_not_ready hpr)
  simp [hflag, (h.out p rfl).2]

section
variable (h : Queued none s)
include h

theorem exit (c : Fin n) (hready : (s.proc p).Ready)
    (hremovable : s.initproc ≠ some p → s.removable p = true) (hpids : DistinctPids s.toCore)
    : Sat Excused (Queued none) (s.exit c p) := by
  unfold State.exit
  split
  . intro m hm
    cases hm
    exact .inl rfl
  . next hinit =>
    have hremovable := hremovable fun heq => hinit heq.symm
    refine Sat.bind (h.cleanupCorresQueue hready hremovable hpids) ?_
    rintro s1 ⟨_, h1⟩
    refine Sat.bind (h1.wakeup1 _) ?_
    intro s2 h2
    refine Sat.bind (Sat.foldlM_const h2 ?_) ?_
    . intro z s' _ hs'
      exact hs'.exit_body p z
    . intro s3 h3
      refine of_proc_eq (s := s3.setProc p _) ?_ rfl
      exact h3.setProc_stop (by simp [Proc.Ready]) rfl

theorem sleep (c : Fin n) (hready : (s.proc p).Ready)
    (hremovable : s.removable p = true) (hpids : DistinctPids s.toCore) (chan : Chan ProcPtr) (ctx : Context)
    : Sat E (Queued none) (s.sleep c p chan ctx) := by
  unfold State.sleep
  refine Sat.bind (h.cleanupCorresQueue hready hremovable hpids) ?_
  rintro s1 ⟨_, h1⟩
  refine of_proc_eq (s := s1.setProc p _) ?_ rfl
  exact h1.setProc_stop (by simp [Proc.Ready]) rfl

theorem wait (c : Fin n) (hready : (s.proc p).Ready)
    (hremovable : s.waitSleeps p = true → s.removable p = true) (hpids : DistinctPids s.toCore)
    : Sat E (Queued none) (s.wait c p) := by
  unfold State.wait
  unfold Core.waitSleeps at hremovable
  cases hscan : s.toCore.waitScan p (List.finRange NPROC) false with
  | found z =>
    rcases Core.waitScan_found hscan with ⟨_, hzombie⟩
    dsimp only
    rw [sat_ok]
    refine of_proc_eq (f := (Core.resume · c)) (s := (s.setProc z _).setProc p _) ?_ rfl
    refine setProc_same (s := s.setProc z _) ?_ rfl rfl rfl
    apply h.setProc_idle
    . simp [Proc.Ready, hzombie]
    . simp [Proc.Ready]
    . rfl
  | done havekids =>
    rw [hscan] at hremovable
    dsimp only at hremovable ⊢
    split
    . rw [sat_ok]
      refine of_proc_eq (f := (Core.resume · c)) (s := s.setProc p _) ?_ rfl
      exact h.setProc_same rfl rfl rfl
    . next hcond =>
      apply h.sleep c hready (hremovable ?_) hpids
      simpa using hcond

theorem kill (pid : Int)
    : Sat E (fun r => Queued none r.1) (s.kill pid) := by
  unfold State.kill
  split
  . exact h
  . next p hp =>
    have h1 : Queued none (s.setProc p { s.proc p with killed := true }) := h.setProc_same rfl rfl rfl
    dsimp only
    split
    . next hsleep =>
      refine Sat.bind (h1.enqueue_idle (not_ready_of_sleeping hsleep)) ?_
      rintro s2 ⟨hcore, h2⟩
      refine h2 _ (.inl rfl) rfl ?_
      rw [hcore]
    . exact h1

theorem yield_applyChange (hrun : (s.proc p).state = .running)
    : Sat E (fun s' => Queued none s'
          ∧ s'.proc p = { s.proc p with changeRunningQueue := false })
        (yield.applyChange s p) := by
  unfold yield.applyChange
  split
  . next hflag =>
    have hmember : membersBut none s.toCore p = none := by
      simp [membersBut, Proc.member_of_flag hflag]
    refine Sat.bind (h.enqueue hmember) ?_
    rintro s1 ⟨hcore, h1⟩
    refine ⟨?_, ?_⟩
    . apply h1.setProc (by simp)
      . rw [hcore]
        exact Proc.member_of_ready (.inr hrun) rfl
      . simp
    . simp [hcore]
  . next hflag =>
    rw [Bool.not_eq_true] at hflag
    refine ⟨h, ?_⟩
    rw [← hflag]

theorem yield (c : Fin n) (hrun : (s.proc p).state = .running)
    : Sat E (Queued none) (s.yield c p) := by
  unfold State.yield
  have h1 : Queued none (s.setProc p { s.proc p with runningTicks := 0 }) :=
    h.setProc_same rfl rfl rfl
  have h2 : Queued none (yield.count (s.setProc p { s.proc p with runningTicks := 0 }) p) := by
    unfold yield.count
    split
    . exact h1.of_proc_eq rfl
    . exact h1
  refine Sat.bind (h2.yield_applyChange (p := p) ?_) ?_
  . simp [yield_count_toCore, hrun]
  . rintro s3 ⟨h3, hp⟩
    refine of_proc_eq (s := s3.setProc p _) ?_ rfl
    have hrun3 : (s3.proc p).state = .running := by
      rw [hp]
      simp [yield_count_toCore, hrun]
    have hflag3 : (s3.proc p).changeRunningQueue = false := by
      rw [hp]
    apply h3.setProc
    . intro _
      exact Proc.member_eq_of_ready (.inr hrun3) (.inl rfl) rfl rfl
    . simp [hflag3]
    . simp

theorem agingMechanism_body (hpids : DistinctPids s.toCore)
    (hremovable : s.ages p = true → s.removable p = true)
    : Sat E (Queued none) (agingMechanism.body s p) := by
  unfold agingMechanism.body
  split
  . next hrun =>
    have h1 : Queued none (s.setProc p { s.proc p with waitingTime := (s.proc p).waitingTime + 1 }) :=
      h.setProc_same rfl rfl rfl
    dsimp only
    split
    . next hage =>
      simp only [setProc_toCore, Core.setProc_proc, if_true] at hage
      refine Sat.bind (h1.cleanupCorresQueue (p := p) ?_ ?_ ?_) ?_
      . simp [Proc.Ready, hrun]
      . rw [removable_setProc_same]
        . apply hremovable
          simp [ages, hrun, hage]
        all_goals rfl
      . exact hpids.setProc rfl rfl
      . rintro s2 ⟨hcore, h2⟩
        have h3 : Queued (some p) (s2.setProc p { s2.proc p with qType := .rr }) :=
          h2.setProc_out rfl rfl
        refine Sat.mono (h3.append (p := p) ?_ .rr) (fun _ he => he) ?_
        . simp [membersBut]
        . rintro s4 ⟨hcore4, h4⟩
          apply h4.back
          simp [hcore4, SchedQ.queueId?]
    . exact h1
  . exact h

end

theorem member_age_ne {k : QueueId} (hk : k ≠ .rr) (h : pr.member ≠ some k)
    : pr.age.member ≠ some k := by
  unfold Proc.age
  split
  . next hrun =>
    by_cases hbound : AGING_BOUND < pr.waitingTime + 1
    . intro heq
      have hrr : Proc.member { pr with waitingTime := pr.waitingTime + 1, qType := .rr } = some k := by
        simpa [hbound] using heq
      unfold Proc.member at hrr
      split at hrr
      . exact hk (Option.some.inj hrr).symm
      . cases hrr
    . rw [Proc.member_congr]
      . exact h
      . rfl
      . simp [hbound]
      . rfl
  . exact h

theorem agingMechanism (h : Queued none s) (hpids : DistinctPids s.toCore)
    (hremovable : ∀ p, s.ages p = true → s.removable p = true)
    : Sat E (Queued none) s.agingMechanism := by
  have hloop := Sat.foldlM (E := E)
    (fun done s' => Queued none s' ∧ s'.toCore = aged s.toCore done)
    (f := agingMechanism.body) (List.finRange NPROC) [] s
  refine Sat.mono (hloop ⟨h, (aged_nil s.toCore).symm⟩ ?_) (fun _ he => he) (fun _ hs => hs.1)
  rintro pre p post s1 hsplit ⟨h1, hcore1⟩
  have hp := nodup_split (by simpa using hsplit)
  have hp1 : s1.proc p = s.proc p := by
    simp [hcore1, aged, hp]
  have hbody : Sat E (Queued none) (agingMechanism.body s1 p) := by
    apply h1.agingMechanism_body
    . rw [hcore1]
      exact hpids.aged pre
    . intro hages
      have hages : s.ages p = true := by
        simpa [ages, hp1] using hages
      rcases removable_iff.mp (hremovable p hages) with ⟨hflag, k, hk, hlen⟩
      rw [removable_iff, hp1]
      refine ⟨hflag, k, hk, ?_⟩
      -- Some process was not in queue `k`, and aging did not put it there.
      have hkrr : k ≠ .rr := by
        rintro rfl
        cases hq : (s.proc p).qType
        all_goals simp [ages, hq, SchedQ.queueId?] at hages hk
      rcases h.holding.length_lt_iff.mp hlen with ⟨q, hq⟩
      rw [h1.holding.length_lt_iff]
      refine ⟨q, ?_⟩
      simp only [membersBut, hcore1, aged, Core.mapProc_proc, reduceCtorEq, if_false] at hq ⊢
      split
      . exact member_age_ne hkrr hq
      . exact hq
  cases hres : agingMechanism.body s1 p with
  | error e =>
    rw [hres] at hbody
    exact hbody
  | ok s2 =>
    rw [hres] at hbody
    exact ⟨hbody, agingMechanism_body_aged hcore1 hp hres⟩

theorem changeQueue_leave (h : Queued none s) (hpids : DistinctPids s.toCore)
    (hremovable : (s.proc p).Ready → s.removable p = true)
    : Sat E
        (fun s1 => s1.toCore = s.toCore ∧ Queued (if (s.proc p).Ready then some p else none) s1)
        (changeQueue.leave s p) := by
  unfold changeQueue.leave
  by_cases hready : (s.proc p).Ready
  . rw [if_pos hready, if_pos (Or.symm hready)]
    exact h.cleanupCorresQueue hready (hremovable hready) hpids
  . rw [if_neg hready, if_neg fun hor => hready (Or.symm hor)]
    exact ⟨rfl, h⟩

theorem changeQueue_enter (h : Queued (if (s.proc p).Ready then some p else none) s) (q : SchedQ)
    : Sat E (fun s' => Queued none (changeQueue.defer s' p)) (changeQueue.enter s p q) := by
  unfold changeQueue.enter changeQueue.defer
  dsimp only
  by_cases hready : (s.proc p).Ready
  . rw [if_pos hready] at h
    have h1 : Queued (some p) (s.setProc p { s.proc p with qType := q }) := h.setProc_out rfl rfl
    split
    . next hrun =>
      refine Sat.mono (h1.enqueue (p := p) ?_) (fun _ he => he) ?_
      . simp [membersBut]
      . rintro s2 ⟨hcore, h2⟩
        rw [if_neg]
        . apply h2.back
          rw [hcore]
        . rw [hcore, hrun]
          simp
    . next hrun =>
      simp only [setProc_toCore, Core.setProc_proc, if_true] at hrun
      have hrunning := hready.resolve_left hrun
      rw [sat_ok, if_pos]
      . apply h1.setProc_back
        . exact Proc.member_of_flag rfl
        . simp [hrunning]
      . simp [hrunning]
  . rw [if_neg hready] at h
    have h1 : Queued none (s.setProc p { s.proc p with qType := q }) :=
      h.setProc_idle hready hready rfl
    simp only [setProc_toCore, Core.setProc_proc, if_true]
    rw [if_neg fun hrun => hready (.inl hrun), sat_ok, if_neg]
    . exact h1
    . intro hrun
      apply hready
      right
      simpa using hrun

section
variable (h : Queued none s)
include h

theorem changeQueue (hpids : DistinctPids s.toCore) {pid beyond : Int} {q : SchedQ}
    (hremovable : ∀ p, s.toCore.findProc (fun pr => pr.pid = pid) = some p → (s.proc p).Ready →
      s.removable p = true)
    : Sat Excused (Queued none) (s.changeQueue pid q beyond) := by
  unfold State.changeQueue
  split
  . split
    . exact h
    . intro m hm
      cases hm
  . next p hp =>
    refine Sat.bind (h.changeQueue_leave hpids (hremovable p hp)) ?_
    rintro s1 ⟨hcore, h1⟩
    rw [← hcore] at h1
    refine Sat.bind (changeQueue_enter h1 q) ?_
    intro s2 h2
    exact h2

theorem forkEnqueue {np : ProcPtr} (hnp : (s.proc np).state = .embryo)
    : Sat E (Queued none) (s.forkEnqueue p np) := by
  have hready : ¬(s.proc np).Ready := by
    simp [Proc.Ready, hnp]
  unfold State.forkEnqueue
  have h1 : Queued none (s.setProc np { s.proc np with qType := .lcfs }) :=
    h.setProc_idle hready hready rfl
  refine Sat.bind (h1.append_idle (p := np) ?_ .lcfs) ?_
  . simp [Proc.Ready, hnp]
  . rintro s2 ⟨_, h2⟩
    refine setProc_same (s := s2.setProc np _) ?_ rfl rfl rfl
    exact h2 _ (.inl rfl) rfl rfl

theorem allocproc {p : ProcPtr} {core : Core n}
    (halloc : s.toCore.allocproc = some (p, core))
    : Queued none (s.onCore fun _ => core) := by
  rcases Core.allocproc_eq_some halloc with ⟨hp, rfl⟩
  have h1 : Queued none (s.setProc p
      { s.proc p with state := .embryo, pid := s.nextpid, fork := none }) := by
    apply h.setProc_idle
    . simp [Proc.Ready, hp]
    . simp [Proc.Ready]
    . rfl
  exact h1.of_proc_eq (f := fun s1 => { s1 with nextpid := int32 (s.nextpid + 1) }) rfl

theorem initStack (p : ProcPtr) : Queued none (s.onCore (Core.initStack · p)) :=
  h.setProc_same (s := s) rfl rfl rfl

theorem userinit : Sat Excused (Queued none) s.userinit := by
  unfold State.userinit
  split
  . intro m hm
    cases hm
    exact .inr rfl
  . next p core halloc =>
    have hstate : (core.proc p).state = .embryo := by
      rcases Core.allocproc_eq_some halloc with ⟨_, rfl⟩
      simp
    have h1 := (h.allocproc halloc).initStack p
    have h2 := h1.of_proc_eq (f := fun s1 => { s1 with initproc := some p }) rfl
    have hidle : ¬((core.initStack p).proc p).Ready := by
      simp [Proc.Ready, Core.initStack, hstate]
    have h3 : Queued none
        (State.setProc _ p { (core.initStack p).proc p with eax := 0, qType := .lcfs }) :=
      h2.setProc_idle hidle hidle rfl
    refine Sat.bind (h3.append_idle (p := p) ?_ .lcfs) ?_
    . simp [Proc.Ready, Core.initStack, hstate]
    . rintro s4 ⟨hcore, h4⟩
      refine h4 _ (.inl rfl) rfl ?_
      simp [hcore, SchedQ.queueId?]

theorem forkNoStack (p : ProcPtr) {np : ProcPtr} (hnp : (s.proc np).state = .embryo)
    : Queued none (s.forkNoStack p np) := by
  have h1 : Queued none (s.setProc np { s.proc np with state := .unused }) := by
    apply h.setProc_idle
    . simp [Proc.Ready, hnp]
    . simp [Proc.Ready]
    . rfl
  exact h1.setProc_same rfl rfl rfl

theorem forkAlloc (p : ProcPtr) : Queued none (s.forkAlloc p) := by
  unfold State.forkAlloc
  split
  . exact h.setProc_same rfl rfl rfl
  . next np core halloc => exact (h.allocproc halloc).setProc_same rfl rfl rfl

theorem changeGlobalBjf (pRatio aRatio eRatio sRatio : Int)
    : Queued none (s.changeGlobalBjf pRatio aRatio eRatio sRatio).1 := by
  apply h.of_member_eq
  . funext k
    simp [State.changeGlobalBjf]
  . intro p _
    exact Proc.member_congr rfl rfl rfl
  . exact h.flag
  . exact h.out

theorem lists : s.Lists s.entries := by
  rcases h.holding with ⟨L, hlists, _⟩
  rw [hlists.entries_eq]
  exact hlists

theorem ready_of_mem {k : QueueId} (hp : p ∈ s.entries k) : (s.proc p).Ready := by
  by_contra hready
  have hmember := h.holding.mem_entries.mp hp
  rw [membersBut_of_not_ready hready] at hmember
  cases hmember

theorem schedulerPick : Sat E (fun _ => True) s.schedulerPick := by
  have hlists := h.lists
  cases hp : s.inspected s.entries with
  | none =>
    rw [hlists.schedulerPick_of_not_inspected hp]
    trivial
  | some p =>
    have hmem : ∃ k, p ∈ s.entries k := by
      unfold inspected at hp
      split at hp
      . exact ⟨.rr, List.mem_of_getElem? hp⟩
      . exact ⟨.lcfs, List.mem_of_getLast? hp⟩
    rcases hmem with ⟨k, hk⟩
    rw [hlists.schedulerPick_of_inspected hp, if_pos (h.ready_of_mem hk)]
    trivial

theorem dispatch {c : Fin n} {p : ProcPtr} {site : Site} (hp : (s.proc p).state = .runnable)
    : Queued none (s.onCore (Core.dispatch · c p site)) := by
  have h1 : Queued none (s.setProc p { s.proc p with waitingTime := 0, state := .running }) := by
    apply h.setProc
    . intro _
      exact Proc.member_eq_of_ready (.inl hp) (.inr rfl) rfl rfl
    . simp
    . simp
  exact h1.of_proc_eq
    (f := fun s => { s.setCpu c { proc := some p, mode := .dispatched, site := site } with
      lock := some c }) rfl

theorem scheduler (c : Fin n) : Sat E (Queued none) (s.scheduler c) := by
  apply scheduler_sat h.schedulerPick
  . intro p site hp
    exact h.dispatch hp
  . exact h.of_proc_eq rfl

end

end Queued

theorem Queued.finish {E : Halt → Prop} {x : Except Halt (State n × Int)}
    (h : Sat E (fun r => Queued none r.1) x)
    : Sat E (Queued none) (finish p <$> x) := by
  cases x with
  | error e => exact h
  | ok r => exact Queued.setProc_same h rfl rfl rfl

theorem Taken.queued {op : Op n} {r : Except Halt (State n)} (h : Taken s op r) (hq : Queued none s)
    (hlife : LifeCycleInv s) (hpids : DistinctPids s.toCore)
    (hok : ∀ p, s.cleans op p = true → s.removable p = true)
    : Sat Excused (Queued none) r := by
  have hembryo {c : Fin n} {p np : ProcPtr} {st : ForkStage} (hb : s.Builds c p np st)
      : (s.proc np).state = .embryo :=
    hlife.forks.embryo p np st hb.fork
  have hcalls {c : Fin n} {p : ProcPtr} (hc : s.Calls c p) : (s.proc p).Ready :=
    .inr (hlife.oneCpu.canRun_running (Core.canRun_of_calls hc))
  cases h with
  | userinit hlock hinit => exact hq.userinit
  | scheduler c hlock hmode => exact hq.scheduler c
  | schedulerReturn c p hmode hcur =>
    rw [sat_ok]
    rcases schedulerReturn_cases s c with ⟨p, site, hp, heq⟩ | heq
    . rw [heq]
      exact hq.dispatch hp
    . rw [heq]
      exact hq.of_proc_eq rfl
  | afterSwtch c p hmode hcur =>
    have hrun : (s.proc p).state = .running := by
      apply hlife.oneCpu.running c p hcur
      simp [hmode, Mode.phase]
    have hclear : Queued none (s.setProc p { s.proc p with chan := none }) :=
      hq.setProc_same rfl rfl rfl
    unfold State.afterSwtch
    split
    . exact hq.of_proc_eq rfl
    . exact hq.of_proc_eq rfl
    . exact hclear.of_proc_eq rfl
    . next hctx =>
      refine hclear.wait c ?_ ?_ ?_
      . simp [Proc.Ready, hrun]
      . intro hsleeps
        rw [removable_setProc_same]
        . apply hok
          rw [setProc_toCore, Core.waitSleeps_setProc] at hsleeps
          . simp [cleans, hcur, hctx, hsleeps]
          all_goals rfl
        all_goals rfl
      . exact hpids.setProc rfl rfl
  | trapTimer c p hmode hcur =>
    rw [sat_ok]
    have htick : Queued none
        (s.setProc p { s.proc p with runningTicks := (s.proc p).runningTicks + 1 }) :=
      hq.setProc_same rfl rfl rfl
    unfold State.trapTimer
    split
    . dsimp only
      split
      . exact htick.of_proc_eq rfl
      . exact htick
    . exact hq
  | yield c p hlock hmode hcur =>
    apply hq.yield c
    apply hlife.oneCpu.running c p hcur
    simp [hmode, Mode.phase]
  | sleep c a p hc => exact hq.sleep c (hcalls hc) (hok p (by simp [cleans, hc.cur])) hpids _ _
  | wait c p hc =>
    apply hq.wait c (hcalls hc) _ hpids
    intro hsleeps
    exact hok p (by simp [cleans, hc.cur, hsleeps])
  | exit c p hc =>
    apply hq.exit c (hcalls hc) _ hpids
    intro hinit
    exact hok p (by simp [cleans, hc.cur, hinit])
  | forkAlloc c p hc => exact hq.forkAlloc p
  | forkNoStack c p np hb => exact hq.forkNoStack p (hembryo hb)
  | forkNoMemory c p np hb =>
    apply (hq.initStack np).forkNoStack p
    simp [Core.initStack, hembryo hb]
  | forkCopy c p np hb =>
    apply Queued.setProc_same
    . exact (hq.initStack np).setProc_same rfl rfl rfl
    all_goals rfl
  | forkEnqueue c p np hlock hb => exact hq.forkEnqueue (hembryo hb)
  | kill c pid p hc => exact Queued.finish (hq.kill pid)
  | wakeup a hlock => exact hq.wakeup1 _
  | tick c hc => exact hq.of_proc_eq rfl
  | agingMechanism c hc hlock => exact hq.agingMechanism hpids hok
  | changeQueue c pid queueID beyond p hc =>
    apply Queued.finish
    unfold State.sysChangeQueue
    split
    . exact hq
    . next q hofInt =>
      refine Sat.bind (hq.changeQueue hpids ?_) (fun _ hs => hs)
      intro p' hfind hready
      exact hok p' (by simp [cleans, hofInt, hfind, hready])
  | changeLocalBjf c pid pRatio aRatio eRatio sRatio p hc =>
    apply Queued.finish
    unfold State.changeLocalBjf
    split
    . intro m hm
      cases hm
    . exact hq.setProc_same rfl rfl rfl
  | changeGlobalBjf c pRatio aRatio eRatio sRatio p hc =>
    exact (hq.changeGlobalBjf pRatio aRatio eRatio sRatio).setProc_same rfl rfl rfl

theorem Taken.ready_of_cleans {op : Op n} {r : Except Halt (State n)} (h : Taken s op r)
    (hlife : LifeCycleInv s) (hcleans : s.cleans op p = true)
    : (s.proc p).Ready := by
  have hcalls {c : Fin n} {q : ProcPtr} (hc : s.Calls c q) (hp : (s.cpu c).proc = some p)
      : (s.proc p).Ready := by
    rw [hc.cur] at hp
    cases hp
    exact .inr (hlife.oneCpu.canRun_running (Core.canRun_of_calls hc))
  cases h with
  | sleep c a q hc => exact hcalls hc (by simpa [cleans] using hcleans)
  | wait c q hc =>
    simp only [cleans, Bool.and_eq_true, decide_eq_true_eq] at hcleans
    exact hcalls hc hcleans.1
  | exit c q hc =>
    simp only [cleans, Bool.and_eq_true, decide_eq_true_eq] at hcleans
    exact hcalls hc hcleans.1
  | afterSwtch c q hmode hcur =>
    simp only [cleans, Bool.and_eq_true, decide_eq_true_eq] at hcleans
    right
    apply hlife.oneCpu.running c p hcleans.1.1
    simp [hmode, Mode.phase]
  | agingMechanism c hc hlock =>
    simp only [cleans, ages, Bool.and_eq_true, decide_eq_true_eq] at hcleans
    exact .inl hcleans.1.1
  | changeQueue c pid queueID beyond q hc =>
    simp only [cleans, Bool.and_eq_true, decide_eq_true_eq] at hcleans
    exact hcleans.2
  | _ => cases hcleans

end State
end Xv6
