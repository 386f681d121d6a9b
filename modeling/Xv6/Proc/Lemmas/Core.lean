import Xv6.Lib.Outcome
import Xv6.Proc.Impl.Step

namespace Xv6

open Outcome

variable {n : Nat} {s s' : State n} {p : ProcPtr} {todo : List ProcPtr} {c : Fin n}

namespace Core

@[simp]
theorem setProc_proc (s : Core n) (p q : ProcPtr) (pr : Proc)
    : (s.setProc p pr).proc q = if q = p then pr else s.proc q := by
  rfl

@[simp]
theorem setProc_cpu (s : Core n) (p : ProcPtr) (pr : Proc) : (s.setProc p pr).cpu = s.cpu := by
  rfl

@[simp]
theorem setProc_initproc (s : Core n) (p : ProcPtr) (pr : Proc)
    : (s.setProc p pr).initproc = s.initproc := by
  rfl

@[simp]
theorem setProc_ticks (s : Core n) (p : ProcPtr) (pr : Proc)
    : (s.setProc p pr).ticks = s.ticks := by
  rfl

@[simp]
theorem setProc_setProc (s : Core n) (p : ProcPtr) (pr pr' : Proc)
    : (s.setProc p pr).setProc p pr' = s.setProc p pr' := by
  unfold setProc
  congr 1
  funext q
  dsimp only
  split
  all_goals rfl

theorem setProc_self {s : Core n} {pr : Proc} (h : pr = s.proc p)
    : s.setProc p pr = s := by
  subst h
  unfold setProc
  congr 1
  funext q
  split
  . next hq => rw [hq]
  . rfl

def mapProc (s : Core n) (f : ProcPtr → Proc → Proc) : Core n :=
  { s with proc := fun p => f p (s.proc p) }

@[simp]
theorem mapProc_proc (s : Core n) (f : ProcPtr → Proc → Proc) (p : ProcPtr)
    : (s.mapProc f).proc p = f p (s.proc p) := by
  rfl

@[simp]
theorem mapProc_initproc (s : Core n) (f : ProcPtr → Proc → Proc)
    : (s.mapProc f).initproc = s.initproc := by
  rfl

theorem mapProc_congr {s : Core n} {f g : ProcPtr → Proc → Proc} (h : ∀ p, f p (s.proc p) = g p (s.proc p))
    : s.mapProc f = s.mapProc g := by
  unfold mapProc
  congr 1
  funext p
  exact h p

theorem mapProc_self {s : Core n} {f : ProcPtr → Proc → Proc} (h : ∀ p, f p (s.proc p) = s.proc p)
    : s.mapProc f = s := by
  unfold mapProc
  simp only [h]

theorem mapProc_mapProc (s : Core n) (f g : ProcPtr → Proc → Proc)
    : (s.mapProc f).mapProc g = s.mapProc fun p pr => g p (f p pr) := by
  rfl

theorem setProc_eq_mapProc (s : Core n) (p : ProcPtr) (pr : Proc)
    : s.setProc p pr = s.mapProc fun q pr' => if q = p then pr else pr' := by
  rfl

end Core

namespace State

@[simp]
theorem onCore_toCore (s : State n) (f : Core n → Core n) : (s.onCore f).toCore = f s.toCore := by
  rfl

@[simp]
theorem setProc_toCore (s : State n) (p : ProcPtr) (pr : Proc)
    : (s.setProc p pr).toCore = s.toCore.setProc p pr := by
  rfl

@[simp]
theorem setQueue_toCore (s : State n) (k : QueueId) (q : Queue)
    : (s.setQueue k q).toCore = s.toCore := by
  cases k
  all_goals rfl

@[simp]
theorem onCore_queue (s : State n) (f : Core n → Core n) (k : QueueId)
    : (s.onCore f).queue k = s.queue k := by
  cases k
  all_goals rfl

@[simp]
theorem setProc_queue (s : State n) (p : ProcPtr) (pr : Proc) (k : QueueId)
    : (s.setProc p pr).queue k = s.queue k := by
  cases k
  all_goals rfl

@[simp]
theorem setQueue_queue (s : State n) (k k' : QueueId) (q : Queue)
    : (s.setQueue k q).queue k' = if k' = k then q else s.queue k' := by
  cases k
  all_goals
    cases k'
    all_goals rfl

theorem append_toCore {k : QueueId} (h : s.append k p = .ok s')
    : s'.toCore = s.toCore := by
  unfold append at h
  rcases bind_eq_ok.mp h with ⟨q, _, hq⟩
  cases hq
  simp

theorem enqueue_toCore (h : s.enqueue p = .ok s')
    : s'.toCore = s.toCore := by
  unfold enqueue at h
  split at h
  . exact append_toCore h
  . cases h
    rfl

theorem cleanupCorresQueue_toCore (h : s.cleanupCorresQueue p = .ok s')
    : s'.toCore = s.toCore := by
  unfold cleanupCorresQueue at h
  split at h
  . split at h
    . cases h
    . rcases bind_eq_ok.mp h with ⟨q, _, hq⟩
      cases hq
      simp
  . cases h

end State

open Classical in
noncomputable def Proc.wakeIf (pr : Proc) (w : Prop) : Proc :=
  if w ∧ pr.state = .sleeping then { pr with state := .runnable } else pr

namespace Proc

theorem wakeIf_wakeIf (pr : Proc) (w w' : Prop) : (pr.wakeIf w).wakeIf w' = pr.wakeIf (w ∨ w') := by
  unfold wakeIf
  grind

@[simp]
theorem wakeIf_false (pr : Proc) : pr.wakeIf False = pr := by
  simp [wakeIf]

theorem wakeIf_of_awake {pr : Proc} (h : pr.state ≠ .sleeping) (w : Prop) : pr.wakeIf w = pr := by
  simp [wakeIf, h]

theorem wakeIf_field {α : Type} {g : Proc → α} (h : ∀ pr st, g { pr with state := st } = g pr)
    (pr : Proc) (w : Prop)
    : g (pr.wakeIf w) = g pr := by
  unfold wakeIf
  split
  . exact h pr .runnable
  . rfl

@[simp]
theorem wakeIf_chan (pr : Proc) (w : Prop) : (pr.wakeIf w).chan = pr.chan :=
  wakeIf_field (fun _ _ => rfl) pr w

@[simp]
theorem wakeIf_parent (pr : Proc) (w : Prop) : (pr.wakeIf w).parent = pr.parent :=
  wakeIf_field (fun _ _ => rfl) pr w

theorem wakeIf_zombie (pr : Proc) (w : Prop) : (pr.wakeIf w).state = .zombie ↔ pr.state = .zombie := by
  unfold wakeIf
  split
  . next h => simp [h.2]
  . rfl

def reparent (pr : Proc) (p : ProcPtr) (r : Option ProcPtr) : Proc :=
  if pr.parent = some p then { pr with parent := r } else pr

theorem reparent_field {α : Type} {g : Proc → α} (h : ∀ pr r, g { pr with parent := r } = g pr)
    (pr : Proc) (p : ProcPtr) (r : Option ProcPtr)
    : g (pr.reparent p r) = g pr := by
  unfold reparent
  split
  . exact h pr r
  . rfl

@[simp]
theorem reparent_chan (pr : Proc) (p : ProcPtr) (r : Option ProcPtr)
    : (pr.reparent p r).chan = pr.chan :=
  reparent_field (fun _ _ => rfl) pr p r

@[simp]
theorem reparent_state (pr : Proc) (p : ProcPtr) (r : Option ProcPtr)
    : (pr.reparent p r).state = pr.state :=
  reparent_field (fun _ _ => rfl) pr p r

def age (pr : Proc) : Proc :=
  if pr.state = .runnable then
    { pr with
      waitingTime := pr.waitingTime + 1
      qType := if AGING_BOUND < pr.waitingTime + 1 then .rr else pr.qType }
  else
    pr

theorem wakeIf_reparent (pr : Proc) (p : ProcPtr) (r : Option ProcPtr) (w : Prop)
    : (pr.reparent p r).wakeIf w = (pr.wakeIf w).reparent p r := by
  unfold reparent wakeIf
  grind

end Proc

namespace State

theorem nodup_split {pre post : List ProcPtr} (h : List.finRange NPROC = pre ++ p :: post)
    : p ∉ pre := by
  have hnodup := List.nodup_finRange NPROC
  rw [h, List.nodup_append] at hnodup
  intro hp
  exact hnodup.2.2 p hp p (by simp) rfl

theorem wakeup1_body_toCore {chan : Option (Chan ProcPtr)}
    (h : wakeup1.body chan s p = .ok s')
    : s'.toCore = s.toCore.setProc p ((s.proc p).wakeIf ((s.proc p).chan = chan)) := by
  unfold wakeup1.body at h
  unfold Proc.wakeIf
  split at h
  . next hcond =>
    rcases bind_eq_ok.mp h with ⟨s1, h1, h2⟩
    cases h2
    rw [if_pos hcond.symm, setProc_toCore, enqueue_toCore h1]
  . next hcond =>
    cases h
    rw [if_neg (by rwa [And.comm]), Core.setProc_eq_mapProc, Core.mapProc_self]
    intro q
    split
    . next heq => rw [heq]
    . rfl

theorem wakeup1_toCore {chan : Option (Chan ProcPtr)}
    (h : s.wakeup1 chan = .ok s')
    : s'.toCore = s.toCore.mapProc fun _ pr => pr.wakeIf (pr.chan = chan) := by
  -- The loop has treated the processes of `done` so far.
  have hloop := Sat.foldlM (E := fun _ => True)
    (fun done (s' : State n) =>
      s'.toCore = s.toCore.mapProc fun p pr => pr.wakeIf (p ∈ done ∧ pr.chan = chan))
    (f := wakeup1.body chan) (List.finRange NPROC) [] s
  have hall := Sat.of_ok (hloop ?_ ?_) h
  . simpa using hall
  . rw [Core.mapProc_self]
    simp
  . intro pre p post s1 hsplit hs1
    have hp := nodup_split (by simpa using hsplit)
    cases hbody : wakeup1.body chan s1 p with
    | error e => trivial
    | ok s2 =>
      rw [sat_ok, wakeup1_body_toCore hbody, hs1, Core.setProc_eq_mapProc, Core.mapProc_mapProc]
      apply Core.mapProc_congr
      intro q
      by_cases hq : q = p
      . subst hq
        simp [hp]
      . simp [hq]

theorem exit_body_toCore {p z : ProcPtr} (h : exit.body p s z = .ok s')
    : s'.toCore = s.toCore.mapProc fun q pr =>
        (if q = z then pr.reparent p s.initproc else pr).wakeIf
          ((s.proc z).parent = some p ∧ (s.proc z).state = .zombie
            ∧ pr.chan = s.initproc.map .proc) := by
  unfold exit.body at h
  split at h
  . next hparent =>
    have hset : (s.setProc z { s.proc z with parent := s.initproc }).toCore
        = s.toCore.mapProc fun q pr => if q = z then pr.reparent p s.initproc else pr := by
      rw [setProc_toCore, Core.setProc_eq_mapProc]
      apply Core.mapProc_congr
      intro q
      by_cases hq : q = z
      . simp [hq, Proc.reparent, hparent]
      . simp [hq]
    dsimp only at h
    split at h
    . next hzombie =>
      have hstate : (s.proc z).state = .zombie := by
        simpa using hzombie
      rw [wakeup1_toCore h, hset, Core.mapProc_mapProc]
      apply Core.mapProc_congr
      intro q
      by_cases hq : q = z
      . simp [hq, hparent, hstate]
      . simp [hq, hparent, hstate]
    . next hzombie =>
      have hstate : (s.proc z).state ≠ .zombie := by
        simpa using hzombie
      cases h
      rw [hset]
      simp [hstate]
  . next hparent =>
    cases h
    rw [Core.mapProc_self]
    intro q
    by_cases hq : q = z
    . simp [hq, hparent, Proc.reparent]
    . simp [hq, hparent]

structure Passed (s s' : State n) (p : ProcPtr) (done : List ProcPtr) (W : ProcPtr → Prop) : Prop where
  toCore : s'.toCore = s.toCore.mapProc fun q pr =>
    if q ∈ done then (pr.wakeIf (W q)).reparent p s.initproc else pr.wakeIf (W q)
  woken : ∀ z ∈ done, (s.proc z).parent = some p → (s.proc z).state = .zombie →
    ∀ q, (s.proc q).chan = s.initproc.map .proc → W q

theorem Passed.body {s s1 s2 : State n} {p z : ProcPtr} {done : List ProcPtr}
    {W : ProcPtr → Prop} (h : Passed s s1 p done W) (hz : z ∉ done) (hbody : exit.body p s1 z = .ok s2)
    : ∃ W', Passed s s2 p (done ++ [z]) W' := by
  have hinit : s1.initproc = s.initproc := by
    rw [h.toCore]
    rfl
  have hproc : s1.proc z = (s.proc z).wakeIf (W z) := by
    rw [h.toCore]
    simp [hz]
  have hcore := exit_body_toCore hbody
  rw [hproc, hinit, Proc.wakeIf_parent, Proc.wakeIf_zombie, h.toCore, Core.mapProc_mapProc] at hcore
  refine ⟨fun q => W q ∨ ((s.proc z).parent = some p ∧ (s.proc z).state = .zombie
    ∧ (s.proc q).chan = s.initproc.map .proc), ⟨?_, ?_⟩⟩
  . rw [hcore]
    apply Core.mapProc_congr
    intro q
    by_cases hq : q = z
    . simp [hq, hz, Proc.wakeIf_reparent, Proc.wakeIf_wakeIf]
    . by_cases hdone : q ∈ done
      . simp [hq, hdone, Proc.wakeIf_reparent, Proc.wakeIf_wakeIf]
      . simp [hq, hdone, Proc.wakeIf_wakeIf]
  . intro z' hz' hparent hzombie q hq
    rcases List.mem_append.mp hz' with hdone | hlast
    . exact .inl (h.woken z' hdone hparent hzombie q hq)
    . rw [List.mem_singleton.mp hlast] at hparent hzombie
      exact .inr ⟨hparent, hzombie, hq⟩

theorem exit_loop_passed (h : (List.finRange NPROC).foldlM (exit.body p) s = .ok s')
    : ∃ W, Passed s s' p (List.finRange NPROC) W := by
  have hloop := Sat.foldlM (E := fun _ => True) (fun done s' => ∃ W, Passed s s' p done W)
    (f := exit.body p) (List.finRange NPROC) [] s
  have hall := Sat.of_ok (hloop ?_ ?_) h
  . simpa using hall
  . refine ⟨fun _ => False, ⟨?_, by simp⟩⟩
    rw [Core.mapProc_self]
    simp
  . intro pre z post s1 hsplit hs1
    rcases hs1 with ⟨W, hW⟩
    cases hbody : exit.body p s1 z with
    | error e => trivial
    | ok s2 => exact hW.body (nodup_split (by simpa using hsplit)) hbody

theorem exit_toCore (h : s.exit c p = .ok s')
    : s.initproc ≠ some p ∧ ∃ W : ProcPtr → Prop,
        (∀ q, (s.proc q).chan = (s.proc p).parent.map .proc → W q) ∧
        (∀ z, (s.proc z).parent = some p → (s.proc z).state = .zombie →
          ∀ q, (s.proc q).chan = s.initproc.map .proc → W q) ∧
        let s1 := s.toCore.mapProc fun q pr => (pr.wakeIf (W q)).reparent p s.initproc
        s'.toCore = (s1.setProc p { s1.proc p with state := .zombie }).sched c := by
  unfold exit at h
  split at h
  . cases h
  . next hinit =>
    rcases bind_eq_ok.mp h with ⟨s1, h1, h⟩
    rcases bind_eq_ok.mp h with ⟨s2, h2, h⟩
    rcases bind_eq_ok.mp h with ⟨s3, h3, h⟩
    cases h
    have hcore1 := cleanupCorresQueue_toCore h1
    have hcore2 := wakeup1_toCore h2
    rcases exit_loop_passed h3 with ⟨W, hW⟩
    have hcore3 := hW.toCore
    have hwoken := hW.woken
    simp only [hcore2, hcore1, Core.mapProc_mapProc, Core.mapProc_proc, List.mem_finRange, if_true,
      true_implies, Proc.wakeIf_wakeIf, Proc.wakeIf_parent, Proc.wakeIf_zombie,
      Proc.wakeIf_chan] at hcore3 hwoken
    refine ⟨fun heq => hinit heq.symm,
      fun q => (s.proc q).chan = (s.proc p).parent.map .proc ∨ W q, ?_, ?_, ?_⟩
    . intro q hq
      exact .inl hq
    . intro z hparent hzombie q hq
      exact .inr (hwoken z hparent hzombie q hq)
    . rw [onCore_toCore, setProc_toCore, hcore3]
      rfl

theorem sleep_toCore {chan : Chan ProcPtr} {ctx : Context}
    (h : s.sleep c p chan ctx = .ok s')
    : s'.toCore = (s.toCore.setProc p
        { s.proc p with chan := some chan, state := .sleeping, context := ctx }).sched c := by
  unfold sleep at h
  rcases bind_eq_ok.mp h with ⟨s1, h1, h⟩
  cases h
  rw [onCore_toCore, setProc_toCore, cleanupCorresQueue_toCore h1]

theorem kill_toCore {pid r : Int} (h : s.kill pid = .ok (s', r))
    : s'.toCore = s.toCore ∨ ∃ p, s.toCore.findProc (fun pr => pr.pid = pid) = some p
        ∧ s'.toCore = s.toCore.setProc p ({ s.proc p with killed := true }.wakeIf True) := by
  unfold kill at h
  split at h
  . cases h
    exact .inl rfl
  . next p hp =>
    refine .inr ⟨p, hp, ?_⟩
    dsimp only at h
    split at h
    . next hstate =>
      rcases bind_eq_ok.mp h with ⟨s1, h1, h⟩
      cases h
      have hcore := enqueue_toCore h1
      simp only [setProc_toCore, Core.setProc_proc, if_true] at hstate
      rw [setProc_toCore, hcore]
      simp [Proc.wakeIf, hstate]
    . next hstate =>
      cases h
      simp only [setProc_toCore, Core.setProc_proc, if_true] at hstate
      simp [Proc.wakeIf, hstate]

theorem yield_count_toCore (s : State n) (p : ProcPtr)
    : (yield.count s p).toCore =
        { s.toCore with
          rrCounter := if (s.proc p).qType = .rr then s.rrCounter + 1 else s.rrCounter } := by
  unfold yield.count
  split
  all_goals rfl

theorem yield_applyChange_toCore (h : yield.applyChange s p = .ok s')
    : s'.toCore = s.toCore.setProc p { s.proc p with changeRunningQueue := false } := by
  unfold yield.applyChange at h
  split at h
  . rcases bind_eq_ok.mp h with ⟨s1, h1, h⟩
    cases h
    rw [setProc_toCore, enqueue_toCore h1]
  . next hflag =>
    cases h
    rw [Core.setProc_self]
    rw [Bool.not_eq_true] at hflag
    rw [← hflag]

theorem yield_toCore (h : s.yield c p = .ok s')
    : s'.toCore =
        { (s.toCore.setProc p
            { s.proc p with
              runningTicks := 0, changeRunningQueue := false, state := .runnable
              context := .yield }).sched c with
          rrCounter := if (s.proc p).qType = .rr then s.rrCounter + 1 else s.rrCounter } := by
  unfold yield at h
  rcases bind_eq_ok.mp h with ⟨s1, h1, h⟩
  cases h
  rw [onCore_toCore, setProc_toCore, yield_applyChange_toCore h1, yield_count_toCore]
  simp only [Core.setProc, Core.sched, Core.setCpu, setProc_toCore, Core.mk.injEq, and_true, if_true]
  funext q
  split
  all_goals rfl

theorem agingMechanism_body_toCore (h : agingMechanism.body s p = .ok s')
    : s'.toCore = s.toCore.setProc p (s.proc p).age := by
  unfold agingMechanism.body at h
  unfold Proc.age
  split at h
  . next hrun =>
    dsimp only at h
    simp only [setProc_toCore, Core.setProc_proc, if_true] at h
    rw [if_pos hrun]
    split at h
    . next hage =>
      rcases bind_eq_ok.mp h with ⟨s1, h1, h⟩
      rw [append_toCore h, setProc_toCore, cleanupCorresQueue_toCore h1]
      simp [hage.1]
    . next hage =>
      cases h
      by_cases hbound : AGING_BOUND < (s.proc p).waitingTime + 1
      . have hrr : (s.proc p).qType = .rr := by
          by_contra hne
          exact hage ⟨hbound, hne⟩
        simp [hbound, hrr]
      . simp [hbound]
  . next hrun =>
    cases h
    rw [if_neg hrun, Core.setProc_self rfl]

def aged (s : Core n) (done : List ProcPtr) : Core n :=
  s.mapProc fun p pr => if p ∈ done then pr.age else pr

theorem aged_nil (s : Core n) : aged s [] = s := by
  apply Core.mapProc_self
  simp

theorem agingMechanism_body_aged {s : Core n} {s1 s2 : State n} {done : List ProcPtr}
    (hs1 : s1.toCore = aged s done) (hp : p ∉ done) (h : agingMechanism.body s1 p = .ok s2)
    : s2.toCore = aged s (done ++ [p]) := by
  rw [agingMechanism_body_toCore h, hs1, Core.setProc_eq_mapProc]
  unfold aged
  rw [Core.mapProc_mapProc]
  apply Core.mapProc_congr
  intro q
  by_cases hq : q = p
  . subst hq
    simp [hp]
  . simp [hq]

theorem agingMechanism_toCore (h : s.agingMechanism = .ok s')
    : s'.toCore = s.toCore.mapProc fun _ pr => pr.age := by
  have hloop := Sat.foldlM (E := fun _ => True) (fun done (s' : State n) => s'.toCore = aged s.toCore done)
    (f := agingMechanism.body) (List.finRange NPROC) [] s
  have hall := Sat.of_ok (hloop ?_ ?_) h
  . simpa [aged] using hall
  . exact (aged_nil s.toCore).symm
  . intro pre p post s1 hsplit hs1
    cases hbody : agingMechanism.body s1 p with
    | error e => trivial
    | ok s2 => exact agingMechanism_body_aged hs1 (nodup_split (by simpa using hsplit)) hbody

theorem changeQueue_leave_toCore (h : changeQueue.leave s p = .ok s')
    : s'.toCore = s.toCore := by
  unfold changeQueue.leave at h
  split at h
  . exact cleanupCorresQueue_toCore h
  . cases h
    rfl

theorem changeQueue_enter_toCore {q : SchedQ} (h : changeQueue.enter s p q = .ok s')
    : s'.toCore = s.toCore.setProc p { s.proc p with qType := q } := by
  unfold changeQueue.enter at h
  dsimp only at h
  split at h
  . rw [enqueue_toCore h, setProc_toCore]
  . cases h
    rfl

theorem changeQueue_defer_toCore (s : State n) (p : ProcPtr)
    : (changeQueue.defer s p).toCore = s.toCore.setProc p { s.proc p with
          changeRunningQueue := (s.proc p).state = .running || (s.proc p).changeRunningQueue } := by
  unfold changeQueue.defer
  split
  . next hrun => simp [hrun]
  . next hrun =>
    rw [Core.setProc_self]
    simp [hrun]

theorem changeQueue_toCore {pid beyond : Int} {q : SchedQ}
    (h : s.changeQueue pid q beyond = .ok s')
    : s'.toCore = s.toCore ∨ ∃ p, s.toCore.findProc (fun pr => pr.pid = pid) = some p
        ∧ s'.toCore = s.toCore.setProc p
            { s.proc p with
              qType := q
              changeRunningQueue :=
                (s.proc p).state = .running || (s.proc p).changeRunningQueue } := by
  unfold changeQueue at h
  split at h
  . split at h
    . cases h
      exact .inl rfl
    . cases h
  . next p hp =>
    refine .inr ⟨p, hp, ?_⟩
    rcases bind_eq_ok.mp h with ⟨s1, h1, h⟩
    rcases bind_eq_ok.mp h with ⟨s2, h2, h⟩
    cases h
    rw [changeQueue_defer_toCore, changeQueue_enter_toCore h2, changeQueue_leave_toCore h1]
    simp

theorem forkEnqueue_toCore {p np : ProcPtr} (h : s.forkEnqueue p np = .ok s')
    : let s1 := s.toCore.setProc np { forkInit s.ticks (s.proc np) with state := .runnable }
      s'.toCore = s1.setProc p { s1.proc p with fork := none, eax := (s.proc np).pid } := by
  unfold forkEnqueue at h
  rcases bind_eq_ok.mp h with ⟨s1, h1, h⟩
  cases h
  simp only [setProc_toCore, append_toCore h1, Core.setProc_setProc, Core.setProc_ticks]
  simp [forkInit]

theorem userinit_toCore (h : s.userinit = .ok s')
    : ∃ p, (s.proc p).state = .unused ∧ s'.toCore = { s.toCore.setProc p { s.proc p with
                state := .runnable, pid := s.nextpid, fork := none, context := .forkret
                arrivetime := s.ticks, eax := 0, qType := .lcfs } with
            nextpid := int32 (s.nextpid + 1), initproc := some p } := by
  unfold userinit Core.allocproc at h
  cases hfind : s.toCore.findProc fun p => p.state = .unused with
  | none =>
    simp only [hfind] at h
    cases h
  | some p =>
    simp only [hfind] at h
    rcases bind_eq_ok.mp h with ⟨s1, h1, h⟩
    cases h
    refine ⟨p, by simpa using List.find?_some hfind, ?_⟩
    rw [setProc_toCore, append_toCore h1]
    simp only [setProc_toCore, Core.setProc, Core.initStack, if_true, Core.mk.injEq, and_true]
    funext q
    split
    all_goals rfl

end State

namespace Core

theorem allocproc_eq_some {s s' : Core n} (h : s.allocproc = some (p, s'))
    : (s.proc p).state = .unused ∧ s' =
          { s.setProc p { s.proc p with state := .embryo, pid := s.nextpid, fork := none } with
            nextpid := int32 (s.nextpid + 1) } := by
  unfold allocproc at h
  split at h
  . cases h
  . next q hfind =>
    cases h
    exact ⟨by simpa using List.find?_some hfind, rfl⟩

theorem waitScan_found {s : Core n} {p z : ProcPtr} {havekids : Bool}
    (h : s.waitScan p todo havekids = .found z)
    : (s.proc z).parent = some p ∧ (s.proc z).state = .zombie := by
  induction todo generalizing havekids with
  | nil => cases h
  | cons q todo ih =>
    unfold waitScan at h
    split at h
    . exact ih h
    . next hparent =>
      split at h
      . next hzombie =>
        cases h
        exact ⟨not_not.mp hparent, hzombie⟩
      . exact ih h

theorem waitScan_done {s : Core n} {havekids b : Bool}
    (h : s.waitScan p todo havekids = .done b) {z : ProcPtr} (hz : z ∈ todo) (hparent : (s.proc z).parent = some p)
    : (s.proc z).state ≠ .zombie := by
  induction todo generalizing havekids with
  | nil => cases hz
  | cons q todo ih =>
    unfold waitScan at h
    rcases List.mem_cons.mp hz with rfl | hz
    . simp only [hparent, ne_eq, not_true_eq_false, if_false] at h
      split at h
      . cases h
      . next hne => exact hne
    . split at h
      . exact ih h hz
      . split at h
        . cases h
        . exact ih h hz

theorem waitScan_congr {s s' : Core n} {havekids : Bool}
    (hparent : ∀ q, (s'.proc q).parent = (s.proc q).parent) (hstate : ∀ q, (s'.proc q).state = (s.proc q).state)
    : s'.waitScan p todo havekids = s.waitScan p todo havekids := by
  induction todo generalizing havekids with
  | nil => rfl
  | cons q todo ih =>
    unfold waitScan
    rw [hparent, hstate, ih, ih]

end Core
end Xv6
