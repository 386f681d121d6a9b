import Mathlib.Algebra.BigOperators.Fin
import Mathlib.Algebra.Order.BigOperators.Group.Finset
import Mathlib.Tactic.Linarith
import Xv6.Proc.Lemmas.Pick
import Xv6.Proc.Lemmas.Refine

namespace Xv6

open Outcome

variable {n : Nat} {p : ProcPtr} {pr : Proc}

namespace Proc

def weight (pr : Proc) : Int :=
  (if pr.Ready then 1 else 0) - (if pr.changeRunningQueue then 1 else 0)

theorem weight_le_one (pr : Proc) : pr.weight ≤ 1 := by
  unfold weight
  split
  all_goals
    split
    all_goals omega

theorem weight_congr {pr pr' : Proc} (hstate : pr'.state = pr.state)
    (hflag : pr'.changeRunningQueue = pr.changeRunningQueue)
    : pr'.weight = pr.weight := by
  have hready : pr'.Ready ↔ pr.Ready := by
    simp [Ready, hstate]
  simp only [weight, hready, hflag]

theorem weight_sub_one_le {pr pr' : Proc} (hflag : pr'.changeRunningQueue = pr.changeRunningQueue)
    : pr.weight - 1 ≤ pr'.weight := by
  unfold weight
  rw [hflag]
  grind

theorem weight_add_one_of_ready {pr pr' : Proc} (h : ¬pr.Ready) (h' : pr'.Ready)
    (hflag : pr'.changeRunningQueue = pr.changeRunningQueue)
    : pr'.weight = pr.weight + 1 := by
  unfold weight
  rw [hflag, if_neg h, if_pos h']
  omega

theorem weight_sub_one_le_of_state {pr pr' : Proc} (hstate : pr'.state = pr.state)
    : pr.weight - 1 ≤ pr'.weight := by
  have hready : pr'.Ready ↔ pr.Ready := by
    simp [Ready, hstate]
  simp only [weight, hready]
  grind

theorem weight_eq_of_ready {pr pr' : Proc} (h : pr.Ready) (h' : pr'.Ready)
    (hflag : pr'.changeRunningQueue = pr.changeRunningQueue)
    : pr'.weight = pr.weight := by
  unfold weight
  rw [hflag, if_pos h, if_pos h']

theorem weight_add_one_of_flag {pr pr' : Proc} (hstate : pr'.state = pr.state)
    (h : pr.changeRunningQueue = true) (h' : pr'.changeRunningQueue = false)
    : pr'.weight = pr.weight + 1 := by
  have hready : pr'.Ready ↔ pr.Ready := by
    simp [Ready, hstate]
  simp only [weight, hready, h, h']
  grind

theorem weight_nonpos_of_not_ready (h : ¬pr.Ready) : pr.weight ≤ 0 := by
  unfold weight
  rw [if_neg h]
  split
  all_goals omega

theorem weight_nonpos_of_flag (h : pr.changeRunningQueue = true) : pr.weight ≤ 0 := by
  unfold weight
  rw [if_pos h]
  split
  all_goals omega

end Proc

namespace Core

def load (s : Core n) : Int :=
  ∑ p, (s.proc p).weight

theorem load_congr {s s' : Core n} (h : ∀ p, (s'.proc p).weight = (s.proc p).weight)
    : s'.load = s.load := by
  unfold load
  simp [h]

theorem load_setProc (s : Core n) (p : ProcPtr) (pr : Proc)
    : (s.setProc p pr).load = s.load - (s.proc p).weight + pr.weight := by
  unfold load
  rw [← Finset.add_sum_erase _ _ (Finset.mem_univ p), ← Finset.add_sum_erase _ (fun q => (s.proc q).weight)
    (Finset.mem_univ p)]
  have hrest : ∑ q ∈ Finset.univ.erase p, ((s.setProc p pr).proc q).weight
      = ∑ q ∈ Finset.univ.erase p, (s.proc q).weight := by
    apply Finset.sum_congr rfl
    intro q hq
    rw [setProc_proc, if_neg (Finset.ne_of_mem_erase hq)]
  rw [hrest, setProc_proc, if_pos rfl]
  omega

theorem load_setProc_same {s : Core n} (hweight : pr.weight = (s.proc p).weight)
    : (s.setProc p pr).load = s.load := by
  rw [load_setProc]
  omega

theorem load_sysReturn (s : Core n) (p : ProcPtr) (r : Int) : (s.sysReturn p r).load = s.load :=
  load_setProc_same (Proc.weight_congr rfl rfl)

theorem load_resume (s : Core n) (c : Fin n) : (s.resume c).load = s.load := by
  rfl

theorem load_le (s : Core n) : s.load ≤ NPROC := by
  have := Finset.sum_le_card_nsmul Finset.univ (fun p => (s.proc p).weight) 1
    fun p _ => (s.proc p).weight_le_one
  simpa [load] using this

theorem load_lt {s : Core n} (h : (s.proc p).weight ≤ 0) : s.load < NPROC := by
  have hle := load_le (s.setProc p { state := .runnable })
  have hone : Proc.weight { state := .runnable } = 1 := by
    decide
  rw [load_setProc, hone] at hle
  omega

end Core

namespace State

def total (L : QueueId → List ProcPtr) : Nat :=
  (L .rr).length + (L .lcfs).length + (L .bjf).length

theorem length_le_total (L : QueueId → List ProcPtr) (k : QueueId) : (L k).length ≤ total L := by
  unfold total
  cases k
  all_goals omega

theorem total_update (L : QueueId → List ProcPtr) (k : QueueId) (l : List ProcPtr)
    : total (Function.update L k l) + (L k).length = total L + l.length := by
  unfold total
  cases k
  all_goals
    simp
    omega

def Room (d : Int) (s : State n) : Prop :=
  ∃ L, s.Lists L ∧ total L + d ≤ s.load

variable {s s' : State n} {d d' : Int}

namespace Room

theorem init : Room 0 (State.init (n := n)) := by
  refine ⟨fun _ => [], lists_init, ?_⟩
  simp [total, Core.load, State.init, Proc.weight, Proc.Ready]

section
variable (h : Room d s)
include h

theorem mono (hle : d' ≤ d) : Room d' s := by
  rcases h with ⟨L, hlists, hload⟩
  exact ⟨L, hlists, by omega⟩

theorem of_load (hqueue : s'.queue = s.queue) (hload : d' - d ≤ s'.load - s.load)
    : Room d' s' := by
  rcases h with ⟨L, hlists, hle⟩
  exact ⟨L, hlists.of_queue_eq hqueue, by omega⟩

theorem onCore {f : Core n → Core n} (hload : (f s.toCore).load = s.load)
    : Room d (s.onCore f) := by
  apply h.of_load
  . funext k
    simp
  . simp [hload]

theorem setProc (hweight : d' - d ≤ pr.weight - (s.proc p).weight)
    : Room d' (s.setProc p pr) := by
  apply h.of_load
  . funext k
    simp
  . rw [setProc_toCore, Core.load_setProc]
    omega

theorem setProc_same (hstate : pr.state = (s.proc p).state)
    (hflag : pr.changeRunningQueue = (s.proc p).changeRunningQueue)
    : Room d (s.setProc p pr) := by
  apply h.setProc
  rw [Proc.weight_congr hstate hflag]
  omega

theorem setProc_ready (hp : ¬(s.proc p).Ready)
    (hpr : pr.Ready) (hflag : pr.changeRunningQueue = (s.proc p).changeRunningQueue) (hd : d' ≤ d + 1)
    : Room d' (s.setProc p pr) := by
  apply h.setProc
  rw [Proc.weight_add_one_of_ready hp hpr hflag]
  omega

theorem setProc_still (hp : (s.proc p).Ready) (hpr : pr.Ready)
    (hflag : pr.changeRunningQueue = (s.proc p).changeRunningQueue)
    : Room d (s.setProc p pr) := by
  apply h.setProc
  rw [Proc.weight_eq_of_ready hp hpr hflag]
  omega

theorem setProc_leave
    (hflag : pr.changeRunningQueue = (s.proc p).changeRunningQueue) (hd : d' ≤ d - 1)
    : Room d' (s.setProc p pr) := by
  apply h.setProc
  have := Proc.weight_sub_one_le hflag
  omega

theorem setProc_clear (hstate : pr.state = (s.proc p).state)
    (hp : (s.proc p).changeRunningQueue = true) (hpr : pr.changeRunningQueue = false) (hd : d' ≤ d + 1)
    : Room d' (s.setProc p pr) := by
  apply h.setProc
  rw [Proc.weight_add_one_of_flag hstate hp hpr]
  omega

theorem setProc_defer
    (hstate : pr.state = (s.proc p).state) (hd : d' ≤ d - 1)
    : Room d' (s.setProc p pr) := by
  apply h.setProc
  have := Proc.weight_sub_one_le_of_state hstate
  omega

theorem append (k : QueueId) (p : ProcPtr) (hlt : s.load < NPROC + d)
    : Sat (· ≠ .wild) (fun s' => s'.toCore = s.toCore ∧ Room (d - 1) s') (s.append k p) := by
  rcases h with ⟨L, hlists, hload⟩
  have hlen := length_le_total L k
  rcases hlists.append k p (by omega) with ⟨s', hs', hcore, hlists'⟩
  rw [hs', sat_ok]
  refine ⟨hcore, _, hlists', ?_⟩
  have := total_update L k (L k ++ [p])
  rw [List.length_append, List.length_singleton] at this
  rw [hcore]
  omega

theorem enqueue (p : ProcPtr) (hlt : s.load < NPROC + d)
    : Sat (· ≠ .wild) (fun s' => s'.toCore = s.toCore ∧ Room (d - 1) s') (s.enqueue p) := by
  unfold State.enqueue
  cases (s.proc p).qType.queueId? with
  | none => exact ⟨rfl, h.mono (by omega)⟩
  | some k => exact h.append k p hlt

end

def Placed (d : Int) (p : ProcPtr) (s : State n) : Prop :=
  Room (d - 1) s ∧ ¬(s.proc p).Ready

theorem Placed.setProc (h : Placed d p s) (hpr : pr.Ready)
    (hflag : pr.changeRunningQueue = (s.proc p).changeRunningQueue)
    : Room d (s.setProc p pr) :=
  h.1.setProc_ready h.2 hpr hflag (by omega)

section
variable (h : Room d s)
include h

theorem append_placed (hd : 0 ≤ d) (k : QueueId) (hp : ¬(s.proc p).Ready)
    : Sat (· ≠ .wild) (Placed d p) (s.append k p) := by
  have hlt := Core.load_lt (Proc.weight_nonpos_of_not_ready hp)
  refine Sat.mono (h.append k p (by omega)) (fun _ he => he) ?_
  rintro s' ⟨hcore, h'⟩
  exact ⟨h', by rwa [hcore]⟩

theorem enqueue_placed (hd : 0 ≤ d) (hp : ¬(s.proc p).Ready)
    : Sat (· ≠ .wild) (Placed d p) (s.enqueue p) := by
  have hlt := Core.load_lt (Proc.weight_nonpos_of_not_ready hp)
  refine Sat.mono (h.enqueue p (by omega)) (fun _ he => he) ?_
  rintro s' ⟨hcore, h'⟩
  exact ⟨h', by rwa [hcore]⟩

theorem cleanupCorresQueue (p : ProcPtr)
    : Sat (· ≠ .wild) (fun s' => s'.toCore = s.toCore ∧ Room (d + 1) s')
        (s.cleanupCorresQueue p) := by
  rcases h with ⟨L, hlists, hload⟩
  rcases hlists.cleanupCorresQueue_cases p with ⟨e, he⟩ | ⟨k, s', _, hne, hs', hcore, hlists'⟩
  . simp [he]
  . rw [hs', sat_ok]
    refine ⟨hcore, _, hlists', ?_⟩
    have htotal := total_update L k (Queue.removed (fun q => (s.proc q).pid) (s.proc p).pid (L k))
    have hlen := Queue.length_removed_lt (fun q => (s.proc q).pid) (s.proc p).pid hne
    unfold cleaned
    rw [hcore]
    omega

theorem wakeup1_body (hd : 0 ≤ d) (chan : Option (Chan ProcPtr)) (p : ProcPtr)
    : Sat (· ≠ .wild) (Room d) (wakeup1.body chan s p) := by
  unfold wakeup1.body
  split
  . next hcond =>
    refine Sat.bind (h.enqueue_placed hd ?_) ?_
    . simp [Proc.Ready, hcond.1]
    . intro s1 h1
      exact h1.setProc (.inl rfl) rfl
  . exact h

theorem wakeup1 (hd : 0 ≤ d) (chan : Option (Chan ProcPtr))
    : Sat (· ≠ .wild) (Room d) (s.wakeup1 chan) := by
  apply Sat.foldlM_const h
  intro p s' _ hs'
  exact hs'.wakeup1_body hd chan p

theorem exit_body (hd : 0 ≤ d) (p z : ProcPtr)
    : Sat (· ≠ .wild) (Room d) (exit.body p s z) := by
  unfold exit.body
  split
  . have hset : Room d (s.setProc z { s.proc z with parent := s.initproc }) :=
      h.setProc_same rfl rfl
    dsimp only
    split
    . exact hset.wakeup1 hd _
    . exact hset
  . exact h

theorem of_proc_eq {f : Core n → Core n} (hproc : (f s.toCore).proc = s.proc)
    : Room d (s.onCore f) := by
  apply h.onCore
  apply Core.load_congr
  simp [hproc]

end

section
variable (h : Room 0 s)
include h

theorem exit (c : Fin n) (p : ProcPtr)
    : Sat (· ≠ .wild) (Room 0) (s.exit c p) := by
  unfold State.exit
  split
  . simp
  refine Sat.bind (h.cleanupCorresQueue p) ?_
  rintro s1 ⟨_, h1⟩
  refine Sat.bind (h1.wakeup1 (by omega) _) ?_
  intro s2 h2
  refine Sat.bind (Sat.foldlM_const h2 ?_) ?_
  . intro z s' _ hs'
    exact hs'.exit_body (by omega) p z
  . intro s3 h3
    refine of_proc_eq (s := s3.setProc p _) ?_ rfl
    exact h3.setProc_leave rfl (by omega)

theorem sleep (c : Fin n) (p : ProcPtr) (chan : Chan ProcPtr) (ctx : Context)
    : Sat (· ≠ .wild) (Room 0) (s.sleep c p chan ctx) := by
  unfold State.sleep
  refine Sat.bind (h.cleanupCorresQueue p) ?_
  rintro s1 ⟨_, h1⟩
  refine of_proc_eq (s := s1.setProc p _) ?_ rfl
  exact h1.setProc_leave rfl (by omega)

theorem wait (c : Fin n) (p : ProcPtr)
    : Sat (· ≠ .wild) (Room 0) (s.wait c p) := by
  unfold State.wait
  split
  . next z hscan =>
    rcases Core.waitScan_found hscan with ⟨_, hzombie⟩
    rw [sat_ok]
    apply h.onCore
    rw [Core.load_resume, Core.load_sysReturn, Core.reap, Core.load_setProc_same]
    simp [Proc.weight, Proc.Ready, hzombie]
  . next havekids hscan =>
    split
    . rw [sat_ok]
      apply h.onCore
      rw [Core.load_resume, Core.load_sysReturn]
    . exact h.sleep c p _ _

theorem kill (pid : Int)
    : Sat (· ≠ .wild) (fun r => Room 0 r.1) (s.kill pid) := by
  unfold State.kill
  split
  . exact h
  . next p hp =>
    have h1 : Room 0 (s.setProc p { s.proc p with killed := true }) := h.setProc_same rfl rfl
    dsimp only
    split
    . next hsleep =>
      refine Sat.bind (h1.enqueue_placed (by omega) ?_) ?_
      . rw [Proc.Ready, hsleep]
        simp
      . intro s2 h2
        exact h2.setProc (.inl rfl) rfl
    . exact h1

theorem yield_applyChange (p : ProcPtr)
    : Sat (· ≠ .wild) (Room 0) (yield.applyChange s p) := by
  unfold yield.applyChange
  split
  . next hflag =>
    have hlt := Core.load_lt (Proc.weight_nonpos_of_flag hflag)
    refine Sat.bind (h.enqueue p (by omega)) ?_
    rintro s1 ⟨hcore, h1⟩
    refine h1.setProc_clear rfl ?_ rfl (by omega)
    rwa [hcore]
  . exact h

theorem yield (c : Fin n) (p : ProcPtr)
    : Sat (· ≠ .wild) (Room 0) (s.yield c p) := by
  unfold State.yield
  have h1 : Room 0 (s.setProc p { s.proc p with runningTicks := 0 }) := h.setProc_same rfl rfl
  have h2 : Room 0 (yield.count (s.setProc p { s.proc p with runningTicks := 0 }) p) := by
    unfold yield.count
    split
    . exact h1.of_proc_eq rfl
    . exact h1
  refine Sat.bind (h2.yield_applyChange p) ?_
  intro s3 h3
  refine of_proc_eq (s := s3.setProc p _) ?_ rfl
  by_cases hready : (s3.proc p).Ready
  . exact h3.setProc_still hready (.inl rfl) rfl
  . exact h3.setProc_ready hready (.inl rfl) rfl (by omega)

theorem agingMechanism_body (p : ProcPtr)
    : Sat (· ≠ .wild) (Room 0) (agingMechanism.body s p) := by
  unfold agingMechanism.body
  split
  . have h1 : Room 0 (s.setProc p { s.proc p with waitingTime := (s.proc p).waitingTime + 1 }) :=
      h.setProc_same rfl rfl
    dsimp only
    split
    . refine Sat.bind (h1.cleanupCorresQueue p) ?_
      rintro s2 ⟨_, h2⟩
      have h3 : Room (0 + 1) (s2.setProc p { s2.proc p with qType := .rr }) :=
        h2.setProc_same rfl rfl
      have hle := Core.load_le (s2.setProc p { s2.proc p with qType := .rr }).toCore
      refine Sat.mono (h3.append .rr p (by omega)) (fun _ he => he) ?_
      rintro s4 ⟨_, h4⟩
      exact h4
    . exact h1
  . exact h

theorem agingMechanism : Sat (· ≠ .wild) (Room 0) s.agingMechanism := by
  apply Sat.foldlM_const h
  intro p s' _ hs'
  exact hs'.agingMechanism_body p

theorem changeQueue_leave (p : ProcPtr)
    : Sat (· ≠ .wild)
        (fun s1 => s1.toCore = s.toCore ∧ Room (if (s.proc p).Ready then 1 else 0) s1)
        (changeQueue.leave s p) := by
  unfold changeQueue.leave
  by_cases hready : (s.proc p).Ready
  . rw [if_pos hready, if_pos (Or.symm hready)]
    exact h.cleanupCorresQueue p
  . rw [if_neg hready, if_neg fun hor => hready (Or.symm hor)]
    exact ⟨rfl, h⟩

end

theorem changeQueue_enter (h : Room (if (s.proc p).Ready then 1 else 0) s) (q : SchedQ)
    : Sat (· ≠ .wild) (fun s' => Room 0 (changeQueue.defer s' p)) (changeQueue.enter s p q) := by
  have h1 : Room _ (s.setProc p { s.proc p with qType := q }) := h.setProc_same rfl rfl
  unfold changeQueue.enter changeQueue.defer
  dsimp only
  split
  . next hrun =>
    simp only [setProc_toCore, Core.setProc_proc, if_true] at hrun
    rw [if_pos (.inl hrun)] at h1
    have hle := Core.load_le (s.setProc p { s.proc p with qType := q }).toCore
    refine Sat.mono (h1.enqueue p (by omega)) (fun _ he => he) ?_
    rintro s2 ⟨hcore, h2⟩
    rw [if_neg]
    . exact h2
    . rw [hcore]
      simp [hrun]
  . next hrun =>
    simp only [setProc_toCore, Core.setProc_proc, if_true] at hrun
    rw [sat_ok]
    split
    . next hrunning =>
      simp only [setProc_toCore, Core.setProc_proc, if_true] at hrunning
      rw [if_pos (.inr hrunning)] at h1
      exact h1.setProc_defer rfl (by omega)
    . apply h1.mono
      split
      all_goals omega

theorem changeQueue (h : Room 0 s) {pid beyond : Int} {q : SchedQ}
    (hpid : s.toCore.findProc (fun pr => pr.pid = pid) ≠ none ∨ beyond ≠ pid)
    : Sat (· ≠ .wild) (Room 0) (s.changeQueue pid q beyond) := by
  unfold State.changeQueue
  split
  . next hnone =>
    rw [if_pos (hpid.resolve_left (fun h => h hnone))]
    exact h
  . next p hp =>
    refine Sat.bind (h.changeQueue_leave p) ?_
    rintro s1 ⟨hcore, h1⟩
    rw [← hcore] at h1
    refine Sat.bind (changeQueue_enter h1 q) ?_
    intro s2 h2
    exact h2

theorem forkEnqueue (h : Room 0 s) {p np : ProcPtr} (hnp : (s.proc np).state = .embryo)
    : Sat (· ≠ .wild) (Room 0) (s.forkEnqueue p np) := by
  unfold State.forkEnqueue
  have h1 : Room 0 (s.setProc np { s.proc np with qType := .lcfs }) := h.setProc_same rfl rfl
  refine Sat.bind (h1.append_placed (by omega) .lcfs (p := np) ?_) ?_
  . simp [Proc.Ready, hnp]
  . intro s2 h2
    refine setProc_same (s := s2.setProc np _) ?_ rfl rfl
    exact h2.setProc (.inl rfl) rfl

theorem load_allocproc {s s' : Core n} (halloc : s.allocproc = some (p, s'))
    : s'.load = s.load := by
  rcases Core.allocproc_eq_some halloc with ⟨hp, rfl⟩
  apply Core.load_setProc_same
  simp [Proc.weight, Proc.Ready, hp]

theorem load_initStack (s : Core n) (p : ProcPtr) : (s.initStack p).load = s.load :=
  Core.load_setProc_same (Proc.weight_congr rfl rfl)

section
variable (h : Room 0 s)
include h

theorem userinit : Sat (· ≠ .wild) (Room 0) s.userinit := by
  unfold State.userinit
  split
  . simp
  . next p core halloc =>
    have hstate : (core.proc p).state = .embryo := by
      rcases Core.allocproc_eq_some halloc with ⟨_, rfl⟩
      simp
    have hload : Core.load { core.initStack p with initproc := some p } = s.load :=
      (load_initStack core p).trans (load_allocproc halloc)
    have h1 := h.onCore (f := fun _ => { core.initStack p with initproc := some p }) hload
    refine Sat.bind (append_placed (setProc_same h1 ?_ ?_) (by omega) .lcfs (p := p) ?_) ?_
    . rfl
    . rfl
    . simp [Proc.Ready, hstate, Core.initStack]
    . intro s4 h4
      exact h4.setProc (.inl rfl) rfl

theorem forkAlloc (p : ProcPtr) : Room 0 (s.forkAlloc p) := by
  unfold State.forkAlloc
  split
  . exact h.setProc_same rfl rfl
  . next np core halloc =>
    have h1 := h.onCore (f := fun _ => core) (load_allocproc halloc)
    exact setProc_same h1 rfl rfl

theorem forkNoStack (p : ProcPtr) {np : ProcPtr} (hnp : (s.proc np).state = .embryo)
    : Room 0 (s.forkNoStack p np) := by
  have h1 : Room 0 (s.setProc np { s.proc np with state := .unused }) := by
    apply h.setProc
    simp [Proc.weight, Proc.Ready, hnp]
  exact h1.setProc_same rfl rfl

theorem initStack (p : ProcPtr) : Room 0 (s.onCore (Core.initStack · p)) :=
  h.onCore (load_initStack s.toCore p)

theorem changeGlobalBjf (pRatio aRatio eRatio sRatio : Int)
    : Room 0 (s.changeGlobalBjf pRatio aRatio eRatio sRatio).1 := by
  apply h.onCore
  apply Core.load_congr
  intro q
  exact Proc.weight_congr rfl rfl

theorem sysChangeQueue (pid queueID beyond : Int)
    : Sat (fun e => e = .wild → s.toCore.findProc (fun pr => pr.pid = pid) = none)
        (fun r => Room 0 r.1) (s.sysChangeQueue pid queueID beyond) := by
  unfold State.sysChangeQueue
  split
  . exact h
  . next q hq =>
    refine Sat.bind (P := Room 0) ?_ (fun _ hs => hs)
    by_cases hpid : s.toCore.findProc (fun pr => pr.pid = pid) ≠ none ∨ beyond ≠ pid
    . exact Sat.mono (h.changeQueue hpid) (fun e hne heq => absurd heq hne) (fun _ hs => hs)
    . simp only [not_or, not_not] at hpid
      simp [State.changeQueue, hpid.1, hpid.2]

end

end Room

def DeadPid (s : State n) (op : Op n) : Prop :=
  match op with
  | .changeQueue _ pid _ _ => s.toCore.findProc (fun pr => pr.pid = pid) = none
  | .changeLocalBjf _ pid _ _ _ _ => s.toCore.findProc (fun pr => pr.pid = pid) = none
  | _ => False

theorem finish_sat {E : Halt → Prop} {x : Except Halt (State n × Int)}
    (h : Sat E (fun r => Room 0 r.1) x)
    : Sat E (Room 0) (finish p <$> x) := by
  cases x with
  | error e => exact h
  | ok r => exact Room.setProc_same h rfl rfl

theorem Lists.schedulerPick_sat {L : QueueId → List ProcPtr} (h : s.Lists L)
    : Sat (· ≠ .wild) (fun _ => True) s.schedulerPick := by
  cases hp : s.inspected L with
  | none =>
    rw [h.schedulerPick_of_not_inspected hp]
    trivial
  | some p =>
    rw [h.schedulerPick_of_inspected hp]
    split
    . trivial
    . simp

theorem Room.dispatch (h : Room 0 s) {c : Fin n} {site : Site} (hp : (s.proc p).state = .runnable)
    : Room 0 (s.onCore (Core.dispatch · c p site)) := by
  apply h.onCore
  apply Core.load_setProc_same
  exact Proc.weight_eq_of_ready (.inl hp) (.inr rfl) rfl

theorem Room.scheduler (h : Room 0 s) (c : Fin n)
    : Sat (· ≠ .wild) (Room 0) (s.scheduler c) := by
  rcases id h with ⟨L, hlists, _⟩
  apply scheduler_sat hlists.schedulerPick_sat
  . intro p site hp
    exact h.dispatch hp
  . exact h.of_proc_eq rfl

theorem Taken.room {op : Op n} {r : Except Halt (State n)} (h : Taken s op r) (hroom : Room 0 s)
    (hlife : LifeCycleInv s)
    : Sat (fun e => e = .wild → s.DeadPid op) (Room 0) r := by
  have hembryo {c : Fin n} {p np : ProcPtr} {st : ForkStage} (hb : s.Builds c p np st)
      : (s.proc np).state = .embryo :=
    hlife.forks.embryo p np st hb.fork
  have hnever {x : Except Halt (State n)} (hx : Sat (· ≠ .wild) (Room 0) x)
      : Sat (fun e => e = .wild → s.DeadPid op) (Room 0) x :=
    Sat.mono hx (fun e hne heq => absurd heq hne) (fun _ h => h)
  cases h with
  | userinit hlock hinit => exact hnever hroom.userinit
  | scheduler c hlock hmode => exact hnever (hroom.scheduler c)
  | schedulerReturn c p hmode hcur =>
    rw [sat_ok]
    rcases schedulerReturn_cases s c with ⟨p, site, hp, heq⟩ | heq
    . rw [heq]
      exact hroom.dispatch hp
    . rw [heq]
      exact hroom.of_proc_eq rfl
  | afterSwtch c p hmode hcur =>
    apply hnever
    unfold State.afterSwtch
    have hclear : Room 0 (s.setProc p { s.proc p with chan := none }) := hroom.setProc_same rfl rfl
    split
    . exact hroom.of_proc_eq rfl
    . exact hroom.of_proc_eq rfl
    . exact hclear.of_proc_eq rfl
    . exact hclear.wait c p
  | trapTimer c p hmode hcur =>
    rw [sat_ok]
    have htick : Room 0 (s.setProc p { s.proc p with runningTicks := (s.proc p).runningTicks + 1 }) :=
      hroom.setProc_same rfl rfl
    unfold State.trapTimer
    split
    . dsimp only
      split
      . exact htick.of_proc_eq rfl
      . exact htick
    . exact hroom
  | yield c p hlock hmode hcur => exact hnever (hroom.yield c p)
  | sleep c a p hc => exact hnever (hroom.sleep c p _ _)
  | wait c p hc => exact hnever (hroom.wait c p)
  | exit c p hc => exact hnever (hroom.exit c p)
  | forkAlloc c p hc => exact hroom.forkAlloc p
  | forkNoStack c p np hb => exact hroom.forkNoStack p (hembryo hb)
  | forkNoMemory c p np hb =>
    apply (hroom.initStack np).forkNoStack p
    simp [Core.initStack, hembryo hb]
  | forkCopy c p np hb =>
    apply Room.setProc_same
    . exact (hroom.initStack np).setProc_same rfl rfl
    all_goals rfl
  | forkEnqueue c p np hlock hb => exact hnever (hroom.forkEnqueue (hembryo hb))
  | kill c pid p hc => exact hnever (finish_sat (hroom.kill pid))
  | wakeup a hlock => exact hnever (hroom.wakeup1 (by omega) _)
  | tick c hc => exact hroom.of_proc_eq rfl
  | agingMechanism c hc hlock => exact hnever hroom.agingMechanism
  | changeQueue c pid queueID beyond p hc =>
    exact finish_sat (hroom.sysChangeQueue pid queueID beyond)
  | changeLocalBjf c pid pRatio aRatio eRatio sRatio p hc =>
    apply finish_sat
    unfold State.changeLocalBjf
    split
    . next hnone => exact fun _ => hnone
    . exact hroom.setProc_same rfl rfl
  | changeGlobalBjf c pRatio aRatio eRatio sRatio p hc =>
    exact (hroom.changeGlobalBjf pRatio aRatio eRatio sRatio).setProc_same rfl rfl

theorem Reachable.room (h : Reachable s) : Room 0 s := by
  have hboth : LifeCycleInv s ∧ Room 0 s := by
    apply Reach.Reachable.induct (fun s => LifeCycleInv s ∧ Room 0 s) ⟨.init, .init⟩ _ h
    rintro s op s' _ ⟨hlife, hroom⟩ hstep
    exact ⟨hlife.step hstep, Sat.of_ok ((taken_of_step hstep).room hroom hlife) rfl⟩
  exact hboth.2

theorem Reachable.lists (h : Reachable s) : s.Lists s.entries := by
  rcases h.room with ⟨L, hlists, _⟩
  rw [hlists.entries_eq]
  exact hlists

theorem Reachable.deadPid_of_wild {op : Op n} (h : Reachable s) (hwild : s.step op = some (.error .wild))
    : s.DeadPid op :=
  Sat.of_error ((taken_of_step hwild).room h.room h.lifeCycleInv) rfl rfl

end State
end Xv6
