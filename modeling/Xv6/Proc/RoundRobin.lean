import Xv6.Lib.Cursor
import Xv6.Proc.Change
import Xv6.Proc.Lemmas.Effect
import Xv6.Proc.Room

namespace Xv6

open Outcome LifeCycle

variable {n : Nat}

namespace State

variable {s s' : State n} {op : Op n} {p q : ProcPtr}

def Dispatched (s s' : State n) (p : ProcPtr) : Prop :=
  (s.proc p).state = .runnable ∧ (s'.proc p).state = .running

structure TimeShared (s : State n) (op : Op n) (s' : State n) : Prop where
  step : Steps s op s'
  queue : s'.entries .rr = s.entries .rr
  noWrap : s.rrCounter ≤ s'.rrCounter
  leaves : ∀ p, (s.proc p).state = .running → (s'.proc p).state ≠ .running →
    ∃ c, op = .yield c ∧ (s.cpu c).proc = some p ∧ (s.proc p).qType = .rr
  enters : ∀ p, (s.proc p).state ≠ .running → (s'.proc p).state = .running → ∃ c, op = .scheduler c

structure InTurn (s : State n) (op : Op n) : Prop where
  yields : ∀ c p, op = .yield c → (s.cpu c).proc = some p → (s.entries .rr)[s.rrIndex 0]? = some p
  nodup : (s.entries .rr).Nodup
  index : s.rrCounter.toNat + (s.entries .rr).length ≤ 2 ^ 32

theorem rrCounter_wait {s s' : Core n} {c : Fin n} (h : s.WaitEffect c p s')
    : s'.rrCounter = s.rrCounter := by
  cases h
  all_goals rfl

theorem Steps.rrCounter_cases (h : Steps s op s')
    : (s'.rrCounter = s.rrCounter ∧ ∀ c p, op = .yield c → (s.cpu c).proc = some p → (s.proc p).qType ≠ .rr)
        ∨ ∃ c p, op = .yield c ∧ (s.cpu c).proc = some p ∧ (s.cpu c).mode = .yielding
          ∧ s'.rrCounter = s.rrCounter + 1 := by
  have heffect := h.effect
  generalize s'.toCore = t at heffect ⊢
  cases heffect with
  | yield c p hlock hmode hcur =>
    by_cases hrr : (s.proc p).qType = .rr
    . exact .inr ⟨c, p, rfl, hcur, hmode, if_pos hrr⟩
    refine .inl ⟨if_neg hrr, ?_⟩
    intro d q hop hq
    cases hop
    rw [hcur] at hq
    cases hq
    exact hrr
  | wait c p t hcalls hwait => exact .inl ⟨rrCounter_wait hwait, nofun⟩
  | resumeWait c p t hmode hcur hctx hwait =>
    exact .inl ⟨(rrCounter_wait hwait : t.rrCounter = (s.modify p _).rrCounter), nofun⟩
  | forkAlloc c p np t hcalls halloc =>
    rcases Core.allocproc_eq_some halloc with ⟨_, rfl⟩
    exact .inl ⟨rfl, nofun⟩
  | _ => exact .inl ⟨rfl, nofun⟩

theorem Steps.dispatched_of_runnable (h : Steps s op s') (hlife : LifeCycleInv s)
    (hp : (s.proc p).state = .runnable) (hp' : (s'.proc p).state ≠ .runnable)
    : Dispatched s s' p := by
  refine ⟨hp, ?_⟩
  cases h.change hlife p with
  | run _ hstate' _ _ => exact hstate'
  | same hstate _ _ => simp [hstate, hp] at hp'
  | wake _ hstate' _ _ => exact absurd hstate' hp'
  | yield _ hstate' _ _ => exact absurd hstate' hp'
  | stop _ hstate _ _ _ => simp [hp] at hstate
  | idle hstate _ _ _ => simp [Proc.Alive, Proc.Ready, hp] at hstate
  | born _ hstate' _ _ => exact absurd hstate' hp'
  | age _ _ hstate' _ _ => exact absurd hstate' hp'
  | move _ hstate _ _ => simp [hstate, hp] at hp'

theorem InTurn.rrIndex_eq (h : InTurn s op) (hreach : Reachable s) {k : Nat} (hk : k < (s.entries .rr).length)
    : s.rrIndex k = (s.rrCounter.toNat + k) % (s.entries .rr).length := by
  have hindex := h.index
  have hlt : s.rrCounter.toNat + k < 2 ^ 32 := by omega
  rw [(Reachable.lists hreach).rrIndex_eq, Nat.mod_eq_of_lt hlt]

theorem InTurn.at_cursor (h : InTurn s op) (hreach : Reachable s) {c : Fin n} (hop : op = .yield c)
    (hcur : (s.cpu c).proc = some p)
    : (s.entries .rr)[s.rrCounter.toNat % (s.entries .rr).length]? = some p := by
  have hp := h.yields c p hop hcur
  have hlen := (List.getElem?_eq_some_iff.mp hp).1
  rw [h.rrIndex_eq hreach (by omega)] at hp
  exact hp

theorem find_of_scheduler {c : Fin n} (h : s.scheduler c = .ok s') (hlists : s.Lists s.entries)
    (hne : s.entries .rr ≠ []) (hp : Dispatched s s' p)
    : (s.rrVisits (s.entries .rr) (List.range (s.entries .rr).length)).find? s.runnable = some p := by
  have hlt := hlists.rrIndex_lt hne 0
  have hinspected : s.inspected s.entries = some (s.entries .rr)[s.rrIndex 0] := by
    unfold inspected
    rw [if_pos hne]
    exact List.getElem?_eq_getElem hlt
  have hpick := hlists.schedulerPick_of_inspected hinspected
  rcases scheduler_eq_ok h with ⟨q, site, hq, rfl⟩ | rfl
  . have hqp : p = q := by
      by_contra hpq
      have hstate := hp.2
      simp only [onCore_toCore, Core.dispatch_proc, Core.modify_proc, if_neg hpq, hp.1] at hstate
      cases hstate
    subst hqp
    rw [hpick] at hq
    split at hq
    . unfold candidates at hq
      rw [if_pos hne] at hq
      rw [Except.ok.injEq, Option.map_eq_some_iff] at hq
      rcases hq with ⟨q, hfind, hq⟩
      cases hq
      exact hfind
    . cases hq
  . have hstate := hp.2
    simp only [onCore_toCore, Core.goIdle_proc, hp.1] at hstate
    cases hstate

theorem TimeShared.picks (h : TimeShared s op s') (hturn : InTurn s op) (hreach : Reachable s)
    (hne : s.entries .rr ≠ []) (hp : Dispatched s s' p)
    : Cursor.Picks (s.entries .rr) s.rrCounter.toNat (fun q => (s.proc q).state = .runnable) p := by
  rcases h.enters p (by simp [hp.1]) hp.2 with ⟨c, rfl⟩
  have hstep := h.step
  have htaken := taken_of_step hstep
  generalize hr : Except.ok s' = r at htaken
  cases htaken
  have hfind := find_of_scheduler hr.symm (Reachable.lists hreach) hne hp
  unfold rrVisits at hfind
  rw [List.find?_filterMap, Option.bind_eq_some_iff] at hfind
  rcases hfind with ⟨d, hd, hpd⟩
  rw [List.find?_range_eq_some, List.mem_range] at hd
  rcases hd with ⟨_, hd, hfirst⟩
  refine ⟨d, hd, ?_, ?_⟩
  . rw [← hturn.rrIndex_eq hreach hd]
    exact hpd
  . intro e he q hq hrun
    rw [← hturn.rrIndex_eq hreach (by omega)] at hq
    have hnot := hfirst e he
    simp [hq, runnable, hrun] at hnot

def TakesTurns (s : State n) (op : Op n) (s' : State n) : Prop :=
  TimeShared s op s' ∧ InTurn s op

theorem TakesTurns.rrCounter_cases (h : TakesTurns s op s') (hreach : Reachable s)
    : (s'.rrCounter.toNat = s.rrCounter.toNat ∧ ∀ q, (s.proc q).state = .running → (s'.proc q).state = .running)
        ∨ ∃ p, s'.rrCounter.toNat = s.rrCounter.toNat + 1 ∧ (s.proc p).state = .running
          ∧ (s.entries .rr)[s.rrCounter.toNat % (s.entries .rr).length]? = some p
          ∧ ∀ q, (s.proc q).state = .running → (s'.proc q).state ≠ .running → q = p := by
  rcases h with ⟨htime, hturn⟩
  rcases htime.step.rrCounter_cases with ⟨hsame, hop⟩ | ⟨c, p, hop, hcur, hmode, hnext⟩
  . refine .inl ⟨by rw [hsame], ?_⟩
    intro q hq
    by_contra hq'
    rcases htime.leaves q hq hq' with ⟨c, hyield, hcur, hrr⟩
    exact hop c q hyield hcur hrr
  . refine .inr ⟨p, ?_, ?_, hturn.at_cursor hreach hop hcur, ?_⟩
    . have hle := UInt32.le_iff_toNat_le.mp htime.noWrap
      have hlt := s.rrCounter.toNat_lt
      rw [hnext, UInt32.toNat_add, UInt32.toNat_one] at hle ⊢
      omega
    . apply (Reachable.lifeCycleInv hreach).oneCpu.running c p hcur
      simp [hmode, Mode.phase]
    . intro q hq hq'
      rcases htime.leaves q hq hq' with ⟨d, hyield, hcur', _⟩
      rw [hop] at hyield
      cases hyield
      rw [hcur] at hcur'
      exact (Option.some.inj hcur').symm

section Trace

variable {tr : Reach.Trace (TakesTurns (n := n))} {i j k : Nat}

theorem reachable_along (h : Reachable (tr.state 0)) (hk : k ≤ tr.length)
    : Reachable (tr.state k) := by
  apply tr.reachable _ h hk
  intro s op s' hstep
  exact hstep.1.step

theorem entries_along (hk : k ≤ tr.length)
    : (tr.state k).entries .rr = (tr.state 0).entries .rr := by
  apply tr.induct (fun s => s.entries .rr = (tr.state 0).entries .rr) _ (Nat.zero_le k) hk rfl
  intro s op s' hs hstep
  rw [hstep.1.queue, hs]

/-- Between two turns of `p`, everybody in `rr_q` who waits has a turn. -/
theorem turn_between_turns (hreach : Reachable (tr.state 0)) (hij : i < j) (hj : j < tr.length)
    (hpi : Dispatched (tr.state i) (tr.state (i + 1)) p) (hpj : Dispatched (tr.state j) (tr.state (j + 1)) p)
    (hq : q ∈ (tr.state 0).entries .rr) (hne : q ≠ p) (hwaits : ((tr.state (i + 1)).proc q).state = .runnable)
    : ∃ k, i < k ∧ k < j ∧ Dispatched (tr.state k) (tr.state (k + 1)) q := by
  have hmoves {k : Nat} (hk : k < tr.length) :=
    (tr.next k hk).rrCounter_cases (reachable_along hreach (Nat.le_of_lt hk))
  have hentries {k : Nat} (hk : k < tr.length)
      : (tr.state k).entries .rr = (tr.state 0).entries .rr :=
    entries_along (Nat.le_of_lt hk)
  -- In between, `p` yields, and the cursor moves past it.
  rcases Reach.exists_step_of_not (P := fun k => ((tr.state k).proc p).state = .running)
    (i := i + 1) (j := j) hij hpi.2 (by simp [hpj.1]) with ⟨m, him, hmj, hrun, hstop⟩
  have hpast : (tr.state (m + 1)).rrCounter.toNat = (tr.state m).rrCounter.toNat + 1
      ∧ ((tr.state 0).entries .rr)[(tr.state m).rrCounter.toNat
          % ((tr.state 0).entries .rr).length]? = some p := by
    rcases hmoves (k := m) (by omega) with ⟨_, hstay⟩ | ⟨p', hnext, _, hcursor, hyields⟩
    . exact absurd (hstay p hrun) hstop
    . rw [hentries (by omega), ← hyields p hrun hstop] at hcursor
      exact ⟨hnext, hcursor⟩
  have hpick := (tr.next j hj).1.picks (tr.next j hj).2 (reachable_along hreach (Nat.le_of_lt hj))
    (by rw [hentries hj]; exact List.ne_nil_of_mem hq) hpj
  have hnodup := (tr.next j hj).2.nodup
  rw [hentries hj] at hpick hnodup
  -- So `q` cannot be RUNNABLE all the time until `p` is picked again.
  have hover : ∃ k, m < k ∧ k ≤ j ∧ ((tr.state k).proc q).state ≠ .runnable := by
    apply Cursor.not_overtaken (c := fun k => (tr.state k).rrCounter.toNat)
      (fun k q => ((tr.state k).proc q).state = .runnable) hnodup hmj hpast.1 hpast.2 _ hpick hq hne
    intro k hmk hkj
    rcases hmoves (k := k) (by omega) with ⟨hsame, _⟩ | ⟨p', hnext, hrun', hcursor, _⟩
    . exact .inl hsame
    . refine .inr ⟨hnext, ?_⟩
      intro q' hq'
      rw [hentries (by omega), hq'] at hcursor
      cases hcursor
      simp [hrun']
  rcases hover with ⟨k, hmk, hkj, hk⟩
  rcases Reach.exists_step_of_not (P := fun k => ((tr.state k).proc q).state = .runnable)
    (i := i + 1) (j := k) (by omega) hwaits hk with ⟨l, hil, hlk, hl, hl'⟩
  refine ⟨l, hil, by omega, ?_⟩
  apply (tr.next l (by omega)).1.step.dispatched_of_runnable _ hl hl'
  apply Reachable.lifeCycleInv
  apply reachable_along hreach
  omega

end Trace

def timeSharedCheck (s : State n) (op : Op n) (s' : State n) : Bool :=
  s'.entries .rr = s.entries .rr && s.rrCounter ≤ s'.rrCounter
    && (List.finRange NPROC).all fun p =>
      if (s.proc p).state = .running then
        (s'.proc p).state = .running || match op with
          | .yield c => (s.cpu c).proc = some p && (s.proc p).qType = .rr
          | _ => false
      else
        (s'.proc p).state ≠ .running || match op with
          | .scheduler _ => true
          | _ => false

theorem timeShared_of_check (hstep : Steps s op s') (hcheck : timeSharedCheck s op s' = true)
    : TimeShared s op s' := by
  unfold timeSharedCheck at hcheck
  simp only [Bool.and_eq_true, decide_eq_true_eq, List.all_eq_true, List.mem_finRange, forall_const] at hcheck
  rcases hcheck with ⟨⟨hqueue, hcounter⟩, hproc⟩
  refine ⟨hstep, hqueue, hcounter, ?_, ?_⟩
  . intro p hp hp'
    have hp'' := hproc p
    rw [if_pos hp] at hp''
    split at hp''
    . next c =>
      simp [hp'] at hp''
      exact ⟨c, rfl, hp''⟩
    . simp [hp'] at hp''
  . intro p hp hp'
    have hp'' := hproc p
    rw [if_neg hp] at hp''
    split at hp''
    . next c => exact ⟨c, rfl⟩
    . simp [hp'] at hp''

theorem timeShared_of_checkedStep (s : State n) (op : Op n) (s' : State n)
    (h : checkedStep timeSharedCheck s op = some s')
    : TimeShared s op s' := by
  have hboth := checkedStep_eq_some h
  exact timeShared_of_check hboth.1 hboth.2

def takesTurnsCheck (s : State n) (op : Op n) (s' : State n) : Bool :=
  timeSharedCheck s op s' && (s.entries .rr).Nodup
    && s.rrCounter.toNat + (s.entries .rr).length ≤ 2 ^ 32
    && match op with
      | .yield c => (s.entries .rr)[s.rrIndex 0]? = (s.cpu c).proc
      | _ => true

theorem takesTurns_of_checkedStep (s : State n) (op : Op n) (s' : State n)
    (h : checkedStep takesTurnsCheck s op = some s')
    : TakesTurns s op s' := by
  rcases checkedStep_eq_some h with ⟨hstep, hcheck⟩
  simp only [takesTurnsCheck, Bool.and_eq_true, decide_eq_true_eq] at hcheck
  rcases hcheck with ⟨⟨⟨htime, hnodup⟩, hindex⟩, hyield⟩
  refine ⟨timeShared_of_check hstep htime, ?_, hnodup, hindex⟩
  rintro c p rfl hcur
  rw [← hcur]
  simpa using hyield

def threeReady : State 2 :=
  (Reach.exec (checkedStep fun _ _ _ => true) init
    [.userinit, .scheduler 0, .afterSwtch 0, .forkAlloc 0, .forkCopy 0, .forkEnqueue 0, .forkAlloc 0,
      .forkCopy 0, .forkEnqueue 0, .changeQueue 0 2 1 0, .changeQueue 0 3 1 0, .changeQueue 0 1 1 0,
      .trapTimer 0, .trapTimer 0, .trapTimer 0, .trapTimer 0, .trapTimer 0, .yield 0,
      .schedulerReturn 0]).getD init

theorem reachable_threeReady : Reachable threeReady :=
  Reach.reachable_exec steps_of_checkedStep _

theorem turn_between_turns_of_two_cpus
    : ∃ tr : Reach.Trace (TakesTurns (n := 2)), Reachable (tr.state 0)
        ∧ Dispatched (tr.state 0) (tr.state 1) 2 ∧ Dispatched (tr.state 20) (tr.state 21) 2
        ∧ ∃ k, 0 < k ∧ k < 20 ∧ Dispatched (tr.state k) (tr.state (k + 1)) 1 := by
  let tr := Reach.Trace.ofExec _ takesTurns_of_checkedStep threeReady
    [.scheduler 0, .afterSwtch 0, .scheduler 1, .afterSwtch 1, .trapTimer 0, .trapTimer 0,
      .trapTimer 0, .trapTimer 0, .trapTimer 0, .yield 0, .schedulerReturn 0, .scheduler 0,
      .afterSwtch 0, .trapTimer 1, .trapTimer 1, .trapTimer 1, .trapTimer 1, .trapTimer 1, .yield 1,
      .schedulerReturn 1, .scheduler 1] .userinit (by decide +kernel)
  have hfirst : Dispatched (tr.state 0) (tr.state 1) 2 := by
    constructor
    all_goals decide +kernel
  have hagain : Dispatched (tr.state 20) (tr.state 21) 2 := by
    constructor
    all_goals decide +kernel
  refine ⟨tr, reachable_threeReady, hfirst, hagain, ?_⟩
  apply turn_between_turns (p := 2) (i := 0) reachable_threeReady
  . decide
  . decide
  . exact hfirst
  . exact hagain
  . decide +kernel
  . decide
  . decide +kernel

/--
Of two processes, the one that was picked later yields first. That moves the cursor past the other one
and to itself, so that it is picked again.
-/
theorem waiting_process_overtaken
    : ∃ tr : Reach.Trace (TimeShared (n := 2)), Reachable (tr.state 0) ∧ tr.length = 12
        ∧ (tr.state 0).entries .rr = [1, 2, 0]
        ∧ Dispatched (tr.state 2) (tr.state 3) 0 ∧ Dispatched (tr.state 11) (tr.state 12) 0
        ∧ (∀ k ≤ 12, 2 ≤ k → ((tr.state k).proc 1).state = .runnable)
        ∧ ∀ k < 12, 2 ≤ k → ¬Dispatched (tr.state k) (tr.state (k + 1)) 1 := by
  let tr := Reach.Trace.ofExec _ timeShared_of_checkedStep threeReady
    [.scheduler 0, .afterSwtch 0, .scheduler 1, .afterSwtch 1, .trapTimer 1, .trapTimer 1,
      .trapTimer 1, .trapTimer 1, .trapTimer 1, .yield 1, .schedulerReturn 1, .scheduler 1] .userinit
    (by decide +kernel)
  have hwaits : ∀ k ≤ 12, 2 ≤ k → ((tr.state k).proc 1).state = .runnable := by
    decide +kernel
  refine ⟨tr, reachable_threeReady, rfl, by decide +kernel, ?_, ?_, hwaits, ?_⟩
  . constructor
    all_goals decide +kernel
  . constructor
    all_goals decide +kernel
  . intro k hk h2 hdispatched
    have hstate := hdispatched.2
    rw [hwaits (k + 1) hk (by omega)] at hstate
    cases hstate

end State
end Xv6
