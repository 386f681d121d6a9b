import Xv6.Proc.Lemmas.Effect

namespace Xv6

variable {n : Nat}

structure Ratios where
  priority : Rat
  arrivetime : Rat
  executedCycle : Rat
  size : Rat
  deriving DecidableEq

namespace Ratios

def ofInts (pRatio aRatio eRatio sRatio : Int) : Ratios :=
  ⟨floatOfInt pRatio, floatOfInt aRatio, floatOfInt eRatio, floatOfInt sRatio⟩

def ofFork : Ratios :=
  ⟨1 / 4, 1 / 4, 1 / 4, 1 / 4⟩

theorem ofInts_ne_ofFork (pRatio aRatio eRatio sRatio : Int)
    : ofInts pRatio aRatio eRatio sRatio ≠ ofFork := by
  intro h
  have hden := congrArg (fun r => r.priority.den) h
  simp only [ofInts, ofFork, floatOfInt, Rat.den_intCast] at hden
  revert hden
  decide +kernel

end Ratios

def Proc.ratios (pr : Proc) : Ratios :=
  ⟨pr.priorityRatio, pr.arrivetimeRatio, pr.executedCycleRatio, pr.sizeRatio⟩

namespace State

variable {s s' : State n} {op : Op n} {p q : ProcPtr}

def globalTo (op : Op n) : Option Ratios :=
  match op with
  | .changeGlobalBjf _ pRatio aRatio eRatio sRatio => some (.ofInts pRatio aRatio eRatio sRatio)
  | _ => none

def localTarget (s : State n) (op : Op n) : Option ProcPtr :=
  match op with
  | .changeLocalBjf _ pid _ _ _ _ => s.toCore.findProc fun pr => pr.pid = pid
  | _ => none

def forkTarget (s : State n) (op : Op n) : Option ProcPtr :=
  match op with
  | .forkEnqueue c => (s.forker? c .copied).map Prod.snd
  | _ => none

theorem ratios_modify {s : Core n} {f : Proc → Proc} (h : ∀ pr, (f pr).ratios = pr.ratios)
    : ((s.modify p f).proc q).ratios = (s.proc q).ratios :=
  Core.modify_field h q

theorem ratios_wakeIf (pr : Proc) (w : Prop) : (pr.wakeIf w).ratios = pr.ratios := by
  unfold Proc.wakeIf
  split
  all_goals rfl

theorem ratios_reparent (pr : Proc) (p : ProcPtr) (r : Option ProcPtr)
    : (pr.reparent p r).ratios = pr.ratios := by
  unfold Proc.reparent
  split
  all_goals rfl

theorem ratios_age (pr : Proc) : pr.age.ratios = pr.ratios := by
  unfold Proc.age
  split
  all_goals rfl

theorem ratios_wait {s s' : Core n} {c : Fin n} (h : s.WaitEffect c p s')
    : (s'.proc q).ratios = (s.proc q).ratios := by
  cases h
  all_goals
    simp only [Core.resume_proc, Core.sched_proc, Core.sysReturn_eq_modify, Core.reap_eq_modify]
    repeat rw [ratios_modify]
    all_goals
      intro pr
      rfl

theorem forkTarget_of_builds {c : Fin n} {np : ProcPtr} (h : s.Builds c p np .copied)
    : s.forkTarget (.forkEnqueue c) = some np := by
  have hforker : s.forker? c .copied = some (p, np) :=
    Core.forker?_eq_some.mpr ⟨h.mode, h.cur, h.fork⟩
  simp [forkTarget, hforker]

theorem Steps.ratios_same (h : Steps s op s') (hglobal : globalTo op = none)
    (hlocal : s.localTarget op ≠ some p) (hfork : s.forkTarget op ≠ some p)
    : (s'.proc p).ratios = (s.proc p).ratios := by
  have heffect := h.effect
  generalize s'.toCore = t at heffect
  cases heffect with
  | resumeWait c q t hmode hcur hctx hwait =>
    rw [ratios_wait hwait, ratios_modify]
    intro pr
    rfl
  | wait c q t hcalls hwait => exact ratios_wait hwait
  | exit c q W hcalls hinit hparent hpass =>
    rw [Core.sched_proc, ratios_modify, Core.mapProc_proc, ratios_reparent, ratios_wakeIf]
    intro pr
    rfl
  | forkAlloc c q np t hcalls halloc =>
    rcases Core.allocproc_eq_some halloc with ⟨_, rfl⟩
    rw [ratios_modify]
    . exact ratios_modify (s := s.toCore)
        (f := fun pr => { pr with state := .embryo, pid := s.nextpid, fork := none }) fun _ => rfl
    . intro pr
      rfl
  | forkEnqueue c q np hlock hbuilds =>
    have hne : p ≠ np := by
      rintro rfl
      exact hfork (forkTarget_of_builds hbuilds)
    rw [ratios_modify, Core.modify_proc, if_neg hne]
    intro pr
    rfl
  | kill c pid r q z hcalls hfind =>
    rw [Core.sysReturn_eq_modify, ratios_modify, ratios_modify]
    . intro pr
      apply ratios_wakeIf
    . intro pr
      rfl
  | wakeup a hlock => apply ratios_wakeIf
  | agingMechanism c hcpu hlock => apply ratios_age
  | changeLocalBjf c pid pRatio aRatio eRatio sRatio q z hcalls hfind =>
    have hne : p ≠ z := by
      rintro rfl
      exact hlocal hfind
    rw [Core.sysReturn_eq_modify, ratios_modify, Core.modify_proc, if_neg hne]
    intro pr
    rfl
  | changeGlobalBjf c pRatio aRatio eRatio sRatio q hcalls => cases hglobal
  | trapIgnore | tick => rfl
  -- The rest changes other fields.
  | trapTick | forkNoStack =>
    repeat rw [ratios_modify]
    all_goals
      intro pr
      rfl
  | _ =>
    simp only [Core.resume_proc, Core.sched_proc, Core.goIdle_proc, Core.setCpu_proc,
      Core.dispatch_proc, Core.sysReturn_eq_modify, Core.initStack_eq_modify]
    repeat rw [ratios_modify]
    all_goals
      intro pr
      rfl

theorem Steps.ratios_of_global (h : Steps s op s') {r : Ratios} (hglobal : globalTo op = some r)
    : (s'.proc p).ratios = r := by
  have heffect := h.effect
  generalize s'.toCore = t at heffect
  cases heffect with
  | changeGlobalBjf c pRatio aRatio eRatio sRatio q hcalls =>
    cases hglobal
    rw [Core.sysReturn_eq_modify, ratios_modify]
    . rfl
    . intro pr
      rfl
  | _ => cases hglobal

theorem Steps.ratios_of_fork (h : Steps s op s') (hfork : s.forkTarget op = some p)
    : (s'.proc p).ratios = .ofFork := by
  have heffect := h.effect
  generalize s'.toCore = t at heffect
  cases heffect with
  | forkEnqueue c q np hlock hbuilds =>
    rw [forkTarget_of_builds hbuilds] at hfork
    cases hfork
    rw [ratios_modify, Core.modify_proc, if_pos rfl]
    . rfl
    . intro pr
      rfl
  | _ => cases hfork

theorem ratios_const (tr : Reach.Trace (Steps (n := n))) {i j : Nat} (hij : i ≤ j)
    (hj : j ≤ tr.length) (hglobal : ∀ k, i ≤ k → k < j → globalTo (tr.act k) = none)
    (hlocal : ∀ k, i ≤ k → k < j → (tr.state k).localTarget (tr.act k) ≠ some p)
    (hfork : ∀ k, i ≤ k → k < j → (tr.state k).forkTarget (tr.act k) ≠ some p)
    : ((tr.state j).proc p).ratios = ((tr.state i).proc p).ratios := by
  induction j, hij using Nat.le_induction with
  | base => rfl
  | succ j hij ih =>
    rw [(tr.next j hj).ratios_same (hglobal j hij (by omega)) (hlocal j hij (by omega))
      (hfork j hij (by omega))]
    apply ih
    . omega
    . intro k hik hkj
      exact hglobal k hik (by omega)
    . intro k hik hkj
      exact hlocal k hik (by omega)
    . intro k hik hkj
      exact hfork k hik (by omega)

/--
The ratios of a `change_global_bjf` at `i` still hold at `j`, for a process that `change_local_bjf`
has not been called for, if and only if the process was not forked in between.
-/
theorem global_ratios_persist_iff {tr : Reach.Trace (Steps (n := n))} {i j : Nat} {r : Ratios}
    (hij : i < j) (hj : j ≤ tr.length) (hglobal : globalTo (tr.act i) = some r)
    (hlast : ∀ k, i < k → k < j → globalTo (tr.act k) = none)
    -- What was written to the slot of the process before it was forked does not count.
    (hlocal : ∀ k, i < k → k < j → (tr.state k).localTarget (tr.act k) = some p →
      ∃ m, k < m ∧ m < j ∧ (tr.state m).forkTarget (tr.act m) = some p)
    : ((tr.state j).proc p).ratios = r
        ↔ ∀ k, i < k → k < j → (tr.state k).forkTarget (tr.act k) ≠ some p := by
  constructor
  . intro hr k hik hkj hk
    rcases Reach.exists_last (P := fun k => (tr.state k).forkTarget (tr.act k) = some p) hk hkj
      with ⟨m, hkm, hmj, hm, hnone⟩
    have hfork := (tr.next m (by omega)).ratios_of_fork hm
    have hconst := ratios_const tr (i := m + 1) (p := p) (by omega) hj
      (fun k hmk hkj => hlast k (by omega) hkj) ?_ (fun k hmk hkj => hnone k (by omega) hkj)
    . rw [hconst, hfork] at hr
      subst hr
      cases hact : tr.act i with
      | changeGlobalBjf c pRatio aRatio eRatio sRatio =>
        rw [hact] at hglobal
        exact Ratios.ofInts_ne_ofFork _ _ _ _ (Option.some.inj hglobal)
      | _ =>
        rw [hact] at hglobal
        cases hglobal
    . intro l hml hlj htarget
      rcases hlocal l (by omega) hlj htarget with ⟨m', hlm', hm'j, hm'⟩
      exact hnone m' (by omega) hm'j hm'
  . intro hnone
    rw [ratios_const tr (i := i + 1) (p := p) (by omega) hj
      (fun k hik hkj => hlast k (by omega) hkj) ?_ (fun k hik hkj => hnone k (by omega) hkj)]
    . exact (tr.next i (by omega)).ratios_of_global hglobal
    . intro k hik hkj htarget
      rcases hlocal k (by omega) hkj htarget with ⟨m, hkm, hmj, hm⟩
      exact hnone m (by omega) hmj hm

theorem global_ratios_persist_of_wait
    : ∃ tr : Reach.Trace (Steps (n := 1)), tr.state 0 = init
        ∧ tr.act 6 = .changeGlobalBjf 0 2 3 4 5 ∧ tr.act 7 = .wait 0 ∧ ((tr.state 8).proc 1).state = .runnable
        ∧ ((tr.state 8).proc 1).ratios = Ratios.ofInts 2 3 4 5 := by
  let tr := Reach.Trace.ofExec (checkedStep fun _ _ _ => true) steps_of_checkedStep (init (n := 1))
    [.userinit, .scheduler 0, .afterSwtch 0, .forkAlloc 0, .forkCopy 0, .forkEnqueue 0,
      .changeGlobalBjf 0 2 3 4 5, .wait 0] .userinit (by decide +kernel)
  refine ⟨tr, rfl, rfl, rfl, by decide +kernel, ?_⟩
  have hwait : ∀ k, 6 < k → k < 8 → k = 7 := by omega
  rw [global_ratios_persist_iff (i := 6) (by decide) (by decide) rfl]
  . intro k h6 h8
    rw [hwait k h6 h8]
    decide +kernel
  . intro k h6 h8
    rw [hwait k h6 h8]
    rfl
  . intro k h6 h8
    rw [hwait k h6 h8]
    intro htarget
    cases htarget

/-- A child that is forked after a `change_global_bjf` does not get its ratios. -/
theorem forked_child_without_global_ratios
    : ∃ tr : Reach.Trace (Steps (n := 1)), tr.state 0 = init ∧ tr.length = 7 ∧ tr.act 3 = .changeGlobalBjf 0 2 3 4 5
        ∧ (∀ k, 3 < k → k < 7 → globalTo (tr.act k) = none)
        ∧ (∀ k, 3 < k → k < 7 → (tr.state k).localTarget (tr.act k) = none)
        ∧ ((tr.state 7).proc 1).state = .runnable ∧ ((tr.state 7).proc 1).ratios ≠ Ratios.ofInts 2 3 4 5 := by
  let tr := Reach.Trace.ofExec (checkedStep fun _ _ _ => true) steps_of_checkedStep (init (n := 1))
    [.userinit, .scheduler 0, .afterSwtch 0, .changeGlobalBjf 0 2 3 4 5, .forkAlloc 0, .forkCopy 0,
      .forkEnqueue 0] .userinit (by decide +kernel)
  have hlater : ∀ k, 3 < k → k < 7 → k = 4 ∨ k = 5 ∨ k = 6 := by omega
  refine ⟨tr, rfl, rfl, rfl, ?_, ?_, by decide +kernel, by decide +kernel⟩
  . intro k h3 h7
    rcases hlater k h3 h7 with rfl | rfl | rfl
    all_goals rfl
  . intro k h3 h7
    rcases hlater k h3 h7 with rfl | rfl | rfl
    all_goals rfl

end State
end Xv6
