import Xv6.Proc.Members

namespace Xv6

variable {n : Nat} {f : Proc → Proc}

def Proc.Alive (pr : Proc) : Prop :=
  pr.Ready ∨ pr.state = .sleeping

structure Proc.Same (pr pr' : Proc) : Prop where
  state : pr.state = pr'.state
  qType : pr.qType = pr'.qType
  flag : pr.changeRunningQueue = pr'.changeRunningQueue

theorem Proc.Same.refl (pr : Proc) : pr.Same pr :=
  ⟨rfl, rfl, rfl⟩

theorem Proc.Same.symm {pr pr' : Proc} (h : pr.Same pr') : pr'.Same pr :=
  ⟨h.state.symm, h.qType.symm, h.flag.symm⟩

theorem Proc.not_alive {pr : Proc} (h : pr.state = .unused ∨ pr.state = .embryo ∨ pr.state = .zombie)
    : ¬pr.Alive := by
  rcases h with h | h | h
  all_goals simp [Proc.Alive, Proc.Ready, h]

theorem Proc.same_reparent (pr : Proc) (p : ProcPtr) (r : Option ProcPtr)
    : (pr.reparent p r).Same pr := by
  unfold Proc.reparent
  split
  all_goals exact ⟨rfl, rfl, rfl⟩

def Op.newType (op : Op n) : Option SchedQ :=
  match op with
  | .changeQueue _ _ queueID _ => SchedQ.ofInt? queueID
  | _ => none

inductive Change (cleans : Prop) (newType : Option SchedQ) (pr pr' : Proc) : Prop
  | same (hstate : pr'.state = pr.state) (hqType : pr'.qType = pr.qType)
      (hflag : pr'.changeRunningQueue = pr.changeRunningQueue)
  | wake (hstate : pr.state = .sleeping) (hstate' : pr'.state = .runnable)
      (hqType : pr'.qType = pr.qType) (hflag : pr'.changeRunningQueue = pr.changeRunningQueue)
  | run (hstate : pr.state = .runnable) (hstate' : pr'.state = .running)
      (hqType : pr'.qType = pr.qType) (hflag : pr'.changeRunningQueue = pr.changeRunningQueue)
  | yield (hstate : pr.state = .running) (hstate' : pr'.state = .runnable)
      (hqType : pr'.qType = pr.qType) (hflag : pr'.changeRunningQueue = false)
  | stop (hcleans : cleans) (hstate : pr.state = .running)
      (hstate' : pr'.state = .sleeping ∨ pr'.state = .zombie) (hqType : pr'.qType = pr.qType)
      (hflag : pr'.changeRunningQueue = pr.changeRunningQueue)
  | idle (hstate : ¬pr.Alive) (hstate' : ¬pr'.Alive) (hqType : pr'.qType = pr.qType)
      (hflag : pr'.changeRunningQueue = pr.changeRunningQueue)
  | born (hstate : ¬pr.Alive) (hstate' : pr'.state = .runnable) (hqType : pr'.qType = .lcfs)
      (hflag : pr'.changeRunningQueue = pr.changeRunningQueue)
  | age (hcleans : cleans) (hstate : pr.state = .runnable) (hstate' : pr'.state = .runnable)
      (hqType : pr'.qType = .rr) (hflag : pr'.changeRunningQueue = pr.changeRunningQueue)
  | move (hcleans : pr.Ready → cleans) (hstate : pr'.state = pr.state)
      (hqType : newType = some pr'.qType)
      (hflag : pr'.changeRunningQueue = (pr.state = .running || pr.changeRunningQueue))

namespace Change

variable {cleans : Prop} {newType : Option SchedQ} {pr pr' pr'' : Proc}

theorem of_eq (h : pr' = pr) : Change cleans newType pr pr' := by
  subst h
  exact .same rfl rfl rfl

theorem congr (h : Change cleans newType pr pr') {pr1 pr1' : Proc} (hl : pr1.Same pr) (hr : pr1'.Same pr')
    : Change cleans newType pr1 pr1' := by
  rcases hl with ⟨hl1, hl2, hl3⟩
  rcases hr with ⟨hr1, hr2, hr3⟩
  have hready : pr1.Ready ↔ pr.Ready := by
    simp [Proc.Ready, hl1]
  have halive : pr1.Alive ↔ pr.Alive := by
    simp [Proc.Alive, hready, hl1]
  have halive' : pr1'.Alive ↔ pr'.Alive := by
    simp [Proc.Alive, Proc.Ready, hr1]
  cases h with
  | same h1 h2 h3 => exact .same (by simp [*]) (by simp [*]) (by simp [*])
  | wake h1 h2 h3 h4 => exact .wake (by simp [*]) (by simp [*]) (by simp [*]) (by simp [*])
  | run h1 h2 h3 h4 => exact .run (by simp [*]) (by simp [*]) (by simp [*]) (by simp [*])
  | yield h1 h2 h3 h4 => exact .yield (by simp [*]) (by simp [*]) (by simp [*]) (by simp [*])
  | stop h0 h1 h2 h3 h4 => exact .stop h0 (by simp [*]) (by rwa [hr1]) (by simp [*]) (by simp [*])
  | idle h1 h2 h3 h4 =>
    exact .idle (by rwa [halive]) (by rwa [halive']) (by simp [*]) (by simp [*])
  | born h1 h2 h3 h4 => exact .born (by rwa [halive]) (by simp [*]) (by simp [*]) (by simp [*])
  | age h0 h1 h2 h3 h4 => exact .age h0 (by simp [*]) (by simp [*]) (by simp [*]) (by simp [*])
  | move h0 h1 h2 h3 =>
    exact .move (by rwa [hready]) (by simp [*]) (by rw [h2, hr2]) (by rw [hr3, h3, hl1, hl3])

theorem wakeIf (pr : Proc) (w : Prop) : Change cleans newType pr (pr.wakeIf w) := by
  unfold Proc.wakeIf
  split
  . next h => exact .wake h.2 rfl rfl rfl
  . exact .of_eq rfl

theorem then_same {s : Core n} {p q : ProcPtr}
    (h : Change cleans newType pr (s.proc q)) (hf : ∀ pr, (f pr).Same pr)
    : Change cleans newType pr ((s.modify p f).proc q) := by
  rw [Core.modify_proc]
  split
  . exact h.congr (.refl pr) (hf _)
  . exact h

theorem modify {s : Core n} {p q : ProcPtr}
    (h : q = p → Change cleans newType (s.proc q) (f (s.proc q)))
    : Change cleans newType (s.proc q) ((s.modify p f).proc q) := by
  rw [Core.modify_proc]
  split
  . next hq => exact h hq
  . exact .of_eq rfl

theorem sysReturn {s : Core n} {p q : ProcPtr} {r : Int} (h : Change cleans newType pr (s.proc q))
    : Change cleans newType pr ((s.sysReturn p r).proc q) := by
  rw [Core.sysReturn_eq_modify]
  apply h.then_same
  intro pr
  exact ⟨rfl, rfl, rfl⟩

end Change

theorem Core.same_modify {s : Core n} {p : ProcPtr} (hf : ∀ pr, (f pr).Same pr) (q : ProcPtr)
    : ((s.modify p f).proc q).Same (s.proc q) := by
  rw [modify_proc]
  split
  . exact hf _
  . exact .refl _

theorem Core.WaitEffect.change {s t : Core n} {c : Fin n} {p q : ProcPtr} {cleans : Prop}
    {newType : Option SchedQ} (h : s.WaitEffect c p t) (hrun : (s.proc p).state = .running)
    (hcleans : s.waitSleeps p = true → q = p → cleans)
    : Change cleans newType (s.proc q) (t.proc q) := by
  unfold waitSleeps at hcleans
  cases h with
  | found z hscan =>
    rcases waitScan_found hscan with ⟨_, hzombie⟩
    rw [resume_proc, reap_eq_modify]
    apply Change.sysReturn
    apply Change.modify
    rintro rfl
    exact .idle (Proc.not_alive (.inr (.inr hzombie))) (Proc.not_alive (.inl rfl)) rfl rfl
  | refused havekids hscan hno =>
    rw [resume_proc]
    apply Change.sysReturn
    exact .of_eq rfl
  | sleeps havekids hscan hyes =>
    rw [sched_proc]
    apply Change.modify
    rintro rfl
    refine .stop (hcleans ?_ rfl) hrun (.inl rfl) rfl rfl
    simpa [hscan] using hyes

namespace State

variable {s s' : State n} {op : Op n} {q : ProcPtr}

theorem age_change {c : Fin n}
    : Change (s.cleans (.agingMechanism c) q = true) (Op.newType (.agingMechanism c)) (s.proc q)
        (s.proc q).age := by
  unfold Proc.age
  split
  . next hrun =>
    by_cases hage : AGING_BOUND < (s.proc q).waitingTime + 1 ∧ (s.proc q).qType ≠ .rr
    . refine .age ?_ hrun hrun ?_ rfl
      . simp [State.cleans, ages, hrun, hage]
      . simp [hage.1]
    refine .same rfl ?_ rfl
    by_cases hbound : AGING_BOUND < (s.proc q).waitingTime + 1
    . have hrr : (s.proc q).qType = .rr := by
        by_contra hne
        exact hage ⟨hbound, hne⟩
      simp [hbound, hrr]
    . simp [hbound]
  . exact .of_eq rfl

theorem Steps.change (h : Steps s op s') (hlife : LifeCycleInv s) (q : ProcPtr)
    : Change (s.cleans op q = true) op.newType (s.proc q) (s'.proc q) := by
  have hembryo {c : Fin n} {p np : ProcPtr} {st : ForkStage} (hb : s.Builds c p np st)
      : (s.proc np).state = .embryo :=
    hlife.forks.embryo p np st hb.fork
  have hrunning {c : Fin n} {p : ProcPtr} (hc : s.Calls c p) : (s.proc p).state = .running :=
    hlife.oneCpu.canRun_running (Core.canRun_of_calls hc)
  have hphase {c : Fin n} {p : ProcPtr} (hcur : (s.cpu c).proc = some p)
      (hmode : (s.cpu c).mode ≠ .returned)
      : (s.proc p).state = .running := by
    apply hlife.oneCpu.running c p hcur
    cases hm : (s.cpu c).mode
    all_goals simp_all [Mode.phase]
  have heffect := h.effect
  generalize s'.toCore = t at heffect ⊢
  cases heffect with
  | userinit p hlock hinit hp =>
    dsimp only
    apply Change.modify
    rintro rfl
    exact .born (Proc.not_alive (.inl hp)) rfl rfl rfl
  | dispatch c p site hlock hmode hp =>
    rw [Core.dispatch_proc]
    apply Change.modify
    rintro rfl
    exact .run hp rfl rfl rfl
  | dispatchNext c p z site hmode hcur hz =>
    rw [Core.dispatch_proc]
    apply Change.modify
    rintro rfl
    exact .run hz rfl rfl rfl
  | goIdle | endRound | resume | trapIgnore | tick => exact .of_eq rfl
  | resumeSleep c p hmode hcur hctx =>
    rw [Core.resume_proc]
    apply Change.then_same (.of_eq rfl)
    intro pr
    exact ⟨rfl, rfl, rfl⟩
  | resumeWait c p t hmode hcur hctx hwait =>
    have hclear := Core.same_modify (s := s.toCore) (p := p) (f := fun pr => { pr with chan := none })
      (fun _ => ⟨rfl, rfl, rfl⟩)
    refine Change.congr (hwait.change ?_ ?_) ?_ (.refl _)
    . rw [(hclear p).state]
      apply hphase hcur
      simp [hmode]
    . rintro hsleeps rfl
      unfold Core.modify at hsleeps
      rw [Core.waitSleeps_setProc] at hsleeps
      . simp [cleans, hcur, hctx, hsleeps]
      all_goals rfl
    . exact (hclear q).symm
  | trapTick c p hmode hcur hstate =>
    apply Change.then_same (.of_eq rfl)
    intro pr
    exact ⟨rfl, rfl, rfl⟩
  | trapYield c p hmode hcur hstate =>
    rw [Core.setCpu_proc]
    apply Change.then_same (.of_eq rfl)
    intro pr
    exact ⟨rfl, rfl, rfl⟩
  | yield c p hlock hmode hcur =>
    dsimp only
    rw [Core.sched_proc]
    apply Change.modify
    rintro rfl
    refine .yield ?_ rfl rfl rfl
    apply hphase hcur
    simp [hmode]
  | sleep c a p hcalls =>
    rw [Core.sched_proc]
    apply Change.modify
    rintro rfl
    refine .stop ?_ (hrunning hcalls) (.inl rfl) rfl rfl
    simp [cleans, hcalls.cur]
  | wait c p t hcalls hwait =>
    apply hwait.change (hrunning hcalls)
    rintro hsleeps rfl
    simp [cleans, hcalls.cur, hsleeps]
  | exit c p W hcalls hinit hparent hpass =>
    rw [Core.sched_proc, Core.modify_proc, Core.mapProc_proc]
    split
    . next hq =>
      subst hq
      rcases Proc.same_reparent (s.proc q) q s.initproc with ⟨_, hqType, hflag⟩
      rw [Proc.wakeIf_of_awake (by simp [hrunning hcalls])]
      refine .stop ?_ (hrunning hcalls) (.inr rfl) hqType hflag
      simp [cleans, hcalls.cur, hinit]
    . exact (Change.wakeIf (s.proc q) (W q)).congr (.refl _) (Proc.same_reparent _ _ _)
  | forkAlloc c p np t hcalls halloc =>
    rcases Core.allocproc_eq_some halloc with ⟨hnp, rfl⟩
    apply Change.then_same
    . apply Change.modify (s := s.toCore)
        (f := fun pr => { pr with state := .embryo, pid := s.nextpid, fork := none })
      rintro rfl
      exact .idle (Proc.not_alive (.inl hnp)) (Proc.not_alive (.inr (.inl rfl))) rfl rfl
    . intro pr
      exact ⟨rfl, rfl, rfl⟩
  | forkNoStack c p np hbuilds =>
    apply Change.then_same
    . apply Change.modify
      rintro rfl
      exact .idle (Proc.not_alive (.inr (.inl (hembryo hbuilds)))) (Proc.not_alive (.inl rfl)) rfl rfl
    . intro pr
      exact ⟨rfl, rfl, rfl⟩
  | forkNoMemory c p np hbuilds =>
    have hstack : ∀ z, ((s.toCore.initStack np).proc z).Same (s.proc z) := by
      rw [Core.initStack_eq_modify]
      apply Core.same_modify
      intro pr
      exact ⟨rfl, rfl, rfl⟩
    apply Change.then_same
    . refine Change.congr (Change.modify ?_) (hstack q).symm (.refl _)
      rintro rfl
      have hnp := (hstack q).state.trans (hembryo hbuilds)
      exact .idle (Proc.not_alive (.inr (.inl hnp))) (Proc.not_alive (.inl rfl)) rfl rfl
    . intro pr
      exact ⟨rfl, rfl, rfl⟩
  | forkCopy c p np hbuilds =>
    rw [Core.initStack_eq_modify]
    refine Change.then_same (.then_same (.then_same (.of_eq rfl) ?_) ?_) ?_
    all_goals
      intro pr
      exact ⟨rfl, rfl, rfl⟩
  | forkEnqueue c p np hlock hbuilds =>
    apply Change.then_same
    . apply Change.modify
      rintro rfl
      exact .born (Proc.not_alive (.inr (.inl (hembryo hbuilds)))) rfl rfl rfl
    . intro pr
      exact ⟨rfl, rfl, rfl⟩
  | kill c pid r p z hcalls hfind =>
    apply Change.sysReturn
    apply Change.modify
    rintro rfl
    exact (Change.wakeIf { s.proc q with killed := true } True).congr ⟨rfl, rfl, rfl⟩ (.refl _)
  | wakeup a hlock => exact Change.wakeIf _ _
  | agingMechanism c hc hlock => exact age_change
  | changeQueue c pid queueID beyond p z k hcalls hk hfind =>
    apply Change.sysReturn
    apply Change.modify
    rintro rfl
    refine .move ?_ rfl hk rfl
    intro hready
    simp [cleans, hk, hfind, hready]
  | changeLocalBjf c pid pRatio aRatio eRatio sRatio p z hcalls hfind =>
    apply Change.sysReturn
    apply Change.then_same (.of_eq rfl)
    intro pr
    exact ⟨rfl, rfl, rfl⟩
  | changeGlobalBjf c pRatio aRatio eRatio sRatio p hcalls =>
    apply Change.sysReturn
    exact .same rfl rfl rfl
  | forkFull | killNobody | changeNobody =>
    apply Change.sysReturn
    exact .of_eq rfl

end State
end Xv6
