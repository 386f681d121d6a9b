import Xv6.Proc.Queues
import Xv6.Proc.Removal
import Xv6.Proc.Lemmas.Effect

namespace Xv6

open Outcome LifeCycle

variable {n : Nat}

namespace Core

variable {s s' : Core n} {op : Op n} {c : Fin n} {p : ProcPtr}

theorem modify_waitingTime {f : Proc → Proc} (h : ∀ pr, (f pr).waitingTime = pr.waitingTime) (q : ProcPtr)
    : ((s.modify p f).proc q).waitingTime = (s.proc q).waitingTime :=
  modify_field h q

theorem wakeIf_waitingTime (pr : Proc) (w : Prop) : (pr.wakeIf w).waitingTime = pr.waitingTime :=
  Proc.wakeIf_field (fun _ _ => rfl) pr w

theorem reparent_waitingTime (pr : Proc) (r : Option ProcPtr)
    : (pr.reparent p r).waitingTime = pr.waitingTime :=
  Proc.reparent_field (fun _ _ => rfl) pr p r

theorem WaitEffect.waitingTime (h : s.WaitEffect c p s') (q : ProcPtr)
    : (s'.proc q).waitingTime = (s.proc q).waitingTime := by
  cases h
  all_goals simp [sysReturn_eq_modify, reap_eq_modify, modify_waitingTime]

theorem Effect.waitingTime (h : s.Effect op s') {q : ProcPtr}
    (hq' : (s'.proc q).state = .runnable) (hborn : ∀ c p np, s.Builds c p np .copied → q ≠ np)
    (hop : ∀ c, op ≠ .agingMechanism c)
    : (s'.proc q).waitingTime = (s.proc q).waitingTime := by
  cases h with
  | dispatch c p site hlock hmode hp | dispatchNext c p' p site hmode hcur hp =>
    have hne : q ≠ p := by
      rintro rfl
      simp [modify_proc] at hq'
    simp [modify_proc, hne]
  | resumeWait c p s' hmode hcur hctx hwait =>
    rw [hwait.waitingTime]
    simp [modify_waitingTime]
  | wait c p s' hcalls hwait => exact hwait.waitingTime q
  | forkAlloc c p np s1 hcalls halloc =>
    rcases allocproc_eq_some halloc with ⟨_, rfl⟩
    simp only [modify_waitingTime, implies_true, setProc_proc]
    split
    . next hnp => rw [hnp]
    . rfl
  | forkEnqueue c p np hlock hbuilds =>
    have hne := hborn c p np hbuilds
    simp only [modify_waitingTime, implies_true]
    rw [modify_proc, if_neg hne]
  | agingMechanism c hcpu hlock => exact absurd rfl (hop c)
  | changeGlobalBjf c pRatio aRatio eRatio sRatio p hcalls =>
    simp [sysReturn_eq_modify, modify_waitingTime, State.setRatios]
  | _ =>
    simp [sysReturn_eq_modify, initStack_eq_modify, modify_waitingTime, wakeIf_waitingTime,
      reparent_waitingTime, State.setRatios]

end Core

namespace State

variable {s s' : State n} {p : ProcPtr} {op : Op n}

structure Placed (s : State n) : Prop where
  lists : s.Lists s.entries
  nodup : ∀ k, (s.entries k).Nodup
  ready : ∀ k, ∀ p ∈ s.entries k, (s.proc p).Ready
  type : ∀ p, (s.proc p).state = .runnable → ∃ k, (s.proc p).qType.queueId? = some k
  mem_iff : ∀ p k, (s.proc p).state = .runnable →
    (p ∈ s.entries k ↔ (s.proc p).qType.queueId? = some k)

theorem queueId?_toSchedQ (k : QueueId) : k.toSchedQ.queueId? = some k := by
  cases k
  all_goals rfl

theorem Membership.lists (h : s.Membership) (hroom : ∀ k, (s.entries k).length < NPROC)
    : s.Lists s.entries := by
  intro k
  have hnumber := h.number k
  generalize hm : ((s.queue k).pi.toInt + 1).toNat = m
  have hslot (i : Nat) (hi : i < m) : ∃ p, (s.queue k).get i = .ok (.proc p) :=
    h.slots k i (by omega)
  have hentries : s.entries k = (List.range m).map fun i => ((s.queue k).slot? i).getD 0 := by
    unfold entries Queue.entries
    rw [hm, ← List.filterMap_eq_map]
    apply List.filterMap_congr
    intro i hi
    rcases hslot i (List.mem_range.mp hi) with ⟨p, hp⟩
    simp [Queue.slot?, hp]
  have hlen : (s.entries k).length = m := by
    simp [hentries]
  refine ⟨?_, (hroom k).le, ?_⟩
  . have hcount : (s.queue k).pi.toInt + 1 = (m : Int) := by omega
    show _ = ((s.entries k).length : Int) - 1
    omega
  . intro i p hp
    have hi : i.val < m := by
      have := (List.getElem?_eq_some_iff.mp hp).1
      change i.val < (s.entries k).length at this
      omega
    rcases hslot i.val hi with ⟨q, hq⟩
    have hpq : p = q := by
      change (s.entries k)[i.val]? = some p at hp
      simp [hentries, hi, Queue.slot?, hq] at hp
      exact hp.symm
    rw [Queue.get_of_lt _ i.isLt, Except.ok.injEq] at hq
    rw [hpq]
    exact hq

theorem Membership.placed (h : s.Membership) (hroom : ∀ k, (s.entries k).length < NPROC)
    : s.Placed := by
  have hready : ∀ k, ∀ p ∈ s.entries k, (s.proc p).Ready := by
    intro k p hp
    by_contra hnot
    simp only [Proc.Ready, not_or] at hnot
    exact h.others p hnot.1 hnot.2 k hp
  have hqueue (p : ProcPtr) (hp : (s.proc p).Ready)
      : ∃ k, (s.proc p).qType.queueId? = some k ∧ (s.entries k).count p = 1
        ∧ ∀ k', k' ≠ k → p ∉ s.entries k' := by
    rcases h.ready p hp with ⟨k, hk, hcount, hothers⟩
    exact ⟨k, by rw [hk, queueId?_toSchedQ], hcount, hothers⟩
  refine ⟨h.lists hroom, ?_, hready, ?_, ?_⟩
  . intro k
    rw [List.nodup_iff_count_le_one]
    intro p
    by_cases hp : p ∈ s.entries k
    . rcases hqueue p (hready k p hp) with ⟨k', _, hcount, hothers⟩
      have heq : k = k' := by
        by_contra hne
        exact hothers k hne hp
      rw [heq, hcount]
    . rw [List.count_eq_zero.mpr hp]
      omega
  . intro p hp
    rcases hqueue p (.inl hp) with ⟨k, hk, _, _⟩
    exact ⟨k, hk⟩
  . intro p k hp
    rcases hqueue p (.inl hp) with ⟨k', hk', hcount, hothers⟩
    constructor
    . intro hmem
      have heq : k = k' := by
        by_contra hne
        exact hothers k hne hmem
      rw [heq, hk']
    . intro hk
      rw [hk', Option.some.injEq] at hk
      rw [← hk]
      exact List.count_pos_iff.mp (by omega)

def agedLists (s : State n) (done : List ProcPtr) (k : QueueId) : List ProcPtr :=
  match k with
  | .rr => s.entries .rr ++ done.filter s.ages
  | k => (s.entries k).filter fun p => !(s.ages p && done.contains p)

theorem agedLists_nil (s : State n) : s.agedLists [] = s.entries := by
  funext k
  cases k
  all_goals simp [agedLists]

theorem agedLists_of_not_ages (done : List ProcPtr) (hp : s.ages p = false)
    : s.agedLists (done ++ [p]) = s.agedLists done := by
  have hfilter (k : QueueId)
      : (s.entries k).filter (fun q => !(s.ages q && (done ++ [p]).contains q))
        = (s.entries k).filter fun q => !(s.ages q && done.contains q) := by
    apply List.filter_congr
    intro q _
    by_cases hq : q = p
    . simp [hq, hp]
    . simp [hq]
  funext k
  cases k with
  | rr => simp [agedLists, hp]
  | lcfs => exact hfilter .lcfs
  | bjf => exact hfilter .bjf

theorem ages_iff
    : s.ages p = true ↔ (s.proc p).state = .runnable ∧ AGING_BOUND < (s.proc p).waitingTime + 1
        ∧ (s.proc p).qType ≠ .rr := by
  simp [ages, and_assoc]

theorem Placed.left (h : s.Placed) (hages : s.ages p = true)
    : ∃ k, k ≠ .rr ∧ (s.proc p).qType.queueId? = some k ∧ p ∈ s.entries k ∧ ∀ k', k' ≠ k → p ∉ s.entries k' := by
  rcases ages_iff.mp hages with ⟨hrun, _, hrr⟩
  rcases h.type p hrun with ⟨k, hk⟩
  refine ⟨k, ?_, hk, (h.mem_iff p k hrun).mpr hk, ?_⟩
  . rintro rfl
    exact hrr (toSchedQ_of_queueId? hk)
  . intro k' hne hmem
    rw [h.mem_iff p k' hrun, hk, Option.some.injEq] at hmem
    exact hne hmem.symm

theorem Placed.length_rr_lt (h : s.Placed) {pre post : List ProcPtr}
    (hsplit : List.finRange NPROC = pre ++ p :: post) (hages : s.ages p = true)
    : (s.agedLists pre .rr).length < NPROC := by
  have hp := nodup_split hsplit
  rcases h.left hages with ⟨k, hk, _, _, hothers⟩
  have hnotin : p ∉ s.agedLists pre .rr := by
    simp [agedLists, hothers .rr (Ne.symm hk), hp]
  have hnodup : (s.agedLists pre .rr).Nodup := by
    have hpre : pre.Nodup := by
      have hall := List.nodup_finRange NPROC
      rw [hsplit] at hall
      exact hall.of_append_left
    refine List.nodup_append.mpr ⟨h.nodup .rr, hpre.filter _, ?_⟩
    rintro a ha b hb rfl
    -- Whoever is in `rr_q` is not moved.
    have hages' := (List.mem_filter.mp hb).2
    rcases h.left hages' with ⟨k', hk', _, _, hothers'⟩
    exact hothers' .rr (Ne.symm hk') ha
  have hcard := List.toFinset_card_of_nodup hnodup
  have hnotin' : p ∉ (s.agedLists pre .rr).toFinset := by
    simpa using hnotin
  have hlt := Finset.card_lt_univ_of_notMem hnotin'
  rw [Fintype.card_fin] at hlt
  omega

theorem Placed.agedLists_of_ages (h : s.Placed) {done : List ProcPtr} {k : QueueId}
    (hages : s.ages p = true) (hk : k ≠ .rr) (hothers : ∀ k', k' ≠ k → p ∉ s.entries k')
    : s.agedLists (done ++ [p]) = Function.update
        (Function.update (s.agedLists done) k ((s.agedLists done k).erase p)) .rr
          (s.agedLists done .rr ++ [p]) := by
  have hfilter (k' : QueueId) (hk' : k' ≠ .rr)
      : s.agedLists done k' = (s.entries k').filter fun q => !(s.ages q && done.contains q) := by
    cases k' with
    | rr => exact absurd rfl hk'
    | lcfs | bjf => rfl
  have hfilter' (k' : QueueId) (hk' : k' ≠ .rr) : s.agedLists (done ++ [p]) k'
      = (s.entries k').filter fun q => !(s.ages q && (done ++ [p]).contains q) := by
    cases k' with
    | rr => exact absurd rfl hk'
    | lcfs | bjf => rfl
  funext k'
  by_cases hrr : k' = .rr
  . subst hrr
    simp [agedLists, hages]
  rw [Function.update_of_ne hrr, hfilter' k' hrr]
  by_cases hkk : k' = k
  . subst hkk
    rw [Function.update_self, hfilter k' hrr, ((h.nodup k').filter _).erase_eq_filter,
      List.filter_filter]
    apply List.filter_congr
    intro q _
    by_cases hq : q = p
    . simp [hq, hages]
    . simp [hq]
  . rw [Function.update_of_ne hkk, hfilter k' hrr]
    apply List.filter_congr
    intro q hq
    have hne : q ≠ p := by
      rintro rfl
      exact hothers k' hkk hq
    simp [hne]

theorem agedLists_subset (s : State n) (done : List ProcPtr) {k : QueueId} (hk : k ≠ .rr)
    : (s.agedLists done k).Sublist (s.entries k) := by
  cases k with
  | rr => exact absurd rfl hk
  | lcfs | bjf => exact List.filter_sublist

theorem aged_proc {s : Core n} {done : List ProcPtr} (hp : p ∉ done) : (aged s done).proc p = s.proc p := by
  simp [aged, hp]

theorem aged_pid (s : Core n) (done : List ProcPtr) (p : ProcPtr)
    : ((aged s done).proc p).pid = (s.proc p).pid := by
  simp only [aged, Core.mapProc_proc, Proc.age]
  split
  . split
    all_goals rfl
  . rfl

theorem Placed.aging_step (h : s.Placed) (hpids : DistinctPids s.toCore)
    (hroom : ∀ k, (s.entries k).length < NPROC) {s1 : State n} {pre post : List ProcPtr}
    (hsplit : List.finRange NPROC = pre ++ p :: post) (hcore : s1.toCore = aged s.toCore pre)
    (hlists : s1.Lists (s.agedLists pre))
    : ∃ s2, agingMechanism.body s1 p = .ok s2 ∧ s2.Lists (s.agedLists (pre ++ [p])) := by
  have hp := nodup_split hsplit
  have hproc : s1.proc p = s.proc p := by
    rw [hcore, aged_proc hp]
  unfold agingMechanism.body
  rw [hproc]
  by_cases hages : s.ages p = true
  . rcases h.left hages with ⟨k, hk, htype, hmem, hothers⟩
    rcases ages_iff.mp hages with ⟨hrun, hbound, hrr⟩
    rw [if_pos hrun]
    simp only [setProc_toCore, Core.setProc_proc, if_true]
    rw [if_pos ⟨hbound, hrr⟩]
    -- The process is taken out of its queue.
    have hmem' : p ∈ s.agedLists pre k := by
      cases k with
      | rr => exact absurd rfl hk
      | lcfs | bjf => simpa [agedLists, hp] using hmem
    have hlen : (s.agedLists pre k).length < NPROC :=
      Nat.lt_of_le_of_lt (agedLists_subset s pre hk).length_le (hroom k)
    have hlists1 : (s1.setProc p { s.proc p with waitingTime := (s.proc p).waitingTime + 1 }).Lists
        (s.agedLists pre) := lists_onCore.mpr hlists
    rcases hlists1.cleanupCorresQueue (p := p) (k := k) (by simpa using htype)
      (List.ne_nil_of_mem hmem') with ⟨s2, hs2, hcore2, hlists2⟩
    have hcleaned : cleaned (s1.setProc p { s.proc p with waitingTime := (s.proc p).waitingTime + 1 })
        (s.agedLists pre) k p
          = Function.update (s.agedLists pre) k ((s.agedLists pre k).erase p) := by
      unfold cleaned
      congr 1
      apply Queue.removed_eq_erase hlen hmem'
      intro q hq hpid
      apply hpids q p (h.ready k q ((agedLists_subset s pre hk).subset hq)) (.inl hrun)
      by_cases hqp : q = p
      . rw [hqp]
      . simpa [hqp, hcore, aged_pid] using hpid
    rw [hcleaned] at hlists2
    rw [hs2]
    have hlists3 : (s2.setProc p { s2.proc p with qType := .rr }).Lists
        (Function.update (s.agedLists pre) k ((s.agedLists pre k).erase p)) := lists_onCore.mpr hlists2
    rcases hlists3.append .rr p (by
      rw [Function.update_of_ne (Ne.symm hk)]
      exact h.length_rr_lt hsplit hages) with ⟨s4, hs4, _, hlists4⟩
    refine ⟨s4, hs4, ?_⟩
    rw [h.agedLists_of_ages hages hk hothers]
    rwa [Function.update_of_ne (Ne.symm hk)] at hlists4
  . rw [agedLists_of_not_ages pre (by simpa using hages)]
    split
    . next hrun =>
      dsimp only
      rw [if_neg]
      . exact ⟨_, rfl, lists_onCore.mpr hlists⟩
      . intro hmove
        simp only [setProc_toCore, Core.setProc_proc, if_true] at hmove
        exact hages (ages_iff.mpr ⟨hrun, hmove⟩)
    . exact ⟨s1, rfl, hlists⟩

structure AgesExactly (s s' : State n) : Prop where
  moved : ∀ p, s.ages p = true →
    s'.proc p = { s.proc p with waitingTime := (s.proc p).waitingTime + 1, qType := .rr }
  counted : ∀ p, s.ages p = false → (s.proc p).state = .runnable →
    s'.proc p = { s.proc p with waitingTime := (s.proc p).waitingTime + 1 }
  others : ∀ p, (s.proc p).state ≠ .runnable → s'.proc p = s.proc p
  rr : s'.entries .rr = s.entries .rr ++ (List.finRange NPROC).filter s.ages
  lcfs : s'.entries .lcfs = (s.entries .lcfs).filter fun p => !s.ages p
  bjf : s'.entries .bjf = (s.entries .bjf).filter fun p => !s.ages p

theorem Placed.aging (h : s.Placed) (hpids : DistinctPids s.toCore) (hroom : ∀ k, (s.entries k).length < NPROC)
    : ∃ s', s.agingMechanism = .ok s' ∧ s'.Lists (s.agedLists (List.finRange NPROC)) := by
  have hloop := Sat.foldlM (E := fun _ => False)
    (fun done (s' : State n) => s'.toCore = aged s.toCore done ∧ s'.Lists (s.agedLists done))
    (f := agingMechanism.body) (List.finRange NPROC) [] s
  have hall := hloop ?_ ?_
  . unfold agingMechanism
    cases hrun : (List.finRange NPROC).foldlM agingMechanism.body s with
    | error e =>
      rw [hrun] at hall
      exact hall.elim
    | ok s' =>
      rw [hrun] at hall
      exact ⟨s', rfl, hall.2⟩
  . rw [aged_nil, agedLists_nil]
    exact ⟨rfl, h.lists⟩
  . rintro pre p post s1 hsplit ⟨hcore, hlists⟩
    have hsplit' : List.finRange NPROC = pre ++ p :: post := by simpa using hsplit
    rcases h.aging_step hpids hroom hsplit' hcore hlists with ⟨s2, hs2, hlists2⟩
    rw [hs2]
    exact ⟨agingMechanism_body_aged hcore (nodup_split hsplit') hs2, hlists2⟩

theorem Placed.agesExactly (h : s.Placed) (hpids : DistinctPids s.toCore)
    (hroom : ∀ k, (s.entries k).length < NPROC)
    : ∃ s', s.agingMechanism = .ok s' ∧ AgesExactly s s' := by
  rcases h.aging hpids hroom with ⟨s', hs', hlists⟩
  have hproc (p : ProcPtr) : s'.proc p = (s.proc p).age := by
    rw [agingMechanism_toCore hs', Core.mapProc_proc]
  have hentries := hlists.entries_eq
  refine ⟨s', hs', ?_⟩
  constructor
  . intro p hp
    rcases ages_iff.mp hp with ⟨hrun, hbound, _⟩
    rw [hproc, Proc.age, if_pos hrun, if_pos hbound]
  . intro p hp hrun
    rw [hproc, Proc.age, if_pos hrun]
    by_cases hbound : AGING_BOUND < (s.proc p).waitingTime + 1
    . have hrr : (s.proc p).qType = .rr := by
        by_contra hne
        rw [ages_iff.mpr ⟨hrun, hbound, hne⟩] at hp
        cases hp
      rw [if_pos hbound, ← hrr]
    . rw [if_neg hbound]
  . intro p hp
    rw [hproc, Proc.age, if_neg hp]
  all_goals simp [hentries, agedLists]

def Lingers (p : ProcPtr) (s : State n) : Prop :=
  (s.proc p).state = .runnable ∧ ((s.proc p).qType = .lcfs ∨ (s.proc p).qType = .bjf)

structure KeepsLingering (p : ProcPtr) (s : State n) (op : Op n) (s' : State n) : Prop where
  step : Steps s op s'
  lingers : Lingers p s'

theorem Steps.waitingTime_of_lingers (h : Steps s op s') (hlife : LifeCycleInv s)
    (hp : Lingers p s) (hp' : Lingers p s') (hop : ∀ c, op ≠ .agingMechanism c)
    : (s'.proc p).waitingTime = (s.proc p).waitingTime := by
  apply h.effect.waitingTime hp'.1 _ hop
  rintro c q np hbuilds rfl
  have hembryo : (s.proc p).state = .embryo := hlife.forks.embryo q p .copied hbuilds.fork
  rw [hp.1] at hembryo
  cases hembryo

theorem Steps.waitingTime_of_aging {c : Fin n} (h : Steps s (.agingMechanism c) s')
    (hp : Lingers p s) (hp' : Lingers p s')
    : (s'.proc p).waitingTime = (s.proc p).waitingTime + 1 ∧ (s'.proc p).waitingTime ≤ AGING_BOUND := by
  have hage : s'.proc p = (s.proc p).age := by
    have heffect := h.effect
    generalize s'.toCore = t at heffect
    cases heffect
    rfl
  have hstay := hp'.2
  rw [hage, Proc.age, if_pos hp.1] at hstay ⊢
  refine ⟨rfl, ?_⟩
  by_contra hbound
  rw [if_pos (by simpa using hbound)] at hstay
  rcases hstay with hstay | hstay
  all_goals cases hstay

def isAging (op : Op n) : Bool :=
  match op with
  | .agingMechanism _ => true
  | _ => false

def agings (ops : List (Op n)) : Nat :=
  ops.countP isAging

structure LingerInv (p : ProcPtr) (m : Nat) (s : State n) : Prop where
  reach : Reachable s
  lingers : Lingers p s
  bound : m = 0 ∨ (m ≤ (s.proc p).waitingTime.toNat + 1
    ∧ (s.proc p).waitingTime.toNat ≤ AGING_BOUND.toNat)

theorem LingerInv.step {m : Nat} (h : LingerInv p m s) (hstep : KeepsLingering p s op s')
    : LingerInv p (m + if isAging op then 1 else 0) s' := by
  have hreach := h.reach.tail hstep.step
  have hbound : AGING_BOUND.toNat = 2000 := rfl
  cases hop : isAging op with
  | false =>
    have hsame := hstep.step.waitingTime_of_lingers (Reachable.lifeCycleInv h.reach) h.lingers
      hstep.lingers (by
        rintro c rfl
        cases hop)
    refine ⟨hreach, hstep.lingers, ?_⟩
    rw [hsame]
    exact h.bound
  | true =>
    obtain ⟨c, rfl⟩ : ∃ c, op = .agingMechanism c := by
      cases op
      all_goals first
        | exact ⟨_, rfl⟩
        | cases hop
    rcases hstep.step.waitingTime_of_aging h.lingers hstep.lingers with ⟨hcount, hle⟩
    rw [UInt32.le_iff_toNat_le] at hle
    refine ⟨hreach, hstep.lingers, .inr ⟨?_, hle⟩⟩
    rcases h.bound with rfl | ⟨hm, hw⟩
    . simp
    . rw [hcount, UInt32.toNat_add]
      show m + 1 ≤ ((s.proc p).waitingTime.toNat + 1) % 4294967296 + 1
      rw [Nat.mod_eq_of_lt (by omega)]
      omega

theorem lingerInv_of_run {s0 : State n} {ops : List (Op n)} (hreach : Reachable s0)
    (hp : Lingers p s0) (hrun : Reach.Run (KeepsLingering p) s0 ops s)
    : LingerInv p (agings ops) s := by
  induction hrun with
  | nil => exact ⟨hreach, hp, .inl rfl⟩
  | snoc _ hstep ih =>
    have hnext := ih.step hstep
    rwa [agings, List.countP_append, List.countP_singleton, ← agings]

theorem agings_le {s0 : State n} {ops : List (Op n)} (hreach : Reachable s0)
    (hp : Lingers p s0) (hrun : Reach.Run (KeepsLingering p) s0 ops s)
    : agings ops ≤ AGING_BOUND.toNat + 1 := by
  have hbound := (lingerInv_of_run hreach hp hrun).bound
  omega

def WaitsQueued (p : ProcPtr) (s : State n) : Prop :=
  (s.proc p).state = .runnable ∧ (p ∈ s.entries .lcfs ∨ p ∈ s.entries .bjf)

structure KeepsQueued (p : ProcPtr) (s : State n) (op : Op n) (s' : State n) : Prop where
  basic : Basic s op s'
  waits : WaitsQueued p s'

theorem Membership.lingers (h : s.Membership) (hp : WaitsQueued p s) : Lingers p s := by
  rcases hp with ⟨hrun, hp⟩
  rcases h.ready p (.inl hrun) with ⟨k, hk, _, hothers⟩
  refine ⟨hrun, ?_⟩
  rw [hk]
  cases k with
  | rr =>
    rcases hp with hp | hp
    . exact absurd hp (hothers .lcfs nofun)
    . exact absurd hp (hothers .bjf nofun)
  | lcfs => exact .inl rfl
  | bjf => exact .inr rfl

theorem keepsLingering_of_keepsQueued {s0 : State n} {ops : List (Op n)} (hinv : BasicInv s0)
    (hrun : Reach.Run (KeepsQueued p) s0 ops s)
    : Reach.Run (KeepsLingering p) s0 ops s := by
  have hboth : Reach.Run (KeepsLingering p) s0 ops s ∧ BasicInv s := by
    induction hrun with
    | nil => exact ⟨.nil s0, hinv⟩
    | snoc _ hstep ih =>
      have hnext := ih.2.step hstep.basic
      exact ⟨.snoc ih.1 ⟨hstep.basic.step, hnext.membership.lingers hstep.waits⟩, hnext⟩
  exact hboth.1

/--
`agingMechanism` does what it is for, and nobody waits in `lcfs_q` or `bjf_q` through more than
`AGING_BOUND + 1` calls of it: neither by its type, whatever else happens, nor by the queue it is in, as
long as processes are not moved between the queues by their users.
-/
theorem aging_exact_and_bounded
    : (∀ s : State n, s.Membership → DistinctPids s.toCore → (∀ k, (s.entries k).length < NPROC) →
        ∃ s', s.agingMechanism = .ok s' ∧ AgesExactly s s')
      ∧ (∀ (p : ProcPtr) (s0 s : State n) (ops : List (Op n)), Reachable s0 → Lingers p s0 →
        Reach.Run (KeepsLingering p) s0 ops s → agings ops ≤ AGING_BOUND.toNat + 1)
      ∧ ∀ (p : ProcPtr) (s0 s : State n) (ops : List (Op n)), Reach.Reachable init Basic s0 →
        WaitsQueued p s0 → Reach.Run (KeepsQueued p) s0 ops s → agings ops ≤ AGING_BOUND.toNat + 1 := by
  refine ⟨?_, ?_, ?_⟩
  . intro s hmember hpids hroom
    exact (hmember.placed hroom).agesExactly hpids hroom
  . intro p s0 s ops hreach hp hrun
    exact agings_le hreach hp hrun
  . intro p s0 s ops hreach hp hrun
    have hinv := basicInv_of_reachable hreach
    exact agings_le (hreach.mono fun _ _ _ hstep => hstep.step) (hinv.membership.lingers hp)
      (keepsLingering_of_keepsQueued hinv hrun)

theorem inQueue_setProc {q : ProcPtr} {pr : Proc} (hq : pr.qType = (s.proc q).qType)
    : (s.setProc q pr).InQueue p ↔ s.InQueue p := by
  have htype : ((s.setProc q pr).proc p).qType = (s.proc p).qType := by
    by_cases hp : p = q
    . simp [hp, hq]
    . simp [hp]
  simp only [InQueue, htype, entries_setProc]

theorem Membership.setProc (h : s.Membership) (q : ProcPtr) (pr : Proc)
    (hq : pr.qType = (s.proc q).qType) (hstate : pr.state = (s.proc q).state)
    : (s.setProc q pr).Membership := by
  have hsame (p : ProcPtr) : ((s.setProc q pr).proc p).state = (s.proc p).state := by
    by_cases hp : p = q
    . simp [hp, hstate]
    . simp [hp]
  constructor
  . intro p
    rw [hsame, inQueue_setProc hq]
    exact h.ready p
  . intro p
    rw [hsame, entries_setProc]
    exact h.others p
  . simpa using h.slots
  . simpa [entries_setProc] using h.number
  . simpa [entries_setProc] using h.index

theorem aging_of_two
    : ∃ s s' : State 1, s.entries .lcfs = [0, 1] ∧ s.agingMechanism = .ok s'
        ∧ AgesExactly s s' ∧ s'.entries .lcfs = [0] ∧ s'.entries .rr = [1] := by
  have hrun : ∃ s : State 1, Reach.Reachable init Basic s
      ∧ (s.entries .lcfs = [0, 1] && s.entries .rr = [] && s.entries .bjf = []
        && (List.finRange NPROC).filter (s.setProc 1 { s.proc 1 with waitingTime := 2000 }).ages
          = [1]) = true := by
    apply exists_of_run (fun s op s' => op.basic && freshPid s s'
      && [QueueId.rr, .lcfs, .bjf].all fun k => (s.entries k).length < NPROC)
      _ [.userinit, .scheduler 0, .afterSwtch 0, .forkAlloc 0, .forkCopy 0, .forkEnqueue 0]
    . decide +kernel
    . intro s op s' hstep hcheck
      simp only [Bool.and_eq_true, List.all_cons, List.all_nil, decide_eq_true_eq] at hcheck
      rcases hcheck with ⟨⟨hbasic, hfresh⟩, hrr, hlcfs, hbjf, _⟩
      refine ⟨hstep, hbasic, hfresh, ?_⟩
      intro k
      cases k
      . exact hrr
      . exact hlcfs
      . exact hbjf
  rcases hrun with ⟨s, hreach, hs⟩
  simp only [Bool.and_eq_true, decide_eq_true_eq] at hs
  rcases hs with ⟨⟨⟨hlcfs, hrr⟩, hbjf⟩, hages⟩
  have hinv := basicInv_of_reachable hreach
  have hmember := hinv.membership.setProc 1 { s.proc 1 with waitingTime := 2000 } rfl
    rfl
  have hpids : DistinctPids (s.setProc 1 { s.proc 1 with waitingTime := 2000 }).toCore :=
    hinv.queue.distinctPids.setProc rfl rfl
  generalize hs1 : s.setProc 1 { s.proc 1 with waitingTime := 2000 } = s1 at *
  have hentries : s1.entries = s.entries := by
    rw [← hs1, entries_setProc]
  have hroom : ∀ k, (s1.entries k).length < NPROC := by
    intro k
    rw [hentries]
    cases k
    . rw [hrr]
      decide
    . rw [hlcfs]
      decide
    . rw [hbjf]
      decide
  rcases aging_exact_and_bounded.1 s1 hmember hpids hroom with ⟨s', hs', hexact⟩
  have hone : s1.ages 1 = true := by
    have : (1 : ProcPtr) ∈ (List.finRange NPROC).filter s1.ages := by simp [hages]
    exact (List.mem_filter.mp this).2
  have hzero : s1.ages 0 = false := by
    have : (0 : ProcPtr) ∉ (List.finRange NPROC).filter s1.ages := by simp [hages]
    simpa using this
  refine ⟨s1, s', by rw [hentries, hlcfs], hs', hexact, ?_, ?_⟩
  . rw [hexact.lcfs, hentries, hlcfs]
    simp [hone, hzero]
  . rw [hexact.rr, hentries, hrr, hages]
    rfl

end State
end Xv6
