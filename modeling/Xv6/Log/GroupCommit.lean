import Xv6.Log.Lemmas.Transaction

namespace Xv6.Transaction

open Reach

variable {n : Nat} {size : Nat} {c : List Nat}

namespace Pc

def afterHead : Pc → Bool
  | .installTrans _ | .clearN => true
  | _ => false

end Pc

namespace State

section

variable {s s' : State n} {p : Fin n} {a : Act n}

structure Pending (b : Nat) (s : State n) : Prop where
  mem : b ∈ s.lh
  fresh : ∀ q, (s.thread q).pc.afterHead = false

theorem Moves.commits_cases (h : s.Moves p a s')
    : s'.commits = s.commits ∧ ((s'.thread p).pc.afterHead = true → (s.thread p).pc.afterHead = true)
      ∨ (s.thread p).pc = .writeHead ∧ s'.commits = s.commits ++ [s.copied] := by
  cases h with
  | writeHead h => exact .inr ⟨h, rfl⟩
  | installTrans tail h | installTransDone tail h =>
    refine .inl ⟨rfl, fun _ => ?_⟩
    rw [h]
    rfl
  | _ => exact .inl ⟨rfl, by simp [setPc, setThread, Pc.afterHead]⟩

theorem Moves.of_logLock {b : Nat} (h : s.Moves p a s') (hpc : (s.thread p).pc = .logLock b)
    : (s'.thread p).pc.inOp = true ∧ b ∈ s'.lh := by
  cases h with
  | logLocked c lh blocks h hlh =>
    cases hpc.symm.trans h
    exact ⟨by simp [setThread, Pc.inOp], hlh.mem⟩
  | wait h | beginOp h =>
    rcases h with h | h
    all_goals cases hpc.symm.trans h
  | logWrite b h | logCheck b h | endOp h | endOpCommit h | commit h | skip h | writeLog tail h
  | writeLogDone tail h | writeHead h | installTrans tail h | installTransDone tail h | clearN h
  | clearHead h | committed h => cases hpc.symm.trans h

theorem Pending.step {b : Nat} (hs : Pending b s) (h : s.Moves p a s') (hcommits : s'.commits = s.commits)
    : Pending b s' where
  mem := by
    rcases h.lh_cases with hlh | ⟨hpc, _⟩ | ⟨c, _, hlh⟩
    . rw [hlh]
      exact hs.mem
    . have hfresh := hs.fresh p
      rw [hpc] at hfresh
      cases hfresh
    . exact hlh.subset hs.mem
  fresh := by
    intro q
    by_cases hq : q = p
    . rw [hq]
      rcases h.commits_cases with ⟨_, hback⟩ | ⟨_, hnew⟩
      . by_contra hafter
        have hfresh := hs.fresh p
        rw [hback (Bool.eq_true_of_not_eq_false hafter)] at hfresh
        cases hfresh
      . rw [hnew] at hcommits
        exact absurd hcommits (by simp)
    . rw [h.thread_of_ne hq]
      exact hs.fresh q

theorem Inv.pending (hinv : s.Inv) (hp : (s.thread p).pc.inOp = true) {b : Nat} (hb : b ∈ s.lh)
    : Pending b s where
  mem := hb
  fresh := by
    intro q
    have hcom := hinv.not_committing hp
    by_contra hq
    have hcommit : (s.thread q).pc.inCommit = true := by
      generalize (s.thread q).pc = pc at hq
      cases pc
      all_goals first | rfl | exact absurd rfl hq
    rw [hinv.com q hcommit] at hcom
    cases hcom

theorem Steps.begin_pc (h : Steps s (.beginOp p) s')
    : (s.thread p).pc = .out ∨ (s.thread p).pc = .waiting := by
  unfold Steps State.step at h
  dsimp only at h
  split at h
  . next hpc => exact hpc
  . cases h

theorem Inv.step_ne_committing (hinv : s.Inv) (a : Act n) : s.step a ≠ some (.error .committing) := by
  intro h
  unfold State.step at h
  split at h
  . split at h
    . cases h
    . cases h
  . split at h
    . have h := Option.some.inj h
      unfold logWrite at h
      split at h
      . cases h
      . cases h
    . cases h
  . next p =>
    split at h
    . next hpc =>
      have hcom := hinv.not_committing (p := p) (by rw [hpc]; rfl)
      have h := Option.some.inj h
      unfold endOp at h
      dsimp only at h
      rw [hcom, if_neg Bool.false_ne_true] at h
      split at h
      . cases h
      . cases h
    . cases h
  . next p =>
    unfold next at h
    split at h
    all_goals try cases h
    . have h := Option.some.inj h
      unfold logCheck at h
      split at h
      . cases h
      . cases h
    . next b _ =>
      have h := Option.some.inj h
      unfold logLocked at h
      cases hlh : logBlock s.lh b with
      | error e =>
        rw [hlh] at h
        unfold logBlock at hlh
        dsimp only at hlh
        split at hlh
        . split at hlh
          . cases hlh
          . cases hlh
            cases h
        . cases hlh
      | ok lh =>
        rw [hlh] at h
        cases h

end

variable {tr : Trace (Steps (n := n))} {p : Fin n} {i j k m b : Nat}

structure Operation (tr : Trace (Steps (n := n))) (p : Fin n) (i j : Nat) : Prop where
  lt : i < j
  lt_length : j < tr.length
  begins : tr.act i = .beginOp p
  inOp : ∀ t, i < t → t ≤ j → ((tr.state t).thread p).pc.inOp = true
  ends : tr.act j = .endOp p

def LogsAt (tr : Trace (Steps (n := n))) (p : Fin n) (k b : Nat) : Prop :=
  tr.act k = .next p ∧ ((tr.state k).thread p).pc = .logLock b

def CommitsAt (tr : Trace (Steps (n := n))) (m : Nat) (c : List Nat) : Prop :=
  (tr.state (m + 1)).commits = (tr.state m).commits ++ [c]

theorem inv_of_trace (hinit : tr.state 0 = init size) (hi : i ≤ tr.length)
    : (tr.state i).Inv := by
  apply tr.induct Inv _ (Nat.zero_le i) hi
  . rw [hinit]
    exact inv_init size
  . intro s a s' hinv h
    exact hinv.step h.moves

theorem CommitsAt.cases (hm : m < tr.length) (h : CommitsAt tr m c)
    : ((tr.state m).thread (tr.act m).proc).pc = .writeHead ∧ c = (tr.state m).copied := by
  have hmoves := (tr.next m hm).moves
  unfold CommitsAt at h
  rcases hmoves.commits_cases with ⟨hsame, _⟩ | ⟨hpc, hnew⟩
  . rw [hsame] at h
    exact absurd h (by simp)
  . rw [hnew] at h
    exact ⟨hpc, (List.singleton_inj.mp (List.append_cancel_left h)).symm⟩

theorem pending_of_le (hkm : k ≤ m) (hm : m ≤ tr.length) (hk : Pending b (tr.state k))
    (hnone : ∀ t c, k ≤ t → t < m → ¬CommitsAt tr t c)
    : Pending b (tr.state m) := by
  induction m, hkm using Nat.le_induction with
  | base => exact hk
  | succ m hkm ih =>
    have hmoves := (tr.next m hm).moves
    have hpend : Pending b (tr.state m) := by
      apply ih (by omega)
      intro t c hkt htm
      exact hnone t c hkt (by omega)
    apply hpend.step hmoves
    rcases hmoves.commits_cases with ⟨hsame, _⟩ | ⟨_, hnew⟩
    . exact hsame
    . exact absurd hnew (hnone m _ hkm (by omega))

theorem LogsAt.mem_commit (hinit : tr.state 0 = init size)
    (hlog : LogsAt tr p k b) (hkm : k < m) (hm : m < tr.length) (hcommit : CommitsAt tr m c)
    (hnone : ∀ t c', k < t → t < m → ¬CommitsAt tr t c')
    : b ∈ c := by
  have hstep := (tr.next k (by omega)).moves
  rw [hlog.1] at hstep
  rcases hstep.of_logLock hlog.2 with ⟨hop, hmem⟩
  have hinv : (tr.state (k + 1)).Inv := inv_of_trace hinit (by omega)
  have hlast : Pending b (tr.state m) := by
    apply pending_of_le (k := k + 1) hkm (Nat.le_of_lt hm) (hinv.pending hop hmem)
    intro t c' hkt htm
    exact hnone t c' hkt htm
  rcases hcommit.cases hm with ⟨hpc, rfl⟩
  have hinv : (tr.state m).Inv := inv_of_trace hinit (Nat.le_of_lt hm)
  rw [hinv.head _ hpc]
  exact hlast.mem

theorem Operation.lt_commit (hinit : tr.state 0 = init size) (h : Operation tr p i j) (him : i ≤ m)
    (hm : m < tr.length) (hcommit : CommitsAt tr m c)
    : j < m := by
  by_contra hjm
  rcases hcommit.cases hm with ⟨hpc, _⟩
  have hne : i ≠ m := by
    rintro rfl
    have hstep := tr.next i hm
    rw [h.begins] at hstep hpc
    rcases hstep.begin_pc with hpc' | hpc'
    all_goals cases hpc'.symm.trans hpc
  have hinv : (tr.state m).Inv := inv_of_trace hinit (Nat.le_of_lt hm)
  have hcom := hinv.com _ (by rw [hpc]; rfl)
  have hnot := hinv.not_inOp hcom p
  rw [h.inOp m (by omega) (by omega)] at hnot
  cases hnot

/-- A commit never splits a file system call. -/
theorem commit_never_splits (tr : Trace (Steps (n := n))) (hinit : tr.state 0 = init size)
    : (∀ i, i ≤ tr.length → (tr.state i).outstanding = (tr.state i).ops ∧ 0 ≤ (tr.state i).outstanding
        ∧ ((tr.state i).committing = true → (tr.state i).outstanding = 0)
        ∧ (∀ a, (tr.state i).step a ≠ some (.error .committing))) ∧ (∀ p k b, k < tr.length → LogsAt tr p k b →
        ∀ q, ((tr.state k).thread q).pc.inCommit = false)
      ∧ (∀ p i j, Operation tr p i j → ∀ m c, i ≤ m → m < tr.length → CommitsAt tr m c →
        (∀ t c', i ≤ t → t < m → ¬CommitsAt tr t c') → j < m ∧ ∀ k b, i < k → k < j → LogsAt tr p k b → b ∈ c) := by
  refine ⟨?_, ?_, ?_⟩
  . intro i hi
    have hinv : (tr.state i).Inv := inv_of_trace hinit hi
    refine ⟨hinv.count, ?_, hinv.idle, hinv.step_ne_committing⟩
    rw [hinv.count]
    exact Int.natCast_nonneg _
  . intro p k b hk hlog q
    have hinv : (tr.state k).Inv := inv_of_trace hinit (Nat.le_of_lt hk)
    have hcom := hinv.not_committing (p := p) (by rw [hlog.2]; rfl)
    by_contra hq
    rw [hinv.com q (Bool.eq_true_of_not_eq_false hq)] at hcom
    cases hcom
  . intro p i j hop m c him hm hcommit hnone
    have hjm := hop.lt_commit hinit him hm hcommit
    refine ⟨hjm, ?_⟩
    intro k b hik hkj hlog
    apply hlog.mem_commit hinit (by omega) hm hcommit
    intro t c' hkt htm
    exact hnone t c' (by omega) htm

def tryStep (s : State n) (a : Act n) : Option (State n) :=
  match s.step a with
  | some (.ok s') => some s'
  | _ => none

theorem steps_of_tryStep (s : State n) (a : Act n) (s' : State n) (h : s.tryStep a = some s')
    : Steps s a s' := by
  unfold tryStep at h
  split at h
  . next hstep =>
    cases h
    exact hstep
  . cases h

def overlap (p q : Fin n) : List (Act n) :=
  [.beginOp p, .beginOp q, .logWrite p 40, .next p, .next p, .logWrite q 41, .next q, .next q,
    .endOp p, .logWrite q 40, .next q, .next q, .endOp q, .next q, .next q, .next q, .next q, .next q]

theorem commit_never_splits_of_overlap
    : ∃ tr : Trace (Steps (n := 2)), Operation tr 0 0 8 ∧ CommitsAt tr 17 [40, 41]
      ∧ 8 < 17 ∧ ∀ k b, 0 < k → k < 8 → LogsAt tr 0 k b → b ∈ [40, 41] := by
  let tr : Trace (Steps (n := 2)) :=
    .ofExec tryStep steps_of_tryStep (init 30) (overlap 0 1) (.next 0) (by decide +kernel)
  have hop : Operation tr 0 0 8 := by
    have hin : ∀ t, t ≤ 8 → 0 < t → ((tr.state t).thread 0).pc.inOp = true := by decide +kernel
    exact ⟨by decide, by decide, rfl, fun t h0 h8 => hin t h8 h0, rfl⟩
  have hcommit : CommitsAt tr 17 [40, 41] := by
    unfold CommitsAt
    decide +kernel
  have hnone : ∀ t c, 0 ≤ t → t < 17 → ¬CommitsAt tr t c := by
    have hlen : ∀ t, t < 17 → (tr.state (t + 1)).commits = [] := by decide +kernel
    intro t c _ ht hcommits
    unfold CommitsAt at hcommits
    rw [hlen t ht] at hcommits
    simp at hcommits
  exact ⟨tr, hop, hcommit,
    (commit_never_splits tr rfl).2.2 0 0 8 hop 17 _ (by decide) (by decide) hcommit hnone⟩

end State
end Xv6.Transaction
