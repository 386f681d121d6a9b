import Xv6.Log.GroupCommit

namespace Xv6.Transaction.State

open Reach

variable {n : Nat} {s s' : State n} {p : Fin n} {a : Act n}

def mayLog (s : State n) (p : Fin n) (b : Nat) : Bool :=
  b ∈ (s.thread p).blocks || (s.thread p).blocks.length < MAXOPBLOCKS

def bounded (s : State n) (a : Act n) : Bool :=
  match a with
  | .logWrite p b => s.mayLog p b
  | _ => true

def spare (s : State n) (a : Act n) : Bool :=
  match a with
  | .beginOp _ =>
    s.committing || s.lh.length + (s.outstanding + 1) * MAXOPBLOCKS > LOGSIZE
      || s.lh.length + (s.outstanding + 1) * MAXOPBLOCKS < s.size - 1
  | _ => true

def BoundedSteps (s : State n) (a : Act n) (s' : State n) : Prop :=
  s.bounded a = true ∧ Steps s a s'

def SpareSteps (s : State n) (a : Act n) (s' : State n) : Prop :=
  s.spare a = true ∧ s.bounded a = true ∧ Steps s a s'

def reserve (t : Thread) : Int :=
  if t.pc.inOp then 10 - t.blocks.length else 0

structure Reserved (s : State n) : Prop where
  inv : s.Inv
  size : s.size = LOGSIZE
  small : ∀ p, (s.thread p).pc.inOp = true → (s.thread p).blocks.length ≤ 10
  may : ∀ p b, (s.thread p).pc = .logChecked b ∨ (s.thread p).pc = .logLock b → s.mayLog p b = true
  room : s.lh.length + Count.total reserve s.thread ≤ 28

theorem Reserved.length_le (h : s.Reserved) : s.lh.length ≤ 28 := by
  have hroom := h.room
  have hnonneg : 0 ≤ Count.total reserve s.thread := by
    apply Count.total_nonneg
    intro p
    unfold reserve
    split
    . next hp =>
      have hsmall := h.small p hp
      omega
    . exact Int.le_refl 0
  omega

theorem reserve_le (t : Thread) : reserve t ≤ opWeight t * 10 := by
  unfold reserve opWeight
  split
  . omega
  . omega

theorem Inv.total_reserve_le (hinv : s.Inv)
    : Count.total reserve s.thread ≤ s.outstanding * 10 := by
  rw [hinv.count, ops_eq_total, ← Count.total_mul]
  apply Count.total_le
  exact reserve_le

theorem Reserved.logLocked (hs : s.Reserved) {b : Nat} {lh blocks : List Nat}
    (h : (s.thread p).pc = .logLock b) (hlh : Adds s.lh b lh) (hblocks : Adds (s.thread p).blocks b blocks)
    : blocks.length ≤ 10 ∧ (lh.length : Int) - blocks.length ≤ s.lh.length - (s.thread p).blocks.length := by
  have hin : (s.thread p).pc.inOp = true := by
    rw [h]
    rfl
  have hsmall := hs.small p hin
  have hmay := hs.may p b (.inr h)
  have hsub := hs.inv.blocks p hin
  unfold mayLog at hmay
  rw [Bool.or_eq_true, decide_eq_true_eq, decide_eq_true_eq] at hmay
  rcases hblocks with ⟨hb, rfl⟩ | ⟨hb, rfl⟩
  . rcases hlh with ⟨_, rfl⟩ | ⟨hnot, _⟩
    . exact ⟨hsmall, Int.le_refl _⟩
    . exact absurd (hsub hb) hnot
  . have hlt : (s.thread p).blocks.length < 10 := hmay.resolve_left hb
    rw [List.length_append, List.length_singleton]
    rcases hlh with ⟨_, rfl⟩ | ⟨_, rfl⟩
    . omega
    . rw [List.length_append, List.length_singleton]
      omega

theorem Reserved.reserve_nonneg (hs : s.Reserved) (p : Fin n) : 0 ≤ reserve (s.thread p) := by
  unfold reserve
  split
  . next hp =>
    have hsmall := hs.small p hp
    omega
  . exact Int.le_refl 0

theorem reserve_of_not_inOp {t : Thread} (h : t.pc.inOp = false) : reserve t = 0 := by
  unfold reserve
  rw [h]
  rfl

theorem reserve_of_inOp {t : Thread} (h : t.pc.inOp = true) : reserve t = 10 - t.blocks.length := by
  unfold reserve
  rw [h]
  rfl

theorem Moves.inOp_cases (h : s.Moves p a s') (hin : (s'.thread p).pc.inOp = true)
    : (a = .beginOp p ∧ (s.thread p).pc.inOp = false ∧ s.committing = false
        ∧ s.lh.length + (s.outstanding + 1) * 10 ≤ 30 ∧ s'.lh = s.lh ∧ s'.thread p = ⟨.op, []⟩)
      ∨ ((s.thread p).pc.inOp = true ∧ s'.lh = s.lh ∧ (s'.thread p).blocks = (s.thread p).blocks
        ∧ ∀ b, (s'.thread p).pc = .logChecked b ∨ (s'.thread p).pc = .logLock b
          → a = .logWrite p b ∨ (s.thread p).pc = .logChecked b)
      ∨ ∃ b, (s.thread p).pc = .logLock b ∧ Adds s.lh b s'.lh
        ∧ Adds (s.thread p).blocks b (s'.thread p).blocks ∧ (s'.thread p).pc = .op := by
  cases h with
  | beginOp h hcom hroom =>
    refine .inl ⟨rfl, ?_, hcom, hroom, rfl, by simp [setThread]⟩
    rcases h with h | h
    all_goals rw [h]; rfl
  | logWrite b h => exact .inr (.inl (by simp [setPc, setThread, h, Pc.inOp]))
  | logCheck b h => exact .inr (.inl (by simp [setPc, setThread, h, Pc.inOp]))
  | logLocked b lh blocks h hlh hblocks =>
    refine .inr (.inr ⟨b, h, hlh, ?_, ?_⟩)
    all_goals simp [setThread, hblocks]
  | _ => simp [setPc, setThread, Pc.inOp] at hin

theorem Moves.length_le (h : s.Moves p a s') (hin : (s'.thread p).pc.inOp = false)
    : s'.lh.length ≤ s.lh.length := by
  rcases h.lh_cases with hlh | ⟨_, hlh⟩ | ⟨b, hpc, _⟩
  . rw [hlh]
  . rw [hlh]
    exact Nat.zero_le _
  . rw [(h.of_logLock hpc).1] at hin
    cases hin

theorem Reserved.total_step (h : s.Moves p a s')
    : Count.total reserve s'.thread
      = Count.total reserve s.thread - reserve (s.thread p) + reserve (s'.thread p) := by
  rw [h.thread_eq, Count.total_update, Function.update_self]

theorem Reserved.room_step (hs : s.Reserved) (h : s.Moves p a s') (hspare : s.spare a = true)
    : s'.lh.length + Count.total reserve s'.thread ≤ 28 := by
  have hroom := hs.room
  have htotal := Reserved.total_step h
  cases hin : (s'.thread p).pc.inOp with
  | false =>
    have hlen := h.length_le hin
    have hnonneg := hs.reserve_nonneg p
    rw [reserve_of_not_inOp hin] at htotal
    omega
  | true =>
    rcases h.inOp_cases hin with ⟨rfl, hout, hcom, hadmit, hlh, hthread⟩ | ⟨hin', hlh, hblocks, _⟩
      | ⟨b, hpc, hlh, hblocks, _⟩
    . -- What the others have reserved is at most what `begin_op` counts.
      have hothers := hs.inv.total_reserve_le
      have hlimit : (s.lh.length : Int) + (s.outstanding + 1) * 10 < 29 := by
        simpa [spare, hcom, hs.size, Int.not_lt.mpr hadmit] using hspare
      rw [reserve_of_not_inOp hout, hthread] at htotal
      have hnew : reserve ⟨.op, []⟩ = 10 := rfl
      rw [hlh]
      omega
    . rw [reserve_of_inOp hin', reserve_of_inOp hin, hblocks] at htotal
      rw [hlh]
      omega
    . have hlocked := hs.logLocked hpc hlh hblocks
      rw [reserve_of_inOp hin, reserve_of_inOp (by rw [hpc]; rfl)] at htotal
      omega

theorem Reserved.step (hs : s.Reserved) (h : s.Moves p a s') (hbounded : s.bounded a = true)
    (hspare : s.spare a = true)
    : s'.Reserved where
  inv := hs.inv.step h
  size := by
    rw [← hs.size]
    cases h
    all_goals rfl
  small := by
    intro q hin
    by_cases hq : q = p
    . rw [hq] at hin ⊢
      rcases h.inOp_cases hin with ⟨_, _, _, _, _, hthread⟩ | ⟨hin', _, hblocks, _⟩
        | ⟨b, hpc, hlh, hblocks, _⟩
      . rw [hthread]
        decide
      . rw [hblocks]
        exact hs.small p hin'
      . exact (hs.logLocked hpc hlh hblocks).1
    . rw [h.thread_of_ne hq] at hin ⊢
      exact hs.small q hin
  may := by
    intro q b hpc
    by_cases hq : q = p
    . rw [hq] at hpc ⊢
      have hin : (s'.thread p).pc.inOp = true := by
        rcases hpc with hpc | hpc
        all_goals rw [hpc]; rfl
      unfold mayLog
      rcases h.inOp_cases hin with ⟨_, _, _, _, _, hthread⟩ | ⟨_, _, hblocks, hfrom⟩
        | ⟨b, _, _, _, hop⟩
      . rw [hthread] at hpc
        rcases hpc with hpc | hpc
        all_goals cases hpc
      . rw [hblocks]
        rcases hfrom b hpc with rfl | hpc'
        . exact hbounded
        . exact hs.may p b (.inl hpc')
      . rw [hop] at hpc
        rcases hpc with hpc | hpc
        all_goals cases hpc
    . unfold mayLog
      rw [h.thread_of_ne hq] at hpc ⊢
      exact hs.may q b hpc
  room := hs.room_step h hspare

theorem reserved_init : (init LOGSIZE : State n).Reserved where
  inv := inv_init _
  size := rfl
  small := nofun
  may := by
    intro p b hpc
    rcases hpc with hpc | hpc
    all_goals cases hpc
  room := by
    have hzero : Count.total reserve (init LOGSIZE : State n).thread = 0 :=
      Finset.sum_eq_zero fun _ _ => rfl
    rw [hzero]
    exact Int.le.intro 28 rfl

/--
As long as no operation is admitted with which the reserved blocks reach the limit of `log_write`,
no transaction is too big.
-/
theorem not_too_big_of_spare (h : Reachable (init LOGSIZE) (SpareSteps (n := n)) s) (p : Fin n) (b : Nat)
    : s.step (.logWrite p b) ≠ some (.error .tooBig) := by
  have hs : s.Reserved := by
    apply h.induct Reserved reserved_init
    intro s a s' _ hs hstep
    exact hs.step hstep.2.2.moves hstep.2.1 hstep.1
  have hlen := hs.length_le
  have hsize : s.size = 30 := hs.size
  intro hstep
  unfold State.step at hstep
  dsimp only at hstep
  split at hstep
  . have hstep := Option.some.inj hstep
    unfold logWrite at hstep
    split at hstep
    . next hfull =>
      have hfull : s.lh.length ≥ 30 ∨ (s.lh.length : Int) ≥ s.size - 1 := hfull
      omega
    . cases hstep
  . cases hstep

def checkedStep (check : State n → Act n → Bool) (s : State n) (a : Act n) : Option (State n) :=
  if check s a then s.tryStep a else none

theorem spareSteps_of_checkedStep (s : State n) (a : Act n) (s' : State n)
    (h : checkedStep (fun s a => s.spare a && s.bounded a) s a = some s')
    : SpareSteps s a s' := by
  unfold checkedStep at h
  split at h
  . next hcheck =>
    rw [Bool.and_eq_true] at hcheck
    exact ⟨hcheck.1, hcheck.2, steps_of_tryStep s a s' h⟩
  . cases h

theorem boundedSteps_of_checkedStep (s : State n) (a : Act n) (s' : State n) (h : checkedStep bounded s a = some s')
    : BoundedSteps s a s' := by
  unfold checkedStep at h
  split at h
  . next hcheck => exact ⟨hcheck, steps_of_tryStep s a s' h⟩
  . cases h

theorem not_too_big_of_two_ops
    : ∃ s : State 2, Reachable (init LOGSIZE) SpareSteps s ∧ s.lh = [40, 41]
      ∧ s.step (.logWrite 0 42) ≠ some (.error .tooBig) := by
  have hrun : ∃ s : State 2, Reachable (init LOGSIZE) SpareSteps s ∧ decide (s.lh = [40, 41]) = true :=
    exists_of_exec spareSteps_of_checkedStep
      [.beginOp 0, .beginOp 1, .logWrite 0 40, .next 0, .next 0, .logWrite 1 41, .next 1, .next 1]
      (by decide +kernel)
  rcases hrun with ⟨s, hs, hlh⟩
  exact ⟨s, hs, of_decide_eq_true hlh, not_too_big_of_spare hs 0 42⟩

def logBlocks (p : Fin n) (b k : Nat) : List (Act n) :=
  (List.range k).flatMap fun i => [.logWrite p (b + i), .next p, .next p]

/-- Three operations are admitted that log ten blocks each. The last block is one too many. -/
theorem too_big_transaction
    : ∃ s : State 3, Reachable (init LOGSIZE) BoundedSteps s ∧ s.mayLog 2 129 = true
      ∧ s.step (.logWrite 2 129) = some (.error .tooBig) := by
  have hrun : ∃ s : State 3, Reachable (init LOGSIZE) BoundedSteps s
      ∧ (s.mayLog 2 129 && (s.thread 2).pc = .op && s.lh.length = 29 && s.size = 30) = true :=
    exists_of_exec boundedSteps_of_checkedStep
      ([.beginOp 0, .beginOp 1, .beginOp 2] ++ logBlocks 0 100 10 ++ logBlocks 1 110 10
        ++ logBlocks 2 120 9)
      (by decide +kernel)
  rcases hrun with ⟨s, hs, hP⟩
  simp only [Bool.and_eq_true, decide_eq_true_eq] at hP
  rcases hP with ⟨⟨⟨hmay, hpc⟩, hlen⟩, hsize⟩
  refine ⟨s, hs, hmay, ?_⟩
  unfold State.step logWrite
  dsimp only
  rw [if_pos hpc, if_pos]
  rw [hlen, hsize]
  decide

end Xv6.Transaction.State
