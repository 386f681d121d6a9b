import Xv6.Lib.Count
import Xv6.Lib.Outcome
import Xv6.Log.Impl.Transaction

namespace Xv6.Transaction

variable {n : Nat}

def Adds (l : List Nat) (b : Nat) (l' : List Nat) : Prop :=
  b ∈ l ∧ l' = l ∨ b ∉ l ∧ l' = l ++ [b]

theorem Adds.subset {l l' : List Nat} {b : Nat} (h : Adds l b l') : l ⊆ l' := by
  rcases h with ⟨_, rfl⟩ | ⟨_, rfl⟩
  . exact List.Subset.refl _
  . exact List.subset_append_left _ _

theorem Adds.mem {l l' : List Nat} {b : Nat} (h : Adds l b l') : b ∈ l' := by
  rcases h with ⟨hb, rfl⟩ | ⟨_, rfl⟩
  . exact hb
  . exact List.mem_append_right _ List.mem_cons_self

theorem Adds.of_mem {l l' : List Nat} {b c : Nat} (h : Adds l b l') (hc : c ∈ l') : c ∈ l ∨ c = b := by
  rcases h with ⟨_, rfl⟩ | ⟨_, rfl⟩
  . exact .inl hc
  . rw [List.mem_append, List.mem_singleton] at hc
    exact hc

theorem logBlock_eq_ok {lh lh' : List Nat} {b : Nat} (h : logBlock lh b = .ok lh') : Adds lh b lh' := by
  unfold logBlock at h
  dsimp only at h
  split at h
  . next hlen =>
    split at h
    . cases h
      refine .inr ⟨?_, rfl⟩
      intro hmem
      have hlt : lh.findIdx (· = b) < lh.length :=
        List.findIdx_lt_length_of_exists ⟨b, hmem, decide_eq_true rfl⟩
      omega
    . cases h
  . next hlen =>
    cases h
    have hlt : lh.findIdx (· = b) < lh.length :=
      Nat.lt_of_le_of_ne List.findIdx_le_length hlen
    have hget : lh[lh.findIdx (· = b)] = b := of_decide_eq_true (List.findIdx_getElem (w := hlt))
    refine .inl ⟨?_, ?_⟩
    . rw [← hget]
      apply List.getElem_mem
    . calc lh.set (lh.findIdx (· = b)) b
          = lh.set (lh.findIdx (· = b)) lh[lh.findIdx (· = b)] := by rw [hget]
        _ = lh := List.set_getElem_self hlt

namespace State

inductive Moves (s : State n) (p : Fin n) : Act n → State n → Prop where
  | wait (h : (s.thread p).pc = .out ∨ (s.thread p).pc = .waiting)
    : Moves s p (.beginOp p) (s.setPc p .waiting)
  | beginOp (h : (s.thread p).pc = .out ∨ (s.thread p).pc = .waiting) (hcom : s.committing = false)
      (hroom : s.lh.length + (s.outstanding + 1) * 10 ≤ 30)
    : Moves s p (.beginOp p)
        ({ s with outstanding := s.outstanding + 1 }.setThread p { pc := .op, blocks := [] })
  | logWrite (b : Nat) (h : (s.thread p).pc = .op)
    : Moves s p (.logWrite p b) (s.setPc p (.logChecked b))
  | logCheck (b : Nat) (h : (s.thread p).pc = .logChecked b)
    : Moves s p (.next p) (s.setPc p (.logLock b))
  | logLocked (b : Nat) (lh blocks : List Nat) (h : (s.thread p).pc = .logLock b)
      (hlh : Adds s.lh b lh) (hblocks : Adds (s.thread p).blocks b blocks)
    : Moves s p (.next p) ({ s with lh := lh }.setThread p { pc := .op, blocks := blocks })
  | endOp (h : (s.thread p).pc = .op) (hcom : s.committing = false) (hout : s.outstanding - 1 ≠ 0)
    : Moves s p (.endOp p) ({ s with outstanding := s.outstanding - 1 }.setPc p .out)
  | endOpCommit (h : (s.thread p).pc = .op) (hcom : s.committing = false)
      (hout : s.outstanding - 1 = 0)
    : Moves s p (.endOp p)
        ({ s with outstanding := s.outstanding - 1, committing := true }.setPc p .commit)
  | commit (h : (s.thread p).pc = .commit)
    : Moves s p (.next p) ({ s with copied := [] }.setPc p (.writeLog 0))
  | skip (h : (s.thread p).pc = .commit) (hlh : s.lh = [])
    : Moves s p (.next p) (s.setPc p .committed)
  | writeLog (tail : Nat) (h : (s.thread p).pc = .writeLog tail) (htail : tail < s.lh.length)
    : Moves s p (.next p)
        ({ s with copied := s.copied ++ [s.lh[tail]] }.setPc p (.writeLog (tail + 1)))
  | writeLogDone (tail : Nat) (h : (s.thread p).pc = .writeLog tail) (htail : s.lh.length ≤ tail)
    : Moves s p (.next p) (s.setPc p .writeHead)
  | writeHead (h : (s.thread p).pc = .writeHead)
    : Moves s p (.next p) ({ s with commits := s.commits ++ [s.copied] }.setPc p (.installTrans 0))
  | installTrans (tail : Nat) (h : (s.thread p).pc = .installTrans tail)
    : Moves s p (.next p) (s.setPc p (.installTrans (tail + 1)))
  | installTransDone (tail : Nat) (h : (s.thread p).pc = .installTrans tail)
    : Moves s p (.next p) (s.setPc p .clearN)
  | clearN (h : (s.thread p).pc = .clearN)
    : Moves s p (.next p) ({ s with lh := [] }.setPc p .clearHead)
  | clearHead (h : (s.thread p).pc = .clearHead) : Moves s p (.next p) (s.setPc p .committed)
  | committed (h : (s.thread p).pc = .committed)
    : Moves s p (.next p) ({ s with committing := false }.setPc p .out)

end State

namespace Act

def proc : Act n → Fin n
  | .beginOp p | .logWrite p _ | .endOp p | .next p => p

end Act

namespace State

variable {s s' : State n} {p : Fin n} {a : Act n}

theorem moves_next (h : s.next p = some (.ok s')) : s.Moves p (.next p) s' := by
  unfold next at h
  split at h
  . cases h
  . cases h
  . cases h
  . next b hpc =>
    have h := Option.some.inj h
    unfold logCheck at h
    split at h
    . cases h
    . cases h
      exact .logCheck b hpc
  . next b hpc =>
    have h := Option.some.inj h
    rcases Outcome.bind_eq_ok.mp h with ⟨lh, hlh, h⟩
    cases h
    apply Moves.logLocked b lh _ hpc (logBlock_eq_ok hlh)
    split
    . next hb => exact .inl ⟨hb, rfl⟩
    . next hb => exact .inr ⟨hb, rfl⟩
  . next hpc =>
    cases h
    unfold commit
    split
    . exact .commit hpc
    . next hlen => exact .skip hpc (List.eq_nil_of_length_eq_zero (Nat.eq_zero_of_not_pos hlen))
  . next tail hpc =>
    cases h
    unfold writeLog
    split
    . next b hb =>
      rcases List.getElem?_eq_some_iff.mp hb with ⟨htail, rfl⟩
      exact .writeLog tail hpc htail
    . next hb => exact .writeLogDone tail hpc (List.getElem?_eq_none_iff.mp hb)
  . next hpc =>
    cases h
    exact .writeHead hpc
  . next tail hpc =>
    cases h
    unfold installTrans
    split
    . exact .installTrans tail hpc
    . exact .installTransDone tail hpc
  . next hpc =>
    cases h
    exact .clearN hpc
  . next hpc =>
    cases h
    exact .clearHead hpc
  . next hpc =>
    cases h
    exact .committed hpc

theorem Steps.moves (h : Steps s a s') : s.Moves a.proc a s' := by
  unfold Steps step at h
  split at h
  . next p =>
    split at h
    . next hpc =>
      cases h
      unfold beginOp
      split
      . exact .wait hpc
      . next hcom =>
        split
        . exact .wait hpc
        . next hroom => exact .beginOp hpc (Bool.eq_false_iff.mpr hcom) (Int.not_lt.mp hroom)
    . cases h
  . next p b =>
    split at h
    . next hpc =>
      have h := Option.some.inj h
      unfold logWrite at h
      split at h
      . cases h
      . cases h
        exact .logWrite b hpc
    . cases h
  . next p =>
    split at h
    . next hpc =>
      have h := Option.some.inj h
      unfold endOp at h
      dsimp only at h
      split at h
      . cases h
      . next hcom =>
        split at h
        . next hout =>
          cases h
          exact .endOpCommit hpc (Bool.eq_false_iff.mpr hcom) hout
        . next hout =>
          cases h
          exact .endOp hpc (Bool.eq_false_iff.mpr hcom) hout
    . cases h
  . exact moves_next h

def opWeight (t : Thread) : Int :=
  if t.pc.inOp then 1 else 0

theorem Moves.thread_of_ne (h : s.Moves p a s') {q : Fin n} (hq : q ≠ p)
    : s'.thread q = s.thread q := by
  cases h
  all_goals exact Function.update_of_ne hq _ _

theorem ops_eq_total (s : State n) : (s.ops : Int) = Count.total opWeight s.thread :=
  Count.card_eq_total (fun t : Thread => t.pc.inOp) s.thread

structure Inv (s : State n) : Prop where
  count : s.outstanding = s.ops
  idle : s.committing = true → s.outstanding = 0
  com : ∀ p, (s.thread p).pc.inCommit = true → s.committing = true
  one : ∀ p q, (s.thread p).pc.inCommit = true → (s.thread q).pc.inCommit = true → p = q
  blocks : ∀ p, (s.thread p).pc.inOp = true → (s.thread p).blocks ⊆ s.lh
  copied : ∀ p tail, (s.thread p).pc = .writeLog tail → s.copied = s.lh.take tail
  head : ∀ p, (s.thread p).pc = .writeHead → s.copied = s.lh

theorem inv_init (size : Nat) : (init size : State n).Inv where
  count := by
    unfold ops init
    simp [Pc.inOp]
  idle := nofun
  com := nofun
  one := nofun
  blocks := nofun
  copied := nofun
  head := nofun

theorem Inv.outstanding_pos (hinv : s.Inv) (hp : (s.thread p).pc.inOp = true) : 0 < s.outstanding := by
  rw [hinv.count]
  apply Int.natCast_pos.mpr
  apply Finset.card_pos.mpr
  exact ⟨p, Finset.mem_filter.mpr ⟨Finset.mem_univ p, hp⟩⟩

theorem Inv.not_inOp (hinv : s.Inv) (hcom : s.committing = true) (p : Fin n)
    : (s.thread p).pc.inOp = false := by
  by_contra hp
  have hpos := hinv.outstanding_pos (Bool.eq_true_of_not_eq_false hp)
  have hzero := hinv.idle hcom
  omega

theorem Inv.not_committing (hinv : s.Inv) (hp : (s.thread p).pc.inOp = true)
    : s.committing = false := by
  by_contra hcom
  have hnot := hinv.not_inOp (Bool.eq_true_of_not_eq_false hcom) p
  rw [hp] at hnot
  cases hnot

section
variable (h : s.Moves p a s')
include h

theorem Moves.weight
    : s'.outstanding - s.outstanding = opWeight (s'.thread p) - opWeight (s.thread p) := by
  unfold opWeight
  cases h with
  | wait h | beginOp h =>
    rcases h with h | h
    all_goals simp [setPc, setThread, h, Pc.inOp]
  | endOpCommit h => simp [setPc, setThread, h, Pc.inOp]
  | _ => simp [setPc, setThread, Pc.inOp, *]

theorem Moves.thread_eq : s'.thread = Function.update s.thread p (s'.thread p) := by
  funext q
  by_cases hq : q = p
  . rw [hq, Function.update_self]
  . rw [Function.update_of_ne hq, h.thread_of_ne hq]

theorem Moves.count (hcount : s.outstanding = s.ops) : s'.outstanding = s'.ops := by
  have hweight := h.weight
  rw [ops_eq_total] at hcount ⊢
  rw [h.thread_eq, Count.total_update]
  omega

theorem Moves.commit_cases
    : ((s.thread p).pc.inOp = true ∧ s.committing = false ∧ s'.committing = true
        ∧ s'.outstanding = 0 ∧ (s'.thread p).pc = .commit)
      ∨ ((s'.thread p).pc.inCommit = true → (s.thread p).pc.inCommit = true)
        ∧ (s'.committing = true → s.committing = true ∧ s'.outstanding = s.outstanding)
        ∧ (s.committing = true → s'.committing = true ∨ (s.thread p).pc.inCommit = true
          ∧ (s'.thread p).pc.inCommit = false) := by
  cases h with
  | endOpCommit h hcom hout =>
    exact .inl ⟨by rw [h]; rfl, hcom, rfl, hout, by simp [setPc, setThread]⟩
  | wait h => exact .inr ⟨by simp [setPc, setThread, Pc.inCommit], fun h => ⟨h, rfl⟩, .inl⟩
  | _ =>
    apply Or.inr
    simp [setPc, setThread, Pc.inCommit, *]

theorem Moves.lh_cases
    : s'.lh = s.lh ∨ (s.thread p).pc = .clearN ∧ s'.lh = []
      ∨ ∃ b, (s.thread p).pc = .logLock b ∧ Adds s.lh b s'.lh := by
  cases h with
  | logLocked b lh blocks h hlh => exact .inr (.inr ⟨b, h, hlh⟩)
  | clearN h => exact .inr (.inl ⟨h, rfl⟩)
  | _ => exact .inl rfl

theorem Moves.blocks (hp : (s'.thread p).pc.inOp = true)
    (hblocks : (s.thread p).pc.inOp = true → (s.thread p).blocks ⊆ s.lh)
    : (s'.thread p).blocks ⊆ s'.lh := by
  cases h with
  | beginOp => simp [setThread]
  | logWrite b h | logCheck b h =>
    simp only [setPc, setThread, Function.update_self] at hp ⊢
    apply hblocks
    rw [h]
    rfl
  | logLocked b lh blocks h hlh hb =>
    simp only [setThread, Function.update_self] at hp ⊢
    intro c hc
    rcases hb.of_mem hc with hc | rfl
    . apply hlh.subset
      apply hblocks _ hc
      rw [h]
      rfl
    . exact hlh.mem
  | _ => simp [setPc, setThread, Pc.inOp] at hp

theorem Moves.copied
    (hlog : ∀ tail, (s.thread p).pc = .writeLog tail → s.copied = s.lh.take tail)
    : (∀ tail, (s'.thread p).pc = .writeLog tail → s'.copied = s'.lh.take tail)
      ∧ ((s'.thread p).pc = .writeHead → s'.copied = s'.lh) := by
  cases h with
  | commit => simp [setPc, setThread]
  | writeLog tail h htail =>
    have hlog := hlog tail h
    simp [setPc, setThread, hlog]
  | writeLogDone tail h htail =>
    have hlog := hlog tail h
    simp [setPc, setThread, hlog, htail]
  | _ => simp [setPc, setThread]

theorem Moves.copied_eq (hp : (s.thread p).pc.inCommit = false)
    : s'.copied = s.copied := by
  cases h with
  | commit h | writeLog tail h =>
    rw [h] at hp
    cases hp
  | _ => rfl

end

theorem Inv.frozen (hinv : s.Inv) (h : s.Moves p a s') {q : Fin n} (hq : q ≠ p)
    (hcommit : (s.thread q).pc.inCommit = true)
    : s'.committing = true ∧ (s'.thread p).pc.inCommit = false ∧ s'.lh = s.lh ∧ s'.copied = s.copied := by
  have hcom := hinv.com q hcommit
  have hp : (s.thread p).pc.inCommit = false := by
    by_contra hp
    exact hq (hinv.one q p hcommit (Bool.eq_true_of_not_eq_false hp))
  have hlh : s'.lh = s.lh := by
    rcases h.lh_cases with hlh | ⟨hpc, _⟩ | ⟨b, hpc, _⟩
    . exact hlh
    . rw [hpc] at hp
      cases hp
    . have hnot := hinv.not_inOp hcom p
      rw [hpc] at hnot
      cases hnot
  refine ⟨?_, ?_, hlh, h.copied_eq hp⟩
  . rcases h.commit_cases with ⟨_, _, hcom', _⟩ | ⟨_, _, hsame⟩
    . exact hcom'
    . rcases hsame hcom with hcom' | ⟨hp', _⟩
      . exact hcom'
      . rw [hp] at hp'
        cases hp'
  . rcases h.commit_cases with ⟨_, hnot, _⟩ | ⟨hback, _⟩
    . rw [hcom] at hnot
      cases hnot
    . by_contra hp'
      rw [hback (Bool.eq_true_of_not_eq_false hp')] at hp
      cases hp

theorem Inv.step (hinv : s.Inv) (h : s.Moves p a s') : s'.Inv where
  count := h.count hinv.count
  idle := by
    intro hcom
    rcases h.commit_cases with ⟨_, _, _, hout, _⟩ | ⟨_, hsame, _⟩
    . exact hout
    . rw [(hsame hcom).2]
      exact hinv.idle (hsame hcom).1
  com := by
    intro q hq
    by_cases hqp : q = p
    . rw [hqp] at hq
      rcases h.commit_cases with ⟨_, _, hcom, _⟩ | ⟨hback, _, hsame⟩
      . exact hcom
      . rcases hsame (hinv.com p (hback hq)) with hcom | ⟨_, hnot⟩
        . exact hcom
        . rw [hq] at hnot
          cases hnot
    . rw [h.thread_of_ne hqp] at hq
      exact (hinv.frozen h hqp hq).1
  one := by
    intro q r hq hr
    by_cases hqp : q = p
    . by_cases hrp : r = p
      . rw [hqp, hrp]
      . rw [h.thread_of_ne hrp] at hr
        rw [hqp, (hinv.frozen h hrp hr).2.1] at hq
        cases hq
    . rw [h.thread_of_ne hqp] at hq
      by_cases hrp : r = p
      . rw [hrp, (hinv.frozen h hqp hq).2.1] at hr
        cases hr
      . rw [h.thread_of_ne hrp] at hr
        exact hinv.one q r hq hr
  blocks := by
    intro q hq
    by_cases hqp : q = p
    . rw [hqp] at hq ⊢
      exact h.blocks hq (hinv.blocks p)
    rw [h.thread_of_ne hqp] at hq ⊢
    have hblocks := hinv.blocks q hq
    rcases h.lh_cases with hlh | ⟨hpc, _⟩ | ⟨b, _, hlh⟩
    . rw [hlh]
      exact hblocks
    . have hcom := hinv.com p (by rw [hpc]; rfl)
      rw [hinv.not_inOp hcom q] at hq
      cases hq
    . exact List.Subset.trans hblocks hlh.subset
  copied := by
    intro q tail hq
    by_cases hqp : q = p
    . rw [hqp] at hq
      exact (h.copied (hinv.copied p)).1 tail hq
    rw [h.thread_of_ne hqp] at hq
    rcases hinv.frozen h hqp (by rw [hq]; rfl) with ⟨_, _, hlh, hcopied⟩
    rw [hlh, hcopied]
    exact hinv.copied q tail hq
  head := by
    intro q hq
    by_cases hqp : q = p
    . rw [hqp] at hq
      exact (h.copied (hinv.copied p)).2 hq
    rw [h.thread_of_ne hqp] at hq
    rcases hinv.frozen h hqp (by rw [hq]; rfl) with ⟨_, _, hlh, hcopied⟩
    rw [hlh, hcopied]
    exact hinv.head q hq

end State
end Xv6.Transaction
