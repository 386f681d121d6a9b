import Xv6.Proc.Lemmas.Lists
import Xv6.Proc.Lemmas.Scheduler

namespace Xv6

def Proc.Ready (pr : Proc) : Prop :=
  pr.state = .runnable ∨ pr.state = .running

instance (pr : Proc) : Decidable pr.Ready :=
  inferInstanceAs (Decidable (_ ∨ _))

namespace State

open Outcome

variable {n : Nat} {s : State n} {L : QueueId → List ProcPtr}

def runnable (s : State n) (p : ProcPtr) : Bool :=
  (s.proc p).state = .runnable

@[simp]
theorem runnable_eq_true {p : ProcPtr} : s.runnable p = true ↔ (s.proc p).state = .runnable := by
  simp [runnable]

section
variable (h : s.Lists L)
include h

theorem Lists.pi_eq (k : QueueId)
    : (s.queue k).pi.toInt = ((L k).length : Int) - 1 :=
  (h k).pi_eq

theorem Lists.entry_eq {k : QueueId} {i : Nat} {p : ProcPtr} (hi : (L k)[i]? = some p)
    : s.entry k i = .ok p := by
  unfold entry
  rw [(h k).get_eq hi]
  rfl

theorem Lists.rrIndex_eq (k : Nat)
    : s.rrIndex k = (s.rrCounter.toNat + k) % 2 ^ 32 % (L .rr).length := by
  unfold rrIndex
  rw [h.pi_eq]
  congr 1
  omega

theorem Lists.rrIndex_lt (hne : L .rr ≠ []) (k : Nat)
    : s.rrIndex k < (L .rr).length := by
  rw [h.rrIndex_eq]
  exact Nat.mod_lt _ (List.length_pos_iff.mpr hne)

def rrVisits (s : State n) (l : List ProcPtr) (todo : List Nat) : List ProcPtr :=
  todo.filterMap fun i => l[s.rrIndex i]?

theorem Lists.rrSearch_eq (hne : L .rr ≠ []) (todo : List Nat)
    : s.rrSearch todo = .ok ((s.rrVisits (L .rr) (todo.map (· + 1))).find? s.runnable) := by
  induction todo with
  | nil => rfl
  | cons i todo ih =>
    have hlt := h.rrIndex_lt hne (i + 1)
    have hget := List.getElem?_eq_getElem hlt
    unfold rrSearch
    rw [h.entry_eq hget, ih]
    simp only [rrVisits, List.map_cons, List.filterMap_cons, hget, List.find?_cons]
    by_cases hrun : (s.proc (L .rr)[s.rrIndex (i + 1)]).state = .runnable
    . simp [hrun, runnable, bind, Except.bind, pure, Except.pure]
    . simp [hrun, runnable, bind, Except.bind]

theorem Lists.rrPick_eq {p : ProcPtr} (hp : (L .rr)[s.rrIndex 0]? = some p)
    : s.rrPick =
        if (s.proc p).Ready then
          .ok ((s.rrVisits (L .rr) (List.range (L .rr).length)).find? s.runnable)
        else
          .error (.panic .noRunnableProcess) := by
  have hne : L .rr ≠ [] := by
    intro hnil
    simp [hnil] at hp
  have hlen := List.length_pos_iff.mpr hne
  have htop : (s.queue .rr).pi.toInt.toNat = (L .rr).length - 1 := by
    rw [h.pi_eq]
    omega
  -- The search continues behind the cursor.
  have hrange : List.range (L .rr).length = 0 :: (List.range ((L .rr).length - 1)).map (· + 1) := by
    conv => lhs; rw [← Nat.succ_pred_eq_of_pos hlen]
    rw [List.range_succ_eq_map]
    rfl
  unfold rrPick
  rw [h.entry_eq hp, htop, h.rrSearch_eq hne, hrange]
  simp only [rrVisits, List.filterMap_cons, hp, List.find?_cons, runnable, bind, Except.bind]
  cases hstate : (s.proc p).state
  all_goals simp [Proc.Ready, hstate, pure, Except.pure]

theorem Lists.lcfsSearch_eq {i : Nat} (hi : i ≤ (L .lcfs).length)
    : s.lcfsSearch i = .ok (((L .lcfs).take i).reverse.find? s.runnable) := by
  induction i with
  | zero => rfl
  | succ i ih =>
    have hget := List.getElem?_eq_getElem (show i < (L .lcfs).length by omega)
    unfold lcfsSearch
    rw [h.entry_eq hget, ih (by omega), List.take_succ_eq_append_getElem (by omega),
      List.reverse_append]
    simp only [List.reverse_singleton, List.singleton_append, List.find?_cons]
    by_cases hrun : (s.proc (L .lcfs)[i]).state = .runnable
    . simp [hrun, runnable, bind, Except.bind, pure, Except.pure]
    . simp [hrun, runnable, bind, Except.bind]

theorem Lists.lcfsPick_eq {p : ProcPtr} (hp : (L .lcfs).getLast? = some p)
    : s.lcfsPick =
        if (s.proc p).Ready then
          .ok ((L .lcfs).reverse.find? s.runnable)
        else
          .error (.panic .noRunnableProcess) := by
  rcases List.getLast?_eq_some_iff.mp hp with ⟨l, hl⟩
  have htop : (s.queue .lcfs).pi.toInt.toNat = l.length := by
    rw [h.pi_eq, hl]
    simp
  unfold lcfsPick
  dsimp only
  rw [htop, h.entry_eq (p := p) (by simp [hl]), h.lcfsSearch_eq (by simp [hl]), hl]
  simp only [List.reverse_append, List.reverse_singleton, List.singleton_append, List.find?_cons,
    List.take_left, runnable, bind, Except.bind]
  cases hstate : (s.proc p).state
  all_goals simp [Proc.Ready, hstate, pure, Except.pure]

theorem Lists.bjfSearch_ok (rank : Proc → Int) {todo : List Nat}
    (htodo : ∀ i ∈ todo, i < (L .bjf).length) (best : Option ProcPtr × Rat)
    : ∃ best', bjfSearch rank s todo best = .ok best' := by
  induction todo generalizing best with
  | nil => exact ⟨best, rfl⟩
  | cons i todo ih =>
    have ih := ih fun j hj => htodo j (List.mem_cons_of_mem i hj)
    have hget := List.getElem?_eq_getElem (htodo i List.mem_cons_self)
    unfold bjfSearch
    rw [h.entry_eq hget]
    simp only [bind, Except.bind]
    split
    . exact ih best
    . split
      . exact ih _
      . exact ih best

theorem Lists.bjfPick_eq : s.bjfPick = .ok none := by
  have hlen := h.pi_eq .bjf
  have htodo : ∀ i ∈ List.range (s.queue .bjf).pi.toInt.toNat, i < (L .bjf).length := by
    intro i hi
    rw [List.mem_range] at hi
    omega
  rcases h.bjfSearch_ok calculateRank htodo (none, floatOfInt 999999999) with ⟨best, hbest⟩
  unfold bjfPick
  rw [hbest]
  rfl

def inspected (s : State n) (L : QueueId → List ProcPtr) : Option ProcPtr :=
  if L .rr ≠ [] then (L .rr)[s.rrIndex 0]? else (L .lcfs).getLast?

def candidates (s : State n) (L : QueueId → List ProcPtr) : List ProcPtr :=
  if L .rr ≠ [] then s.rrVisits (L .rr) (List.range (L .rr).length) else (L .lcfs).reverse

theorem Lists.pi_nonneg_iff (k : QueueId)
    : 0 ≤ (s.queue k).pi.toInt ↔ L k ≠ [] := by
  rw [h.pi_eq, ← List.length_pos_iff]
  omega

theorem Lists.schedulerPick_of_inspected {p : ProcPtr}
    (hp : s.inspected L = some p)
    : s.schedulerPick =
        if (s.proc p).Ready then
          .ok (((s.candidates L).find? s.runnable).map (·, .pick))
        else
          .error (.panic .noRunnableProcess) := by
  unfold inspected at hp
  unfold schedulerPick candidates
  simp only [h.pi_nonneg_iff]
  by_cases hrr : L .rr ≠ []
  . rw [if_pos hrr] at hp
    rw [if_pos hrr, if_pos hrr, h.rrPick_eq hp]
    split
    all_goals rfl
  . rw [if_neg hrr] at hp
    have hlcfs : L .lcfs ≠ [] := by
      intro hnil
      simp [hnil] at hp
    rw [if_neg hrr, if_neg hrr, if_pos hlcfs, h.lcfsPick_eq hp]
    split
    all_goals rfl

theorem Lists.schedulerPick_of_not_inspected (hp : s.inspected L = none)
    : s.schedulerPick =
        .ok (if L .bjf ≠ [] then none else (s.tableNext 0).map fun p => (p, .table p)) := by
  unfold inspected at hp
  unfold schedulerPick
  simp only [h.pi_nonneg_iff]
  by_cases hrr : L .rr ≠ []
  . have := List.getElem?_eq_getElem (h.rrIndex_lt hrr 0)
    rw [if_pos hrr, this] at hp
    cases hp
  rw [if_neg hrr, List.getLast?_eq_none_iff] at hp
  rw [if_neg hrr, if_neg (not_not.mpr hp), h.bjfPick_eq]
  split
  all_goals rfl

end

end State
end Xv6
