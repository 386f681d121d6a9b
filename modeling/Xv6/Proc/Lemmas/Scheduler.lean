import Xv6.Proc.Lemmas.Core

namespace Xv6
namespace State

open Outcome

variable {n : Nat} {s : State n} {p : ProcPtr}

theorem rrSearch_runnable {todo : List Nat} (h : s.rrSearch todo = .ok (some p))
    : (s.proc p).state = .runnable := by
  induction todo with
  | nil => cases h
  | cons i todo ih =>
    unfold rrSearch at h
    rcases bind_eq_ok.mp h with ⟨q, _, h⟩
    split at h
    . next hq =>
      cases h
      exact hq
    . exact ih h

theorem rrPick_runnable (h : s.rrPick = .ok (some p)) : (s.proc p).state = .runnable := by
  unfold rrPick at h
  rcases bind_eq_ok.mp h with ⟨q, _, h⟩
  split at h
  . next hq =>
    cases h
    exact hq
  . exact rrSearch_runnable h
  . cases h

theorem lcfsSearch_runnable {i : Nat} (h : s.lcfsSearch i = .ok (some p))
    : (s.proc p).state = .runnable := by
  induction i with
  | zero => cases h
  | succ i ih =>
    unfold lcfsSearch at h
    rcases bind_eq_ok.mp h with ⟨q, _, h⟩
    split at h
    . next hq =>
      cases h
      exact hq
    . exact ih h

theorem lcfsPick_runnable (h : s.lcfsPick = .ok (some p)) : (s.proc p).state = .runnable := by
  unfold lcfsPick at h
  rcases bind_eq_ok.mp h with ⟨q, _, h⟩
  split at h
  . next hq =>
    cases h
    exact hq
  . exact lcfsSearch_runnable h
  . cases h

theorem bjfPick_none {r : Option ProcPtr} (h : s.bjfPick = .ok r) : r = none := by
  unfold bjfPick at h
  rcases bind_eq_ok.mp h with ⟨_, _, h⟩
  cases h
  rfl

theorem tableNext_runnable {i : Nat} (h : s.tableNext i = some p)
    : (s.proc p).state = .runnable := by
  have := List.find?_some h
  simp only [decide_eq_true_eq] at this
  exact this.2

theorem schedulerPick_runnable {site : Site} (h : s.schedulerPick = .ok (some (p, site)))
    : (s.proc p).state = .runnable := by
  unfold schedulerPick at h
  split at h
  . rcases bind_eq_ok.mp h with ⟨r, hr, h⟩
    cases r with
    | none => cases h
    | some q =>
      cases h
      exact rrPick_runnable hr
  . split at h
    . rcases bind_eq_ok.mp h with ⟨r, hr, h⟩
      cases r with
      | none => cases h
      | some q =>
        cases h
        exact lcfsPick_runnable hr
    . split at h
      . rcases bind_eq_ok.mp h with ⟨r, hr, h⟩
        rw [bjfPick_none hr] at h
        cases h
      . cases hnext : s.tableNext 0 with
        | none =>
          rw [hnext] at h
          cases h
        | some q =>
          rw [hnext] at h
          cases h
          exact tableNext_runnable hnext

theorem scheduler_sat {E : Halt → Prop} {Q : State n → Prop} {c : Fin n}
    (hpick : Sat E (fun _ => True) s.schedulerPick)
    (hdispatch : ∀ p site, (s.proc p).state = .runnable → Q (s.onCore (Core.dispatch · c p site)))
    (hidle : Q (s.onCore (Core.goIdle · c)))
    : Sat E Q (s.scheduler c) := by
  unfold scheduler
  cases hr : s.schedulerPick with
  | error e =>
    rw [hr] at hpick
    exact hpick
  | ok r =>
    cases r with
    | none => exact hidle
    | some r => exact hdispatch r.1 r.2 (schedulerPick_runnable hr)

theorem scheduler_eq_ok {s' : State n} {c : Fin n} (h : s.scheduler c = .ok s')
    : (∃ p site, s.schedulerPick = .ok (some (p, site)) ∧ s' = s.onCore (Core.dispatch · c p site))
        ∨ s' = s.onCore (Core.goIdle · c) := by
  unfold scheduler at h
  rcases bind_eq_ok.mp h with ⟨r, hr, h⟩
  split at h
  . next p site =>
    cases h
    exact .inl ⟨p, site, hr, rfl⟩
  . cases h
    exact .inr rfl

theorem schedulerReturn_cases (s : State n) (c : Fin n)
    : (∃ p site, (s.proc p).state = .runnable ∧ s.schedulerReturn c = s.onCore (Core.dispatch · c p site))
        ∨ s.schedulerReturn c = s.onCore (Core.goIdle · c) := by
  unfold schedulerReturn
  split
  . exact .inr rfl
  . split
    . next q hq => exact .inl ⟨q, .table q, tableNext_runnable hq, rfl⟩
    . exact .inr rfl

end State
end Xv6
