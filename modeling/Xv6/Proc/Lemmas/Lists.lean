import Mathlib.Logic.Function.Basic
import Xv6.Proc.Lemmas.Core
import Xv6.Proc.Lemmas.Queue

namespace Xv6
namespace State

open Outcome

variable {n : Nat} {s : State n} {L : QueueId → List ProcPtr}

def entries (s : State n) (k : QueueId) : List ProcPtr :=
  (s.queue k).entries

def Lists (s : State n) (L : QueueId → List ProcPtr) : Prop :=
  ∀ k, (s.queue k).Holds (L k)

theorem lists_init : (init (n := n)).Lists fun _ => [] := by
  intro k
  cases k
  all_goals exact Queue.holds_init

theorem Lists.entries_eq (h : s.Lists L) : s.entries = L := by
  funext k
  exact (h k).entries_eq

theorem Lists.of_queue_eq {s' : State n} (h : s.Lists L) (hqueue : s'.queue = s.queue)
    : s'.Lists L := by
  intro k
  rw [hqueue]
  exact h k

theorem lists_onCore {f : Core n → Core n} : (s.onCore f).Lists L ↔ s.Lists L := by
  constructor
  all_goals
    intro h k
    simpa using h k

theorem Lists.setQueue (h : s.Lists L) {k : QueueId} {q : Queue} {l : List ProcPtr} (hq : q.Holds l)
    : (s.setQueue k q).Lists (Function.update L k l) := by
  intro k'
  rw [setQueue_queue]
  by_cases hk : k' = k
  . subst hk
    simpa using hq
  . simpa [hk] using h k'

theorem Lists.append (h : s.Lists L) (k : QueueId) (p : ProcPtr) (hlen : (L k).length < NPROC)
    : ∃ s', s.append k p = .ok s' ∧ s'.toCore = s.toCore ∧ s'.Lists (Function.update L k (L k ++ [p])) := by
  rcases Queue.append_holds (h k) p hlen with ⟨q, hq, hholds⟩
  refine ⟨s.setQueue k q, ?_, setQueue_toCore s k q, h.setQueue hholds⟩
  unfold State.append
  rw [hq]
  rfl

def cleaned (s : State n) (L : QueueId → List ProcPtr) (k : QueueId) (p : ProcPtr)
    : QueueId → List ProcPtr :=
  Function.update L k (Queue.removed (fun q => (s.proc q).pid) (s.proc p).pid (L k))

theorem Lists.cleanupCorresQueue (h : s.Lists L) {k : QueueId} {p : ProcPtr}
    (hk : (s.proc p).qType.queueId? = some k) (hne : L k ≠ [])
    : ∃ s', s.cleanupCorresQueue p = .ok s' ∧ s'.toCore = s.toCore ∧ s'.Lists (cleaned s L k p) := by
  rcases Queue.remove_holds (h k) (fun q => (s.proc q).pid) p hne with ⟨q, hq, hholds⟩
  refine ⟨s.setQueue k q, ?_, setQueue_toCore s k q, h.setQueue hholds⟩
  have hpos := List.length_pos_iff.mpr hne
  have hpi := (h k).pi_eq
  simp only [State.cleanupCorresQueue, hk]
  rw [if_neg (by omega), hq]
  rfl

theorem Lists.cleanupCorresQueue_cases (h : s.Lists L) (p : ProcPtr)
    : (∃ e, s.cleanupCorresQueue p = .error (.panic e)) ∨ ∃ k s', (s.proc p).qType.queueId? = some k ∧ L k ≠ []
          ∧ s.cleanupCorresQueue p = .ok s' ∧ s'.toCore = s.toCore ∧ s'.Lists (cleaned s L k p) := by
  cases hk : (s.proc p).qType.queueId? with
  | none =>
    refine .inl ⟨.defautSchedulingCleanup, ?_⟩
    simp [State.cleanupCorresQueue, hk]
  | some k =>
    by_cases hne : L k = []
    . refine .inl ⟨.nothingToClean k, ?_⟩
      have hpi := (h k).pi_eq
      simp only [State.cleanupCorresQueue, hk]
      rw [if_pos]
      simp [hpi, hne]
    . rcases h.cleanupCorresQueue hk hne with ⟨s', hs', hcore, hlists⟩
      exact .inr ⟨k, s', rfl, hne, hs', hcore, hlists⟩

end State
end Xv6
