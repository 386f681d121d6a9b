import Mathlib.Data.Fintype.Card
import Xv6.Proc.Lemmas.Lists

namespace Xv6

variable {n : Nat}

namespace Queue

theorem count_removed (pid : ProcPtr → Int) {p : ProcPtr} {l : List ProcPtr}
    (hlen : l.length < NPROC) (hp : p ∈ l) (hpid : ∀ q ∈ l, pid q = pid p → q = p) (q : ProcPtr)
    : (removed pid (pid p) l).count q + (if q = p then 1 else 0) = l.count q := by
  rcases List.exists_of_eraseP (p := fun q => pid q = pid p) hp (by simp)
    with ⟨a, l1, l2, _, ha, hl, herase⟩
  have hap : a = p := by
    apply hpid a
    . simp [hl]
    . simpa using ha
  unfold removed
  rw [if_neg (by omega), if_pos (List.mem_map_of_mem hp), herase, hl, hap]
  by_cases hq : q = p
  . simp [hq]
    omega
  . have hne : p ≠ q := fun heq => hq heq.symm
    simp [hq, hne]

end Queue

namespace State

def Holding (M : ProcPtr → Option QueueId) (s : State n) : Prop :=
  ∃ L, s.Lists L ∧ ∀ k p, (L k).count p = if M p = some k then 1 else 0

variable {s s' : State n} {M : ProcPtr → Option QueueId} {p : ProcPtr}

namespace Holding

section
variable (h : Holding M s)
include h

theorem of_queue_eq (hqueue : s'.queue = s.queue) : Holding M s' := by
  rcases h with ⟨L, hlists, hcount⟩
  exact ⟨L, hlists.of_queue_eq hqueue, hcount⟩

theorem count_entries (k : QueueId) (p : ProcPtr)
    : (s.entries k).count p = if M p = some k then 1 else 0 := by
  rcases h with ⟨L, hlists, hcount⟩
  rw [hlists.entries_eq]
  exact hcount k p

theorem mem_entries {k : QueueId} {p : ProcPtr} : p ∈ s.entries k ↔ M p = some k := by
  have hcount := h.count_entries k p
  rw [← List.count_pos_iff, hcount]
  split
  . next heq => simp [heq]
  . next hne => simp [hne]

theorem nodup_entries (k : QueueId) : (s.entries k).Nodup := by
  rw [List.nodup_iff_count_le_one]
  intro p
  rw [h.count_entries]
  split
  all_goals omega

theorem length_lt_iff {k : QueueId}
    : (s.entries k).length < NPROC ↔ ∃ p, M p ≠ some k := by
  have hcard := List.toFinset_card_of_nodup (h.nodup_entries k)
  constructor
  . intro hlt
    by_contra hall
    simp only [ne_eq, not_exists, not_not] at hall
    have huniv : (s.entries k).toFinset = Finset.univ := by
      rw [Finset.eq_univ_iff_forall]
      intro p
      simp [h.mem_entries, hall p]
    rw [huniv, Finset.card_univ, Fintype.card_fin] at hcard
    omega
  . rintro ⟨p, hp⟩
    have hnot : p ∉ (s.entries k).toFinset := by
      simpa [h.mem_entries] using hp
    have := Finset.card_lt_univ_of_notMem hnot
    rw [Fintype.card_fin] at this
    omega

theorem append (hp : M p = none) (k : QueueId)
    : ∃ s', s.append k p = .ok s' ∧ s'.toCore = s.toCore ∧ Holding (Function.update M p (some k)) s' := by
  have hlen : (s.entries k).length < NPROC := by
    rw [h.length_lt_iff]
    exact ⟨p, by simp [hp]⟩
  rcases h with ⟨L, hlists, hcount⟩
  rw [hlists.entries_eq] at hlen
  rcases hlists.append k p hlen with ⟨s', hs', hcore, hlists'⟩
  refine ⟨s', hs', hcore, _, hlists', ?_⟩
  intro k' q
  have hq := hcount k' q
  by_cases hk : k' = k
  . subst hk
    by_cases hqp : q = p
    . subst hqp
      simp [hq, hp]
    . have hpq : ¬p = q := fun heq => hqp heq.symm
      simp [hq, hqp, hpq]
  . have hk' : ¬k = k' := fun heq => hk heq.symm
    by_cases hqp : q = p
    . subst hqp
      simp [hq, hp, hk, hk']
    . simp [hq, hqp, hk]

theorem enqueue (hp : M p = none)
    : ∃ s', s.enqueue p = .ok s' ∧ s'.toCore = s.toCore
        ∧ Holding (Function.update M p (s.proc p).qType.queueId?) s' := by
  unfold State.enqueue
  cases (s.proc p).qType.queueId? with
  | none =>
    refine ⟨s, rfl, rfl, ?_⟩
    rw [← hp, Function.update_eq_self]
    exact h
  | some k => exact h.append hp k

theorem cleanupCorresQueue {k : QueueId} (hp : M p = some k)
    (hk : (s.proc p).qType.queueId? = some k) (hfull : ∃ q, M q ≠ some k)
    (hpid : ∀ q, M q = some k → (s.proc q).pid = (s.proc p).pid → q = p)
    : ∃ s', s.cleanupCorresQueue p = .ok s' ∧ s'.toCore = s.toCore ∧ Holding (Function.update M p none) s' := by
  have hlen := h.length_lt_iff.mpr hfull
  have hmem := fun q => (h.mem_entries (k := k) (p := q))
  rcases h with ⟨L, hlists, hcount⟩
  rw [hlists.entries_eq] at hlen hmem
  have hpmem := (hmem p).mpr hp
  rcases hlists.cleanupCorresQueue hk (List.ne_nil_of_mem hpmem) with ⟨s', hs', hcore, hlists'⟩
  refine ⟨s', hs', hcore, _, hlists', ?_⟩
  intro k' q
  have hq := hcount k' q
  unfold cleaned
  by_cases hk' : k' = k
  . subst hk'
    have hremoved := Queue.count_removed (fun q => (s.proc q).pid) hlen hpmem
      (fun q hq => hpid q ((hmem q).mp hq)) q
    rw [hq] at hremoved
    by_cases hqp : q = p
    . subst hqp
      simp only [hp, if_true] at hremoved
      simp only [Function.update_self, reduceCtorEq, if_false]
      omega
    . simpa [hqp] using hremoved
  . by_cases hqp : q = p
    . subst hqp
      have : ¬k = k' := fun heq => hk' heq.symm
      simp [hk', hq, hp, this]
    . simp [hk', hq, hqp]

end

end Holding

end State
end Xv6
