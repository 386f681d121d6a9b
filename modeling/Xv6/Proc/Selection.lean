import Xv6.Proc.Room

namespace Xv6

open Outcome

variable {n : Nat}

namespace State

variable {s s' : State n} {c : Fin n} {p : ProcPtr} {d : Option ProcPtr}

structure Passes (s : State n) (c : Fin n) (d : Option ProcPtr) (s' : State n) : Prop where
  ok : s.scheduler c = .ok s'
  cpu : (s'.cpu c).proc = d
  dispatched : ∀ p, d = some p → (s'.proc p).state = .running ∧ (s'.proc p).waitingTime = 0
  others : ∀ q, d ≠ some q → s'.proc q = s.proc q

theorem exists_passes {k : Site} (h : s.schedulerPick = .ok (d.map (·, k))) (c : Fin n)
    : ∃ s', Passes s c d s' := by
  cases d with
  | none =>
    refine ⟨s.onCore (Core.goIdle · c), ?_, ?_, nofun, fun _ _ => rfl⟩
    . unfold scheduler
      rw [h]
      rfl
    . simp [Core.goIdle, Core.setCpu]
  | some p =>
    refine ⟨s.onCore (Core.dispatch · c p k), ?_, ?_, ?_, ?_⟩
    . unfold scheduler
      rw [h]
      rfl
    . simp [Core.dispatch, Core.setCpu]
    . rintro q ⟨⟩
      simp [Core.dispatch]
    . intro q hq
      have hne : q ≠ p := by
        rintro rfl
        exact hq rfl
      simp [Core.dispatch, hne]

def rrLen (s : State n) : Nat :=
  (s.rrQ.pi.toInt + 1).toNat

structure RrChoice (s : State n) (d : Option ProcPtr) : Prop where
  least : ∀ p, d = some p → ∃ k, k < s.rrLen
    ∧ s.entry .rr ((s.rrCounter.toNat + k) % s.rrLen) = .ok p ∧ (s.proc p).state = .runnable
    ∧ ∀ j, j < k → ∀ q, s.entry .rr ((s.rrCounter.toNat + j) % s.rrLen) = .ok q →
        (s.proc q).state ≠ .runnable
  none_iff : d = none ↔ ∀ p ∈ s.entries .rr, (s.proc p).state ≠ .runnable

structure LcfsChoice (s : State n) (d : Option ProcPtr) : Prop where
  greatest : ∀ p, d = some p → ∃ i : Nat, i ≤ s.lcfsQ.pi.toInt ∧ s.entry .lcfs i = .ok p
    ∧ (s.proc p).state = .runnable
    ∧ ∀ j : Nat, i < j → j ≤ s.lcfsQ.pi.toInt → ∀ q, s.entry .lcfs j = .ok q →
        (s.proc q).state ≠ .runnable
  none_iff : d = none ↔ ∀ p ∈ s.entries .lcfs, (s.proc p).state ≠ .runnable

theorem Lists.rrLen_eq (h : s.Lists s.entries) : s.rrLen = (s.entries .rr).length := by
  have hpi : s.rrQ.pi.toInt = _ := h.pi_eq .rr
  unfold rrLen
  omega

theorem Lists.entry_iff (h : s.Lists s.entries) {k : QueueId} {i : Nat} (hi : i < (s.entries k).length)
    : s.entry k i = .ok p ↔ (s.entries k)[i]? = some p := by
  have hget := List.getElem?_eq_getElem hi
  rw [h.entry_eq hget, hget]
  simp

theorem Lists.rrIndex_of_lt (h : s.Lists s.entries) (hcounter : s.rrCounter.toNat + NPROC < 2 ^ 32)
    {k : Nat} (hk : k < (s.entries .rr).length)
    : s.rrIndex k = (s.rrCounter.toNat + k) % (s.entries .rr).length := by
  have hlen := (h .rr).length_le
  rw [h.rrIndex_eq, Nat.mod_eq_of_lt (by omega : s.rrCounter.toNat + k < 2 ^ 32)]

theorem exists_add_mod_eq {len i : Nat} (a : Nat) (hi : i < len)
    : ∃ k, k < len ∧ (a + k) % len = i := by
  refine ⟨(i + (len - a % len)) % len, Nat.mod_lt _ (by omega), ?_⟩
  have ha := Nat.mod_lt a (show 0 < len by omega)
  rw [Nat.add_mod_mod, ← Nat.mod_add_mod, show a % len + (i + (len - a % len)) = i + len by omega,
    Nat.add_mod_right, Nat.mod_eq_of_lt hi]

theorem Lists.rrChoice (h : s.Lists s.entries) (hcounter : s.rrCounter.toNat + NPROC < 2 ^ 32)
    (hne : s.entries .rr ≠ [])
    : RrChoice s ((s.rrVisits (s.entries .rr) (List.range (s.entries .rr).length)).find? s.runnable) := by
  have hpos := List.length_pos_iff.mpr hne
  -- The process that the search looks at after `k` others.
  have hvisit (k : Nat) (hk : k < (s.entries .rr).length) (q : ProcPtr)
      : s.entry .rr ((s.rrCounter.toNat + k) % (s.entries .rr).length) = .ok q
        ↔ (s.entries .rr)[s.rrIndex k]? = some q := by
    rw [h.rrIndex_of_lt hcounter hk, h.entry_iff (Nat.mod_lt _ hpos)]
  constructor
  . intro p hp
    unfold rrVisits at hp
    rw [List.find?_filterMap, Option.bind_eq_some_iff] at hp
    rcases hp with ⟨k, hk, hget⟩
    rw [List.find?_range_eq_some] at hk
    rcases hk with ⟨hrun, hlt, hbefore⟩
    rw [List.mem_range] at hlt
    rw [h.rrLen_eq]
    refine ⟨k, hlt, (hvisit k hlt p).mpr hget, ?_, ?_⟩
    . simpa [hget] using hrun
    . intro j hj q hq
      have hnot := hbefore j hj
      rw [hvisit j (by omega)] at hq
      simpa [hq, runnable] using hnot
  . rw [List.find?_eq_none]
    constructor
    . intro hall p hp
      rcases List.mem_iff_getElem?.mp hp with ⟨i, hi⟩
      have hlt := (List.getElem?_eq_some_iff.mp hi).1
      rcases exists_add_mod_eq s.rrCounter.toNat hlt with ⟨k, hk, hmod⟩
      have hmem : p ∈ s.rrVisits (s.entries .rr) (List.range (s.entries .rr).length) := by
        simp only [rrVisits, List.mem_filterMap, List.mem_range]
        exact ⟨k, hk, by rw [h.rrIndex_of_lt hcounter hk, hmod, hi]⟩
      simpa using hall p hmem
    . intro hall p hp
      simp only [rrVisits, List.mem_filterMap] at hp
      rcases hp with ⟨k, _, hk⟩
      simpa using hall p (List.mem_of_getElem? hk)

theorem Lists.lcfsChoice (h : s.Lists s.entries)
    : LcfsChoice s ((s.entries .lcfs).reverse.find? s.runnable) := by
  have hpi : s.lcfsQ.pi.toInt = _ := h.pi_eq .lcfs
  constructor
  . intro p hp
    rcases List.find?_eq_some_iff_append.mp hp with ⟨hrun, above, below, hsplit, habove⟩
    have hentries : s.entries .lcfs = below.reverse ++ p :: above.reverse := by
      rw [← List.reverse_reverse (s.entries .lcfs), hsplit]
      simp
    have hlen : (s.entries .lcfs).length = below.length + 1 + above.length := by
      rw [hentries]
      simp
      omega
    refine ⟨below.length, by omega, ?_, by simpa using hrun, ?_⟩
    . rw [h.entry_iff (by omega), hentries]
      simp
    . intro j hj hle q hq
      rw [h.entry_iff (by omega), hentries, List.getElem?_append_right (by simp; omega),
        List.getElem?_cons, if_neg (by simp; omega)] at hq
      have hmem : q ∈ above := by simpa using List.mem_of_getElem? hq
      simpa [runnable] using habove q hmem
  . rw [List.find?_eq_none]
    simp

/--
The processes that `scheduler` picks from `rr_q` and `lcfs_q`, in a state in which everybody in a queue
is RUNNABLE or RUNNING.
-/
theorem selection_of_ready (hlists : s.Lists s.entries) (hready : ∀ k, ∀ p ∈ s.entries k, (s.proc p).Ready)
    (hcounter : s.rrCounter.toNat + NPROC < 2 ^ 32) (c : Fin n)
    : (s.entries .rr ≠ [] → ∃ d s', Passes s c d s' ∧ RrChoice s d)
        ∧ (s.entries .rr = [] → s.entries .lcfs ≠ [] → ∃ d s', Passes s c d s' ∧ LcfsChoice s d) := by
  constructor
  . intro hne
    have hlt := hlists.rrIndex_lt hne 0
    have hinspected : s.inspected s.entries = some (s.entries .rr)[s.rrIndex 0] := by
      simp [inspected, hne, hlt]
    have hpick := hlists.schedulerPick_of_inspected hinspected
    rw [if_pos (hready .rr _ (List.getElem_mem hlt))] at hpick
    rcases exists_passes hpick c with ⟨s', hs'⟩
    have hchoice := hlists.rrChoice hcounter hne
    rw [candidates, if_pos hne] at hs'
    exact ⟨_, s', hs', hchoice⟩
  . intro hrr hne
    have hlast := List.getLast?_eq_some_getLast hne
    have hinspected : s.inspected s.entries = some ((s.entries .lcfs).getLast hne) := by
      simp [inspected, hrr, hlast]
    have hpick := hlists.schedulerPick_of_inspected hinspected
    rw [if_pos (hready .lcfs _ (List.getLast_mem hne))] at hpick
    rcases exists_passes hpick c with ⟨s', hs'⟩
    rw [candidates, if_neg (not_not.mpr hrr)] at hs'
    exact ⟨_, s', hs', hlists.lcfsChoice⟩

theorem selection_of_three
    : ∃ s : State 2, Reachable s ∧ s.entries .rr = [1, 2, 0]
        ∧ ∃ d s', Passes s 1 d s' ∧ RrChoice s d ∧ d ≠ none := by
  have hrun : ∃ s : State 2, Reachable s
      ∧ (s.entries .rr = [1, 2, 0] && s.entries .lcfs = [] && s.entries .bjf = []
        && (s.proc 0).state = .runnable && (s.proc 1).state = .runnable
        && (s.proc 2).state = .running && s.rrCounter = 1) = true := by
    apply exists_of_run (fun _ _ _ => true)
      _ [.userinit, .scheduler 0, .afterSwtch 0, .forkAlloc 0, .forkCopy 0, .forkEnqueue 0,
        .forkAlloc 0, .forkCopy 0, .forkEnqueue 0, .changeQueue 0 2 1 0, .changeQueue 0 3 1 0,
        .changeQueue 0 1 1 0, .trapTimer 0, .trapTimer 0, .trapTimer 0, .trapTimer 0, .trapTimer 0,
        .yield 0, .schedulerReturn 0, .scheduler 0, .afterSwtch 0]
    . decide +kernel
    . intro s op s' hstep _
      exact hstep
  rcases hrun with ⟨s, hreach, hs⟩
  simp only [Bool.and_eq_true, decide_eq_true_eq] at hs
  rcases hs with ⟨⟨⟨⟨⟨⟨hrr, hlcfs⟩, hbjf⟩, h0⟩, h1⟩, h2⟩, hcounter⟩
  have hready : ∀ k, ∀ p ∈ s.entries k, (s.proc p).Ready := by
    intro k p hp
    cases k with
    | rr =>
      simp only [hrr, List.mem_cons, List.not_mem_nil, or_false] at hp
      rcases hp with rfl | rfl | rfl
      . exact .inl h1
      . exact .inr h2
      . exact .inl h0
    | lcfs => simp [hlcfs] at hp
    | bjf => simp [hbjf] at hp
  have hselect := selection_of_ready (Reachable.lists hreach) hready (by rw [hcounter]; decide) 1
  rcases hselect.1 (by simp [hrr]) with ⟨d, s', hpass, hchoice⟩
  refine ⟨s, hreach, hrr, d, s', hpass, hchoice, ?_⟩
  intro hnone
  exact hchoice.none_iff.mp hnone 0 (by simp [hrr]) h0

/--
The state of the search in `bjf_q`, once it has looked at the entries `visited`: `best` is a RUNNABLE
one of them with the least rank, as far as `float` tells them apart.
-/
structure BestOf (rank : Proc → Int) (s : State n) (visited : List ProcPtr)
    (start best : Option ProcPtr × Rat) : Prop where
  le_start : best.2 ≤ start.2
  least : ∀ p ∈ visited, (s.proc p).state = .runnable → best.2 ≤ floatOfInt (rank (s.proc p))
  found : best = start ∨ ∃ p ∈ visited, (s.proc p).state = .runnable
    ∧ best = (some p, floatOfInt (rank (s.proc p)))

theorem BestOf.cons {rank : Proc → Int} {visited : List ProcPtr}
    {start next best : Option ProcPtr × Rat} (h : BestOf rank s visited next best) (hle : next.2 ≤ start.2)
    (hp : (s.proc p).state = .runnable → next.2 ≤ floatOfInt (rank (s.proc p)))
    (hnext : next = start ∨ (s.proc p).state = .runnable ∧ next = (some p, floatOfInt (rank (s.proc p))))
    : BestOf rank s (p :: visited) start best where
  le_start := h.le_start.trans hle
  least := by
    intro q hq hrun
    rcases List.mem_cons.mp hq with rfl | hq
    . exact h.le_start.trans (hp hrun)
    . exact h.least q hq hrun
  found := by
    rcases h.found with heq | ⟨q, hq, hfound⟩
    . rcases hnext with hstart | ⟨hrun, hpair⟩
      . exact .inl (heq.trans hstart)
      . exact .inr ⟨p, List.mem_cons_self, hrun, heq.trans hpair⟩
    . exact .inr ⟨q, List.mem_cons_of_mem p hq, hfound⟩

theorem Lists.bjfSearch_best (h : s.Lists s.entries) (rank : Proc → Int) {todo : List Nat}
    (htodo : ∀ i ∈ todo, i < (s.entries .bjf).length) (start : Option ProcPtr × Rat)
    : ∃ best, bjfSearch rank s todo start = .ok best
        ∧ BestOf rank s (todo.filterMap fun i => (s.entries .bjf)[i]?) start best := by
  induction todo generalizing start with
  | nil => exact ⟨start, rfl, ⟨Rat.le_refl, by simp, .inl rfl⟩⟩
  | cons i todo ih =>
    have ih := ih fun j hj => htodo j (List.mem_cons_of_mem i hj)
    obtain ⟨p, hget⟩ : ∃ p, (s.entries .bjf)[i]? = some p :=
      ⟨_, List.getElem?_eq_getElem (htodo i List.mem_cons_self)⟩
    unfold bjfSearch
    rw [h.entry_eq hget, List.filterMap_cons_some hget]
    simp only [bind, Except.bind]
    split
    . next hrun =>
      rcases ih start with ⟨best, hbest, hleast⟩
      exact ⟨best, hbest, hleast.cons Rat.le_refl (fun hp => absurd hp hrun) (.inl rfl)⟩
    . next hrun =>
      rw [not_not] at hrun
      split
      . next hlt =>
        rcases ih (some p, floatOfInt (rank (s.proc p))) with ⟨best, hbest, hleast⟩
        exact ⟨best, hbest, hleast.cons hlt.le (fun _ => Rat.le_refl) (.inr ⟨hrun, rfl⟩)⟩
      . next hle =>
        rcases ih start with ⟨best, hbest, hleast⟩
        exact ⟨best, hbest, hleast.cons Rat.le_refl (fun _ => not_lt.mp hle) (.inl rfl)⟩

theorem Lists.filterMap_range_pi (h : s.Lists s.entries)
    : ((List.range s.bjfQ.pi.toInt.toNat).filterMap fun i => (s.entries .bjf)[i]?)
        = (s.entries .bjf).dropLast := by
  have hpi : s.bjfQ.pi.toInt = _ := h.pi_eq .bjf
  have hlen : s.bjfQ.pi.toInt.toNat = (s.entries .bjf).dropLast.length := by
    rw [List.length_dropLast]
    omega
  rw [hlen]
  conv => rhs; rw [← Queue.filterMap_getElem?_range (s.entries .bjf).dropLast]
  apply List.filterMap_congr
  intro i hi
  simp only [List.mem_range, List.length_dropLast] at hi
  rw [List.getElem?_dropLast, if_pos hi]

/--
When only `bjf_q` has processes, `scheduler` finds the one with the least rank among all but the last
of them, and does not switch to it or to any other one.
-/
theorem bjf_pass_dispatches_nobody (hlists : s.Lists s.entries) (hrr : s.entries .rr = [])
    (hlcfs : s.entries .lcfs = []) (hbjf : s.entries .bjf ≠ []) (c : Fin n)
    : (∃ s', Passes s c none s') ∧ ∀ rank : Proc → Int, ∃ best,
            bjfSearch rank s (List.range s.bjfQ.pi.toInt.toNat) (none, floatOfInt 999999999) = .ok best
            ∧ BestOf rank s (s.entries .bjf).dropLast (none, floatOfInt 999999999) best := by
  constructor
  . have hpick := hlists.schedulerPick_of_not_inspected (by simp [inspected, hrr, hlcfs])
    rw [if_pos hbjf] at hpick
    exact exists_passes (d := none) (k := .pick) hpick c
  . intro rank
    rw [← hlists.filterMap_range_pi]
    apply hlists.bjfSearch_best rank
    intro i hi
    have hpi : s.bjfQ.pi.toInt = _ := hlists.pi_eq .bjf
    rw [List.mem_range] at hi
    omega

theorem bjf_pass_of_two
    : ∃ s : State 1, Reachable s ∧ s.entries .bjf = [1, 2] ∧ (s.proc 1).state = .runnable
        ∧ (∃ s', Passes s 0 none s') ∧ ∃ best, bjfSearch calculateRank s (List.range s.bjfQ.pi.toInt.toNat)
              (none, floatOfInt 999999999) = .ok best
            ∧ BestOf calculateRank s [1] (none, floatOfInt 999999999) best := by
  have hrun : ∃ s : State 1, Reachable s
      ∧ (s.entries .rr = [] && s.entries .lcfs = [] && s.entries .bjf = [1, 2]
        && (s.proc 1).state = .runnable) = true := by
    apply exists_of_run (fun _ _ _ => true)
      _ [.userinit, .scheduler 0, .afterSwtch 0, .forkAlloc 0, .forkCopy 0, .forkEnqueue 0,
        .forkAlloc 0, .forkCopy 0, .forkEnqueue 0, .changeQueue 0 2 3 0, .changeQueue 0 3 3 0,
        .sleep 0 7, .schedulerReturn 0]
    . decide +kernel
    . intro s op s' hstep _
      exact hstep
  rcases hrun with ⟨s, hreach, hs⟩
  simp only [Bool.and_eq_true, decide_eq_true_eq] at hs
  rcases hs with ⟨⟨⟨hrr, hlcfs⟩, hbjf⟩, h1⟩
  have hpass := bjf_pass_dispatches_nobody (Reachable.lists hreach) hrr hlcfs (by simp [hbjf]) 0
  refine ⟨s, hreach, hbjf, h1, hpass.1, ?_⟩
  simpa [hbjf] using hpass.2 calculateRank

/-- The only process there is waits in `bjf_q`, and a round of `scheduler` leaves it there. -/
theorem bjf_process_never_dispatched
    : ∃ s : State 1, Reachable s ∧ s.entries .rr = [] ∧ s.entries .lcfs = []
        ∧ s.entries .bjf = [1] ∧ (s.proc 1).state = .runnable ∧ calculateRank (s.proc 1) < 999999999
        ∧ ∃ s', s.scheduler 0 = .ok s' ∧ (s'.cpu 0).proc = none ∧ (s'.proc 1).state = .runnable := by
  have hrun : ∃ s : State 1, Reachable s
      ∧ (s.entries .rr = [] && s.entries .lcfs = [] && s.entries .bjf = [1]
        && (s.proc 1).state = .runnable && calculateRank (s.proc 1) < 999999999
        && s.schedulerPick = .ok none) = true := by
    apply exists_of_run (fun _ _ _ => true)
      _ [.userinit, .scheduler 0, .afterSwtch 0, .forkAlloc 0, .forkCopy 0, .forkEnqueue 0,
        .changeQueue 0 2 3 0, .sleep 0 7, .schedulerReturn 0]
    . decide +kernel
    . intro s op s' hstep _
      exact hstep
  rcases hrun with ⟨s, hreach, hs⟩
  simp only [Bool.and_eq_true, decide_eq_true_eq] at hs
  rcases hs with ⟨⟨⟨⟨⟨hrr, hlcfs⟩, hbjf⟩, h1⟩, hrank⟩, hpick⟩
  rcases exists_passes (d := none) (k := .pick) hpick 0 with ⟨s', hok, hcpu, _, hothers⟩
  refine ⟨s, hreach, hrr, hlcfs, hbjf, h1, hrank, s', hok, hcpu, ?_⟩
  rw [hothers 1 nofun]
  exact h1

end State
end Xv6
