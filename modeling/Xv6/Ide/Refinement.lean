import Xv6.Ide.Lemmas

namespace Xv6.Ide

variable {B P : Type} {s : State B P} {media : Disk} {p : P} {i : B}

section
variable [DecidableEq B] [DecidableEq P]

def Act.InRange (s : State B P) : Act B P → Prop
  | .iderw _ i => (s.buf i).dev = 1 ∧ (s.buf i).blockno < FSSIZE
  | _ => True

instance (s : State B P) : (a : Act B P) → Decidable (a.InRange s)
  | .iderw _ i => inferInstanceAs (Decidable ((s.buf i).dev = 1 ∧ (s.buf i).blockno < FSSIZE))
  | .change .. | .refcnt .. | .acquire _ | .resume _ | .disk | .ideintr => .isTrue trivial

omit [DecidableEq B] in
theorem Inv.resume (h : Inv media s) {m : Nat} (hp : s.pc p = .woken i m)
    : s.await p i m = s.setPc p .user := by
  have hok := h.pcOk p
  rw [hp] at hok
  rcases hok with ⟨-, r, -, -, -, hsame⟩
  have hflags := Memide.sync_flags (serve media (s.arrived.take m)) r.val
  apply if_pos
  rw [hsame.valid, hsame.dirty, hflags.1, hflags.2]
  decide

theorem Inv.step [Fintype B] [Fintype P] {a : Act B P} {s' : State B P} (h : Inv media s)
    (ha : a.InRange s) (hstep : s.Steps a s')
    : Inv media s' := by
  unfold State.Steps at hstep
  cases a with
  | change i b =>
    simp only [State.step] at hstep
    split at hstep
    . cases hstep
    . next hfree =>
      cases hstep
      apply h.of_buf
      intro p j huses
      rw [Function.update_of_ne]
      . exact .refl _
      . rintro rfl
        exact hfree ⟨p, huses⟩
  | refcnt i k =>
    cases hstep
    apply h.of_buf
    intro p j _
    by_cases hj : j = i
    . rw [hj, Function.update_self]
      constructor <;> rfl
    . rw [Function.update_of_ne hj]
      exact .refl _
  | iderw p i =>
    simp only [State.step] at hstep
    split at hstep
    . next huser =>
      injection hstep with hstep
      unfold State.iderw at hstep
      split at hstep
      . cases hstep
      . next hlock =>
        split at hstep
        . cases hstep
        . next hflags =>
          split at hstep
          . cases hstep
          cases hstep
          apply h.setPc
          . intro j m hj
            rw [huser] at hj
            cases hj
          . exact ⟨not_not.mp hlock, hflags, ha⟩
    . cases hstep
  | acquire p =>
    simp only [State.step] at hstep
    split at hstep
    . next i hp =>
      rcases h.acquire hp with ⟨s1, hs1, hinv⟩
      rw [hs1] at hstep
      cases hstep
      exact hinv
    . cases hstep
  | resume p =>
    simp only [State.step] at hstep
    split at hstep
    . next i m hp =>
      rw [h.resume hp] at hstep
      cases hstep
      apply h.setPc
      . intro j m' hj
        rw [hp] at hj
        cases hj
      . trivial
    . cases hstep
  | disk =>
    simp only [State.step] at hstep
    split at hstep
    . next hbusy =>
      cases hstep
      exact h.execute hbusy
    . cases hstep
  | ideintr =>
    simp only [State.step] at hstep
    split at hstep
    . next hintr =>
      rcases h.ideintr hintr with ⟨s1, hs1, hinv⟩
      rw [hs1] at hstep
      cases hstep
      exact hinv
    . cases hstep

omit [DecidableEq B] [DecidableEq P] in
theorem inv_init (media : Nat → Disk) (havedisk1 : Bool) (buf : B → Buf P) (qnext : B → Option B)
    : Inv (media 1) (State.init media havedisk1 buf qnext) := by
  constructor
  . rfl
  . exact List.nodup_nil
  . intro r hr
    cases hr
  . intro m r _ hr
    cases hr
  . intro r hr
    cases hr
  . intro p
    trivial
  . rfl
  . rfl
  . exact ⟨rfl, rfl, rfl⟩

theorem inv_of_trace [Fintype B] [Fintype P] (tr : Reach.Trace (State.Steps (B := B) (P := P)))
    {media : Nat → Disk} {havedisk1 : Bool} {buf : B → Buf P} {qnext : B → Option B}
    (hinit : tr.state 0 = .init media havedisk1 buf qnext)
    (hcalls : ∀ k < tr.length, (tr.act k).InRange (tr.state k)) {k : Nat} (hk : k ≤ tr.length)
    : Inv (media 1) (tr.state k) := by
  induction k with
  | zero =>
    rw [hinit]
    apply inv_init
  | succ k ih => exact (ih (Nat.le_of_succ_le hk)).step (hcalls k hk) (tr.next k hk)

variable [Fintype B] [Fintype P]

omit [DecidableEq B] [DecidableEq P] [Fintype B] [Fintype P] in
theorem Inv.sleeping_iff (h : Inv media s) (p : P) (i : B) (m : Nat)
    : s.pc p = .sleeping i m ↔ s.retired ≤ m ∧ ∃ r, s.arrived[m]? = some r ∧ r.proc = p ∧ r.buf = i := by
  constructor
  . intro hp
    have hok := h.pcOk p
    rw [hp] at hok
    exact hok
  . rintro ⟨hle, r, hr, rfl, rfl⟩
    exact h.asleep m r hle hr

omit [DecidableEq B] [DecidableEq P] [Fintype B] [Fintype P] in
theorem Inv.executing_eq (h : Inv media s) (hi : s.link none = some i)
    : s.ctl.executing = some (.ofBuf (s.buf i)) := by
  have hdisk := h.disk
  have hlists := h.lists
  cases hr : s.arrived[s.retired]? with
  | none =>
    have hempty : s.pending = [] := List.drop_eq_nil_of_le (List.getElem?_eq_none_iff.mp hr)
    rw [hempty] at hlists
    cases hi.symm.trans hlists
  | some r =>
    rw [hr] at hdisk
    rw [State.pending_eq_cons hr] at hlists
    cases hi.symm.trans hlists.1
    rw [Command.ofBuf_congr (h.same r (mem_pending.mpr ⟨_, Nat.le_refl _, hr⟩))]
    exact hdisk.1

omit [DecidableEq B] [Fintype B] [Fintype P] in
theorem Inv.served_take (h : Inv media s) (m : Nat)
    : served media (s.arrived.take m) = .ok (serve media (s.arrived.take m)) := by
  apply served_eq
  intro r hr
  exact h.ok r (List.mem_of_mem_take hr)

omit [DecidableEq B] [Fintype B] [Fintype P] in
theorem Inv.served_media (h : Inv media s)
    : ∃ m, s.retired ≤ m ∧ m ≤ s.retired + 1 ∧ served media (s.arrived.take m) = .ok (s.ctl.media 1) := by
  have hdisk := h.disk
  cases hr : s.arrived[s.retired]? with
  | none =>
    rw [hr] at hdisk
    refine ⟨s.retired, Nat.le_refl _, Nat.le_succ _, ?_⟩
    rw [h.served_take, hdisk.2.2]
  | some r =>
    rw [hr] at hdisk
    rcases hdisk with ⟨-, -, ⟨-, -, hmedia⟩ | ⟨-, -, hmedia, -⟩⟩
    . refine ⟨s.retired, Nat.le_refl _, Nat.le_succ _, ?_⟩
      rw [h.served_take, hmedia]
    . refine ⟨s.retired + 1, Nat.le_succ _, Nat.le_refl _, ?_⟩
      rw [h.served_take, hmedia, serve_take_succ hr]

/--
In every run of `iderw` calls, commands and interrupts: the queue lists the requests that are not yet
served, in the order in which they were made, and nothing twice; their callers are asleep. The disk is
busy with the first of them. The requests were started once each, in order. The disk holds what the
driver of `memide.c` would have left there. And when a call returns, its buffer is as that driver would
have left it, called on the disk as the requests before this one had left it.
-/
theorem iderw_refines_memide (tr : Reach.Trace (State.Steps (B := B) (P := P))) {media : Nat → Disk}
    {havedisk1 : Bool} {buf : B → Buf P} {qnext : B → Option B}
    (hinit : tr.state 0 = .init media havedisk1 buf qnext)
    (hcalls : ∀ k < tr.length, (tr.act k).InRange (tr.state k)) {k : Nat} (hk : k ≤ tr.length)
    {s : State B P} (hs : tr.state k = s)
    : (Fifo.Lists s.link none (s.pending.map (·.buf)) ∧ (s.pending.map (·.buf)).Nodup
        ∧ ∀ p i m, s.pc p = .sleeping i m ↔ s.retired ≤ m ∧ ∃ r, s.arrived[m]? = some r ∧ r.proc = p ∧ r.buf = i)
      ∧ (∀ i, s.link none = some i → s.ctl.executing = some (.ofBuf (s.buf i)))
      ∧ s.started = (s.arrived.take (s.retired + 1)).map (·.buf) ∧ (∃ m, s.retired ≤ m ∧ m ≤ s.retired + 1
          ∧ served (media 1) (s.arrived.take m) = .ok (s.ctl.media 1)) ∧ ∀ p s', s.Steps (.resume p) s' →
          s'.pc p = .user ∧ ∃ m r disk disk' b,
            s.pc p = .woken r.buf m ∧ s.arrived[m]? = some r ∧ r.proc = p ∧ m < s.retired
            ∧ served (media 1) (s.arrived.take m) = .ok disk ∧ Memide.iderw FSSIZE disk p r.val = .ok (disk', b)
            ∧ served (media 1) (s.arrived.take (m + 1)) = .ok disk'
            ∧ (s'.buf r.buf).data = b.data ∧ (s'.buf r.buf).valid = b.valid ∧ (s'.buf r.buf).dirty = b.dirty := by
  have h : Inv (media 1) s := hs ▸ inv_of_trace tr hinit hcalls hk
  refine ⟨⟨h.lists, h.nodup, h.sleeping_iff⟩, fun i => h.executing_eq, h.started, h.served_media, ?_⟩
  intro p s' hstep
  unfold State.Steps at hstep
  simp only [State.step] at hstep
  split at hstep
  . next i m hp =>
    rw [h.resume hp] at hstep
    cases hstep
    refine ⟨Function.update_self .., ?_⟩
    have hok := h.pcOk p
    rw [hp] at hok
    rcases hok with ⟨hlt, r, hr, hproc, rfl, hsame⟩
    refine ⟨m, r, _, serve (media 1) (s.arrived.take (m + 1)), _, hp, hr, hproc, hlt,
      h.served_take m, ?_, h.served_take (m + 1), hsame.data, hsame.valid, hsame.dirty⟩
    rw [← hproc, serve_take_succ hr]
    exact (h.ok r (List.mem_of_getElem? hr)).iderw _
  . cases hstep

theorem iderw_refines_memide_of_overlap
    : ∃ tr : Reach.Trace (State.Steps (B := Fin 2) (P := Fin 2)), tr.length = 11
      ∧ (tr.state 6).pending.map (·.buf) = [0, 1] ∧ (tr.state 11).started = [0, 1]
      ∧ ∃ m, m ≤ 3 ∧ served (fun _ => .zero) ((tr.state 11).arrived.take m)
          = .ok ((tr.state 11).ctl.media 1) := by
  let tr : Reach.Trace (State.Steps (B := Fin 2) (P := Fin 2)) :=
    .ofExec (Reach.attempt State.step) Reach.of_attempt
      (.init (fun _ _ => .zero) true (fun _ => {}) fun _ => none)
      [.change 0 { lock := some 0, dev := 1, blockno := 5, dirty := true },
        .change 1 { lock := some 1, dev := 1, blockno := 5 },
        .iderw 0 0, .iderw 1 1, .acquire 0, .acquire 1, .disk, .ideintr, .disk, .resume 0, .ideintr]
      .disk (by decide +kernel)
  have hcalls : ∀ k < tr.length, (tr.act k).InRange (tr.state k) := by decide +kernel
  have hretired : (tr.state 11).retired = 2 := by decide +kernel
  refine ⟨tr, rfl, by decide +kernel, by decide +kernel, ?_⟩
  rcases (iderw_refines_memide tr rfl hcalls (Nat.le_refl 11) rfl).2.2.2.1 with ⟨m, -, hm, hmedia⟩
  rw [hretired] at hm
  exact ⟨m, hm, hmedia⟩

end
end Xv6.Ide
