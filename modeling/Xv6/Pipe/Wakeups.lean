import Xv6.Pipe.Stream

namespace Xv6.Pipe
namespace State

variable {P : Type} {s : State P} {p : P}

def room (s : State P) : Nat :=
  PIPESIZE - (s.nwrite - s.nread).toNat

def givesUp (s : State P) (p : P) : Bool :=
  !s.readopen || s.killed p

def CutShort (s : State P) (p : P) (rest : List UInt8) : Prop :=
  s.givesUp p = true ∧ 0 < s.room ∧ s.room < rest.length

def Complete (s : State P) (a : Act P) : Prop :=
  ∀ p rest, a = .run p → s.pc p = .write rest → ¬s.CutShort p rest

def Reading (s : State P) (p : P) : Prop :=
  ∃ n, s.pc p = .readSleep n

def Writing (s : State P) (p : P) : Prop :=
  ∃ rest, s.pc p = .writeSleep rest

structure Awake (s : State P) : Prop where
  readers : ∀ p, s.Reading p → s.empty = true ∧ s.writeopen = true
  writers : ∀ p, s.Writing p → s.full = true ∧ s.readopen = true

theorem not_reading_wakeup (s : State P) (p : P) : ¬(s.wakeup .nread).Reading p := by
  rintro ⟨n, hn⟩
  change (s.pc p).wakeup .nread = _ at hn
  cases hpc : s.pc p <;> rw [hpc] at hn <;> cases hn

theorem not_writing_wakeup (s : State P) (p : P) : ¬(s.wakeup .nwrite).Writing p := by
  rintro ⟨rest, hrest⟩
  change (s.pc p).wakeup .nwrite = _ at hrest
  cases hpc : s.pc p <;> rw [hpc] at hrest <;> cases hrest

theorem reading_of_wakeup {c : Chan} (h : (s.wakeup c).Reading p) : s.Reading p := by
  rcases h with ⟨n, hn⟩
  change (s.pc p).wakeup c = _ at hn
  cases hpc : s.pc p with
  | readSleep m => exact ⟨m, hpc⟩
  | writeSleep rest =>
    rw [hpc] at hn
    unfold Pc.wakeup at hn
    dsimp only at hn
    split at hn <;> cases hn
  | _ =>
    rw [hpc] at hn
    cases hn

theorem writing_of_wakeup {c : Chan} (h : (s.wakeup c).Writing p) : s.Writing p := by
  rcases h with ⟨rest, hrest⟩
  change (s.pc p).wakeup c = _ at hrest
  cases hpc : s.pc p with
  | writeSleep rest' => exact ⟨rest', hpc⟩
  | readSleep n =>
    rw [hpc] at hrest
    unfold Pc.wakeup at hrest
    dsimp only at hrest
    split at hrest <;> cases hrest
  | _ =>
    rw [hpc] at hrest
    cases hrest

theorem Stream.full_iff_room (h : s.Stream) : s.full = true ↔ s.room = 0 := by
  have hle := h.le
  have hsize := h.le_size
  rw [h.full_iff]
  unfold room
  rw [h.toNat_sub]
  omega

theorem Stream.room_store (h : s.Stream) (hfull : s.full = false) (b : UInt8)
    : (s.store b).room + 1 = s.room := by
  have hlen : (s.store b).written.length = s.written.length + 1 := List.length_append
  have hdelivered : (s.store b).delivered = s.delivered := rfl
  have hle := h.le
  have hroom : s.room ≠ 0 := by
    intro hzero
    rw [h.full_iff_room.mpr hzero] at hfull
    cases hfull
  unfold room at hroom ⊢
  rw [(h.store hfull b).toNat_sub, hlen, hdelivered]
  rw [h.toNat_sub] at hroom ⊢
  omega

theorem not_empty_and_full : ¬(s.empty = true ∧ s.full = true) := by
  unfold empty full
  rw [decide_eq_true_iff, decide_eq_true_iff]
  rintro ⟨hempty, hfull⟩
  rw [← hempty, ← UInt32.toNat_inj, UInt32.toNat_add, UInt32.toNat_ofNat'] at hfull
  have hlt := s.nread.toNat_lt
  have hpipe : PIPESIZE = 512 := rfl
  omega

theorem copy_eq (s : State P) (n : Nat)
    : (s.copy n).pc = s.pc ∧ (s.copy n).writeopen = s.writeopen := by
  induction n generalizing s with
  | zero => exact ⟨rfl, rfl⟩
  | succ n ih =>
    unfold State.copy
    split
    . exact ⟨rfl, rfl⟩
    . exact ih s.fetch

theorem awake_init (data : Bytes PIPESIZE) : (init data : State P).Awake := by
  constructor
  . rintro p ⟨n, hn⟩
    cases hn
  . rintro p ⟨rest, hrest⟩
    cases hrest

theorem Awake.pipeclose (h : s.Awake) (writable : Bool) : (s.pipeclose writable).Awake := by
  unfold State.pipeclose
  split
  . constructor
    . intro q hq
      exact absurd hq (not_reading_wakeup _ q)
    . intro q hq
      exact h.writers q (writing_of_wakeup hq)
  . constructor
    . intro q hq
      exact h.readers q (reading_of_wakeup hq)
    . intro q hq
      exact absurd hq (not_writing_wakeup _ q)

section
variable [DecidableEq P]

theorem reading_of_setPc {q : P} {pc : Pc} (hpc : ∀ n, pc ≠ .readSleep n) (h : (s.setPc p pc).Reading q)
    : s.Reading q := by
  rcases h with ⟨n, hn⟩
  change Function.update s.pc p pc q = _ at hn
  by_cases hq : q = p
  . rw [hq, Function.update_self] at hn
    exact absurd hn (hpc n)
  . rw [Function.update_of_ne hq] at hn
    exact ⟨n, hn⟩

theorem writing_of_setPc {q : P} {pc : Pc} (hpc : ∀ rest, pc ≠ .writeSleep rest) (h : (s.setPc p pc).Writing q)
    : s.Writing q := by
  rcases h with ⟨rest, hrest⟩
  change Function.update s.pc p pc q = _ at hrest
  by_cases hq : q = p
  . rw [hq, Function.update_self] at hrest
    exact absurd hrest (hpc rest)
  . rw [Function.update_of_ne hq] at hrest
    exact ⟨rest, hrest⟩

theorem Awake.setPc {pc : Pc} (h : s.Awake) (hread : ∀ n, pc ≠ .readSleep n)
    (hwrite : ∀ rest, pc ≠ .writeSleep rest)
    : (s.setPc p pc).Awake where
  readers := by
    intro q hq
    exact h.readers q (reading_of_setPc hread hq)
  writers := by
    intro q hq
    exact h.writers q (writing_of_setPc hwrite hq)

theorem writers_pipewrite (rest : List UInt8) (h : ∀ q, s.Writing q → s.full = true ∧ s.readopen = true) {q : P}
    (hq : (s.pipewrite p rest).Writing q)
    : (s.pipewrite p rest).full = true ∧ (s.pipewrite p rest).readopen = true := by
  induction rest generalizing s with
  | nil =>
    unfold State.pipewrite at hq ⊢
    exact h q (writing_of_wakeup (writing_of_setPc (by simp) hq))
  | cons b rest ih =>
    unfold State.pipewrite at hq ⊢
    split at hq
    . next hfull =>
      rw [if_pos hfull]
      split at hq
      . next hgives =>
        rw [if_pos hgives]
        exact h q (writing_of_setPc (by simp) hq)
      . next hgives =>
        rw [if_neg hgives]
        refine ⟨hfull, ?_⟩
        cases hopen : s.readopen with
        | true => exact hopen
        | false =>
          exfalso
          apply hgives
          left
          rw [hopen]
          decide
    . next hfull =>
      rw [if_neg hfull]
      apply ih _ hq
      intro r hr
      exact absurd (h r hr).1 hfull

theorem not_reading_pipewrite (rest : List UInt8) (hstream : s.Stream)
    (h : s.givesUp p = false ∨ rest.length ≤ s.room) (q : P)
    : ¬(s.pipewrite p rest).Reading q := by
  induction rest generalizing s with
  | nil =>
    unfold State.pipewrite
    intro hq
    exact not_reading_wakeup s q (reading_of_setPc (by simp) hq)
  | cons b rest ih =>
    unfold State.pipewrite
    split
    . next hfull =>
      have hgives : ¬(¬s.readopen = true ∨ s.killed p = true) := by
        rcases h with h | h
        . unfold givesUp at h
          rw [Bool.or_eq_false_iff, Bool.not_eq_false'] at h
          rw [h.1, h.2]
          decide
        . rw [hstream.full_iff_room.mp hfull] at h
          cases h
      rw [if_neg hgives]
      intro hq
      exact not_reading_wakeup s q (reading_of_setPc (by simp) hq)
    . next hfull =>
      have hfull : s.full = false := Bool.eq_false_iff.mpr hfull
      apply ih (hstream.store hfull b)
      rcases h with h | h
      . exact .inl h
      . right
        have hroom := hstream.room_store hfull b
        rw [List.length_cons] at h
        omega

theorem Awake.pipewrite (h : s.Awake) (hstream : s.Stream) {rest : List UInt8} (hcomplete : ¬s.CutShort p rest)
    : (s.pipewrite p rest).Awake where
  writers := by
    intro q hq
    exact writers_pipewrite rest h.writers hq
  readers := by
    intro q hq
    by_cases hwakes : s.givesUp p = false ∨ rest.length ≤ s.room
    . exact absurd hq (not_reading_pipewrite rest hstream hwakes q)
    -- it gives up at once
    rw [not_or, Nat.not_le, Bool.not_eq_false] at hwakes
    have hroom : s.room = 0 := by
      by_contra hroom
      exact hcomplete ⟨hwakes.1, Nat.pos_of_ne_zero hroom, hwakes.2⟩
    have hfull := hstream.full_iff_room.mpr hroom
    cases rest with
    | nil => cases hwakes.2
    | cons b rest =>
      have hgives : ¬s.readopen = true ∨ s.killed p = true := by
        have hgives := hwakes.1
        unfold givesUp at hgives
        rw [Bool.or_eq_true, Bool.not_eq_true'] at hgives
        rw [Bool.not_eq_true]
        exact hgives
      unfold State.pipewrite at hq ⊢
      rw [if_pos hfull, if_pos hgives] at hq ⊢
      exact h.readers q (reading_of_setPc (by simp) hq)

theorem Awake.piperead (h : s.Awake) (n : Nat) : (s.piperead p n).Awake := by
  unfold State.piperead
  split
  . next hempty =>
    split
    . exact h.setPc (by simp) (by simp)
    constructor
    . intro q _
      exact hempty
    . intro q hq
      exact h.writers q (writing_of_setPc (by simp) hq)
  . next hempty =>
    have hcopy := copy_eq s n
    constructor
    . -- a reader that was asleep would have found the pipe empty
      intro q hq
      rcases reading_of_wakeup (reading_of_setPc (by simp) hq) with ⟨m, hm⟩
      rw [hcopy.1] at hm
      exact absurd (h.readers q ⟨m, hm⟩) hempty
    . intro q hq
      exact absurd (writing_of_setPc (by simp) hq) (not_writing_wakeup _ q)

theorem Awake.kill (h : s.Awake) (p : P) : (s.kill p).Awake := by
  have hpc : (∀ n, ((s.pc p).wakeup .nread).wakeup .nwrite ≠ .readSleep n)
      ∧ ∀ rest, ((s.pc p).wakeup .nread).wakeup .nwrite ≠ .writeSleep rest := by
    constructor <;> intro x hx <;> cases hs : s.pc p <;> rw [hs] at hx <;> cases hx
  constructor
  . intro q hq
    exact h.readers q (reading_of_setPc (s := { s with killed := _ }) hpc.1 hq)
  . intro q hq
    exact h.writers q (writing_of_setPc (s := { s with killed := _ }) hpc.2 hq)

theorem Awake.step {a : Act P} {s' : State P} (h : s.Awake) (hstream : s.Stream)
    (hcomplete : s.Complete a) (hstep : s.Steps a s')
    : s'.Awake := by
  unfold Steps State.step at hstep
  split at hstep
  . cases hstep
  split at hstep
  . split at hstep
    . cases hstep
      exact h.setPc (by simp) (by simp)
    . cases hstep
  . split at hstep
    . cases hstep
      exact h.setPc (by simp) (by simp)
    . cases hstep
  . split at hstep
    . next rest hpc =>
      cases hstep
      exact h.pipewrite hstream (hcomplete _ rest rfl hpc)
    . cases hstep
      exact h.piperead _
    . cases hstep
  . cases hstep
    exact h.pipeclose _
  . cases hstep
    exact h.kill _

def CompleteSteps (s : State P) (a : Act P) (s' : State P) : Prop :=
  s.Complete a ∧ s.Steps a s'

/--
As long as no `pipewrite` stores bytes and then gives up: a reader that sleeps has nothing to read while
the write end is open, a writer that sleeps has no room while the read end is open, and the two never
sleep at the same time.
-/
theorem sleepers_have_no_work {data : Bytes PIPESIZE} (h : Reach.Reachable (init data) CompleteSteps s)
    : (∀ p, s.Reading p → s.empty = true ∧ s.writeopen = true)
      ∧ (∀ p, s.Writing p → s.full = true ∧ s.readopen = true) ∧ ¬∃ p q, s.Reading p ∧ s.Writing q := by
  have hawake : s.Awake := by
    have hboth : s.Stream ∧ s.Awake := by
      apply Reach.Reachable.induct (fun s => s.Stream ∧ s.Awake) _ _ h
      . exact ⟨stream_init data, awake_init data⟩
      . rintro s a s' - ⟨hstream, hawake⟩ ⟨hcomplete, hstep⟩
        exact ⟨hstream.step hstep, hawake.step hstream hcomplete hstep⟩
    exact hboth.2
  refine ⟨hawake.readers, hawake.writers, ?_⟩
  rintro ⟨p, q, hp, hq⟩
  exact not_empty_and_full ⟨(hawake.readers p hp).1, (hawake.writers q hq).1⟩

end

theorem sleepers_have_no_work_of_reader
    : ∃ s : State Bool, Reach.Reachable (init (fun _ => 0)) CompleteSteps s
      ∧ s.Reading false ∧ s.empty = true ∧ s.writeopen = true := by
  have hreach : Reach.Reachable (init (fun _ => 0)) CompleteSteps
      (((init (fun _ => 0) : State Bool).setPc false (.read 1)).piperead false 1) := by
    refine .tail (a := .run false) (.tail (a := .piperead false 1) .refl ⟨?_, rfl⟩) ⟨?_, rfl⟩
    . intro p rest ha
      cases ha
    . intro p rest ha hpc
      cases ha
      cases hpc
  have hreading : (((init (fun _ => 0) : State Bool).setPc false (.read 1)).piperead false 1).Reading
      false := ⟨1, rfl⟩
  exact ⟨_, hreach, hreading, (sleepers_have_no_work hreach).1 false hreading⟩

/--
A reader sleeps on the empty pipe. A writer of one byte more than the pipe can hold is killed: it fills
the pipe and gives up, and the reader sleeps on.
-/
theorem reader_asleep_on_full_pipe
    : ∃ s : State Bool, Reach.Reachable (init (fun _ => 0)) Steps s
      ∧ s.Reading false ∧ s.full = true ∧ s.empty = false := by
  rcases Reach.exists_of_exec (b := (init (fun _ => 0) : State Bool)) (f := step)
      (fun _ _ _ h => h)
      [.piperead false 1, .run false, .pipewrite true (List.replicate (PIPESIZE + 1) 7), .kill true,
        .run true]
      (P := fun s => s.pc false = .readSleep 1 ∧ s.full = true ∧ s.empty = false) (by decide +kernel)
    with ⟨s, hs, hp⟩
  rw [decide_eq_true_iff] at hp
  exact ⟨s, hs, ⟨1, hp.1⟩, hp.2⟩

end State
end Xv6.Pipe
