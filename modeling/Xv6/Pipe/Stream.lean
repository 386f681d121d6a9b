import Xv6.Pipe.Impl

namespace Xv6.Pipe
namespace State

variable {P : Type} {s : State P}

def buffered (s : State P) : List UInt8 :=
  (List.range (s.nwrite - s.nread).toNat).map fun j =>
    s.data.get ((s.nread.toNat + j) % PIPESIZE)

structure Stream (s : State P) : Prop where
  nread : s.nread = UInt32.ofNat s.delivered.length
  nwrite : s.nwrite = UInt32.ofNat s.written.length
  le : s.delivered.length ≤ s.written.length
  le_size : s.written.length ≤ s.delivered.length + PIPESIZE
  delivered : s.delivered = s.written.take s.delivered.length
  data : ∀ m, s.delivered.length ≤ m → m < s.written.length →
    s.written[m]? = some (s.data.get (m % PIPESIZE))

theorem mod_ne_of_lt {m k : Nat} (hlt : m < k) (hk : k < m + PIPESIZE) : m % PIPESIZE ≠ k % PIPESIZE := by
  unfold PIPESIZE at hk ⊢
  omega

theorem toNat_ofNat_mod (k : Nat) : (UInt32.ofNat k).toNat % PIPESIZE = k % PIPESIZE := by
  rw [UInt32.toNat_ofNat', Nat.mod_mod_of_dvd]
  decide

namespace Stream

section
variable (h : s.Stream)
include h

theorem empty_iff : s.empty = true ↔ s.written.length = s.delivered.length := by
  have hle := h.le
  have hsize := h.le_size
  have hpipe : PIPESIZE = 512 := rfl
  unfold State.empty
  rw [decide_eq_true_iff, h.nread, h.nwrite, ← UInt32.toNat_inj, UInt32.toNat_ofNat',
    UInt32.toNat_ofNat']
  omega

theorem full_iff
    : s.full = true ↔ s.written.length = s.delivered.length + PIPESIZE := by
  have hle := h.le
  have hsize := h.le_size
  have hpipe : PIPESIZE = 512 := rfl
  unfold State.full
  rw [decide_eq_true_iff, h.nread, h.nwrite, ← UInt32.toNat_inj, UInt32.toNat_add,
    UInt32.toNat_ofNat', UInt32.toNat_ofNat', UInt32.toNat_ofNat']
  omega

theorem store (hfull : s.full = false) (b : UInt8) : (s.store b).Stream := by
  have hlt : s.written.length < s.delivered.length + PIPESIZE := by
    apply Nat.lt_of_le_of_ne h.le_size
    intro heq
    rw [h.full_iff.mpr heq] at hfull
    cases hfull
  have hwritten : (s.store b).written.length = s.written.length + 1 := List.length_append
  have hdata : (s.store b).data = s.data.set (s.written.length % PIPESIZE) b := by
    unfold State.store
    rw [h.nwrite, toNat_ofNat_mod]
  constructor
  . exact h.nread
  . rw [hwritten, UInt32.ofNat_add]
    change s.nwrite + 1 = _
    rw [h.nwrite]
    rfl
  . rw [hwritten]
    exact Nat.le_succ_of_le h.le
  . rw [hwritten]
    exact hlt
  . change s.delivered = (s.written ++ [b]).take s.delivered.length
    rw [List.take_append_of_le_length h.le]
    exact h.delivered
  . intro m hm hm'
    rw [hwritten] at hm'
    rw [hdata]
    change (s.written ++ [b])[m]? = _
    by_cases hlast : m = s.written.length
    . rw [hlast, List.getElem?_concat_length, Bytes.get_set_self _ (Nat.mod_lt _ (by decide))]
    have hm'' : m < s.written.length := by omega
    have hle : s.delivered.length ≤ m := hm
    have hne : m % PIPESIZE ≠ s.written.length % PIPESIZE := mod_ne_of_lt hm'' (by omega)
    rw [List.getElem?_append_left hm'', Bytes.get_set_of_ne _ hne]
    exact h.data m hm hm''

theorem fetch (hempty : s.empty = false) : s.fetch.Stream := by
  have hlt : s.delivered.length < s.written.length := by
    apply Nat.lt_of_le_of_ne h.le
    intro heq
    rw [h.empty_iff.mpr heq.symm] at hempty
    cases hempty
  have hdelivered : s.fetch.delivered.length = s.delivered.length + 1 := List.length_append
  have hbyte : s.written[s.delivered.length]? = some (s.data.get (s.nread.toNat % PIPESIZE)) := by
    rw [h.nread, toNat_ofNat_mod]
    exact h.data _ (Nat.le_refl _) hlt
  constructor
  . rw [hdelivered, UInt32.ofNat_add]
    change s.nread + 1 = _
    rw [h.nread]
    rfl
  . exact h.nwrite
  . rw [hdelivered]
    exact hlt
  . rw [hdelivered]
    exact Nat.le_trans h.le_size (by omega)
  . rw [hdelivered]
    change s.delivered ++ [_] = s.written.take (s.delivered.length + 1)
    rw [List.take_add_one, hbyte, ← h.delivered]
    rfl
  . intro m hm hm'
    rw [hdelivered] at hm
    exact h.data m (Nat.le_of_succ_le hm) hm'

theorem copy (n : Nat) : (s.copy n).Stream := by
  induction n generalizing s with
  | zero => exact h
  | succ n ih =>
    unfold State.copy
    split
    . exact h
    . next hempty => exact ih (h.fetch (Bool.eq_false_iff.mpr hempty))

theorem toNat_sub
    : (s.nwrite - s.nread).toNat = s.written.length - s.delivered.length := by
  have hle := h.le
  have hsize := h.le_size
  have hpipe : PIPESIZE = 512 := rfl
  rw [h.nwrite, h.nread, UInt32.toNat_sub, UInt32.toNat_ofNat', UInt32.toNat_ofNat']
  omega

theorem buffered
    : (s.nwrite - s.nread).toNat ≤ PIPESIZE ∧ s.delivered ++ s.buffered = s.written := by
  have hle := h.le
  have hsize := h.le_size
  have hlen := h.toNat_sub
  refine ⟨by omega, ?_⟩
  have hdrop : s.buffered = s.written.drop s.delivered.length := by
    apply List.ext_getElem?
    intro j
    unfold State.buffered
    rw [hlen, List.getElem?_drop]
    by_cases hj : j < s.written.length - s.delivered.length
    . rw [List.getElem?_map, List.getElem?_range hj, Option.map_some,
        h.data (s.delivered.length + j) (Nat.le_add_right ..) (by omega)]
      congr 2
      rw [h.nread, Nat.add_mod, toNat_ofNat_mod, ← Nat.add_mod]
    . rw [List.getElem?_eq_none, List.getElem?_eq_none]
      . omega
      . rw [List.length_map, List.length_range]
        omega
  rw [hdrop, h.delivered, List.length_take, Nat.min_eq_left hle]
  exact List.take_append_drop ..

theorem of_pc {s' : State P} (hs : s' = { s with pc := s'.pc }) : s'.Stream := by
  rw [hs]
  exact ⟨h.nread, h.nwrite, h.le, h.le_size, h.delivered, h.data⟩

end

section
variable [DecidableEq P]

theorem pipewrite (h : s.Stream) (p : P) (rest : List UInt8) : (s.pipewrite p rest).Stream := by
  induction rest generalizing s with
  | nil => exact h.of_pc rfl
  | cons b rest ih =>
    unfold State.pipewrite
    split
    . split
      . exact h.of_pc rfl
      . exact h.of_pc rfl
    . next hfull => exact ih (h.store (Bool.eq_false_iff.mpr hfull) b)

theorem piperead (h : s.Stream) (p : P) (n : Nat) : (s.piperead p n).Stream := by
  unfold State.piperead
  split
  . split
    . exact h.of_pc rfl
    . exact h.of_pc rfl
  . exact (h.copy n).of_pc rfl

theorem step {a : Act P} {s' : State P} (h : s.Stream) (hstep : s.Steps a s') : s'.Stream := by
  unfold Steps State.step at hstep
  split at hstep
  . cases hstep
  split at hstep
  . split at hstep
    . cases hstep
      exact h.of_pc rfl
    . cases hstep
  . split at hstep
    . cases hstep
      exact h.of_pc rfl
    . cases hstep
  . split at hstep
    . cases hstep
      apply h.pipewrite
    . cases hstep
      apply h.piperead
    . cases hstep
  . cases hstep
    unfold State.pipeclose
    split
    . exact ⟨h.nread, h.nwrite, h.le, h.le_size, h.delivered, h.data⟩
    . exact ⟨h.nread, h.nwrite, h.le, h.le_size, h.delivered, h.data⟩
  . cases hstep
    exact ⟨h.nread, h.nwrite, h.le, h.le_size, h.delivered, h.data⟩

end
end Stream

theorem stream_init (data : Bytes PIPESIZE) : (init data : State P).Stream where
  nread := rfl
  nwrite := rfl
  le := Nat.le_refl _
  le_size := Nat.zero_le _
  delivered := rfl
  data := by
    intro m _ hm
    cases hm

variable [DecidableEq P]

theorem stream_of_reachable {data : Bytes PIPESIZE} (h : Reach.Reachable (init data) Steps s)
    : s.Stream := by
  apply Reach.Reachable.induct Stream (stream_init data) _ h
  intro s a s' _ hs hstep
  exact hs.step hstep

/--
At any time the pipe holds at most `PIPESIZE` bytes, and the bytes read so far followed by those in the
buffer are the bytes written so far.
-/
theorem pipe_is_fifo {data : Bytes PIPESIZE} (h : Reach.Reachable (init data) Steps s)
    : (s.nwrite - s.nread).toNat ≤ PIPESIZE ∧ s.delivered ++ s.buffered = s.written :=
  (stream_of_reachable h).buffered

theorem pipe_is_fifo_of_reader
    : ∃ s : State Bool, Reach.Reachable (init .zero) Steps s ∧ s.delivered = [1, 2]
      ∧ s.written = [1, 2, 3] ∧ s.delivered ++ s.buffered = s.written := by
  rcases Reach.exists_of_exec (b := (init .zero : State Bool)) (f := step)
      (fun _ _ _ h => h)
      [.piperead false 2, .run false, .pipewrite true [1, 2, 3], .run true, .run false]
      (P := fun s => s.delivered = [1, 2] ∧ s.written = [1, 2, 3]) (by decide +kernel)
    with ⟨s, hs, hp⟩
  rw [decide_eq_true_iff] at hp
  exact ⟨s, hs, hp.1, hp.2, (pipe_is_fifo hs).2⟩

end State
end Xv6.Pipe
