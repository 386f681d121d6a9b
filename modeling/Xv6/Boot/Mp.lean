import Mathlib.Data.List.Basic
import Mathlib.Data.Nat.Bitwise
import Xv6.Lib.Outcome

namespace Xv6
namespace Boot

inductive Halt
  | expectSmp
  | unsuitable
  | running
  deriving DecidableEq, Repr

abbrev NCPU : Nat := 8

abbrev Memory : Type := Nat → UInt8

def sum (mem : Memory) (addr len : Nat) : UInt8 :=
  UInt8.ofNat ((List.range len).map fun i => (mem (addr + i)).toNat).sum

def number (mem : Memory) (addr k : Nat) : Nat :=
  match k with
  | 0 => 0
  | k + 1 => (mem addr).toNat + 256 * number mem (addr + 1) k

def hasSignature (mem : Memory) (addr : Nat) (sig : List UInt8) : Bool :=
  (List.range sig.length).map (fun i => mem (addr + i)) = sig

abbrev MPSIZE : Nat := 16

abbrev MPCONFSIZE : Nat := 44

def mpsearch1 (mem : Memory) (a len : Nat) : Option Nat :=
  ((List.range (len / MPSIZE)).map fun k => a + MPSIZE * k).find? fun p =>
    -- "_MP_"
    hasSignature mem p [95, 77, 80, 95] ∧ sum mem p MPSIZE = 0

def mpsearch (mem : Memory) : Option Nat :=
  let p := number mem 0x40E 2 * 16
  let first :=
    if p ≠ 0 then
      mpsearch1 mem p 1024
    else
      mpsearch1 mem ((number mem 0x413 2 * 1024 + 2 ^ 32 - 1024) % 2 ^ 32) 1024
  match first with
  | some mp => some mp
  | none => mpsearch1 mem 0xF0000 0x10000

def mpconfig (mem : Memory) : Option (Nat × Nat) :=
  match mpsearch mem with
  | none => none
  | some mp =>
    let conf := number mem (mp + 4) 4
    if conf = 0 then
      none
    -- "PCMP"
    else if ¬hasSignature mem conf [80, 67, 77, 80] then
      none
    else if mem (conf + 6) ≠ 1 ∧ mem (conf + 6) ≠ 4 then
      none
    else if sum mem conf (number mem (conf + 4) 2) ≠ 0 then
      none
    else
      some (mp, conf)

inductive Entry
  | proc
  | bus
  | ioapic
  | iointr
  | lintr
  deriving DecidableEq, Repr

def Entry.ofByte (b : UInt8) : Option Entry :=
  if b = 0 then some .proc
  else if b = 1 then some .bus
  else if b = 2 then some .ioapic
  else if b = 3 then some .iointr
  else if b = 4 then some .lintr
  else none

def Entry.size (t : Entry) : Nat :=
  match t with
  | .proc => 20
  | .bus | .ioapic | .iointr | .lintr => 8

structure State where
  p : Nat
  ismp : Bool
  cpus : List UInt8
  ioapicid : UInt8
  deriving DecidableEq, Repr

def mpinitBody (mem : Memory) (e : Nat) (s : State) : Except Halt (State ⊕ State) :=
  if s.p < e then
    match Entry.ofByte (mem s.p) with
    | some .proc =>
      let cpus := if s.cpus.length < NCPU then s.cpus ++ [mem (s.p + 1)] else s.cpus
      return .inl { s with cpus, p := s.p + Entry.size .proc }
    | some .ioapic => return .inl { s with ioapicid := mem (s.p + 1), p := s.p + Entry.size .ioapic }
    | some t => return .inl { s with p := s.p + t.size }
    | none => return .inl { s with ismp := false }
  else
    return .inr s

def tableEnd (mem : Memory) (conf : Nat) : Nat :=
  conf + number mem (conf + 4) 2

def mpinit (fuel : Nat) (mem : Memory) : Except Halt State :=
  match mpconfig mem with
  | none => .error .expectSmp
  | some (_, conf) => do
    let s ← Outcome.loop .running (mpinitBody mem (tableEnd mem conf)) fuel ⟨conf + MPCONFSIZE, true, [], 0⟩
    if s.ismp then
      return s
    else
      .error .unsuitable

theorem Entry.size_pos (t : Entry) : 0 < t.size := by
  cases t <;> decide

def entries (mem : Memory) (e p : Nat) : List Nat :=
  if _h : p < e then
    match Entry.ofByte (mem p) with
    | none => []
    | some t => p :: entries mem e (p + t.size)
  else
    []
termination_by e - p
decreasing_by
  have hpos := t.size_pos
  omega

def meetsUnknown (mem : Memory) (e p : Nat) : Bool :=
  if _h : p < e then
    match Entry.ofByte (mem p) with
    | none => true
    | some t => meetsUnknown mem e (p + t.size)
  else
    false
termination_by e - p
decreasing_by
  have hpos := t.size_pos
  omega

def procs (mem : Memory) (l : List Nat) : List UInt8 :=
  (l.filter fun p => Entry.ofByte (mem p) = some .proc).map fun p => mem (p + 1)

variable {mem : Memory} {e p fuel : Nat} {s : State}

theorem entries_of_known {t : Entry} (hp : p < e) (ht : Entry.ofByte (mem p) = some t)
    : entries mem e p = p :: entries mem e (p + t.size) := by
  rw [entries, dif_pos hp, ht]

theorem meetsUnknown_of_known {t : Entry} (hp : p < e) (ht : Entry.ofByte (mem p) = some t)
    : meetsUnknown mem e p = meetsUnknown mem e (p + t.size) := by
  rw [meetsUnknown, dif_pos hp, ht]

theorem meetsUnknown_of_unknown (hp : p < e) (ht : Entry.ofByte (mem p) = none)
    : meetsUnknown mem e p = true := by
  rw [meetsUnknown, dif_pos hp, ht]

theorem procs_cons {t : Entry} (ht : Entry.ofByte (mem p) = some t) (l : List Nat)
    : procs mem (p :: l) = if t = .proc then mem (p + 1) :: procs mem l else procs mem l := by
  unfold procs
  rw [List.filter_cons, ht]
  by_cases hproc : t = .proc
  . rw [if_pos (by simpa using hproc), if_pos hproc, List.map_cons]
  . rw [if_neg (by simpa using hproc), if_neg hproc]

theorem mpinitBody_known {t : Entry} (hp : s.p < e) (ht : Entry.ofByte (mem s.p) = some t)
    : ∃ s', mpinitBody mem e s = .ok (.inl s') ∧ s'.p = s.p + t.size ∧ s'.ismp = s.ismp
      ∧ s'.cpus = if t = .proc ∧ s.cpus.length < NCPU then s.cpus ++ [mem (s.p + 1)] else s.cpus := by
  unfold mpinitBody
  rw [if_pos hp, ht]
  cases t with
  | proc =>
    refine ⟨_, rfl, rfl, rfl, ?_⟩
    simp
  | bus => exact ⟨_, rfl, rfl, rfl, rfl⟩
  | ioapic => exact ⟨_, rfl, rfl, rfl, rfl⟩
  | iointr => exact ⟨_, rfl, rfl, rfl, rfl⟩
  | lintr => exact ⟨_, rfl, rfl, rfl, rfl⟩

theorem take_record {cpus : List UInt8} (t : Entry) (hlen : cpus.length ≤ NCPU) (apicid : UInt8)
    (l : List UInt8)
    : ((if t = .proc ∧ cpus.length < NCPU then cpus ++ [apicid] else cpus) ++ l).take NCPU
      = (cpus ++ if t = .proc then apicid :: l else l).take NCPU := by
  by_cases ht : t = .proc
  . by_cases hroom : cpus.length < NCPU
    . rw [if_pos ⟨ht, hroom⟩, if_pos ht, List.append_assoc, List.singleton_append]
    . have hfull : cpus.length = NCPU := Nat.le_antisymm hlen (Nat.le_of_not_lt hroom)
      rw [if_neg (fun h => hroom h.2), List.take_left' hfull, List.take_left' hfull]
  . rw [if_neg (fun h => ht h.1), if_neg ht]

theorem loop_of_known (h : meetsUnknown mem e s.p = false) (hlen : s.cpus.length ≤ NCPU) (hfuel : e - s.p < fuel)
    : ∃ s', Outcome.loop .running (mpinitBody mem e) fuel s = .ok s' ∧ s'.ismp = s.ismp
      ∧ s'.cpus = (s.cpus ++ procs mem (entries mem e s.p)).take NCPU := by
  induction fuel generalizing s with
  | zero => omega
  | succ fuel ih =>
    unfold Outcome.loop
    by_cases hp : s.p < e
    . cases ht : Entry.ofByte (mem s.p) with
      | none =>
        rw [meetsUnknown_of_unknown hp ht] at h
        cases h
      | some t =>
        have hsize := t.size_pos
        rcases mpinitBody_known hp ht with ⟨s1, hbody, hp1, hismp1, hcpus1⟩
        have hlen1 : s1.cpus.length ≤ NCPU := by
          rw [hcpus1]
          split
          . next hroom =>
            rw [List.length_append]
            exact hroom.2
          . exact hlen
        rw [meetsUnknown_of_known hp ht, ← hp1] at h
        rcases ih h hlen1 (by omega) with ⟨s', hloop, hismp, hcpus⟩
        refine ⟨s', ?_, hismp.trans hismp1, ?_⟩
        . rw [hbody]
          exact hloop
        . rw [hcpus, hcpus1, hp1, entries_of_known hp ht, procs_cons ht]
          exact take_record t hlen _ _
    . refine ⟨s, ?_, rfl, ?_⟩
      . unfold mpinitBody
        rw [if_neg hp]
        rfl
      . unfold entries
        rw [dif_neg hp]
        unfold procs
        rw [List.filter_nil, List.map_nil, List.append_nil, List.take_of_length_le hlen]

theorem loop_of_unknown (h : meetsUnknown mem e s.p = true)
    : Outcome.loop .running (mpinitBody mem e) fuel s = .error .running := by
  induction fuel generalizing s with
  | zero => rfl
  | succ fuel ih =>
    by_cases hp : s.p < e
    . unfold Outcome.loop
      cases ht : Entry.ofByte (mem s.p) with
      | none =>
        have hbody : mpinitBody mem e s = .ok (.inl { s with ismp := false }) := by
          unfold mpinitBody
          rw [if_pos hp, ht]
          rfl
        rw [hbody]
        apply ih
        exact meetsUnknown_of_unknown hp ht
      | some t =>
        rcases mpinitBody_known hp ht with ⟨s1, hbody, hp1, -⟩
        rw [hbody]
        apply ih
        rw [hp1, ← meetsUnknown_of_known hp ht]
        exact h
    . rw [meetsUnknown, dif_neg hp] at h
      cases h

/--
If all entries of the table have known types, `mpinit` returns and has recorded the first `NCPU` of the
processors. Otherwise it never leaves its loop.
-/
theorem mpinit_ends (mem : Memory) (mp conf : Nat) (hconf : mpconfig mem = some (mp, conf))
    : (meetsUnknown mem (tableEnd mem conf) (conf + MPCONFSIZE) = false
        → ∀ fuel, tableEnd mem conf - (conf + MPCONFSIZE) < fuel → ∃ s, mpinit fuel mem = .ok s
          ∧ s.cpus = (procs mem (entries mem (tableEnd mem conf) (conf + MPCONFSIZE))).take NCPU
          ∧ s.cpus.length ≤ NCPU) ∧ (meetsUnknown mem (tableEnd mem conf) (conf + MPCONFSIZE) = true
        → ∀ fuel, mpinit fuel mem = .error .running) := by
  constructor
  . intro hknown fuel hfuel
    rcases loop_of_known (s := ⟨conf + MPCONFSIZE, true, [], 0⟩) hknown (Nat.zero_le _) hfuel
      with ⟨s, hloop, hismp, hcpus⟩
    refine ⟨s, ?_, hcpus, ?_⟩
    . unfold mpinit
      rw [hconf]
      dsimp only
      rw [hloop]
      simp only [bind, Except.bind]
      rw [if_pos hismp]
      rfl
    . rw [hcpus]
      exact List.length_take_le ..
  . intro hunknown fuel
    unfold mpinit
    rw [hconf]
    dsimp only
    rw [loop_of_unknown hunknown]
    rfl

def firmware (type apicid checksum length : UInt8) : Memory := fun a =>
  if a = 0x40F then 0x10
  else if 0x10000 ≤ a ∧ a < 0x10010 then
    [95, 77, 80, 95, 0, 0, 2, 0, 1, 4, 0x9E, 0, 0, 0, 0, 0].getD (a - 0x10000) 0
  else if 0x20000 ≤ a ∧ a < 0x20008 then
    [80, 67, 77, 80, length, 0, 4, checksum].getD (a - 0x20000) 0
  else if a = 0x2002C then type
  else if a = 0x2002D then apicid
  else 0

theorem mpinit_ends_of_proc : ∃ s, mpinit 100 (firmware 0 7 0x85 64) = .ok s ∧ s.cpus = [7] := by
  have hends := (mpinit_ends (firmware 0 7 0x85 64) 0x10000 0x20000 (by decide +kernel)).1
  rcases hends (by decide +kernel) 100 (by decide +kernel) with ⟨s, hinit, hcpus, -⟩
  exact ⟨s, hinit, hcpus.trans (by decide +kernel)⟩

/-- A table with an entry of type 9 passes all tests, and `mpinit` is in its loop forever. -/
theorem mpinit_never_ends
    : mpconfig (firmware 9 0 0x8F 52) = some (0x10000, 0x20000)
      ∧ ∀ fuel, mpinit fuel (firmware 9 0 0x8F 52) = .error .running := by
  have hconf : mpconfig (firmware 9 0 0x8F 52) = some (0x10000, 0x20000) := by decide +kernel
  refine ⟨hconf, ?_⟩
  intro fuel
  have hunknown : meetsUnknown (firmware 9 0 0x8F 52) 0x20034 0x2002C = true := by decide +kernel
  unfold mpinit
  rw [hconf]
  dsimp only
  rw [loop_of_unknown hunknown]
  rfl

end Boot
end Xv6
