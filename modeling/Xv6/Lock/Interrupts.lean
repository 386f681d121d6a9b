import Mathlib.Data.List.Basic
import Xv6.Lib.Guard
import Xv6.Lib.Outcome
import Xv6.Lib.Reach

/-!
`spinlock.c` with the flag for interrupts of each CPU, which `sched` and `scheduler` carry from
one process to another, and the proof that each process finds its interrupts as it left them.
-/

namespace Xv6
namespace Interrupts

open Outcome

inductive Panic
  | acquire
  | release
  | popcli
  | interruptible
  | sched

/-- Where a CPU is in `acquire` or `release`. `holding` reads `lk->locked` and, if that is set, `lk->cpu`. -/
inductive Pc (L : Type)
  | out
  | acquiring (l : L)
  | checking (l : L)
  | spinning (l : L)
  | taken (l : L)
  | releasing (l : L)
  | freeing (l : L)
  | clearing (l : L)
  | popping
  deriving DecidableEq, Repr

/-- `fl` is `FL_IF` in `eflags`, and `held` are the locks between `acquire` and `release`. -/
structure Cpu (L : Type) where
  fl : Bool
  ncli : Nat
  intena : Bool
  pc : Pc L
  held : List L

/-- A process that is not running has not run yet, or has called `swtch` in `sched`. -/
inductive Context
  | running
  | forkret
  | sched (intena : Bool)

/-- `proc c` is `none` in `scheduler`. -/
structure State (C L P : Type) where
  locked : L → Bool
  cpu : L → Option C
  on : C → Cpu L
  proc : C → Option P
  context : P → Context

/-- What a CPU does next. `sti` is also the end of a handler, and `running` is `p->state == RUNNING`. -/
inductive Act (C L P : Type)
  | acquire (c : C) (l : L)
  | release (c : C) (l : L)
  | next (c : C)
  | interrupt (c : C)
  | sti (c : C)
  | sched (c : C) (running : Bool)
  | swtch (c : C) (p : P)

variable {C L P : Type} [DecidableEq C] [DecidableEq L]

namespace Cpu

def pushcli (u : Cpu L) : Cpu L :=
  { u with fl := false, intena := if u.ncli = 0 then u.fl else u.intena, ncli := u.ncli + 1 }

def popcli (u : Cpu L) : Except Panic (Cpu L) :=
  if u.fl then
    .error .interruptible
  else if u.ncli = 0 then
    .error .popcli
  else
    .ok { u with fl := u.ncli = 1 && u.intena, ncli := u.ncli - 1 }

end Cpu

namespace State

def set (s : State C L P) (c : C) (u : Cpu L) : State C L P :=
  { s with on := Function.update s.on c u }

/-- The next instruction of `acquire` or `release`. -/
def next (s : State C L P) (c : C) : Option (Except Panic (State C L P)) :=
  let u := s.on c
  match u.pc with
  | .out => none
  | .acquiring l => some (.ok (s.set c { u with pc := if s.locked l then .checking l else .spinning l }))
  | .checking l =>
    if s.cpu l = some c then some (.error .acquire) else some (.ok (s.set c { u with pc := .spinning l }))
  | .spinning l =>
    if s.locked l then
      none
    else
      some (.ok { s.set c { u with pc := .taken l } with locked := Function.update s.locked l true })
  | .taken l =>
    some (.ok { s.set c { u with pc := .out, held := l :: u.held } with cpu := Function.update s.cpu l (some c) })
  | .releasing l =>
    if s.locked l then some (.ok (s.set c { u with pc := .freeing l })) else some (.error .release)
  | .freeing l =>
    if s.cpu l = some c then
      some (.ok { s.set c { u with pc := .clearing l, held := u.held.erase l } with
        cpu := Function.update s.cpu l none })
    else
      some (.error .release)
  | .clearing l =>
    some (.ok { s.set c { u with pc := .popping } with locked := Function.update s.locked l false })
  | .popping => some (u.popcli.map fun u => s.set c { u with pc := .out })

variable [DecidableEq P] in
def step (ptable : L) (s : State C L P) (a : Act C L P) : Option (Except Panic (State C L P)) :=
  match a with
  | .acquire c l =>
    if (s.on c).pc = .out then some (.ok (s.set c { (s.on c).pushcli with pc := .acquiring l })) else none
  | .release c l =>
    if (s.on c).pc = .out then some (.ok (s.set c { s.on c with pc := .releasing l })) else none
  | .next c => s.next c
  | .interrupt c => if (s.on c).fl then some (.ok (s.set c { s.on c with fl := false })) else none
  | .sti c =>
    if (s.on c).pc = .out ∧ (s.on c).ncli = 0 then some (.ok (s.set c { s.on c with fl := true })) else none
  | .sched c running =>
    match s.proc c with
    | none => none
    | some p =>
      if (s.on c).pc ≠ .out then
        none
      else if s.locked ptable = true ∧ s.cpu ptable = some c ∧ (s.on c).ncli = 1 ∧ running = false
          ∧ (s.on c).fl = false then
        some (.ok { s with
          proc := Function.update s.proc c none
          context := Function.update s.context p (.sched (s.on c).intena) })
      else
        some (.error .sched)
  | .swtch c p =>
    if s.proc c = none ∧ (s.on c).pc = .out ∧ (s.on c).held = [ptable] then
      let s' := { s with
        proc := Function.update s.proc c (some p)
        context := Function.update s.context p .running }
      match s.context p with
      | .running => none
      | .forkret => some (.ok s')
      | .sched intena => some (.ok (s'.set c { s.on c with intena := intena }))
    else
      none

def init : State C L P where
  locked _ := false
  cpu _ := none
  on _ := ⟨false, 0, false, .out, []⟩
  proc _ := none
  context _ := .forkret

end State

/-- The calls of `pushcli` that do not belong to a lock in `held`. -/
def Pc.depth (pc : Pc L) : Nat :=
  match pc with
  | .out | .releasing _ | .freeing _ => 0
  | _ => 1

def Pc.owns (pc : Pc L) (l : L) : Bool :=
  match pc with
  | .taken m | .clearing m => m = l
  | _ => false

/-- The CPU has set `locked` in the lock. -/
def Cpu.has (u : Cpu L) (l : L) : Bool :=
  l ∈ u.held || u.pc.owns l

structure Ok (cpu : L → Option C) (c : C) (u : Cpu L) : Prop where
  ncli : u.ncli = u.held.length + u.pc.depth
  fl : u.fl = true → u.ncli = 0
  nodup : u.held.Nodup
  cpu : ∀ l, l ∈ u.held ↔ cpu l = some c
  other : ∀ l, u.pc = .spinning l ∨ u.pc = .taken l ∨ u.pc = .clearing l → l ∉ u.held

structure Inv (s : State C L P) : Prop where
  ok : ∀ c, Ok s.cpu c (s.on c)
  guards : ∀ l, Guards (s.locked l) fun c => (s.on c).has l = true

variable {s s' : State C L P} {c d : C} {l ptable : L} {u : Cpu L}

theorem Cpu.has_of_mem (h : l ∈ u.held) : u.has l = true := by
  unfold has
  rw [decide_eq_true h, Bool.true_or]

/-- The rule for a step of one CPU. -/
theorem Inv.set (h : Inv s) {locked : L → Bool} {cpu : L → Option C} (hok : Ok cpu c u)
    (hcpu : ∀ m d, d ≠ c → (cpu m = some d ↔ s.cpu m = some d))
    (hmoves : ∀ m, Guards.Moves (s.locked m) (locked m) ((s.on c).has m) (u.has m))
    : Inv { s.set c u with locked := locked, cpu := cpu } := by
  refine ⟨?_, ?_⟩
  . intro d
    change Ok cpu d (Function.update s.on c u d)
    rw [Function.update_apply]
    split
    next hd =>
      rw [hd]
      exact hok
    next hd =>
      have hd' := h.ok d
      exact ⟨hd'.ncli, hd'.fl, hd'.nodup, fun m => (hd'.cpu m).trans (hcpu m d hd).symm, hd'.other⟩
  . intro m
    refine (h.guards m).step (p := c) ?_ ?_
    . intro d hd
      exact congrArg (Cpu.has · m) (Function.update_of_ne hd ..)
    . change Guards.Moves _ _ _ ((Function.update s.on c u c).has m)
      rw [Function.update_self]
      exact hmoves m

/-- The same when no lock changes. -/
theorem Inv.set_plain (h : Inv s) (hheld : u.held = (s.on c).held) (howns : u.pc.owns = (s.on c).pc.owns)
    (hncli : u.ncli = u.held.length + u.pc.depth) (hfl : u.fl = true → u.ncli = 0)
    (hother : ∀ l, u.pc = .spinning l ∨ u.pc = .taken l ∨ u.pc = .clearing l → l ∉ u.held)
    : Inv (s.set c u) := by
  refine h.set ⟨hncli, hfl, ?_, ?_, hother⟩ (fun _ _ _ => .rfl) ?_
  . rw [hheld]
    exact (h.ok c).nodup
  . rw [hheld]
    exact (h.ok c).cpu
  . intro m
    unfold Cpu.has
    rw [hheld, howns]
    exact .inl ⟨rfl, rfl⟩

/-- The interrupts of a process outside of all locks, as its CPU has them or will have them. -/
def Cpu.Shows (u : Cpu L) (b : Bool) : Prop :=
  if u.ncli = 0 then u.fl = b else u.intena = b

/-- The same for the process `p`, wherever it is. -/
structure Shows (p : P) (b : Bool) (s : State C L P) : Prop where
  on : ∀ c, s.proc c = some p → (s.on c).Shows b
  context : s.context p = .running ∨ s.context p = .sched b

/-- No interrupt of `p`, and `p` does not enable interrupts. -/
def Quiet (p : P) (s : State C L P) (a : Act C L P) : Prop :=
  ∀ c, a = .interrupt c ∨ a = .sti c → s.proc c ≠ some p

omit [DecidableEq L] in
theorem Shows.set {p : P} {b : Bool} {locked : L → Bool} {cpu : L → Option C} (h : Shows p b s)
    (hu : s.proc c = some p → (s.on c).Shows b → u.Shows b)
    : Shows p b { s.set c u with locked := locked, cpu := cpu } := by
  refine ⟨?_, h.context⟩
  intro d hd
  change (Function.update s.on c u d).Shows b
  rw [Function.update_apply]
  split
  next hdc =>
    rw [hdc] at hd
    exact hu hd (h.on c hd)
  next => exact h.on d hd

omit [DecidableEq L] in
theorem Cpu.pushcli_shows {b : Bool} (hb : u.Shows b) : u.pushcli.Shows b := by
  unfold Cpu.Shows at hb
  change (if u.ncli = 0 then u.fl else u.intena) = b
  split at hb
  next hzero => rw [if_pos hzero, hb]
  next hpos => rw [if_neg hpos, hb]

/-- Which panics there can be in the state `s`. -/
def Faulty (ptable : L) (s : State C L P) (a : Act C L P) (e : Panic) : Prop :=
  match e with
  | .acquire => ∃ c l, a = .next c ∧ (s.on c).pc = .checking l ∧ l ∈ (s.on c).held
  | .release => ∃ c l, a = .next c ∧ ((s.on c).pc = .releasing l ∨ (s.on c).pc = .freeing l) ∧ l ∉ (s.on c).held
  | .sched => ∃ c running, a = .sched c running ∧ ((s.on c).held ≠ [ptable] ∨ running = true)
  | .popcli | .interruptible => False

/-- A process runs on one CPU. -/
structure Procs (s : State C L P) : Prop where
  running : ∀ c p, s.proc c = some p → s.context p = .running
  one : ∀ c d p, s.proc c = some p → s.proc d = some p → c = d

structure Keeps (s : State C L P) (a : Act C L P) (s' : State C L P) : Prop where
  inv : Inv s'
  procs : Procs s → Procs s'
  shows : ∀ p b, Quiet p s a → Shows p b s → Shows p b s'

theorem Keeps.set {a : Act C L P} {locked : L → Bool} {cpu : L → Option C}
    (h : Inv { s.set c u with locked := locked, cpu := cpu }) (hu : ∀ b, (s.on c).Shows b → u.Shows b)
    : Keeps s a { s.set c u with locked := locked, cpu := cpu } :=
  ⟨h, fun hprocs => ⟨hprocs.running, hprocs.one⟩, fun _ b _ hb => hb.set fun _ => hu b⟩

omit [DecidableEq C] in
theorem Inv.has_of_free (h : Inv s) (hl : s.locked l = false) : (s.on c).has l = false := by
  have hguards := h.guards l
  rw [hl] at hguards
  exact Bool.eq_false_iff.mpr (hguards.not_has c)

omit [DecidableEq C] in
theorem Inv.not_mem_of_free (h : Inv s) (hl : s.locked l = false) : l ∉ (s.on c).held :=
  fun hmem => Bool.false_ne_true ((h.has_of_free hl).symm.trans (Cpu.has_of_mem hmem))

section next

variable (h : Inv s)
include h

theorem Inv.take (hpc : (s.on c).pc = .spinning l) (hl : s.locked l = false)
    : Inv { s.set c { s.on c with pc := .taken l } with locked := Function.update s.locked l true } := by
  have hok := h.ok c
  have hncli := hok.ncli
  rw [hpc] at hncli
  refine h.set ⟨hncli, hok.fl, hok.nodup, hok.cpu, ?_⟩ (fun _ _ _ => .rfl) ?_
  . rintro m (⟨⟨⟩⟩ | ⟨⟨⟩⟩ | ⟨⟨⟩⟩)
    exact h.not_mem_of_free hl
  . intro m
    by_cases hm : m = l
    . rw [hm, Function.update_self]
      exact .inr (.inl ⟨h.has_of_free hl, by simp [Cpu.has, Pc.owns], hl, rfl⟩)
    . rw [Function.update_of_ne hm]
      refine .inl ⟨?_, rfl⟩
      simp [Cpu.has, Pc.owns, hpc, Ne.symm hm]

theorem Inv.hold (hpc : (s.on c).pc = .taken l)
    : Inv { s.set c { s.on c with pc := .out, held := l :: (s.on c).held } with
        cpu := Function.update s.cpu l (some c) } := by
  have hok := h.ok c
  have hncli := hok.ncli
  rw [hpc] at hncli
  have hl : l ∉ (s.on c).held := hok.other l (.inr (.inl hpc))
  have hhas : (s.on c).has l = true := by simp [Cpu.has, Pc.owns, hpc]
  refine h.set ⟨hncli, hok.fl, List.nodup_cons.mpr ⟨hl, hok.nodup⟩, ?_, nofun⟩ ?_ ?_
  . intro m
    rw [Function.update_apply, List.mem_cons, hok.cpu]
    by_cases hm : m = l
    . simp [hm]
    . simp [hm]
  . intro m d hd
    rw [Function.update_apply]
    split
    next hm =>
      subst hm
      refine ⟨fun heq => absurd (Option.some.inj heq).symm hd, fun heq => absurd ?_ hd⟩
      exact (h.guards m).unique d c (Cpu.has_of_mem (((h.ok d).cpu m).mpr heq)) hhas
    next => rfl
  . intro m
    refine .inl ⟨?_, rfl⟩
    simp [Cpu.has, Pc.owns, hpc, Bool.or_comm, eq_comm]

theorem Inv.free (hpc : (s.on c).pc = .freeing l) (hcpu : s.cpu l = some c)
    : Inv { s.set c { s.on c with pc := .clearing l, held := (s.on c).held.erase l } with
        cpu := Function.update s.cpu l none } := by
  have hok := h.ok c
  have hncli := hok.ncli
  rw [hpc] at hncli
  have hl := (hok.cpu l).mpr hcpu
  have hlen := List.length_erase_of_mem hl
  have hpos := List.length_pos_of_mem hl
  refine h.set ⟨?_, hok.fl, hok.nodup.erase l, ?_, ?_⟩ ?_ ?_
  . change (s.on c).ncli = ((s.on c).held.erase l).length + 1
    change _ = (s.on c).held.length + 0 at hncli
    omega
  . intro m
    rw [Function.update_apply, hok.nodup.mem_erase_iff, hok.cpu]
    by_cases hm : m = l
    . simp [hm]
    . simp [hm]
  . rintro m (⟨⟨⟩⟩ | ⟨⟨⟩⟩ | ⟨⟨⟩⟩)
    exact hok.nodup.not_mem_erase
  . intro m d hd
    rw [Function.update_apply]
    split
    next hm =>
      rw [hm, hcpu]
      simp [hd.symm]
    next => rfl
  . intro m
    refine .inl ⟨?_, rfl⟩
    by_cases hm : m = l
    . simp [Cpu.has, Pc.owns, hm, hl]
    . simp [Cpu.has, Pc.owns, hpc, Ne.symm hm, List.mem_erase_of_ne hm]

theorem Inv.clear (hpc : (s.on c).pc = .clearing l)
    : Inv { s.set c { s.on c with pc := .popping } with locked := Function.update s.locked l false } := by
  have hok := h.ok c
  have hncli := hok.ncli
  rw [hpc] at hncli
  have hl := hok.other l (.inr (.inr hpc))
  refine h.set ⟨hncli, hok.fl, hok.nodup, hok.cpu, nofun⟩ (fun _ _ _ => .rfl) ?_
  intro m
  by_cases hm : m = l
  . rw [hm, Function.update_self]
    exact .inr (.inr ⟨by simp [Cpu.has, Pc.owns, hpc], by simp [Cpu.has, Pc.owns, hl], rfl⟩)
  . rw [Function.update_of_ne hm]
    refine .inl ⟨?_, rfl⟩
    simp [Cpu.has, Pc.owns, hpc, Ne.symm hm]

/-- The last `popcli` of a CPU brings back the interrupts, and none of them panics. -/
theorem popcli_sat {E : Panic → Prop} {a : Act C L P} (hpc : (s.on c).pc = .popping)
    : Sat E (fun u => Keeps s a (s.set c { u with pc := .out })) (s.on c).popcli := by
  have hncli := (h.ok c).ncli
  rw [hpc] at hncli
  have hpos : (s.on c).ncli ≠ 0 := by
    rw [hncli]
    exact Nat.succ_ne_zero _
  have hfl : ¬(s.on c).fl = true := fun hfl => hpos ((h.ok c).fl hfl)
  unfold Cpu.popcli
  rw [if_neg hfl, if_neg hpos]
  refine .set (h.set_plain rfl (by rw [hpc]; rfl) ?_ ?_ nofun) ?_
  . exact congrArg (· - 1) hncli
  . intro hone
    simp only [Bool.and_eq_true, decide_eq_true_eq] at hone
    exact congrArg (· - 1) hone.1
  . intro b hb
    unfold Cpu.Shows at hb ⊢
    rw [if_neg hpos] at hb
    dsimp only
    by_cases hone : (s.on c).ncli = 1
    . simp [hone, hb]
    . rw [if_neg (by omega)]
      exact hb

theorem next_sat {r : Except Panic (State C L P)} (hstep : s.next c = some r)
    : Sat (Faulty ptable s (.next c)) (Keeps s (.next c)) r := by
  have hok := h.ok c
  have hncli := hok.ncli
  unfold State.next at hstep
  dsimp only at hstep
  split at hstep
  next => cases hstep
  next l hpc =>
    rw [hpc] at hncli
    cases hstep
    cases hl : s.locked l with
    | true => exact .set (h.set_plain rfl (by rw [hpc]; rfl) hncli hok.fl nofun) fun _ => id
    | false =>
      refine .set (h.set_plain rfl (by rw [hpc]; rfl) hncli hok.fl ?_) fun _ => id
      rintro m (⟨⟨⟩⟩ | ⟨⟨⟩⟩ | ⟨⟨⟩⟩)
      exact h.not_mem_of_free hl
  next l hpc =>
    rw [hpc] at hncli
    split at hstep
    next hcpu =>
      cases hstep
      exact ⟨c, l, rfl, hpc, (hok.cpu l).mpr hcpu⟩
    next hcpu =>
      cases hstep
      refine .set (h.set_plain rfl (by rw [hpc]; rfl) hncli hok.fl ?_) fun _ => id
      rintro m (⟨⟨⟩⟩ | ⟨⟨⟩⟩ | ⟨⟨⟩⟩)
      exact mt (hok.cpu l).mp hcpu
  next l hpc =>
    obtain ⟨hl, ⟨⟩⟩ := Option.ite_none_left_eq_some.mp hstep
    exact .set (h.take hpc (Bool.eq_false_iff.mpr hl)) fun _ => id
  next l hpc =>
    cases hstep
    exact .set (h.hold hpc) fun _ => id
  next l hpc =>
    rw [hpc] at hncli
    split at hstep
    next hl =>
      cases hstep
      exact .set (h.set_plain rfl (by rw [hpc]; rfl) hncli hok.fl nofun) fun _ => id
    next hl =>
      cases hstep
      exact ⟨c, l, rfl, .inl hpc, fun hm => hl ((h.guards l).set_of_has (Cpu.has_of_mem hm))⟩
  next l hpc =>
    split at hstep
    next hcpu =>
      cases hstep
      exact .set (h.free hpc hcpu) fun _ => id
    next hcpu =>
      cases hstep
      exact ⟨c, l, rfl, .inr hpc, mt (hok.cpu l).mp hcpu⟩
  next l hpc =>
    cases hstep
    exact .set (h.clear hpc) fun _ => id
  next hpc =>
    cases hstep
    exact .map _ (popcli_sat h hpc)

end next

/-- Only the flags of the CPU change. -/
theorem Inv.set_flags (h : Inv s) {fl intena : Bool} (hfl : fl = true → (s.on c).ncli = 0)
    : Inv (s.set c { s.on c with fl := fl, intena := intena }) := by
  have hok := h.ok c
  exact h.set ⟨hok.ncli, hfl, hok.nodup, hok.cpu, hok.other⟩ (fun _ _ _ => .rfl) fun _ => .inl ⟨rfl, rfl⟩

variable [DecidableEq P]

section swtch

variable {p q : P} {b : Bool} {on : C → Cpu L} {v : Option P} {x : Context}

omit [DecidableEq L] in
/-- A context switch, after which the CPU runs `v`, and the process `q` is in `x`. -/
theorem Procs.swtch (h : Procs s) (hv : ∀ p, v = some p → p = q ∧ x = .running)
    (hq : ∀ d, d ≠ c → s.proc d ≠ some q)
    : Procs { s with on := on, proc := Function.update s.proc c v, context := Function.update s.context q x } := by
  refine ⟨?_, ?_⟩
  . intro d p (hd : Function.update s.proc c v d = some p)
    change Function.update s.context q x p = .running
    rw [Function.update_apply] at hd ⊢
    split at hd
    next => rw [if_pos (hv p hd).1, (hv p hd).2]
    next hdc =>
      rw [if_neg]
      . exact h.running d p hd
      . rintro rfl
        exact hq d hdc hd
  . intro d e p (hd : Function.update s.proc c v d = some p) (he : Function.update s.proc c v e = some p)
    rw [Function.update_apply] at hd he
    split at hd
    all_goals split at he
    next hdc hec => rw [hdc, hec]
    next hec => exact absurd ((hv p hd).1 ▸ he) (hq e hec)
    next hdc _ => exact absurd ((hv p he).1 ▸ hd) (hq d hdc)
    next => exact h.one d e p hd he

omit [DecidableEq L] in
theorem Shows.swtch (h : Shows p b s) (hon : ∀ d, d ≠ c → on d = s.on d) (hv : v = some p → (on c).Shows b)
    (hx : p = q → x = .running ∨ x = .sched b)
    : Shows p b { s with
        on := on, proc := Function.update s.proc c v, context := Function.update s.context q x } := by
  refine ⟨?_, ?_⟩
  . intro d (hd : Function.update s.proc c v d = some p)
    change (on d).Shows b
    rw [Function.update_apply] at hd
    split at hd
    next hdc =>
      rw [hdc]
      exact hv hd
    next hdc =>
      rw [hon d hdc]
      exact h.on d hd
  . change Function.update s.context q x p = _ ∨ Function.update s.context q x p = _
    rw [Function.update_apply]
    split
    next hpq => exact hx hpq
    next => exact h.context

end swtch

theorem step_sat (h : Inv s) {a : Act C L P} {r : Except Panic (State C L P)} (hstep : s.step ptable a = some r)
    : Sat (Faulty ptable s a) (Keeps s a) r := by
  unfold State.step at hstep
  cases a with
  | next c => exact next_sat h hstep
  | acquire c l =>
    obtain ⟨hpc, ⟨⟩⟩ := Option.ite_none_right_eq_some.mp hstep
    have hncli := (h.ok c).ncli
    rw [hpc] at hncli
    exact .set (h.set_plain rfl (by rw [hpc]; rfl) (congrArg (· + 1) hncli) nofun nofun) fun _ => Cpu.pushcli_shows
  | release c l =>
    obtain ⟨hpc, ⟨⟩⟩ := Option.ite_none_right_eq_some.mp hstep
    have hncli := (h.ok c).ncli
    rw [hpc] at hncli
    exact .set (h.set_plain rfl (by rw [hpc]; rfl) hncli (h.ok c).fl nofun) fun _ => id
  | interrupt c =>
    obtain ⟨-, ⟨⟩⟩ := Option.ite_none_right_eq_some.mp hstep
    exact ⟨h.set_flags nofun, fun hp => ⟨hp.running, hp.one⟩,
      fun p b hq hb => hb.set fun hp => absurd hp (hq c (.inl rfl))⟩
  | sti c =>
    obtain ⟨hzero, ⟨⟩⟩ := Option.ite_none_right_eq_some.mp hstep
    exact ⟨h.set_flags fun _ => hzero.2, fun hp => ⟨hp.running, hp.one⟩,
      fun p b hq hb => hb.set fun hp => absurd hp (hq c (.inr rfl))⟩
  | sched c running =>
    dsimp only at hstep
    split at hstep
    next => cases hstep
    next p hp =>
      obtain ⟨hpc, hstep⟩ := Option.ite_none_left_eq_some.mp hstep
      have hok := h.ok c
      have hncli := hok.ncli
      rw [not_not.mp hpc] at hncli
      split at hstep
      next hone =>
        cases hstep
        refine ⟨⟨h.ok, h.guards⟩, ?_, ?_⟩
        . intro hprocs
          exact hprocs.swtch nofun fun d hd hd' => hd (hprocs.one d c p hd' hp)
        . intro q b _ hb
          refine hb.swtch (fun _ _ => rfl) nofun ?_
          rintro rfl
          have hshows := hb.on c hp
          unfold Cpu.Shows at hshows
          rw [hone.2.2.1, if_neg Nat.one_ne_zero] at hshows
          rw [hshows]
          exact .inr rfl
      next hbad =>
        cases hstep
        refine ⟨c, running, rfl, ?_⟩
        by_contra hnot
        rw [not_or, not_not, Bool.not_eq_true] at hnot
        obtain ⟨hheld, hrunning⟩ := hnot
        apply hbad
        rw [hheld] at hncli
        have hmem : ptable ∈ (s.on c).held := by simp [hheld]
        have hfl : (s.on c).fl ≠ true := fun hfl => Nat.one_ne_zero (hncli.symm.trans (hok.fl hfl))
        exact ⟨(h.guards ptable).set_of_has (Cpu.has_of_mem hmem), (hok.cpu ptable).mp hmem, hncli, hrunning,
          Bool.eq_false_iff.mpr hfl⟩
  | swtch c p =>
    obtain ⟨⟨hproc, hpc, hheld⟩, hstep⟩ := Option.ite_none_right_eq_some.mp hstep
    have hprocs : ∀ on, s.context p ≠ .running → Procs s → Procs { s with
        on := on
        proc := Function.update s.proc c (some p)
        context := Function.update s.context p .running } := by
      intro on hp hprocs
      refine hprocs.swtch ?_ fun d _ hd => hp (hprocs.running d p hd)
      rintro q ⟨⟩
      exact ⟨rfl, rfl⟩
    dsimp only at hstep
    split at hstep
    next => cases hstep
    next hctx =>
      cases hstep
      refine ⟨⟨h.ok, h.guards⟩, hprocs _ (by simp [hctx]), ?_⟩
      intro q b _ hb
      refine hb.swtch (fun _ _ => rfl) ?_ fun _ => .inl rfl
      rintro ⟨⟩
      rcases hb.context with heq | heq
      . cases hctx.symm.trans heq
      . cases hctx.symm.trans heq
    next intena hctx =>
      cases hstep
      have hncli := (h.ok c).ncli
      rw [hpc, hheld] at hncli
      have hinv : Inv (s.set c { s.on c with intena := intena }) := h.set_flags (h.ok c).fl
      refine ⟨⟨hinv.ok, hinv.guards⟩, hprocs _ (by simp [hctx]), ?_⟩
      intro q b _ hb
      refine hb.swtch (fun d hd => Function.update_of_ne hd ..) ?_ fun _ => .inl rfl
      rintro ⟨⟩
      change (Function.update s.on c _ c).Shows b
      rw [Function.update_self]
      unfold Cpu.Shows
      dsimp only
      rw [if_neg (by rw [hncli]; exact Nat.one_ne_zero)]
      rcases hb.context with heq | heq
      . cases hctx.symm.trans heq
      . exact Context.sched.inj (hctx.symm.trans heq)

def Step (ptable : L) (s : State C L P) (a : Act C L P) (s' : State C L P) : Prop :=
  s.step ptable a = some (.ok s')

theorem reachable_inv (h : Reach.Reachable State.init (Step ptable) s) : Inv s ∧ Procs s := by
  refine Reach.Reachable.induct (fun s => Inv s ∧ Procs s) ?_ ?_ h
  . exact ⟨⟨fun c => ⟨rfl, nofun, .nil, fun l => ⟨nofun, nofun⟩, nofun⟩, fun _ => .release nofun⟩, nofun, nofun⟩
  . intro s a s' _ hs hstep
    have hkeeps := (step_sat hs.1 hstep).of_ok rfl
    exact ⟨hkeeps.inv, hkeeps.procs hs.2⟩

/--
A lock is held by one CPU, which does not wait for it, and interrupts are off on a CPU that holds or takes a lock.
The panics of `acquire`, `release` and `sched` are right, and those of `popcli` do not occur.
-/
theorem spinlocks_exclude (h : Reach.Reachable State.init (Step ptable) s)
    : (∀ l c d, l ∈ (s.on c).held → l ∈ (s.on d).held → c = d)
      ∧ (∀ c l, (s.on c).pc = .spinning l → l ∉ (s.on c).held)
      ∧ (∀ c, (s.on c).fl = true → (s.on c).held = [] ∧ (s.on c).pc.depth = 0)
      ∧ ∀ a e, s.step ptable a = some (.error e) → Faulty ptable s a e := by
  have hinv := (reachable_inv h).1
  refine ⟨?_, ?_, ?_, ?_⟩
  . intro l c d hc hd
    exact (hinv.guards l).unique c d (Cpu.has_of_mem hc) (Cpu.has_of_mem hd)
  . intro c l hl
    exact (hinv.ok c).other l (.inl hl)
  . intro c hfl
    have hncli := (hinv.ok c).ncli
    rw [(hinv.ok c).fl hfl] at hncli
    exact ⟨List.eq_nil_of_length_eq_zero (by omega), by omega⟩
  . intro a e hstep
    exact (step_sat hinv hstep).of_error rfl

def takes (c : Bool) : List (Act Bool Unit Unit) :=
  [.acquire c (), .next c, .next c, .next c]

theorem spinlocks_exclude_of_first
    : ∃ s : State Bool Unit Unit, () ∈ (s.on false).held ∧ ∀ d, () ∈ (s.on d).held → false = d := by
  obtain ⟨s, hs, hheld⟩ := Reach.exists_of_exec (b := State.init)
    (P := fun s : State Bool Unit Unit => (s.on false).held = [()]) (Reach.of_attempt (f := State.step ()))
    (takes false) (by decide +kernel)
  have hmem : () ∈ (s.on false).held := by
    rw [of_decide_eq_true hheld]
    exact List.mem_singleton_self _
  exact ⟨s, hmem, fun d => (spinlocks_exclude hs).1 () false d hmem⟩

theorem shows_of_run {p : P} {b : Bool} {l : List (Act C L P)} (hinv : Inv s) (hs : Shows p b s)
    (hrun : Reach.Run (fun s a s' => Step ptable s a s' ∧ Quiet p s a) s l s')
    : Inv s' ∧ Shows p b s' := by
  induction hrun with
  | nil => exact ⟨hinv, hs⟩
  | snoc _ hlast ih =>
    have hkeeps := (step_sat ih.1 hlast.1).of_ok rfl
    exact ⟨hkeeps.inv, hkeeps.shows p b hlast.2 ih.2⟩

/--
When a process is outside of all locks again, on this CPU or on another one, its interrupts are as they were.
-/
theorem interrupts_restored (h : Reach.Reachable State.init (Step ptable) s) {p : P} {l : List (Act C L P)}
    (hrun : Reach.Run (fun s a s' => Step ptable s a s' ∧ Quiet p s a) s l s') (hc : s.proc c = some p)
    (hzero : (s.on c).ncli = 0) (hd : s'.proc d = some p) (hzero' : (s'.on d).ncli = 0)
    : (s'.on d).fl = (s.on c).fl := by
  have hprocs := (reachable_inv h).2
  have hstart : Shows p (s.on c).fl s := by
    refine ⟨?_, .inl (hprocs.running c p hc)⟩
    intro d hd
    unfold Cpu.Shows
    rw [hprocs.one d c p hd hc, if_pos hzero]
  have hshows := (shows_of_run (reachable_inv h).1 hstart hrun).2.on d hd
  unfold Cpu.Shows at hshows
  rw [if_pos hzero'] at hshows
  exact hshows

def quietStep (s : State Bool Unit Unit) (a : Act Bool Unit Unit) : Option (State Bool Unit Unit) :=
  match a with
  | .interrupt _ | .sti _ => none
  | a => Reach.attempt (State.step ()) s a

theorem of_quietStep (s : State Bool Unit Unit) (a : Act Bool Unit Unit) (s' : State Bool Unit Unit)
    (h : quietStep s a = some s') : Step () s a s' ∧ Quiet () s a := by
  unfold quietStep at h
  split at h
  next => cases h
  next => cases h
  next hinterrupt hsti =>
    refine ⟨Reach.of_attempt s a s' h, ?_⟩
    rintro c (rfl | rfl)
    . exact absurd rfl (hinterrupt c)
    . exact absurd rfl (hsti c)

def gives (c : Bool) : List (Act Bool Unit Unit) :=
  [.release c (), .next c, .next c, .next c, .next c]

/-- A process in user space. -/
def inUser : State Bool Unit Unit :=
  (Reach.exec (Reach.attempt (State.step ())) .init
    (takes false ++ [.swtch false ()] ++ gives false ++ [.sti false])).getD .init

/-- It calls `yield`, and goes on on the other CPU. -/
theorem interrupts_restored_of_yield
    : ∃ s' : State Bool Unit Unit, s'.proc true = some () ∧ (s'.on true).fl = (inUser.on false).fl := by
  have hany : (Reach.exec quietStep inUser
      (takes false ++ [.sched false false] ++ gives false ++ takes true ++ [.swtch true ()] ++ gives true)).any
        (fun s' => s'.proc true = some () ∧ (s'.on true).ncli = 0) = true := by
    decide +kernel
  rw [Option.any_eq_true] at hany
  obtain ⟨s', hexec, hs'⟩ := hany
  have hs' := of_decide_eq_true hs'
  exact ⟨s', hs'.1, interrupts_restored (Reach.reachable_exec Reach.of_attempt _) (.of_exec of_quietStep hexec)
    (by decide +kernel) (by decide +kernel) hs'.1 hs'.2⟩

end Interrupts
end Xv6
