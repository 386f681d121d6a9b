import Mathlib.Logic.Function.Basic
import Xv6.Proc.Basic

/-!
The life cycle of processes in the abstract: which CPU executes which process,
and how processes are created, sleep, exit and are waited for. The scheduling queues are left out: a
CPU may pick any process that is ready, and a waker may wake any set of sleepers.
-/

namespace Xv6
namespace LifeCycle

structure Life (P : Type) where
  state : ProcState
  pid : Int
  parent : Option P
  chan : Option (Chan P)
  fork : Option (P × ForkStage)

inductive Phase
  | idle
  | running
  | dispatched
  | returned
  deriving DecidableEq

@[ext]
structure Table (P C : Type) where
  proc : P → Life P
  cur : C → Option P
  phase : C → Phase
  lock : Option C
  initproc : Option P
  nextpid : Int

variable {P C : Type}

def Life.Alive (l : Life P) : Prop :=
  l.state = .runnable ∨ l.state = .running ∨ l.state = .sleeping

def Life.Live (l : Life P) : Prop :=
  l.state ≠ .unused

namespace Table

variable [DecidableEq P]

def setProc (t : Table P C) (p : P) (l : Life P) : Table P C :=
  { t with proc := Function.update t.proc p l }

@[simp]
theorem setProc_proc (t : Table P C) (p q : P) (l : Life P)
    : (t.setProc p l).proc q = if q = p then l else t.proc q := by
  simp [setProc, Function.update_apply]

@[simp]
theorem setProc_initproc (t : Table P C) (p : P) (l : Life P)
    : (t.setProc p l).initproc = t.initproc := by
  rfl

variable [DecidableEq C]

def sched (t : Table P C) (c : C) : Table P C :=
  { t with phase := Function.update t.phase c .returned, lock := some c }

def resume (t : Table P C) (c : C) : Table P C :=
  { t with phase := Function.update t.phase c .running, lock := none }

def retire (t : Table P C) (c : C) : Table P C :=
  { t with
    cur := Function.update t.cur c none
    phase := Function.update t.phase c .idle
    lock := none }

def dispatch (t : Table P C) (c : C) (p : P) : Table P C :=
  { t.setProc p { t.proc p with state := .running } with
    cur := Function.update t.cur c (some p)
    phase := Function.update t.phase c .dispatched
    lock := some c }

def alloc (t : Table P C) (p : P) : Table P C :=
  { t.setProc p { t.proc p with state := .embryo, pid := t.nextpid, fork := none } with
    nextpid := int32 (t.nextpid + 1) }

def forkAlloc (t : Table P C) (p np : P) : Table P C :=
  let t := t.alloc np
  t.setProc p { t.proc p with fork := some (np, .allocated) }

def forkFail (t : Table P C) (p np : P) : Table P C :=
  let t := t.setProc np { t.proc np with state := .unused }
  t.setProc p { t.proc p with fork := none }

def forkCopy (t : Table P C) (p np : P) : Table P C :=
  let t := t.setProc np { t.proc np with parent := some p }
  t.setProc p { t.proc p with fork := some (np, .copied) }

def forkEnd (t : Table P C) (p np : P) : Table P C :=
  let t := t.setProc np { t.proc np with state := .runnable }
  t.setProc p { t.proc p with fork := none }

def boot (t : Table P C) (p : P) : Table P C :=
  let t := t.alloc p
  { t.setProc p { t.proc p with state := .runnable } with initproc := some p }

def reap (t : Table P C) (p : P) : Table P C :=
  t.setProc p { t.proc p with state := .unused, pid := 0, parent := none }

end Table

open Classical in
noncomputable def Life.wake (l : Life P) (w : Prop) : Life P :=
  if w ∧ l.state = .sleeping then { l with state := .runnable, chan := none } else l

def Life.reparent [DecidableEq P] (l : Life P) (p : P) (r : Option P) : Life P :=
  if l.parent = some p then { l with parent := r } else l

namespace Table

variable [DecidableEq P] [DecidableEq C]

noncomputable def wake (t : Table P C) (W : P → Prop) : Table P C :=
  { t with proc := fun q => (t.proc q).wake (W q) }

noncomputable def exit (t : Table P C) (p : P) (W : P → Prop) : Table P C :=
  let t' := { t with proc := fun q => ((t.proc q).wake (W q)).reparent p t.initproc }
  t'.setProc p { t'.proc p with state := .zombie }

def CanRun (t : Table P C) (c : C) (p : P) : Prop :=
  t.cur c = some p ∧ (t.phase c = .dispatched ∨ (t.phase c = .running ∧ t.lock = none))

def CanPick (t : Table P C) (c : C) : Prop :=
  t.phase c = .returned ∨ (t.phase c = .idle ∧ t.lock = none)

inductive Step : Table P C → Option (P × P) → Table P C → Prop
  | tau (t : Table P C) : Step t none t
  | boot (t : Table P C) (p : P) (hinit : t.initproc = none) (hp : (t.proc p).state = .unused)
    : Step t none (t.boot p)
  | forkAlloc (t : Table P C) (c : C) (p np : P) (hcur : t.cur c = some p)
      (hphase : t.phase c = .running) (hfork : (t.proc p).fork = none)
      (hnp : (t.proc np).state = .unused)
    : Step t none (t.forkAlloc p np)
  | forkFail (t : Table P C) (c : C) (p np : P) (hcur : t.cur c = some p)
      (hphase : t.phase c = .running) (hfork : (t.proc p).fork = some (np, .allocated))
    : Step t none (t.forkFail p np)
  | forkCopy (t : Table P C) (c : C) (p np : P) (hcur : t.cur c = some p)
      (hphase : t.phase c = .running) (hfork : (t.proc p).fork = some (np, .allocated))
    : Step t none (t.forkCopy p np)
  | forkEnd (t : Table P C) (c : C) (p np : P) (hcur : t.cur c = some p)
      (hphase : t.phase c = .running) (hfork : (t.proc p).fork = some (np, .copied))
    : Step t none (t.forkEnd p np)
  | yield (t : Table P C) (c : C) (p : P) (hlock : t.lock = none) (hcur : t.cur c = some p)
      (hphase : t.phase c = .running)
    : Step t none ((t.setProc p { t.proc p with state := .runnable }).sched c)
  | sleep (t : Table P C) (c : C) (p : P) (a : Nat) (hrun : t.CanRun c p)
    : Step t none
        ((t.setProc p { t.proc p with state := .sleeping, chan := some (.addr a) }).sched c)
  | waitSleep (t : Table P C) (c : C) (p : P) (hrun : t.CanRun c p)
      (hkids : ∀ z, (t.proc z).parent = some p → (t.proc z).state ≠ .zombie)
    : Step t none
        ((t.setProc p { t.proc p with state := .sleeping, chan := some (.proc p) }).sched c)
  | waitReap (t : Table P C) (c : C) (p z : P) (hrun : t.CanRun c p)
      (hz : (t.proc z).parent = some p) (hzombie : (t.proc z).state = .zombie)
    : Step t (some (p, z)) ((t.reap z).resume c)
  | resume (t : Table P C) (c : C) (p : P) (hrun : t.CanRun c p) : Step t none (t.resume c)
  | wake (t : Table P C) (W : P → Prop) (hlock : t.lock = none) : Step t none (t.wake W)
  | exit (t : Table P C) (c : C) (p : P) (W : P → Prop) (hlock : t.lock = none)
      (hcur : t.cur c = some p) (hphase : t.phase c = .running) (hfork : (t.proc p).fork = none)
      (hinit : t.initproc ≠ some p)
      -- A parent that waits is woken, and so is init if it gets a child that has exited.
      (hparent : ∀ q, (t.proc p).parent = some q → (t.proc q).chan = some (.proc q) → W q)
      (hpass : ∀ z r, (t.proc z).parent = some p → (t.proc z).state = .zombie →
        t.initproc = some r → (t.proc r).chan = some (.proc r) → W r)
    : Step t none ((t.exit p W).sched c)
  | dispatch (t : Table P C) (c : C) (p : P) (hpick : t.CanPick c)
      (hp : (t.proc p).state = .runnable)
    : Step t none (t.dispatch c p)
  | retire (t : Table P C) (c : C) (hpick : t.CanPick c) : Step t none (t.retire c)

end Table

def Table.Initial (t : Table P C) : Prop :=
  (∀ p, t.proc p = ⟨.unused, 0, none, none, none⟩) ∧ (∀ c, t.cur c = none ∧ t.phase c = .idle)
    ∧ t.lock = none ∧ t.initproc = none ∧ t.nextpid = 1

end LifeCycle
end Xv6
