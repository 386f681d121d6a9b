import Mathlib.Data.Fintype.Card
import Xv6.Ide.Controller
import Xv6.Lib.Fifo
import Xv6.Lib.Reach

/-!
`iderw` and `ideintr` as any number of processes and the interrupt handler run
them. A step is a critical section of `idelock`, the tests before it, a command executed by the disk,
or something done to a buffer by code outside of the driver.
-/

namespace Xv6.Ide

structure Request (B P : Type) where
  proc : P
  buf : B
  val : Buf P

inductive Pc (B : Type)
  | user
  | acquire (i : B)
  | sleeping (i : B) (m : Nat)
  | woken (i : B) (m : Nat)
  deriving DecidableEq, Repr

def Pc.uses {B : Type} (i : B) : Pc B → Prop
  | .user => False
  | .acquire j | .sleeping j _ | .woken j _ => j = i

instance {B : Type} [DecidableEq B] (i : B) : (pc : Pc B) → Decidable (pc.uses i)
  | .user => .isFalse id
  | .acquire j => inferInstanceAs (Decidable (j = i))
  | .sleeping j _ => inferInstanceAs (Decidable (j = i))
  | .woken j _ => inferInstanceAs (Decidable (j = i))

/--
`link none` is `idequeue`, and `link (some i)` is the field `qnext` of the buffer `i`. All requests
made so far are listed by `arrived`, the buffers that `idestart` was called for by `started`, and
`retired` is the number of requests completed by `ideintr`.
-/
structure State (B P : Type) where
  ctl : Ctl
  havedisk1 : Bool
  buf : B → Buf P
  link : Fifo.Link B
  pc : P → Pc B
  arrived : List (Request B P) := []
  started : List B := []
  retired : Nat := 0

inductive Act (B P : Type)
  | change (i : B) (b : Buf P)
  | refcnt (i : B) (k : Nat)
  | iderw (p : P) (i : B)
  | acquire (p : P)
  | resume (p : P)
  | disk
  | ideintr

namespace State

variable {B P : Type}

def init (media : Nat → Disk) (havedisk1 : Bool) (buf : B → Buf P) (qnext : B → Option B)
    : State B P where
  ctl := { media := media }
  havedisk1 := havedisk1
  buf := buf
  link := fun x =>
    match x with
    | none => none
    | some i => qnext i
  pc := fun _ => .user

def pending (s : State B P) : List (Request B P) :=
  s.arrived.drop s.retired

variable [DecidableEq B] [DecidableEq P]

def setPc (s : State B P) (p : P) (pc : Pc B) : State B P :=
  { s with pc := Function.update s.pc p pc }

def idestart (s : State B P) (i : Option B) : Option (Except Halt (State B P)) :=
  (Ide.idestart s.ctl (i.map s.buf)).map fun r => do
    let ctl ← r
    return { s with ctl := ctl, started := s.started ++ i.toList }

def iderw (s : State B P) (p : P) (i : B) : Except Halt (State B P) :=
  if (s.buf i).lock ≠ some p then
    .error .notLocked
  else if (s.buf i).valid ∧ ¬(s.buf i).dirty then
    .error .nothingToDo
  else if (s.buf i).dev ≠ 0 ∧ ¬s.havedisk1 then
    .error .notPresent
  else
    .ok (s.setPc p (.acquire i))

def await (s : State B P) (p : P) (i : B) (m : Nat) : State B P :=
  if (s.buf i).valid ∧ ¬(s.buf i).dirty then s.setPc p .user else s.setPc p (.sleeping i m)

def enqueue (s : State B P) (p : P) (i : B) (pp : Option B) : State B P :=
  { s with
    link := Fifo.append s.link pp i
    arrived := s.arrived ++ [{ proc := p, buf := i, val := s.buf i }] }

def acquire [Fintype B] (s : State B P) (p : P) (i : B) : Option (Except Halt (State B P)) := do
  let m := s.arrived.length
  let pp ← Fifo.findEnd (Function.update s.link (some i) none) (Fintype.card B) none
  let s := s.enqueue p i pp
  let r ← if s.link none = some i then s.idestart (some i) else some (.ok s)
  return r.map fun s => s.await p i m

def wakeup (s : State B P) (i : B) : State B P :=
  { s with
    pc := fun p =>
      match s.pc p with
      | .sleeping j m => if j = i then .woken j m else .sleeping j m
      | pc => pc }

def finish (s : State B P) (i : B) (data : Block) : State B P :=
  { s with
    buf := Function.update s.buf i { s.buf i with data := data, valid := true, dirty := false }
    retired := s.retired + 1 }

def ack (s : State B P) : State B P :=
  { s with ctl := { s.ctl with intr := false } }

def ideintr (s : State B P) : Option (Except Halt (State B P)) :=
  match s.link none with
  | none => some (.ok s)
  | some i => do
    let s := { s with link := Fifo.pop s.link i }
    let data ←
      if (s.buf i).dirty then
        some (s.buf i).data
      else
        (idewait s.ctl true).map fun r => if r ≥ 0 then s.ctl.port else (s.buf i).data
    let s := (s.finish i data).wakeup i
    if s.link none ≠ none then s.idestart (s.link none) else some (.ok s)

def step [Fintype B] [Fintype P] (s : State B P) (a : Act B P) : Option (Except Halt (State B P)) :=
  match a with
  | .change i b =>
    if ∃ p, (s.pc p).uses i then none else some (.ok { s with buf := Function.update s.buf i b })
  | .refcnt i k =>
    some (.ok { s with buf := Function.update s.buf i { s.buf i with refcnt := k } })
  | .iderw p i => if s.pc p = .user then some (s.iderw p i) else none
  | .acquire p =>
    match s.pc p with
    | .acquire i => s.acquire p i
    | _ => none
  | .resume p =>
    match s.pc p with
    | .woken i m => some (.ok (s.await p i m))
    | _ => none
  | .disk => if s.ctl.phase = .busy then some (.ok { s with ctl := s.ctl.execute }) else none
  | .ideintr => if s.ctl.intr then s.ack.ideintr else none

def Steps [Fintype B] [Fintype P] (s : State B P) (a : Act B P) (s' : State B P) : Prop :=
  s.step a = some (.ok s')

end State
end Xv6.Ide
