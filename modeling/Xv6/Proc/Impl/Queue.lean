import Xv6.Proc.Basic

/-!
The operations on `struct queue`. The indices are not checked in the source, so
an access to `proc[NPROC]` is one to `pi`, and one further out is `wild`.
-/

namespace Xv6
namespace Queue

def get (q : Queue) (i : Nat) : Except Halt Word :=
  if h : i < NPROC then
    .ok (q.proc ⟨i, h⟩)
  else if i = NPROC then
    .ok q.pi
  else
    .error .wild

def set (q : Queue) (i : Nat) (w : Word) : Except Halt Queue :=
  if i < NPROC then
    .ok { q with proc := fun j => if j.val = i then w else q.proc j }
  else if i = NPROC then
    .ok { q with pi := w }
  else
    .error .wild

def setPi (q : Queue) (n : Int) : Queue :=
  { q with pi := .ofInt n }

def append (q : Queue) (p : ProcPtr) : Except Halt Queue :=
  let q := q.setPi (q.pi.toInt + 1)
  if 0 ≤ q.pi.toInt then
    q.set q.pi.toInt.toNat (.proc p)
  else
    .error .wild

def findQi (pid : ProcPtr → Int) (q : Queue) (x : Int) (n : Nat) (qi : Nat) : Except Halt Nat :=
  match n with
  | 0 => .ok qi
  | n + 1 => do
    let p ← (← q.get qi).deref
    if pid p = x then
      .ok qi
    else
      findQi pid q x n (qi + 1)

/--
The second loop of `shiftOutQueue`. It reads `q->pi` in every iteration, because the last of them may
overwrite it. There are never more than `NPROC + 1` iterations, as the next access would be wild.
-/
def shiftLoop (fuel : Nat) (q : Queue) (qi : Nat) : Except Halt (Queue × Nat) :=
  match fuel with
  | 0 => .error .wild
  | fuel + 1 =>
    if (qi : Int) ≤ q.pi.toInt then do
      let temp ← q.get qi
      let next ← q.get (qi + 1)
      let q ← q.set qi next
      let q ← q.set (qi + 1) temp
      shiftLoop fuel q (qi + 1)
    else
      .ok (q, qi)

def shiftOutQueue (pid : ProcPtr → Int) (q : Queue) (p : ProcPtr) : Except Halt Queue := do
  let qi ← findQi pid q (pid p) (q.pi.toInt + 1).toNat 0
  let (q, qi) ← shiftLoop (NPROC + 2) q qi
  q.set qi .null

def remove (pid : ProcPtr → Int) (q : Queue) (p : ProcPtr) : Except Halt Queue := do
  let q ← shiftOutQueue pid q p
  return q.setPi (q.pi.toInt - 1)

def init : Queue where
  proc := fun _ => .null
  pi := .ofInt (-1)

def slot? (q : Queue) (i : Nat) : Option ProcPtr :=
  match q.get i with
  | .ok (.proc p) => some p
  | _ => none

def entries (q : Queue) : List ProcPtr :=
  (List.range (q.pi.toInt + 1).toNat).filterMap q.slot?

end Queue
end Xv6
