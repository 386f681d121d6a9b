import Mathlib.Logic.Function.Basic
import Xv6.Lib.Bytes

/-!
The input side of `console.c`: `consoleintr` as the characters come in, and
`consoleread` as any number of processes call it. The lock `cons.lock` is held all the time except while
a reader sleeps, so that a reader takes one step from where it gets the lock to where it sleeps or
returns.
-/

namespace Xv6.Console

abbrev INPUT_BUF : Nat := 128

abbrev ctrlD : UInt8 := 4

abbrev ctrlH : UInt8 := 8

abbrev newline : UInt8 := 10
abbrev return' : UInt8 := 13

abbrev ctrlP : UInt8 := 16

abbrev ctrlU : UInt8 := 21

abbrev delete : UInt8 := 127

structure Input where
  buf : Bytes INPUT_BUF
  r : UInt32
  w : UInt32
  e : UInt32

namespace Input

def char (s : Input) (i : UInt32) : UInt8 :=
  s.buf.get (i.toNat % INPUT_BUF)

theorem sub_lt {e w : UInt32} (h : e ≠ w) : (e - 1 - w).toNat < (e - w).toNat := by
  have hne : e.toNat ≠ w.toNat := fun heq => h (UInt32.toNat_inj.mp heq)
  have he := e.toNat_lt
  have hw := w.toNat_lt
  rw [UInt32.toNat_sub, UInt32.toNat_sub, UInt32.toNat_sub, UInt32.toNat_one]
  omega

def killLine (s : Input) : Input :=
  if _h : s.e ≠ s.w then
    if s.char (s.e - 1) ≠ newline then
      killLine { s with e := s.e - 1 }
    else
      s
  else
    s
termination_by (s.e - s.w).toNat
decreasing_by exact sub_lt _h

def consoleintr (s : Input) (c : UInt8) : Input :=
  if c = ctrlP then
    s
  else if c = ctrlU then
    s.killLine
  else if c = ctrlH ∨ c = delete then
    if s.e ≠ s.w then { s with e := s.e - 1 } else s
  else if c ≠ 0 ∧ s.e - s.r < UInt32.ofNat INPUT_BUF then
    let c := if c = return' then newline else c
    let s := { s with buf := s.buf.set (s.e.toNat % INPUT_BUF) c, e := s.e + 1 }
    if c = newline ∨ c = ctrlD ∨ s.e = s.r + UInt32.ofNat INPUT_BUF then
      { s with w := s.e }
    else
      s
  else
    s

end Input

structure Reader where
  n : Nat
  target : Nat
  dst : List UInt8
deriving DecidableEq, Repr

def Input.readLoop (s : Input) (target : Nat) (dst : List UInt8) (n : Nat)
    : Input × (Reader ⊕ List UInt8) :=
  match n with
  | 0 => (s, .inr dst)
  | n + 1 =>
    if s.r = s.w then
      (s, .inl { n := n + 1, target, dst })
    else
      let c := s.char s.r
      let s := { s with r := s.r + 1 }
      if c = ctrlD then
        if n + 1 < target then
          -- Save ^D for next time, to make sure that the caller gets a 0-byte result.
          ({ s with r := s.r - 1 }, .inr dst)
        else
          (s, .inr dst)
      else if c = newline then
        (s, .inr (dst ++ [c]))
      else
        s.readLoop target (dst ++ [c]) n

inductive Act (P : Type)
  | intr (c : UInt8)
  | read (p : P) (n : Int)
  | resume (p : P)

structure State (σ P : Type) where
  input : σ
  reader : P → Option Reader

structure Device (σ : Type) where
  intr : σ → UInt8 → σ
  read : σ → Nat → List UInt8 → Nat → σ × (Reader ⊕ List UInt8)

section

variable {σ P : Type} [DecidableEq P]

def Device.run (v : Device σ) (s : State σ P) (p : P) (x : Reader) : State σ P × Option (P × List UInt8) :=
  match v.read s.input x.target x.dst x.n with
  | (input, .inl x) => (⟨input, Function.update s.reader p (some x)⟩, none)
  | (input, .inr dst) => (⟨input, Function.update s.reader p none⟩, some (p, dst))

def Device.step (v : Device σ) (s : State σ P) : Act P → State σ P × Option (P × List UInt8)
  | .intr c => ({ s with input := v.intr s.input c }, none)
  | .read p n =>
    match s.reader p with
    | some _ => (s, none)
    | none => v.run s p { n := n.toNat, target := n.toNat, dst := [] }
  | .resume p =>
    match s.reader p with
    | some x => v.run s p x
    | none => (s, none)

end

def device : Device Input where
  intr := Input.consoleintr
  read := Input.readLoop

def init {P : Type} : State Input P where
  input := { buf := fun _ => 0, r := 0, w := 0, e := 0 }
  reader := fun _ => none

end Xv6.Console
