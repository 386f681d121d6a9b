import Xv6.Exec.Impl
import Xv6.Vm.Impl

namespace Xv6
namespace Vm

structure Owner where
  kstack : Nat
  pgdir : PageDir
  sz : Nat
  zombie : Bool

structure Pipe where
  page : Nat
  readopen : Bool
  writeopen : Bool
deriving DecidableEq, Repr

structure Sys where
  kmem : Kmem
  kpgdir : PageDir
  cpuStacks : List Nat
  slot : Nat → Option Owner
  pipes : List Pipe

namespace Sys

def setSlot (s : Sys) (i : Nat) (x : Option Owner) : Sys :=
  { s with slot := Function.update s.slot i x }

end Sys

def startothers (k : Kmem) (n : Nat) : Option (Kmem × List Nat) :=
  match n with
  | 0 => some (k, [])
  | n + 1 =>
    match kalloc k with
    | (_, none) => none
    | (k, some stack) => (startothers k n).map fun r => (r.1, stack :: r.2)

def userinit (L : Layout) (k : Kmem) (init : Page) : Except Panic (Option (Kmem × Owner)) :=
  match kalloc k with
  | (_, none) => .ok none
  | (k, some kstack) => do
    let (k, r) ← setupkvm L k
    match r with
    | none => return none
    | some d =>
      match ← inituvm k d init with
      | none => return none
      | some (k, d) => return some (k, { kstack, pgdir := d, sz := 4096, zombie := false })

def boot (L : Layout) (n : Nat) (plan : List Bool) (mem : Nat → Page) (init : Page)
    : Except Panic (Option Sys) := do
  let k ← freerange L { freelist := [], plan, mem } (pgRoundUp L.kend) (4 * 1024 * 1024)
  let (k, r) ← setupkvm L k
  match r with
  | none => return none
  | some kpgdir =>
    match startothers k n with
    | none => return none
    | some (k, cpuStacks) =>
      let k ← freerange L k (4 * 1024 * 1024) PHYSTOP
      match ← userinit L k init with
      | none => return none
      | some (k, x) =>
        return some
          { kmem := k, kpgdir, cpuStacks, slot := Function.update (fun _ => none) 0 (some x), pipes := [] }

def growproc (L : Layout) (k : Kmem) (d : PageDir) (sz : Nat) (n : Int)
    : Except Panic (Kmem × PageDir × Nat × Int) :=
  let newsz := ((sz + n) % 2 ^ 32).toNat
  if 0 < n then do
    let (k, d, r) ← allocuvm L k d sz newsz
    return if r = 0 then (k, d, sz, -1) else (k, d, r, 0)
  else if n < 0 then do
    let (k, d, r) ← deallocuvm L k d sz newsz
    return if r = 0 then (k, d, sz, -1) else (k, d, r, 0)
  else
    .ok (k, d, sz, 0)

inductive Op where
  | fork (i j : Nat)
  | exec (i : Nat) (file : Option (List UInt8)) (path : List UInt8) (argv : List (List UInt8))
  | exit (i : Nat)
  | wait (i : Nat)
  | sbrk (i : Nat) (n : Int)
  | pipe (files fds : Bool)
  | pipeclose (i : Nat) (writable : Bool)

def fork (L : Layout) (s : Sys) (x : Owner) (j : Nat) : Except Panic Sys :=
  match kalloc s.kmem with
  | (k, none) => .ok { s with kmem := k }
  | (k, some kstack) => do
    let (k, r) ← copyuvm L k x.pgdir x.sz
    match r with
    | none =>
      let k ← kfree L k kstack
      return { s with kmem := k }
    | some d =>
      return Sys.setSlot { s with kmem := k } j
        (some { kstack, pgdir := d, sz := x.sz, zombie := false })

def reap (L : Layout) (s : Sys) (x : Owner) (i : Nat) : Except Panic Sys := do
  let k ← kfree L s.kmem x.kstack
  let k ← freevm L k x.pgdir
  return Sys.setSlot { s with kmem := k } i none

def pipealloc (L : Layout) (s : Sys) (files fds : Bool) : Except Panic Sys :=
  if files then
    match kalloc s.kmem with
    | (k, none) => .ok { s with kmem := k }
    | (k, some page) =>
      if fds then
        .ok { s with kmem := k, pipes := ⟨page, true, true⟩ :: s.pipes }
      else do
        let k ← kfree L k page
        return { s with kmem := k }
  else
    .ok s

def pipeclose (L : Layout) (s : Sys) (p : Pipe) (i : Nat) (writable : Bool) : Except Panic Sys :=
  let p := if writable then { p with writeopen := false } else { p with readopen := false }
  if !p.readopen && !p.writeopen then do
    let k ← kfree L s.kmem p.page
    return { s with kmem := k, pipes := s.pipes.eraseIdx i }
  else
    .ok { s with pipes := s.pipes.set i p }

def execCall (L : Layout) (copyout : Exec.Copyout) (s : Sys) (x : Owner) (i : Nat)
    (file : Option (List UInt8)) (path : List UInt8) (argv : List (List UInt8)) : Except Panic Sys := do
  let proc := { pgdir := x.pgdir, sz := x.sz, eip := 0, esp := 0, name := [] }
  let (e, _) ← Exec.exec L copyout file path argv { kmem := s.kmem, io := ⟨0, 0, 0⟩, proc }
  return Sys.setSlot { s with kmem := e.kmem } i
    (some { x with pgdir := e.proc.pgdir, sz := e.proc.sz })

inductive Steps (L : Layout) (copyout : Exec.Copyout) (s : Sys) : Op → Sys → Prop where
  | fork {i j : Nat} {x : Owner} {s' : Sys} (hi : i < 64) (hx : s.slot i = some x)
    (halive : x.zombie = false) (hj : j < 64) (hfree : s.slot j = none)
    (heq : Vm.fork L s x j = .ok s')
    : Steps L copyout s (.fork i j) s'
  | exec {i : Nat} {x : Owner} {s' : Sys} {file : Option (List UInt8)} {path : List UInt8}
    {argv : List (List UInt8)} (hi : i < 64) (hx : s.slot i = some x) (halive : x.zombie = false)
    (heq : execCall L copyout s x i file path argv = .ok s')
    : Steps L copyout s (.exec i file path argv) s'
  | exit {i : Nat} {x : Owner} (hi : i < 64) (hx : s.slot i = some x)
    : Steps L copyout s (.exit i) (s.setSlot i (some { x with zombie := true }))
  | wait {i : Nat} {x : Owner} {s' : Sys} (hi : i < 64) (hx : s.slot i = some x)
    (hzombie : x.zombie = true) (heq : reap L s x i = .ok s')
    : Steps L copyout s (.wait i) s'
  | sbrk {i : Nat} {n : Int} {x : Owner} {k : Kmem} {d : PageDir} {sz : Nat} {r : Int} (hi : i < 64)
    (hx : s.slot i = some x) (halive : x.zombie = false)
    (heq : growproc L s.kmem x.pgdir x.sz n = .ok (k, d, sz, r))
    : Steps L copyout s (.sbrk i n) (Sys.setSlot { s with kmem := k } i (some { x with pgdir := d, sz }))
  | pipe {files fds : Bool} {s' : Sys} (heq : pipealloc L s files fds = .ok s')
    : Steps L copyout s (.pipe files fds) s'
  | pipeclose {i : Nat} {writable : Bool} {p : Pipe} {s' : Sys} (hp : s.pipes[i]? = some p)
    (heq : Vm.pipeclose L s p i writable = .ok s')
    : Steps L copyout s (.pipeclose i writable) s'

end Vm
end Xv6
