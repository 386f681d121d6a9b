import Xv6.Vm.Impl

namespace Xv6
namespace Exec

open Vm

structure Io where
  ops : Int
  refs : Int
  locks : Int
deriving DecidableEq, Repr

namespace Io

def beginOp (io : Io) : Io :=
  { io with ops := io.ops + 1 }

def endOp (io : Io) : Io :=
  { io with ops := io.ops - 1 }

def namei (io : Io) : Io :=
  { io with refs := io.refs + 1 }

def ilock (io : Io) : Io :=
  { io with locks := io.locks + 1 }

def iunlockput (io : Io) : Io :=
  { io with locks := io.locks - 1, refs := io.refs - 1 }

end Io

structure Proc where
  pgdir : PageDir
  sz : Nat
  eip : Nat
  esp : Nat
  name : List UInt8

structure State where
  kmem : Kmem
  io : Io
  proc : Proc

def field (l : List UInt8) (off n : Nat) : Nat :=
  ((l.drop off).take n).foldr (fun b acc => b.toNat + 256 * acc) 0

def readi (data : List UInt8) (off n : Nat) : Option (List UInt8) :=
  if data.length < off ∨ 2 ^ 32 ≤ off + n then
    none
  else
    some ((data.drop off).take n)

def overwrite (page : Page) (l : List UInt8) : Page :=
  fun i => if i < l.length then l.getD i 0 else page i

def loadLoop (k : Kmem) (d : PageDir) (addr : Nat) (data : List UInt8) (offset sz i : Nat)
    : Except Vm.Panic (Kmem × Bool) :=
  if _h : i < sz then
    if d.walks ((addr + i) / 4096) then
      let pa := ((d.pte ((addr + i) / 4096)).map Pte.pa).getD 0
      let n := if sz - i < 4096 then sz - i else 4096
      match readi data ((offset + i) % 2 ^ 32) n with
      | none => .ok (k, false)
      | some l =>
        let k := { k with mem := Function.update k.mem pa (overwrite (k.mem pa) l) }
        if l.length = n then
          loadLoop k d addr data offset sz (i + 4096)
        else
          .ok (k, false)
    else
      .error .loaduvmExist
  else
    .ok (k, true)
termination_by sz - i
decreasing_by omega

def loaduvm (k : Kmem) (d : PageDir) (addr : Nat) (data : List UInt8) (offset sz : Nat)
    : Except Vm.Panic (Kmem × Bool) :=
  if addr % 4096 ≠ 0 then
    .error .loaduvmAlign
  else
    loadLoop k d addr data offset sz 0

structure ProgHdr where
  type : Nat
  off : Nat
  vaddr : Nat
  filesz : Nat
  memsz : Nat
deriving DecidableEq, Repr

def ProgHdr.parse (l : List UInt8) : ProgHdr where
  type := field l 0 4
  off := field l 4 4
  vaddr := field l 8 4
  filesz := field l 16 4
  memsz := field l 20 4

def readPh (data : List UInt8) (off : Nat) : Option ProgHdr :=
  match readi data off 32 with
  | none => none
  | some l => if l.length = 32 then some (.parse l) else none

def loadSeg (L : Layout) (k : Kmem) (d : PageDir) (data : List UInt8) (sz : Nat) (ph : ProgHdr)
    : Except Vm.Panic (Kmem × PageDir × Option Nat) :=
  if ph.memsz < ph.filesz then
    .ok (k, d, none)
  else if (ph.vaddr + ph.memsz) % 2 ^ 32 < ph.vaddr then
    .ok (k, d, none)
  else do
    let (k, d, sz) ← allocuvm L k d sz ((ph.vaddr + ph.memsz) % 2 ^ 32)
    if sz = 0 then
      return (k, d, none)
    if ph.vaddr % 4096 ≠ 0 then
      return (k, d, none)
    let (k, ok) ← loaduvm k d ph.vaddr data ph.off ph.filesz
    return (k, d, if ok then some sz else none)

def loadSegs (L : Layout) (k : Kmem) (d : PageDir) (data : List UInt8) (sz off n : Nat)
    : Except Vm.Panic (Kmem × PageDir × Option Nat) :=
  match n with
  | 0 => .ok (k, d, some sz)
  | n + 1 =>
    match readPh data off with
    | none => .ok (k, d, none)
    | some ph =>
      if ph.type ≠ 1 then
        loadSegs L k d data sz ((off + 32) % 2 ^ 32) n
      else do
        let (k, d, r) ← loadSeg L k d data sz ph
        match r with
        | none => return (k, d, none)
        | some sz => loadSegs L k d data sz ((off + 32) % 2 ^ 32) n

abbrev Copyout := (Nat → Page) → PageDir → Nat → List UInt8 → (Nat → Page) × Bool

def copyTo (copyout : Copyout) (k : Kmem) (d : PageDir) (va : Nat) (l : List UInt8) : Kmem × Bool :=
  let r := copyout k.mem d va l
  ({ k with mem := r.1 }, r.2)

def pushArgs (copyout : Copyout) (k : Kmem) (d : PageDir) (sp : Nat) (ustack : List Nat)
    (argv : List (List UInt8)) : Kmem × Option (Nat × List Nat) :=
  match argv with
  | [] => (k, some (sp, ustack))
  | s :: argv =>
    if 32 ≤ ustack.length then
      (k, none)
    else
      let sp := (sp + 2 ^ 32 - (s.length + 1) % 2 ^ 32) % 2 ^ 32 / 4 * 4
      match copyTo copyout k d sp (s ++ [0]) with
      | (k, false) => (k, none)
      | (k, true) => pushArgs copyout k d sp (ustack ++ [sp]) argv

def word (n : Nat) : List UInt8 :=
  [n.toUInt8, (n / 2 ^ 8).toUInt8, (n / 2 ^ 16).toUInt8, (n / 2 ^ 24).toUInt8]

def buildStack (L : Layout) (copyout : Copyout) (k : Kmem) (d : PageDir) (sz : Nat)
    (argv : List (List UInt8)) : Except Vm.Panic (Kmem × PageDir × Option (Nat × Nat)) := do
  let (k, d, sz) ← allocuvm L k d (pgRoundUp sz) (pgRoundUp sz + 2 * 4096)
  if sz = 0 then
    return (k, d, none)
  let d ← clearpteu d (sz - 2 * 4096)
  match pushArgs copyout k d sz [] argv with
  | (k, none) => return (k, d, none)
  | (k, some (sp, ustack)) =>
    let argc := ustack.length
    let frame := [2 ^ 32 - 1, argc, (sp + 2 ^ 32 - (argc + 1) * 4) % 2 ^ 32] ++ ustack ++ [0]
    let sp := (sp + 2 ^ 32 - (3 + argc + 1) * 4) % 2 ^ 32
    match copyTo copyout k d sp (frame.flatMap word) with
    | (k, false) => return (k, d, none)
    | (k, true) => return (k, d, some (sz, sp))

def progName (path : List UInt8) : List UInt8 :=
  (path.reverse.takeWhile (· ≠ 47)).reverse.take 15

def readElf (data : List UInt8) : Option (List UInt8) :=
  match readi data 0 52 with
  | none => none
  | some l => if l.length = 52 ∧ field l 0 4 = 0x464C457F then some l else none

def exec (L : Layout) (copyout : Copyout) (file : Option (List UInt8)) (path : List UInt8)
    (argv : List (List UInt8)) (s : State) : Except Vm.Panic (State × Int) :=
  let io := s.io.beginOp
  match file with
  | none => .ok ({ s with io := io.endOp }, -1)
  | some data =>
    let io := io.namei.ilock
    match readElf data with
    | none => .ok ({ s with io := io.iunlockput.endOp }, -1)
    | some elf => do
      let (k, r) ← setupkvm L s.kmem
      match r with
      | none => return ({ s with kmem := k, io := io.iunlockput.endOp }, -1)
      | some d =>
        let (k, d, r) ← loadSegs L k d data 0 (field elf 28 4) (field elf 44 2)
        match r with
        | none =>
          let k ← freevm L k d
          return ({ s with kmem := k, io := io.iunlockput.endOp }, -1)
        | some sz =>
          let io := io.iunlockput.endOp
          let (k, d, r) ← buildStack L copyout k d sz argv
          match r with
          | none =>
            let k ← freevm L k d
            return ({ s with kmem := k, io }, -1)
          | some (sz, sp) =>
            let oldpgdir := s.proc.pgdir
            let proc := { pgdir := d, sz, eip := field elf 24 4, esp := sp, name := progName path }
            let k ← freevm L k oldpgdir
            return ({ kmem := k, io, proc }, 0)

end Exec
end Xv6
