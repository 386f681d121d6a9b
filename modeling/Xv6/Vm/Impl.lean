import Mathlib.Data.Nat.Bitwise
import Mathlib.Logic.Function.Basic

namespace Xv6
namespace Vm

inductive Panic where
  | kfree
  | remap
  | loaduvmAlign
  | loaduvmExist
  | clearpteu
  | copyuvmExist
  | copyuvmPresent
deriving DecidableEq, Repr

abbrev KERNBASE : Nat := 0x80000000
abbrev EXTMEM : Nat := 0x100000
abbrev PHYSTOP : Nat := 0xE000000
abbrev DEVSPACE : Nat := 0xFE000000

structure Layout where
  data : Nat
  kend : Nat
  data_align : data % 4096 = 0
  data_above : KERNBASE + EXTMEM < data
  data_below : data < KERNBASE + PHYSTOP
  kend_pos : 0 < kend

abbrev Page := Nat → UInt8

structure Kmem where
  freelist : List Nat
  plan : List Bool
  mem : Nat → Page

def kalloc (k : Kmem) : Kmem × Option Nat :=
  if k.plan.headD false then
    ({ k with plan := k.plan.tail }, none)
  else
    match k.freelist with
    | [] => ({ k with plan := k.plan.tail }, none)
    | r :: l => ({ k with plan := k.plan.tail, freelist := l }, some r)

def kfree (L : Layout) (k : Kmem) (v : Nat) : Except Panic Kmem :=
  if v % 4096 ≠ 0 ∨ v < L.kend ∨ PHYSTOP ≤ v then
    .error .kfree
  else
    .ok { k with freelist := v :: k.freelist, mem := Function.update k.mem v (fun _ => 1) }

structure Pte where
  pa : Nat
  w : Bool
  u : Bool
  rest : Nat
deriving DecidableEq, Repr

structure PageDir where
  page : Nat
  table : Nat → Option Nat
  pte : Nat → Option Pte

namespace PageDir

def blank (page : Nat) : PageDir where
  page := page
  table _ := none
  pte _ := none

def setTable (d : PageDir) (i : Nat) (t : Nat) : PageDir :=
  { d with table := Function.update d.table i (some t) }

def setPte (d : PageDir) (v : Nat) (e : Option Pte) : PageDir :=
  { d with pte := Function.update d.pte v e }

end PageDir

def walkpgdir (k : Kmem) (d : PageDir) (v : Nat) : Kmem × PageDir × Bool :=
  match d.table (v / 1024) with
  | some _ => (k, d, true)
  | none =>
    match kalloc k with
    | (k, none) => (k, d, false)
    | (k, some t) => (k, d.setTable (v / 1024) t, true)

def mapPage (k : Kmem) (d : PageDir) (v : Nat) (e : Pte) : Except Panic (Kmem × PageDir × Bool) :=
  match walkpgdir k d v with
  | (k, d, false) => .ok (k, d, false)
  | (k, d, true) =>
    if (d.pte v).isSome then
      .error .remap
    else
      .ok (k, d.setPte v (some e), true)

def mapLoop (k : Kmem) (d : PageDir) (v n : Nat) (e : Pte) : Except Panic (Kmem × PageDir × Bool) :=
  match n with
  | 0 => .ok (k, d, true)
  | n + 1 => do
    let (k, d, ok) ← mapPage k d v e
    if ok then
      mapLoop k d (v + 1) n { e with pa := e.pa + 4096 }
    else
      return (k, d, false)

def mappages (k : Kmem) (d : PageDir) (va size : Nat) (e : Pte)
    : Except Panic (Kmem × PageDir × Bool) :=
  mapLoop k d (va / 4096) ((va + size - 1) / 4096 + 1 - va / 4096) e

def pgRoundUp (a : Nat) : Nat :=
  (a + 4095) / 4096 * 4096

theorem le_pgRoundUp (a : Nat) : a ≤ pgRoundUp a := by
  unfold pgRoundUp
  omega

theorem pgRoundUp_mod (a : Nat) : pgRoundUp a % 4096 = 0 := by
  unfold pgRoundUp
  omega

def deallocLoop (L : Layout) (k : Kmem) (d : PageDir) (oldsz a : Nat) : Except Panic (Kmem × PageDir) :=
  if _h : a < oldsz then
    match d.table (a / 4096 / 1024) with
    | none => deallocLoop L k d oldsz ((a / 4096 / 1024 + 1) * 1024 * 4096)
    | some _ =>
      match d.pte (a / 4096) with
      | none => deallocLoop L k d oldsz (a + 4096)
      | some e =>
        if e.pa = 0 then
          .error .kfree
        else do
          let k ← kfree L k e.pa
          deallocLoop L k (d.setPte (a / 4096) none) oldsz (a + 4096)
  else
    .ok (k, d)
termination_by oldsz - a
decreasing_by all_goals omega

def deallocuvm (L : Layout) (k : Kmem) (d : PageDir) (oldsz newsz : Nat)
    : Except Panic (Kmem × PageDir × Nat) :=
  if oldsz ≤ newsz then
    .ok (k, d, oldsz)
  else do
    let (k, d) ← deallocLoop L k d oldsz (pgRoundUp newsz)
    return (k, d, newsz)

def allocLoop (L : Layout) (k : Kmem) (d : PageDir) (oldsz newsz a : Nat)
    : Except Panic (Kmem × PageDir × Nat) :=
  if _h : a < newsz then
    match kalloc k with
    | (k, none) => do
      let (k, d, _) ← deallocuvm L k d newsz oldsz
      return (k, d, 0)
    | (k, some mem) => do
      let k := { k with mem := Function.update k.mem mem (fun _ => 0) }
      let (k, d, ok) ← mappages k d a 4096 ⟨mem, true, true, 0⟩
      if ok then
        allocLoop L k d oldsz newsz (a + 4096)
      else do
        let (k, d, _) ← deallocuvm L k d newsz oldsz
        let k ← kfree L k mem
        return (k, d, 0)
  else
    .ok (k, d, newsz)
termination_by newsz - a
decreasing_by all_goals omega

def allocuvm (L : Layout) (k : Kmem) (d : PageDir) (oldsz newsz : Nat)
    : Except Panic (Kmem × PageDir × Nat) :=
  if KERNBASE ≤ newsz then
    .ok (k, d, 0)
  else if newsz < oldsz then
    .ok (k, d, oldsz)
  else
    allocLoop L k d oldsz newsz (pgRoundUp oldsz)

def freeTables (L : Layout) (k : Kmem) (d : PageDir) (l : List Nat) : Except Panic Kmem :=
  match l with
  | [] => .ok k
  | i :: l =>
    match d.table i with
    | none => freeTables L k d l
    | some t => do
      let k ← kfree L k t
      freeTables L k d l

def freevm (L : Layout) (k : Kmem) (d : PageDir) : Except Panic Kmem := do
  let (k, d, _) ← deallocuvm L k d KERNBASE 0
  let k ← freeTables L k d (List.range 1024)
  kfree L k d.page

structure Kmap where
  virt : Nat
  physStart : Nat
  physEnd : Nat
  w : Bool

def kmap (L : Layout) : List Kmap :=
  [⟨KERNBASE, 0, EXTMEM, true⟩,
   ⟨KERNBASE + EXTMEM, EXTMEM, L.data - KERNBASE, false⟩,
   ⟨L.data, L.data - KERNBASE, PHYSTOP, true⟩,
   ⟨DEVSPACE, DEVSPACE, 0, true⟩]

def Kmap.size (m : Kmap) : Nat :=
  (m.physEnd + 2 ^ 32 - m.physStart) % 2 ^ 32

def kmapLoop (L : Layout) (k : Kmem) (d : PageDir) (l : List Kmap)
    : Except Panic (Kmem × Option PageDir) :=
  match l with
  | [] => .ok (k, some d)
  | m :: l => do
    let (k, d, ok) ← mappages k d m.virt m.size ⟨m.physStart, m.w, false, 0⟩
    if ok then
      kmapLoop L k d l
    else do
      let k ← freevm L k d
      return (k, none)

def setupkvm (L : Layout) (k : Kmem) : Except Panic (Kmem × Option PageDir) :=
  match kalloc k with
  | (k, none) => .ok (k, none)
  | (k, some page) => kmapLoop L k (.blank page) (kmap L)

def PageDir.walks (d : PageDir) (v : Nat) : Bool :=
  (d.table (v / 1024)).isSome

def clearpteu (d : PageDir) (uva : Nat) : Except Panic PageDir :=
  if d.walks (uva / 4096) then
    .ok (d.setPte (uva / 4096) ((d.pte (uva / 4096)).map fun e => { e with u := false }))
  else
    .error .clearpteu

def copyLoop (L : Layout) (k : Kmem) (src d : PageDir) (sz i : Nat)
    : Except Panic (Kmem × Option PageDir) :=
  if _h : i < sz then
    if src.walks (i / 4096) then
      match src.pte (i / 4096) with
      | none => .error .copyuvmPresent
      | some e =>
        match kalloc k with
        | (k, none) => do
          let k ← freevm L k d
          return (k, none)
        | (k, some mem) => do
          let k := { k with mem := Function.update k.mem mem (k.mem e.pa) }
          let (k, d, ok) ← mappages k d i 4096 { e with pa := mem }
          if ok then
            copyLoop L k src d sz (i + 4096)
          else do
            let k ← kfree L k mem
            let k ← freevm L k d
            return (k, none)
    else
      .error .copyuvmExist
  else
    .ok (k, some d)
termination_by sz - i
decreasing_by omega

def copyuvm (L : Layout) (k : Kmem) (src : PageDir) (sz : Nat)
    : Except Panic (Kmem × Option PageDir) := do
  let (k, r) ← setupkvm L k
  match r with
  | none => return (k, none)
  | some d => copyLoop L k src d sz 0

def inituvm (k : Kmem) (d : PageDir) (init : Page) : Except Panic (Option (Kmem × PageDir)) :=
  match kalloc k with
  | (_, none) => .ok none
  | (k, some mem) => do
    let (k, d, ok) ← mappages k d 0 4096 ⟨mem, true, true, 0⟩
    if ok then
      return some ({ k with mem := Function.update k.mem mem init }, d)
    else
      return none

def freerange (L : Layout) (k : Kmem) (p vend : Nat) : Except Panic Kmem :=
  if _h : p + 4096 ≤ vend then do
    let k ← kfree L k p
    freerange L k (p + 4096) vend
  else
    .ok k
termination_by vend - p
decreasing_by omega

end Vm
end Xv6
