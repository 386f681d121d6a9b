import Xv6.Lib.Circle
import Xv6.Lib.Extent
import Xv6.Lib.Reach

/-!
The model of the memory allocator of user programs (`umalloc.c`). Addresses are
byte addresses, and a `Header` takes 8 bytes.
-/

namespace Xv6
namespace Umalloc

structure Heap where
  ptr : Nat → Nat
  size : Nat → Nat
  freep : Nat
  brk : Nat
  plan : List (Option Nat)
  got : List Extent

namespace Heap

def setPtr (h : Heap) (p q : Nat) : Heap :=
  { h with ptr := Function.update h.ptr p q }

def setSize (h : Heap) (p n : Nat) : Heap :=
  { h with size := Function.update h.size p n }

def shrink (h : Heap) (n : Nat) : Heap × Option Nat :=
  let sz := (h.brk + n) % 2 ^ 32
  if h.brk ≤ sz then
    (h, some h.brk)
  else if sz = 0 then
    (h, none)
  else
    ({ h with brk := sz }, some h.brk)

def sbrk (h : Heap) (n : Nat) : Heap × Option Nat :=
  if 0 < n ∧ n < 2 ^ 31 then
    match h.plan with
    | [] => (h, none)
    | none :: plan => ({ h with plan }, none)
    | some gap :: plan =>
      if h.brk + gap + n < 2 ^ 31 then
        let got := ⟨h.brk + gap, n⟩ :: h.got
        ({ h with brk := h.brk + gap + n, plan, got }, some (h.brk + gap))
      else
        ({ h with plan }, none)
  else
    h.shrink n

def stops (h : Heap) (bp p : Nat) : Bool :=
  (p < bp && bp < h.ptr p) || (h.ptr p ≤ p && (p < bp || bp < h.ptr p))

def joinUpper (h : Heap) (bp p : Nat) : Heap :=
  if bp + 8 * h.size bp = h.ptr p then
    let h := h.setSize bp (h.size bp + h.size (h.ptr p))
    h.setPtr bp (h.ptr (h.ptr p))
  else
    h.setPtr bp (h.ptr p)

def joinLower (h : Heap) (bp p : Nat) : Heap :=
  if p + 8 * h.size p = bp then
    let h := h.setSize p (h.size p + h.size bp)
    h.setPtr p (h.ptr bp)
  else
    h.setPtr p bp

def free (h : Heap) (fuel : Nat) (ap : Nat) : Option Heap := do
  let bp := ap - 8
  let p ← Circle.find h.ptr (h.stops bp) fuel h.freep
  let h := h.joinUpper bp p
  let h := h.joinLower bp p
  return { h with freep := p }

def morecore (h : Heap) (fuel : Nat) (nu : Nat) : Option (Heap × Nat) :=
  let nu := if nu < 4096 then 4096 else nu
  match h.sbrk (nu * 8 % 2 ^ 32) with
  | (h, none) => some (h, 0)
  | (h, some hp) => do
    let h := h.setSize hp nu
    let h ← h.free fuel (hp + 8)
    return (h, h.freep)

def take (h : Heap) (nunits prevp p : Nat) : Heap × Nat :=
  if h.size p = nunits then
    ({ h.setPtr prevp (h.ptr p) with freep := prevp }, p + 8)
  else
    let h := h.setSize p (h.size p - nunits)
    let p := p + 8 * h.size p
    ({ h.setSize p nunits with freep := prevp }, p + 8)

def mallocLoop (h : Heap) (rounds fuel : Nat) (nunits prevp p : Nat) : Option (Heap × Nat) :=
  match fuel with
  | 0 => none
  | fuel + 1 =>
    if nunits ≤ h.size p then
      some (h.take nunits prevp p)
    else if p = h.freep then do
      let (h, p) ← h.morecore rounds nunits
      if p = 0 then
        return (h, 0)
      h.mallocLoop rounds fuel nunits p (h.ptr p)
    else
      h.mallocLoop rounds fuel nunits p (h.ptr p)

def start (h : Heap) (base : Nat) : Heap :=
  if h.freep = 0 then
    { (h.setPtr base base).setSize base 0 with freep := base }
  else
    h

def malloc (h : Heap) (base fuel : Nat) (nbytes : Nat) : Option (Heap × Nat) :=
  let nunits := (nbytes + 8 - 1) % 2 ^ 32 / 8 + 1
  let h := h.start base
  h.mallocLoop fuel fuel nunits h.freep (h.ptr h.freep)

end Heap

structure State where
  heap : Heap
  live : List Extent

inductive Op where
  | malloc (nbytes : Nat)
  | free (ap : Nat)
  | write

inductive Steps (base : Nat) (s : State) : Op → State → Prop where
  | malloc {nbytes fuel : Nat} {h : Heap} {p : Nat} (hbytes : nbytes < 2 ^ 31 - 4096)
    (hfuel : 2 * s.heap.brk + 1 ≤ fuel) (heq : s.heap.malloc base fuel nbytes = some (h, p))
    : Steps base s (.malloc nbytes)
        { heap := h, live := if p = 0 then s.live else ⟨p - 8, h.size (p - 8)⟩ :: s.live }
  | free {b : Extent} {fuel : Nat} {h : Heap} (hb : b ∈ s.live)
    (hfuel : s.heap.brk ≤ fuel) (heq : s.heap.free fuel (b.start + 8) = some h)
    : Steps base s (.free (b.start + 8)) { heap := h, live := s.live.erase b }
  | write {ptr size : Nat → Nat}
    (hsame : ∀ a, (∀ b ∈ s.live, a ≤ b.start ∨ b.stop 8 ≤ a)
      → ptr a = s.heap.ptr a ∧ size a = s.heap.size a)
    : Steps base s .write { s with heap := { s.heap with ptr, size } }

structure State.Initial (base : Nat) (s : State) : Prop where
  base_pos : 0 < base
  base_lt : base + 8 ≤ s.heap.brk
  brk_le : s.heap.brk ≤ 2 ^ 31
  freep_eq : s.heap.freep = 0
  got_eq : s.heap.got = []
  live_eq : s.live = []

end Umalloc
end Xv6
