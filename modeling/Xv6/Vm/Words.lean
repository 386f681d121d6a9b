import Xv6.Exec.Copyout

namespace Xv6
namespace Vm
namespace Words

abbrev PTE_P : UInt32 := 0x001
abbrev PTE_W : UInt32 := 0x002
abbrev PTE_U : UInt32 := 0x004

def pdx (va : UInt32) : UInt32 :=
  (va >>> 22) &&& 0x3FF

def ptx (va : UInt32) : UInt32 :=
  (va >>> 12) &&& 0x3FF

def pgRoundDown (a : UInt32) : UInt32 :=
  a &&& ~~~0xFFF

def pteAddr (pte : UInt32) : UInt32 :=
  pte &&& ~~~0xFFF

def pteFlags (pte : UInt32) : UInt32 :=
  pte &&& 0xFFF

def v2p (a : UInt32) : UInt32 :=
  a - 0x80000000

def p2v (a : UInt32) : UInt32 :=
  a + 0x80000000

abbrev Mem := UInt32 → UInt32

def clear (m : Mem) (p : UInt32) : Mem :=
  fun a => if a - p < 4096 then 0 else m a

def walkpgdir (k : Kmem) (m : Mem) (pgdir va : UInt32) (alloc : Bool) : Kmem × Mem × Option UInt32 :=
  let pde := pgdir + 4 * pdx va
  if m pde &&& PTE_P ≠ 0 then
    (k, m, some (p2v (pteAddr (m pde)) + 4 * ptx va))
  else if !alloc then
    (k, m, none)
  else
    match kalloc k with
    | (k, none) => (k, m, none)
    | (k, some r) =>
      let pgtab := p2v (UInt32.ofNat r)
      let m := Function.update (clear m pgtab) pde (v2p pgtab ||| PTE_P ||| PTE_W ||| PTE_U)
      (k, m, some (pgtab + 4 * ptx va))

def mapLoop (pgdir last perm : UInt32) (k : Kmem) (m : Mem) (a pa : UInt32) (fuel : Nat)
    : Option (Except Panic (Kmem × Mem × Int)) :=
  match fuel with
  | 0 => none
  | fuel + 1 =>
    match walkpgdir k m pgdir a true with
    | (k, m, none) => some (.ok (k, m, -1))
    | (k, m, some pte) =>
      if m pte &&& PTE_P ≠ 0 then
        some (.error .remap)
      else
        let m := Function.update m pte (pa ||| perm ||| PTE_P)
        if a = last then
          some (.ok (k, m, 0))
        else
          mapLoop pgdir last perm k m (a + 4096) (pa + 4096) fuel

def mappages (k : Kmem) (m : Mem) (pgdir va size pa perm : UInt32) (fuel : Nat)
    : Option (Except Panic (Kmem × Mem × Int)) :=
  mapLoop pgdir (pgRoundDown (va + size - 1)) perm k m (pgRoundDown va) pa fuel

theorem toNat_pgRoundDown (a : UInt32) : (pgRoundDown a).toNat = a.toNat / 4096 * 4096 := by
  have hlt := a.toNat_lt
  have hmask : (~~~0xFFF : UInt32).toNat = (2 ^ 20 - 1) <<< 12 := rfl
  have hdiv : a.toNat / 4096 * 4096 = (a.toNat >>> 12) <<< 12 := by
    rw [Nat.shiftRight_eq_div_pow, Nat.shiftLeft_eq]
  unfold pgRoundDown
  rw [UInt32.toNat_and, hmask, hdiv]
  apply Nat.eq_of_testBit_eq
  intro i
  rw [Nat.testBit_and, Nat.testBit_shiftLeft, Nat.testBit_shiftLeft, Nat.testBit_shiftRight,
    Nat.testBit_two_pow_sub_one]
  by_cases hi : 12 ≤ i
  . rw [Nat.add_sub_cancel' hi]
    by_cases hlast : i < 32
    . simp [hi, show i - 12 < 20 by omega]
    . rw [Nat.testBit_lt_two_pow (Nat.lt_of_lt_of_le hlt (Nat.pow_le_pow_right (by decide) (by omega)))]
      simp
  . simp [hi]

theorem toNat_pteAddr (w : UInt32) : (pteAddr w).toNat = w.toNat / 4096 * 4096 :=
  toNat_pgRoundDown w

theorem toNat_and_mask {x mask : UInt32} {n : Nat} (h : mask.toNat = 2 ^ n - 1)
    : (x &&& mask).toNat = x.toNat % 2 ^ n := by
  rw [UInt32.toNat_and, h, Nat.and_two_pow_sub_one_eq_mod]

theorem toNat_pteFlags (w : UInt32) : (pteFlags w).toNat = w.toNat % 4096 :=
  toNat_and_mask (n := 12) rfl

theorem and_PTE_P_eq_zero (w : UInt32) : w &&& PTE_P = 0 ↔ w.toNat % 2 = 0 := by
  rw [← UInt32.toNat_inj, toNat_and_mask (n := 1) rfl]
  rfl

theorem or_and_PTE_P (x f : UInt32) (h : f.toNat % 2 = 1) : (x ||| f) &&& PTE_P ≠ 0 := by
  rw [Ne, and_PTE_P_eq_zero, UInt32.toNat_or]
  have hmod : (x.toNat ||| f.toNat) % 2 ^ 1 = x.toNat % 2 ^ 1 ||| f.toNat % 2 ^ 1 := Nat.or_mod_two_pow
  change (x.toNat ||| f.toNat) % 2 ^ 1 ≠ 0
  change f.toNat % 2 ^ 1 = 1 at h
  rw [hmod, h]
  exact fun hzero => Nat.one_ne_zero (Nat.or_eq_zero_iff.mp hzero).2

theorem pteAddr_or {f : UInt32} (x : UInt32) (h : f.toNat < 4096) : pteAddr (x ||| f) = pteAddr x := by
  apply UInt32.toNat_inj.mp
  have hdiv : (x.toNat ||| f.toNat) / 2 ^ 12 = x.toNat / 2 ^ 12 ||| f.toNat / 2 ^ 12 := Nat.or_div_two_pow
  have hzero : f.toNat / 2 ^ 12 = 0 := Nat.div_eq_of_lt h
  rw [hzero, Nat.or_zero] at hdiv
  rw [toNat_pteAddr, toNat_pteAddr, UInt32.toNat_or]
  exact congrArg (· * 4096) hdiv

theorem pteFlags_or {x : UInt32} (f : UInt32) (h : x.toNat % 4096 = 0) : pteFlags (x ||| f) = pteFlags f := by
  apply UInt32.toNat_inj.mp
  have hmod : (x.toNat ||| f.toNat) % 2 ^ 12 = x.toNat % 2 ^ 12 ||| f.toNat % 2 ^ 12 := Nat.or_mod_two_pow
  rw [show x.toNat % 2 ^ 12 = 0 from h, Nat.zero_or] at hmod
  rw [toNat_pteFlags, toNat_pteFlags, UInt32.toNat_or]
  exact hmod

theorem toNat_pdx (va : UInt32) : (pdx va).toNat = va.toNat / 2 ^ 22 := by
  have hlt := va.toNat_lt
  unfold pdx
  rw [toNat_and_mask (n := 10) rfl, UInt32.toNat_shiftRight]
  change va.toNat >>> 22 % 2 ^ 10 = _
  rw [Nat.shiftRight_eq_div_pow]
  omega

theorem toNat_ptx (va : UInt32) : (ptx va).toNat = va.toNat / 4096 % 1024 := by
  unfold ptx
  rw [toNat_and_mask (n := 10) rfl, UInt32.toNat_shiftRight]
  change va.toNat >>> 12 % 2 ^ 10 = _
  rw [Nat.shiftRight_eq_div_pow]
  rfl

theorem or_eq_add {p f : UInt32} (hp : p.toNat % 4096 = 0) (hf : f.toNat < 4096) : p ||| f = p + f := by
  have hlt := p.toNat_lt
  have hor : 2 ^ 12 * (p.toNat / 4096) + f.toNat = 2 ^ 12 * (p.toNat / 4096) ||| f.toNat :=
    Nat.two_pow_add_eq_or_of_lt hf _
  have hp' : 2 ^ 12 * (p.toNat / 4096) = p.toNat := by omega
  rw [hp'] at hor
  apply UInt32.toNat_inj.mp
  rw [UInt32.toNat_or, UInt32.toNat_add, ← hor]
  omega

theorem lt_of_pteAddr_eq_zero {perm : UInt32} (h : pteAddr perm = 0) : perm.toNat < 4096 := by
  have hzero : (pteAddr perm).toNat = 0 := by
    rw [h]
    rfl
  rw [toNat_pteAddr] at hzero
  omega

theorem lt_or_PTE_P {perm : UInt32} (h : pteAddr perm = 0) : (perm ||| PTE_P).toNat < 4096 := by
  rw [UInt32.toNat_or]
  exact Nat.or_lt_two_pow (n := 12) (lt_of_pteAddr_eq_zero h) (by decide)

theorem translate_of_pte {pa perm : UInt32} (x : UInt32) (hpa : pa.toNat % 4096 = 0) (hperm : pteAddr perm = 0)
    : (pteAddr (pa ||| perm ||| PTE_P) ||| (x &&& 0xFFF), pteFlags (pa ||| perm ||| PTE_P))
      = (pa + (x - pgRoundDown x), perm ||| PTE_P) := by
  have hflags := lt_or_PTE_P hperm
  have haddr : pteAddr pa = pa := by
    apply UInt32.toNat_inj.mp
    rw [toNat_pteAddr]
    omega
  have hself : pteFlags (perm ||| PTE_P) = perm ||| PTE_P := by
    apply UInt32.toNat_inj.mp
    rw [toNat_pteFlags, Nat.mod_eq_of_lt hflags]
  have hoff : x &&& 0xFFF = x - pgRoundDown x := by
    have hlt := x.toNat_lt
    have hx : (x &&& 0xFFF).toNat = x.toNat % 4096 := toNat_pteFlags x
    apply UInt32.toNat_inj.mp
    rw [hx, UInt32.toNat_sub, toNat_pgRoundDown]
    omega
  have hlow : (x - pgRoundDown x).toNat < 4096 := by
    rw [← hoff, show (x &&& 0xFFF).toNat = x.toNat % 4096 from toNat_pteFlags x]
    omega
  rw [UInt32.or_assoc, pteAddr_or _ hflags, haddr, pteFlags_or _ hpa, hself, hoff, or_eq_add hpa hlow]

def pteOf (pa perm : UInt32) : Pte where
  pa := pa.toNat
  w := perm.toNat / 2 % 2 = 1
  u := perm.toNat / 4 % 2 = 1
  rest := perm.toNat / 8

theorem toNat_or_PTE_P (perm : UInt32) : (perm ||| PTE_P).toNat = perm.toNat / 2 * 2 + 1 := by
  have hdiv : (perm.toNat ||| 1) / 2 ^ 1 = perm.toNat / 2 ^ 1 ||| 1 / 2 ^ 1 := Nat.or_div_two_pow
  have hodd := or_and_PTE_P perm PTE_P rfl
  rw [Ne, and_PTE_P_eq_zero, UInt32.toNat_or] at hodd
  rw [UInt32.toNat_or]
  change (perm.toNat ||| 1) % 2 ≠ 0 at hodd
  change perm.toNat ||| 1 = _
  rw [show 1 / 2 ^ 1 = 0 from rfl, Nat.or_zero] at hdiv
  omega

theorem entry_pte {pa perm : UInt32} (hpa : pa.toNat % 4096 = 0) (hperm : pteAddr perm = 0)
    : Exec.Walk.entry (pa ||| perm ||| PTE_P).toNat = some (pteOf pa perm) := by
  have hlt := pa.toNat_lt
  have hflags := lt_or_PTE_P hperm
  have hor := toNat_or_PTE_P perm
  rw [UInt32.or_assoc, or_eq_add hpa hflags, UInt32.toNat_add]
  unfold Exec.Walk.entry
  rw [if_pos (by omega)]
  unfold pteOf
  congr 2
  . omega
  . exact decide_eq_decide.mpr (by omega)
  . exact decide_eq_decide.mpr (by omega)
  . omega

end Words
end Vm
end Xv6
