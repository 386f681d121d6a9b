import Mathlib.Data.Nat.Bitwise
import Xv6.Lib.Probe

namespace Xv6
namespace Syscall

structure Proc where
  sz : UInt32
  esp : UInt32
  mem : UInt32 → UInt8

abbrev KERNBASE : Nat := 2 ^ 31

abbrev MAXARG : Nat := 32

namespace Proc

def cells (addr : UInt32) : List UInt32 :=
  [addr, addr + 1, addr + 2, addr + 3]

def int (p : Proc) (addr : UInt32) : UInt32 :=
  (p.mem addr).toUInt32 ||| (p.mem (addr + 1)).toUInt32 <<< 8 ||| (p.mem (addr + 2)).toUInt32 <<< 16
    ||| (p.mem (addr + 3)).toUInt32 <<< 24

def fetchint (p : Proc) (addr : UInt32) : Probe UInt32 UInt32 :=
  if addr ≥ p.sz ∨ addr + 4 > p.sz then .fail else .read (cells addr) (p.int addr)

def fetchstrLoop (p : Proc) (s : UInt32) (k : Nat) : Probe UInt32 UInt32 :=
  match k with
  | 0 => .fail
  | k + 1 =>
    if s < p.sz then do
      let c ← Probe.read [s] (p.mem s)
      if c = 0 then
        return s
      else
        fetchstrLoop p (s + 1) k
    else
      .fail

def fetchstr (p : Proc) (addr : UInt32) : Probe UInt32 (UInt32 × UInt32) :=
  if addr ≥ p.sz then
    .fail
  else do
    let s ← p.fetchstrLoop addr (2 ^ 32 - addr.toNat)
    return (addr, s - addr)

def argint (p : Proc) (n : UInt32) : Probe UInt32 UInt32 :=
  p.fetchint (p.esp + 4 + 4 * n)

def argptr (p : Proc) (n : UInt32) (size : Int32) : Probe UInt32 UInt32 := do
  let i ← p.argint n
  if size < 0 ∨ i ≥ p.sz ∨ i + size.toUInt32 > p.sz then
    .fail
  else
    return i

def argstr (p : Proc) (n : UInt32) : Probe UInt32 (UInt32 × UInt32) := do
  let addr ← p.argint n
  p.fetchstr addr

def argvLoop (p : Proc) (uargv : UInt32) (i k : Nat) : Probe UInt32 (List (UInt32 × UInt32)) :=
  match k with
  | 0 => .fail
  | k + 1 => do
    let uarg ← p.fetchint (uargv + 4 * UInt32.ofNat i)
    if uarg = 0 then
      return []
    else do
      let arg ← p.fetchstr uarg
      let argv ← p.argvLoop uargv (i + 1) k
      return arg :: argv

def sysExec (p : Proc) : Probe UInt32 ((UInt32 × UInt32) × List (UInt32 × UInt32)) := do
  let path ← p.argstr 0
  let uargv ← p.argint 1
  let argv ← p.argvLoop uargv 0 MAXARG
  return (path, argv)

def Inside (p : Proc) (a : UInt32) : Prop :=
  a.toNat < p.sz.toNat

structure IsString (p : Proc) (s : UInt32 × UInt32) : Prop where
  inside : s.1.toNat + s.2.toNat + 1 ≤ p.sz.toNat
  nul : p.mem (s.1 + s.2) = 0
  chars : ∀ i, i < s.2 → p.mem (s.1 + i) ≠ 0

variable {p : Proc}

theorem refused_iff {sz addr size : UInt32} (hsz : sz.toNat ≤ KERNBASE) (hsize : size.toNat < 2 ^ 31)
    : (addr ≥ sz ∨ addr + size > sz) ↔ sz.toNat ≤ addr.toNat ∨ sz.toNat < addr.toNat + size.toNat := by
  have hsz : sz.toNat ≤ 2 ^ 31 := hsz
  -- the sum wraps only if the address is above `KERNBASE`, and then the first test refuses it
  rw [ge_iff_le, gt_iff_lt, UInt32.le_iff_toNat_le, UInt32.lt_iff_toNat_lt, UInt32.toNat_add]
  omega

theorem fetchint_sat (hsz : p.sz.toNat ≤ KERNBASE) (addr : UInt32)
    : Probe.Sat p.Inside (fun _ => addr.toNat + 4 ≤ p.sz.toNat) (p.fetchint addr) := by
  have hfour : (4 : UInt32).toNat = 4 := rfl
  unfold fetchint
  split
  . exact Probe.sat_fail
  . next h =>
    rw [refused_iff hsz (by decide)] at h
    have hlt : addr.toNat + 4 ≤ p.sz.toNat := by omega
    refine ⟨?_, fun _ _ => hlt⟩
    have hsz : p.sz.toNat ≤ 2 ^ 31 := hsz
    have hadd : ∀ k : UInt32, k.toNat < 4 → (addr + k).toNat < p.sz.toNat := by
      intro k hk
      rw [UInt32.toNat_add]
      omega
    intro a ha
    change a ∈ [addr, addr + 1, addr + 2, addr + 3] at ha
    rw [List.mem_cons, List.mem_cons, List.mem_cons, List.mem_singleton] at ha
    unfold Inside
    rcases ha with rfl | rfl | rfl | rfl
    . omega
    . exact hadd 1 (by decide)
    . exact hadd 2 (by decide)
    . exact hadd 3 (by decide)

theorem fetchint_accepts (hsz : p.sz.toNat ≤ KERNBASE) {addr : UInt32} (h : addr.toNat + 4 ≤ p.sz.toNat)
    : (p.fetchint addr).value = some (p.int addr) := by
  have hfour : (4 : UInt32).toNat = 4 := rfl
  have htaken : ¬(addr ≥ p.sz ∨ addr + 4 > p.sz) := by
    rw [refused_iff hsz (by decide)]
    omega
  unfold fetchint
  rw [if_neg htaken]
  rfl

theorem fetchstrLoop_sat {k : Nat} (s : UInt32) (hk : s.toNat + k ≤ 2 ^ 32)
    : Probe.Sat p.Inside
      (fun e => s.toNat ≤ e.toNat ∧ e.toNat < p.sz.toNat ∧ p.mem e = 0
        ∧ ∀ a : UInt32, s.toNat ≤ a.toNat → a.toNat < e.toNat → p.mem a ≠ 0)
      (p.fetchstrLoop s k) := by
  induction k generalizing s with
  | zero => exact Probe.sat_fail
  | succ k ih =>
    unfold fetchstrLoop
    split
    . next hs =>
      have hs : s.toNat < p.sz.toNat := hs
      have hlt := p.sz.toNat_lt
      have hread : Probe.Sat p.Inside (fun c => c = p.mem s) (Probe.read [s] (p.mem s)) := by
        refine ⟨?_, ?_⟩
        . intro a ha
          rw [List.mem_singleton.mp ha]
          exact hs
        . intro v hv
          exact (Option.some.inj hv).symm
      apply hread.bind
      rintro c rfl
      split
      . next hc => exact Probe.sat_ret ⟨Nat.le_refl _, hs, hc, fun a h h' => absurd h (by omega)⟩
      . next hc =>
        have hsucc : (s + 1).toNat = s.toNat + 1 := by
          rw [UInt32.toNat_add]
          have hone : (1 : UInt32).toNat = 1 := rfl
          omega
        apply (ih (s + 1) (by omega)).mono
        rintro e ⟨hle, he, hnul, hchars⟩
        refine ⟨by omega, he, hnul, ?_⟩
        intro a ha hae
        by_cases has : a.toNat = s.toNat
        . rw [UInt32.toNat_inj.mp has]
          exact hc
        . exact hchars a (by omega) hae
    . exact Probe.sat_fail

theorem fetchstr_sat (addr : UInt32)
    : Probe.Sat p.Inside (fun s => s.1 = addr ∧ p.IsString s) (p.fetchstr addr) := by
  unfold fetchstr
  split
  . exact Probe.sat_fail
  have haddr := addr.toNat_lt
  apply (fetchstrLoop_sat addr (by omega)).bind
  rintro e ⟨hle, he, hnul, hchars⟩
  have hlen : (e - addr).toNat = e.toNat - addr.toNat := UInt32.toNat_sub_of_le _ _ hle
  refine Probe.sat_ret ⟨rfl, ⟨?_, ?_, ?_⟩⟩
  . dsimp only
    omega
  . dsimp only
    rw [UInt32.add_comm, UInt32.sub_add_cancel]
    exact hnul
  . intro i hi
    have hi : i.toNat < (e - addr).toNat := hi
    have hlt := p.sz.toNat_lt
    have hsum : (addr + i).toNat = addr.toNat + i.toNat := by
      rw [UInt32.toNat_add]
      omega
    exact hchars (addr + i) (by omega) (by omega)

theorem argint_sat (hsz : p.sz.toNat ≤ KERNBASE) (n : UInt32)
    : Probe.Sat p.Inside (fun _ => (p.esp + 4 + 4 * n).toNat + 4 ≤ p.sz.toNat) (p.argint n) :=
  fetchint_sat hsz _

theorem argstr_sat (hsz : p.sz.toNat ≤ KERNBASE) (n : UInt32) : Probe.Sat p.Inside p.IsString (p.argstr n) := by
  apply (argint_sat hsz n).bind
  intro addr _
  exact (fetchstr_sat addr).mono fun _ h => h.2

theorem toNat_toUInt32 {size : Int32} (h : 0 ≤ size.toInt)
    : size.toUInt32.toNat < 2 ^ 31 ∧ (size.toUInt32.toNat : Int) = size.toInt := by
  have hlt := size.toUInt32.toNat_lt
  have hcond : size.toInt
      = if 2 * size.toUInt32.toNat < 2 ^ 32 then (size.toUInt32.toNat : Int)
        else (size.toUInt32.toNat : Int) - (2 ^ 32 : Nat) :=
    BitVec.toInt_eq_toNat_cond size.toBitVec
  split at hcond
  all_goals omega

theorem not_neg_iff {size : Int32} : ¬size < 0 ↔ 0 ≤ size.toInt := by
  rw [Int32.lt_iff_toInt_lt, Int32.toInt_zero]
  omega

section
variable (hsz : p.sz.toNat ≤ KERNBASE)
include hsz

theorem argptr_taken_iff {i : UInt32} {size : Int32}
    : ¬(size < 0 ∨ i ≥ p.sz ∨ i + size.toUInt32 > p.sz) ↔
      0 ≤ size.toInt ∧ i.toNat < p.sz.toNat ∧ i.toNat + size.toInt ≤ p.sz.toNat := by
  rw [not_or, not_neg_iff]
  apply and_congr_right
  intro hsize
  obtain ⟨hlt, heq⟩ := toNat_toUInt32 hsize
  rw [refused_iff hsz hlt]
  omega

theorem argptr_sat (n : UInt32) (size : Int32)
    : Probe.Sat p.Inside (fun i => 0 ≤ size.toInt ∧ i.toNat + size.toInt ≤ p.sz.toNat) (p.argptr n size) := by
  apply (argint_sat hsz n).bind
  intro i _
  split
  . exact Probe.sat_fail
  . next h =>
    obtain ⟨hsize, _, hend⟩ := (argptr_taken_iff hsz).mp h
    exact Probe.sat_ret ⟨hsize, hend⟩

theorem argptr_accepts {n i : UInt32} {size : Int32}
    (hi : (p.argint n).value = some i) (hsize : 0 < size.toInt) (hend : i.toNat + size.toInt ≤ p.sz.toNat)
    : (p.argptr n size).value = some i := by
  have htaken := (argptr_taken_iff (i := i) hsz).mpr ⟨by omega, by omega, hend⟩
  unfold argptr
  rw [Probe.value_bind hi, if_neg htaken]
  rfl

theorem argvLoop_sat (uargv : UInt32) (i k : Nat)
    : Probe.Sat p.Inside (fun argv => ∀ s ∈ argv, p.IsString s) (p.argvLoop uargv i k) := by
  induction k generalizing i with
  | zero => exact Probe.sat_fail
  | succ k ih =>
    unfold argvLoop
    apply (fetchint_sat hsz _).bind
    intro uarg _
    split
    . exact Probe.sat_ret (List.forall_mem_nil _)
    apply (fetchstr_sat uarg).bind
    rintro arg ⟨_, harg⟩
    apply (ih (i + 1)).bind
    intro argv hargv
    exact Probe.sat_ret (List.forall_mem_cons.mpr ⟨harg, hargv⟩)

theorem sysExec_sat
    : Probe.Sat p.Inside (fun e => p.IsString e.1 ∧ ∀ s ∈ e.2, p.IsString s) p.sysExec := by
  apply (argstr_sat hsz 0).bind
  intro path hpath
  apply (argint_sat hsz 1).bind
  intro uargv _
  apply (argvLoop_sat hsz uargv 0 MAXARG).bind
  intro argv hargv
  exact Probe.sat_ret ⟨hpath, hargv⟩

end

/--
The checks read only memory of the process, whether they succeed or not, and what they hand on lies in the
process. `fetchint` and `argptr` take everything that does.
-/
theorem checks_confine (p : Proc) (hsz : p.sz.toNat ≤ KERNBASE)
    : (∀ addr, Probe.Sat p.Inside (fun _ => addr.toNat + 4 ≤ p.sz.toNat) (p.fetchint addr))
      ∧ (∀ addr, Probe.Sat p.Inside (fun s => s.1 = addr ∧ p.IsString s) (p.fetchstr addr))
      ∧ (∀ n, Probe.Sat p.Inside (fun _ => (p.esp + 4 + 4 * n).toNat + 4 ≤ p.sz.toNat) (p.argint n))
      ∧ (∀ n (size : Int32), Probe.Sat p.Inside
          (fun i => 0 ≤ size.toInt ∧ i.toNat + size.toInt ≤ p.sz.toNat) (p.argptr n size))
      ∧ (∀ n, Probe.Sat p.Inside p.IsString (p.argstr n))
      ∧ (∀ uargv i k, Probe.Sat p.Inside (fun argv => ∀ s ∈ argv, p.IsString s) (p.argvLoop uargv i k))
      ∧ Probe.Sat p.Inside (fun e => p.IsString e.1 ∧ ∀ s ∈ e.2, p.IsString s) p.sysExec
      ∧ (∀ addr : UInt32, addr.toNat + 4 ≤ p.sz.toNat → (p.fetchint addr).value = some (p.int addr))
      ∧ ∀ (n i : UInt32) (size : Int32), (p.argint n).value = some i → 0 < size.toInt →
          i.toNat + size.toInt ≤ p.sz.toNat → (p.argptr n size).value = some i := by
  refine ⟨fetchint_sat hsz, fetchstr_sat, argint_sat hsz, argptr_sat hsz, argstr_sat hsz, argvLoop_sat hsz,
    sysExec_sat hsz, ?_, ?_⟩
  . intro addr h
    exact fetchint_accepts hsz h
  . intro n i size hi hsize hend
    exact argptr_accepts hsz hi hsize hend

def small : Proc where
  sz := 16
  esp := 4
  mem a := if a = 8 then 12 else 0

theorem checks_confine_small : (small.argptr 0 4).value = some 12 :=
  (checks_confine small (by decide)).2.2.2.2.2.2.2.2 0 12 4 (by decide) (by decide) (by decide)

example : (small.argptr 0 5).value = none := by decide

end Proc
end Syscall
end Xv6
