import Mathlib.Algebra.Order.Ring.Nat
import Mathlib.Data.Nat.Bitwise
import Mathlib.Tactic.Ring

abbrev Bytes (n : Nat) : Type := Fin n → UInt8

namespace Bytes

variable {n : Nat}

def get (b : Bytes n) (i : Nat) : UInt8 :=
  if h : i < n then b ⟨i, h⟩ else 0

def set (b : Bytes n) (i : Nat) (v : UInt8) : Bytes n :=
  fun j => if j = i then v else b j

def getLE (b : Bytes n) (off k : Nat) : Nat :=
  match k with
  | 0 => 0
  | k + 1 => (b.get off).toNat + 256 * b.getLE (off + 1) k

def setLE (b : Bytes n) (off k v : Nat) : Bytes n :=
  match k with
  | 0 => b
  | k + 1 => (b.setLE (off + 1) k (v / 256)).set off (UInt8.ofNat v)

def setWords (b : Bytes n) (off : Nat) (ws : List Nat) : Bytes n :=
  match ws with
  | [] => b
  | w :: ws => (b.setLE off 4 w).setWords (off + 4) ws

def getWords (b : Bytes n) (off k : Nat) : List Nat :=
  (List.range k).map fun i => b.getLE (off + 4 * i) 4

def zero : Bytes n :=
  fun _ => 0

@[simp]
theorem get_zero (i : Nat) : (zero : Bytes n).get i = 0 := by
  unfold get zero
  split
  . rfl
  . rfl

theorem get_set_self (b : Bytes n) {i : Nat} (hi : i < n) (v : UInt8) : (b.set i v).get i = v := by
  unfold get set
  rw [dif_pos hi, if_pos rfl]

theorem get_set_of_ne (b : Bytes n) {i j : Nat} (h : j ≠ i) (v : UInt8)
    : (b.set i v).get j = b.get j := by
  unfold get set
  split
  . rfl
  . rfl

theorem get_setLE_of_disjoint (b : Bytes n) {off k j : Nat} (v : Nat) (h : j < off ∨ off + k ≤ j)
    : (b.setLE off k v).get j = b.get j := by
  induction k generalizing off v with
  | zero => rfl
  | succ k ih =>
    unfold setLE
    rw [get_set_of_ne]
    . apply ih
      omega
    . omega

theorem getLE_congr {b b' : Bytes n} {off k : Nat} (h : ∀ i, off ≤ i → i < off + k → b.get i = b'.get i)
    : b.getLE off k = b'.getLE off k := by
  induction k generalizing off with
  | zero => rfl
  | succ k ih =>
    unfold getLE
    rw [h off (Nat.le_refl _) (by omega), ih]
    intro i hi hik
    apply h
    . omega
    . omega

theorem getLE_lt (b : Bytes n) (off k : Nat) : b.getLE off k < 256 ^ k := by
  induction k generalizing off with
  | zero => exact Nat.one_pos
  | succ k ih =>
    have hbyte := (b.get off).toNat_lt
    have hrest := ih (off + 1)
    have hpow : 256 ^ (k + 1) = 256 * 256 ^ k := by ring
    unfold getLE
    omega

theorem getLE_zero (off k : Nat) : (zero : Bytes n).getLE off k = 0 := by
  induction k generalizing off with
  | zero => rfl
  | succ k ih =>
    unfold getLE
    rw [ih, get_zero]
    rfl

theorem getLE_setLE (b : Bytes n) {off k : Nat} (v : Nat) (h : off + k ≤ n)
    : (b.setLE off k v).getLE off k = v % 256 ^ k := by
  induction k generalizing off v with
  | zero =>
    rw [Nat.pow_zero, Nat.mod_one]
    rfl
  | succ k ih =>
    have hrest : ((b.setLE (off + 1) k (v / 256)).set off (UInt8.ofNat v)).getLE (off + 1) k
        = (v / 256) % 256 ^ k := by
      have hlast : off + 1 + k ≤ n := by omega
      rw [← ih (v / 256) hlast]
      apply getLE_congr
      intro i hi _
      apply get_set_of_ne
      omega
    have hpow : 256 ^ (k + 1) = 256 * 256 ^ k := by ring
    unfold setLE getLE
    rw [get_set_self _ (by omega), hrest, hpow, Nat.mod_mul, UInt8.toNat_ofNat']

theorem getLE_setLE_of_disjoint (b : Bytes n) {off k off' k' : Nat} (v : Nat) (h : off' + k' ≤ off ∨ off + k ≤ off')
    : (b.setLE off k v).getLE off' k' = b.getLE off' k' := by
  apply getLE_congr
  intro i hi hik
  apply get_setLE_of_disjoint
  omega

theorem getLE_setWords_of_le (b : Bytes n) {off off' k : Nat} (ws : List Nat) (h : off' + k ≤ off)
    : (b.setWords off ws).getLE off' k = b.getLE off' k := by
  induction ws generalizing b off with
  | nil => rfl
  | cons w ws ih =>
    unfold setWords
    rw [ih]
    . apply getLE_setLE_of_disjoint
      omega
    . omega

theorem get_setWords_of_disjoint (b : Bytes n) {off j : Nat} (ws : List Nat) (h : j < off ∨ off + 4 * ws.length ≤ j)
    : (b.setWords off ws).get j = b.get j := by
  induction ws generalizing b off with
  | nil => rfl
  | cons w ws ih =>
    rw [List.length_cons] at h
    unfold setWords
    rw [ih]
    . apply get_setLE_of_disjoint
      omega
    . omega

theorem getLE_setWords (b : Bytes n) {off : Nat} {ws : List Nat} (h : off + 4 * ws.length ≤ n)
    {i : Nat} (hi : i < ws.length)
    : (b.setWords off ws).getLE (off + 4 * i) 4 = ws[i] % 256 ^ 4 := by
  induction ws generalizing b off i with
  | nil => cases hi
  | cons w ws ih =>
    rw [List.length_cons] at h hi
    unfold setWords
    cases i with
    | zero =>
      change Bytes.getLE _ off 4 = w % 256 ^ 4
      rw [getLE_setWords_of_le _ _ (Nat.le_refl _), getLE_setLE _ _ (by omega)]
    | succ i =>
      have hoff : off + 4 * (i + 1) = off + 4 + 4 * i := by omega
      rw [hoff, ih _ (by omega) (by omega)]
      rfl

theorem getWords_succ (b : Bytes n) (off k : Nat)
    : b.getWords off (k + 1) = b.getLE off 4 :: b.getWords (off + 4) k := by
  unfold getWords
  rw [List.range_succ_eq_map, List.map_cons, List.map_map]
  congr 1
  apply List.map_congr_left
  intro i _
  simp only [Function.comp]
  congr 1
  omega

theorem getWords_setWords (b : Bytes n) {off : Nat} {ws : List Nat} (h : off + 4 * ws.length ≤ n)
    (hws : ∀ w ∈ ws, w < 2 ^ 32)
    : (b.setWords off ws).getWords off ws.length = ws := by
  induction ws generalizing b off with
  | nil => rfl
  | cons w ws ih =>
    rw [List.length_cons] at h ⊢
    have hw : w < 256 ^ 4 := hws w List.mem_cons_self
    unfold setWords
    rw [getWords_succ, getLE_setWords_of_le _ _ (Nat.le_refl _), getLE_setLE _ _ (by omega),
      Nat.mod_eq_of_lt hw, ih]
    . omega
    . intro w' hw'
      exact hws w' (List.mem_cons_of_mem w hw')

theorem length_getWords (b : Bytes n) (off k : Nat) : (b.getWords off k).length = k := by
  unfold getWords
  rw [List.length_map, List.length_range]

theorem lt_of_mem_getWords {b : Bytes n} {off k w : Nat} (h : w ∈ b.getWords off k) : w < 2 ^ 32 := by
  rcases List.mem_map.mp h with ⟨i, _, rfl⟩
  apply getLE_lt

def mask (i : Nat) : UInt8 := 1 <<< UInt8.ofNat (i % 8)

theorem toNat_mask (i : Nat) : (mask i).toNat = 2 ^ (i % 8) := by
  have h : ∀ k < 8, (1 <<< UInt8.ofNat k : UInt8).toNat = 2 ^ k := by decide
  exact h _ (Nat.mod_lt _ (by decide))

def bit (b : Bytes n) (i : Nat) : Bool :=
  b.get (i / 8) &&& mask i ≠ 0

def setBit (b : Bytes n) (i : Nat) : Bytes n :=
  b.set (i / 8) (b.get (i / 8) ||| mask i)

def clearBit (b : Bytes n) (i : Nat) : Bytes n :=
  b.set (i / 8) (b.get (i / 8) &&& ~~~mask i)

theorem bit_eq_testBit (b : Bytes n) (i : Nat) : b.bit i = (b.get (i / 8)).toNat.testBit (i % 8) := by
  unfold bit
  rw [Bool.eq_iff_iff, decide_eq_true_iff, Ne, ← UInt8.toNat_inj, UInt8.toNat_and, toNat_mask]
  rw [Nat.and_two_pow]
  cases (b.get (i / 8)).toNat.testBit (i % 8) <;> simp

theorem bit_setBit (b : Bytes n) {i : Nat} (hi : i < 8 * n) (j : Nat)
    : (b.setBit i).bit j = (decide (j = i) || b.bit j) := by
  rw [bit_eq_testBit, bit_eq_testBit]
  unfold setBit
  by_cases hbyte : j / 8 = i / 8
  . rw [hbyte, get_set_self _ (by omega), UInt8.toNat_or, Nat.testBit_or, toNat_mask,
      Nat.testBit_two_pow, Bool.or_comm]
    congr 1
    rw [decide_eq_decide]
    omega
  . have hne : j ≠ i := by
      rintro rfl
      exact hbyte rfl
    rw [get_set_of_ne _ hbyte, decide_eq_false hne, Bool.false_or]

theorem bit_clearBit (b : Bytes n) {i : Nat} (hi : i < 8 * n) (j : Nat)
    : (b.clearBit i).bit j = (!decide (j = i) && b.bit j) := by
  rw [bit_eq_testBit, bit_eq_testBit]
  unfold clearBit
  by_cases hbyte : j / 8 = i / 8
  . have hlt : (mask i).toNat < 2 ^ 8 := UInt8.toNat_lt _
    have hnot : (~~~mask i).toNat = 2 ^ 8 - ((mask i).toNat + 1) := by
      rw [UInt8.toNat_not, Nat.sub_sub, Nat.add_comm]
      rfl
    have hj : j % 8 < 8 := Nat.mod_lt _ (by decide)
    rw [hbyte, get_set_self _ (by omega), UInt8.toNat_and, Nat.testBit_and, hnot,
      Nat.testBit_two_pow_sub_succ hlt, toNat_mask, Nat.testBit_two_pow, decide_eq_true hj,
      Bool.true_and, Bool.and_comm]
    congr 2
    rw [decide_eq_decide]
    omega
  . have hne : j ≠ i := by
      rintro rfl
      exact hbyte rfl
    rw [get_set_of_ne _ hbyte, decide_eq_false hne, Bool.not_false, Bool.true_and]

def bytes (b : Bytes n) (off k : Nat) : List UInt8 :=
  (List.range k).map fun i => b.get (off + i)

def setBytes (b : Bytes n) (off : Nat) (l : List UInt8) : Bytes n :=
  fun j => if off ≤ j ∧ j < off + l.length then l.getD (j - off) 0 else b j

theorem get_setBytes (b : Bytes n) (off : Nat) (l : List UInt8) {j : Nat} (hj : j < n)
    : (b.setBytes off l).get j
      = if off ≤ j ∧ j < off + l.length then l.getD (j - off) 0 else b.get j := by
  unfold get setBytes
  rw [dif_pos hj, dif_pos hj]

end Bytes
