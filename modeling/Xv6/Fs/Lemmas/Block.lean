import Mathlib.Data.Finset.Card
import Mathlib.Order.Interval.Finset.Nat
import Xv6.Fs.Impl.Inode

namespace Xv6
namespace Fs

open Outcome

theorem State.dinodeOff_le (x : Nat) : State.dinodeOff x + DINODESIZE ≤ BSIZE := by
  have hlt : x % IPB < 8 := Nat.mod_lt _ (by decide)
  have hsize : DINODESIZE = 64 := rfl
  have hbsize : BSIZE = 512 := rfl
  have hoff : State.dinodeOff x = x % IPB * 64 := rfl
  omega

end Fs

namespace Superblock

open Fs

variable {sb : Superblock} {d : Disk} {nmeta : Nat}

def bit (sb : Superblock) (d : Disk) (b : Nat) : Bool :=
  (d (sb.bblock b)).bit (b % BPB)

def dinode (sb : Superblock) (d : Disk) (x : Nat) : Dinode :=
  Dinode.get (d (sb.iblock x)) (State.dinodeOff x)

def table (sb : Superblock) (d : Disk) (x : Nat) : Dinode :=
  if x < sb.ninodes then sb.dinode d x else .fresh 0

def free (sb : Superblock) (d : Disk) : Nat :=
  ((Finset.range sb.size).filter fun b => sb.bit d b = false).card

structure Geometry (sb : Superblock) (nmeta : Nat) : Prop where
  iblock_lt : ∀ x < sb.ninodes, sb.iblock x < nmeta
  bblock_lt : ∀ b < sb.size, sb.bblock b < nmeta
  iblock_ne_bblock : ∀ x < sb.ninodes, ∀ b < sb.size, sb.iblock x ≠ sb.bblock b

theorem bblock_mul_add (sb : Superblock) (q : Nat) {bi : Nat} (h : bi < BPB)
    : sb.bblock (q * BPB + bi) = sb.bblock (q * BPB) := by
  unfold bblock
  rw [Nat.add_comm (q * BPB), Nat.add_mul_div_right _ _ (by decide), Nat.div_eq_of_lt h,
    Nat.mul_div_cancel _ (by decide), Nat.zero_add]

theorem bit_mul_add (sb : Superblock) (d : Disk) (q : Nat) {bi : Nat} (h : bi < BPB)
    : sb.bit d (q * BPB + bi) = (d (sb.bblock (q * BPB))).bit bi := by
  unfold bit
  rw [bblock_mul_add sb q h, Nat.add_comm (q * BPB), Nat.add_mul_mod_self_right, Nat.mod_eq_of_lt h]

theorem bit_update_of_ne {b c : Nat} (h : c ≠ sb.bblock b) (data : Block)
    : sb.bit (Function.update d c data) b = sb.bit d b := by
  unfold bit
  rw [Function.update_of_ne h.symm]

theorem table_update_of_ne {c : Nat} (h : ∀ x < sb.ninodes, c ≠ sb.iblock x) (data : Block)
    : sb.table (Function.update d c data) = sb.table d := by
  funext x
  unfold table
  split
  . next hx =>
    unfold dinode
    rw [Function.update_of_ne (h x hx).symm]
  . rfl

theorem mod_ne_of_bblock_eq {b c : Nat} (h : sb.bblock c = sb.bblock b) (hne : c ≠ b)
    : c % BPB ≠ b % BPB := by
  unfold bblock at h
  intro hmod
  apply hne
  rw [← Nat.div_add_mod c BPB, ← Nat.div_add_mod b BPB, hmod]
  congr 2
  omega

theorem mod_BPB_lt (b : Nat) : b % BPB < 8 * BSIZE := by
  rw [Nat.mul_comm]
  exact Nat.mod_lt _ (by decide)

theorem bit_setBit (sb : Superblock) (d : Disk) (b : Nat)
    : sb.bit (Function.update d (sb.bblock b) ((d (sb.bblock b)).setBit (b % BPB)))
      = Function.update (sb.bit d) b true := by
  funext c
  by_cases hc : c = b
  . rw [hc, Function.update_self]
    unfold bit
    rw [Function.update_self, Bytes.bit_setBit _ (mod_BPB_lt b), decide_eq_true rfl, Bool.true_or]
  rw [Function.update_of_ne hc]
  by_cases hblock : sb.bblock c = sb.bblock b
  . have hmod := mod_ne_of_bblock_eq hblock hc
    unfold bit
    rw [hblock, Function.update_self, Bytes.bit_setBit _ (mod_BPB_lt b), decide_eq_false hmod,
      Bool.false_or]
  . exact bit_update_of_ne (Ne.symm hblock) _

theorem bit_clearBit (sb : Superblock) (d : Disk) (b : Nat)
    : sb.bit (Function.update d (sb.bblock b) ((d (sb.bblock b)).clearBit (b % BPB)))
      = Function.update (sb.bit d) b false := by
  funext c
  by_cases hc : c = b
  . rw [hc, Function.update_self]
    unfold bit
    rw [Function.update_self, Bytes.bit_clearBit _ (mod_BPB_lt b), decide_eq_true rfl]
    rfl
  . rw [Function.update_of_ne hc]
    by_cases hblock : sb.bblock c = sb.bblock b
    . have hmod := mod_ne_of_bblock_eq hblock hc
      unfold bit
      rw [hblock, Function.update_self, Bytes.bit_clearBit _ (mod_BPB_lt b), decide_eq_false hmod]
      rfl
    . exact bit_update_of_ne (Ne.symm hblock) _

theorem table_put {x : Nat} (hx : x < sb.ninodes) (d : Disk) (di : Dinode)
    : sb.table (Function.update d (sb.iblock x) (di.put (d (sb.iblock x)) (State.dinodeOff x)))
      = Function.update (sb.table d) x di := by
  funext y
  by_cases hy : y = x
  . rw [hy, Function.update_self]
    unfold table dinode
    rw [if_pos hx, Function.update_self, Dinode.get_put _ _ (State.dinodeOff_le x)]
  rw [Function.update_of_ne hy]
  unfold table
  split
  . unfold dinode
    by_cases hblock : sb.iblock y = sb.iblock x
    . rw [hblock, Function.update_self]
      apply Dinode.get_congr
      intro j hj hj'
      apply Dinode.get_put_of_disjoint
      have hmod : y % IPB ≠ x % IPB := by
        unfold iblock at hblock
        intro hmod
        apply hy
        rw [← Nat.div_add_mod y IPB, ← Nat.div_add_mod x IPB, hmod]
        congr 2
        omega
      have hsize : DINODESIZE = 64 := rfl
      have hoffx : State.dinodeOff x = x % IPB * 64 := rfl
      have hoffy : State.dinodeOff y = y % IPB * 64 := rfl
      omega
    . rw [Function.update_of_ne hblock]
  . rfl

theorem free_congr {d' : Disk} (h : ∀ b < sb.size, sb.bit d' b = sb.bit d b)
    : sb.free d' = sb.free d := by
  unfold free
  congr 1
  apply Finset.filter_congr
  intro b hb
  rw [h b (Finset.mem_range.mp hb)]

theorem free_set {d' : Disk} {b : Nat} (hb : b < sb.size) (hfree : sb.bit d b = false)
    (h : ∀ c < sb.size, sb.bit d' c = Function.update (sb.bit d) b true c)
    : sb.free d' + 1 = sb.free d := by
  have hmem : b ∈ (Finset.range sb.size).filter fun c => sb.bit d c = false := by
    rw [Finset.mem_filter, Finset.mem_range]
    exact ⟨hb, hfree⟩
  have herase : (Finset.range sb.size).filter (fun c => sb.bit d' c = false)
      = ((Finset.range sb.size).filter fun c => sb.bit d c = false).erase b := by
    ext c
    rw [Finset.mem_erase, Finset.mem_filter, Finset.mem_filter, Finset.mem_range]
    constructor
    . rintro ⟨hc, hbit⟩
      rw [h c hc] at hbit
      have hne : c ≠ b := by
        intro heq
        rw [heq, Function.update_self] at hbit
        cases hbit
      rw [Function.update_of_ne hne] at hbit
      exact ⟨hne, hc, hbit⟩
    . rintro ⟨hne, hc, hbit⟩
      rw [h c hc, Function.update_of_ne hne]
      exact ⟨hc, hbit⟩
  unfold free
  rw [herase, Finset.card_erase_of_mem hmem]
  apply Nat.succ_pred_eq_of_pos
  exact Finset.card_pos.mpr ⟨b, hmem⟩

end Superblock
end Xv6
