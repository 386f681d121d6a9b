import Mathlib.Data.List.Range
import Mathlib.Data.Nat.Bitwise
import Xv6.Lib.Copy

namespace Xv6
namespace Mem

abbrev Memory : Type := UInt32 → UInt8

def forward (m : Memory) (d s : UInt32) (n : Nat) : Memory :=
  match n with
  | 0 => m
  | n + 1 => forward (Function.update m d (m s)) (d + 1) (s + 1) n

def backward (m : Memory) (d s : UInt32) (n : Nat) : Memory :=
  match n with
  | 0 => m
  | n + 1 => backward (Function.update m (d - 1) (m (s - 1))) (d - 1) (s - 1) n

def Kernel.memmove (m : Memory) (dst src n : UInt32) : Memory :=
  if src < dst ∧ src + n > dst then
    backward m (dst + n) (src + n) n.toNat
  else
    forward m dst src n.toNat

def User.memmove (m : Memory) (dst src : UInt32) (n : Int32) : Memory :=
  forward m dst src n.toInt.toNat

def moved (m : Memory) (dst src n : UInt32) : Memory := fun a =>
  if dst.toNat ≤ a.toNat ∧ a.toNat < dst.toNat + n.toNat then m (src + (a - dst)) else m a

def cell (d s : UInt32) (i : Nat) : UInt32 × UInt32 :=
  (d + UInt32.ofNat i, s + UInt32.ofNat i)

theorem cell_succ (d s : UInt32) (i : Nat) : cell d s (i + 1) = cell (d + 1) (s + 1) i := by
  have hadd : ∀ a : UInt32, a + UInt32.ofNat (i + 1) = a + 1 + UInt32.ofNat i := by
    intro a
    rw [UInt32.ofNat_add, UInt32.add_comm (UInt32.ofNat i), UInt32.add_assoc]
    rfl
  unfold cell
  rw [hadd, hadd]

theorem forward_eq_copy (m : Memory) (d s : UInt32) (n : Nat)
    : forward m d s n = Copy.copy m ((List.range n).map (cell d s)) := by
  induction n generalizing m d s with
  | zero => rfl
  | succ n ih =>
    have hcells : (List.range n).map (cell d s ∘ Nat.succ) = (List.range n).map (cell (d + 1) (s + 1)) :=
      List.map_congr_left fun i _ => cell_succ d s i
    have hzero : cell d s 0 = (d, s) := by
      change (d + 0, s + 0) = (d, s)
      rw [UInt32.add_zero, UInt32.add_zero]
    rw [List.range_succ_eq_map, List.map_cons, List.map_map, hcells, hzero]
    unfold forward Copy.copy
    exact ih ..

theorem backward_eq_copy (m : Memory) (d s : UInt32) (n : Nat)
    : backward m (d + UInt32.ofNat n) (s + UInt32.ofNat n) n
      = Copy.copy m ((List.range n).reverse.map (cell d s)) := by
  induction n generalizing m with
  | zero => rfl
  | succ n ih =>
    have hsub : ∀ a : UInt32, a + UInt32.ofNat (n + 1) - 1 = a + UInt32.ofNat n := by
      intro a
      rw [UInt32.ofNat_add, ← UInt32.add_assoc]
      exact UInt32.add_sub_cancel ..
    rw [List.range_succ, List.reverse_append, List.reverse_singleton, List.singleton_append, List.map_cons]
    unfold backward Copy.copy
    rw [hsub, hsub]
    exact ih ..

variable {m : Memory} {d s n : UInt32}

theorem toNat_add_ofNat {a n : UInt32} {i : Nat} (h : a.toNat + n.toNat ≤ 2 ^ 32) (hi : i < n.toNat)
    : (a + UInt32.ofNat i).toNat = a.toNat + i := by
  have hn := n.toNat_lt
  rw [UInt32.toNat_add, UInt32.toNat_ofNat_of_lt' (by change i < 2 ^ 32; omega)]
  omega

theorem add_ofNat_ne {a b n : UInt32} {i j : Nat} (ha : a.toNat + n.toNat ≤ 2 ^ 32)
    (hb : b.toNat + n.toNat ≤ 2 ^ 32) (hi : i < n.toNat) (hj : j < n.toNat) (h : a.toNat + i ≠ b.toNat + j)
    : a + UInt32.ofNat i ≠ b + UInt32.ofNat j := by
  intro heq
  have heq := congrArg UInt32.toNat heq
  rw [toNat_add_ofNat ha hi, toNat_add_ofNat hb hj] at heq
  exact h heq

theorem moved_of_mem {a : UInt32} (h : d.toNat ≤ a.toNat ∧ a.toNat < d.toNat + n.toNat)
    : moved m d s n a = m (s + (a - d)) :=
  if_pos h

theorem moved_self (m : Memory) (d n : UInt32) : moved m d d n = m := by
  funext a
  unfold moved
  rw [UInt32.add_comm, UInt32.sub_add_cancel, ite_self]

section
variable (hd : d.toNat + n.toNat ≤ 2 ^ 32)
include hd

theorem copy_eq_moved {l : List Nat}
    (hl : ∀ i, i ∈ l ↔ i < n.toNat) (hsafe : Copy.Safe (l.map (cell d s)))
    : Copy.copy m (l.map (cell d s)) = moved m d s n := by
  funext a
  unfold moved
  split
  . next ha =>
    have hle : d ≤ a := ha.1
    have hsub : (a - d).toNat = a.toNat - d.toNat := UInt32.toNat_sub_of_le _ _ hle
    have hmem : (d + UInt32.ofNat (a - d).toNat, s + UInt32.ofNat (a - d).toNat) ∈ l.map (cell d s) :=
      List.mem_map_of_mem ((hl _).mpr (by omega))
    rw [UInt32.ofNat_toNat] at hmem
    have hcopy := Copy.copy_of_mem hsafe hmem m
    rw [UInt32.add_comm d, UInt32.sub_add_cancel] at hcopy
    exact hcopy
  . next ha =>
    apply Copy.copy_of_not_mem
    intro hmem
    rw [List.map_map, List.mem_map] at hmem
    rcases hmem with ⟨i, hi, rfl⟩
    have hi := (hl i).mp hi
    have hcell : ((Prod.fst ∘ cell d s) i).toNat = d.toNat + i := toNat_add_ofNat hd hi
    rw [hcell] at ha
    omega

theorem forward_moves (hs : s.toNat + n.toNat ≤ 2 ^ 32)
    (h : d.toNat ≤ s.toNat ∨ s.toNat + n.toNat ≤ d.toNat)
    : forward m d s n.toNat = moved m d s n := by
  rw [forward_eq_copy]
  refine copy_eq_moved hd (fun i => List.mem_range) ?_
  unfold Copy.Safe
  rw [List.pairwise_map]
  refine List.pairwise_lt_range.imp_of_mem ?_
  intro i j hi hj hlt
  rw [List.mem_range] at hi hj
  exact ⟨add_ofNat_ne hd hs hi hj (by omega), add_ofNat_ne hd hd hi hj (by omega)⟩

theorem backward_moves (hs : s.toNat + n.toNat ≤ 2 ^ 32) (h : s.toNat ≤ d.toNat)
    : backward m (d + n) (s + n) n.toNat = moved m d s n := by
  have hback := backward_eq_copy m d s n.toNat
  rw [UInt32.ofNat_toNat] at hback
  rw [hback]
  refine copy_eq_moved hd (fun i => by rw [List.mem_reverse, List.mem_range]) ?_
  unfold Copy.Safe
  rw [List.pairwise_map, List.pairwise_reverse]
  refine List.pairwise_lt_range.imp_of_mem ?_
  intro i j hi hj hlt
  rw [List.mem_range] at hi hj
  exact ⟨add_ofNat_ne hd hs hj hi (by omega), add_ofNat_ne hd hd hj hi (by omega)⟩

end

theorem toNat_toInt32 (n : UInt32) : n.toInt32.toInt.toNat = if n.toNat < 2 ^ 31 then n.toNat else 0 := by
  change n.toBitVec.toInt.toNat = _
  have hn : n.toBitVec.toNat = n.toNat := rfl
  have hlt := n.toNat_lt
  rw [BitVec.toInt_eq_toNat_cond, hn]
  split <;> split <;> omega

theorem forward_overlap (hd : d.toNat + n.toNat ≤ 2 ^ 32)
    (hlt : s.toNat < d.toNat) (hover : d.toNat < s.toNat + n.toNat) (m : Memory)
    : forward m d s n.toNat (d + (d - s)) = m s := by
  have hk : (d - s).toNat = d.toNat - s.toNat := UInt32.toNat_sub_of_le _ _ (Nat.le_of_lt hlt)
  obtain ⟨r, hr⟩ : ∃ r, n.toNat = (d - s).toNat + (r + 1) := ⟨n.toNat - (d - s).toNat - 1, by omega⟩
  obtain ⟨k, hk'⟩ : ∃ k, (d - s).toNat = k + 1 := ⟨(d - s).toNat - 1, by omega⟩
  have hcell : cell d s (k + 1) = (d + (d - s), (cell d s 0).1) := by
    unfold cell
    rw [← hk', UInt32.ofNat_toNat, UInt32.add_comm s, UInt32.sub_add_cancel]
    exact congrArg _ (UInt32.add_zero d).symm
  -- The byte that is copied in round `d - s` is the one that was stored in the first round.
  have hnot : ∀ {i : Nat} {l : List Nat}, i < n.toNat → (∀ j ∈ l, i < j ∧ j < n.toNat)
      → (cell d s i).1 ∉ (l.map (cell d s)).map Prod.fst := by
    intro i l hi hl hmem
    rw [List.map_map, List.mem_map] at hmem
    obtain ⟨j, hj, heq⟩ := hmem
    have := hl j hj
    exact add_ofNat_ne hd hd this.2 hi (by omega) heq
  rw [forward_eq_copy, hr, hk', List.range_add, List.range_succ_eq_map (n := r), List.map_append,
    List.map_cons, List.map_cons, Nat.add_zero]
  have hlast := Copy.copy_append_cons ((List.range (k + 1)).map (cell d s)) (p := cell d s (k + 1))
    (hnot (i := k + 1) (by omega) (l := ((List.range r).map Nat.succ).map (k + 1 + ·)) ?_) m
  . rw [hcell] at hlast ⊢
    rw [hlast, List.range_succ_eq_map, List.map_cons]
    have hfirst := Copy.copy_append_cons [] (p := cell d s 0)
      (hnot (i := 0) (by omega) (l := (List.range k).map Nat.succ) ?_) m
    . refine hfirst.trans (congrArg m ?_)
      exact UInt32.add_zero s
    . simp only [List.mem_map, List.mem_range]
      omega
  . simp only [List.mem_map, List.mem_range]
    omega

/--
The kernel's `memmove` moves in every case. The one of the user library does just if `n` is not negative as
an `int` and `dst` does not lie behind `src` within its range, or if there is nothing to move.
-/
theorem memmove_moves (dst src n : UInt32) (hdst : dst.toNat + n.toNat ≤ 2 ^ 32)
    (hsrc : src.toNat + n.toNat ≤ 2 ^ 32)
    : (∀ m, Kernel.memmove m dst src n = moved m dst src n)
      ∧ ((∀ m, User.memmove m dst src n.toInt32 = moved m dst src n)
        ↔ dst = src ∨ n.toNat < 2 ^ 31 ∧ (dst.toNat ≤ src.toNat ∨ src.toNat + n.toNat ≤ dst.toNat)) := by
  unfold Kernel.memmove User.memmove
  rw [toNat_toInt32]
  refine ⟨?_, ?_, ?_⟩
  . intro m
    split
    . next h => exact backward_moves hdst hsrc (Nat.le_of_lt h.1)
    . next h =>
      apply forward_moves hdst hsrc
      by_contra hnot
      have hlt : src.toNat < dst.toNat ∧ dst.toNat < src.toNat + n.toNat := by omega
      refine h ⟨hlt.1, ?_⟩
      -- The sum does not wrap, since the range of `dst` ends behind it.
      rw [gt_iff_lt, UInt32.lt_iff_toNat_lt, UInt32.toNat_add]
      omega
  . intro hall
    by_contra hnot
    rw [not_or] at hnot
    have hall := hall (fun a => if a = src then 1 else 0)
    by_cases hn : n.toNat < 2 ^ 31
    . -- `dst` is read after the first byte has been stored there
      have hlt : src.toNat < dst.toNat ∧ dst.toNat < src.toNat + n.toNat := by omega
      have hsub : (dst - src).toNat = dst.toNat - src.toNat :=
        UInt32.toNat_sub_of_le _ _ (Nat.le_of_lt hlt.1)
      have hadd : (dst + (dst - src)).toNat = dst.toNat + (dst.toNat - src.toNat) := by
        rw [UInt32.toNat_add, hsub, Nat.mod_eq_of_lt (by omega)]
      have hat := congrFun hall (dst + (dst - src))
      rw [if_pos hn, forward_overlap hdst hlt.1 hlt.2, moved_of_mem (by omega), UInt32.add_comm dst,
        UInt32.add_sub_cancel, UInt32.add_comm src, UInt32.sub_add_cancel, if_pos rfl, if_neg hnot.1] at hat
      cases hat
    . have hat := congrFun hall dst
      rw [if_neg hn, forward, moved_of_mem (by omega), UInt32.sub_self, UInt32.add_zero, if_pos rfl,
        if_neg hnot.1] at hat
      cases hat
  . rintro (rfl | ⟨hn, h⟩) m
    . split
      . exact forward_moves hdst hdst (.inl (Nat.le_refl _))
      . exact (moved_self m dst n).symm
    . rw [if_pos hn]
      exact forward_moves hdst hsrc h

theorem memmove_moves_of_two
    : Kernel.memmove (fun a => a.toUInt8) 0 1 2 = moved (fun a => a.toUInt8) 0 1 2
      ∧ User.memmove (fun a => a.toUInt8) 0 1 2 = moved (fun a => a.toUInt8) 0 1 2 := by
  have h := memmove_moves 0 1 2 (by decide) (by decide)
  exact ⟨h.1 _, h.2.mpr (.inr ⟨by decide, .inl (by decide)⟩) _⟩

/-- Two bytes are moved up by one: the user library copies the first of them twice. -/
theorem user_memmove_overwrites
    : Kernel.memmove (fun a => a.toUInt8) 1 0 2 2 = 1 ∧ User.memmove (fun a => a.toUInt8) 1 0 2 2 = 0 := by
  decide

end Mem
end Xv6
