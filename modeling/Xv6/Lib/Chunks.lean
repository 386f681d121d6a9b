import Xv6.Lib.Bytes

namespace Chunks

variable {n : Nat}

def byteAt (chunk : Nat → Bytes n) (k : Nat) : UInt8 :=
  (chunk (k / n)).get (k % n)

def contents (chunk : Nat → Bytes n) (k : Nat) : List UInt8 :=
  (List.range k).map (byteAt chunk)

theorem byteAt_of_lt (chunk : Nat → Bytes n) (q : Nat) {r : Nat} (hr : r < n)
    : byteAt chunk (q * n + r) = (chunk q).get r := by
  unfold byteAt
  rw [Nat.add_comm, Nat.add_mul_div_right _ _ (by omega), Nat.div_eq_of_lt hr, Nat.zero_add,
    Nat.add_mul_mod_self_right, Nat.mod_eq_of_lt hr]

theorem bytes_eq (chunk : Nat → Bytes n) (q : Nat) {off k : Nat} (h : off + k ≤ n)
    : (chunk q).bytes off k = (List.range k).map fun i => byteAt chunk (q * n + off + i) := by
  unfold Bytes.bytes
  apply List.map_congr_left
  intro i hi
  rw [List.mem_range] at hi
  rw [Nat.add_assoc, byteAt_of_lt chunk q (by omega)]

theorem byteAt_update (chunk : Nat → Bytes n) (q : Nat) {off : Nat} {l : List UInt8}
    (h : off + l.length ≤ n) (k : Nat)
    : byteAt (Function.update chunk q ((chunk q).setBytes off l)) k
      = if q * n + off ≤ k ∧ k < q * n + off + l.length then l.getD (k - (q * n + off)) 0
        else byteAt chunk k := by
  unfold byteAt
  by_cases hq : k / n = q
  . by_cases hn : n = 0
    . subst hn
      have hl : l.length = 0 := by omega
      rw [if_neg (by omega)]
      unfold Bytes.get
      rw [dif_neg (Nat.not_lt_zero _), dif_neg (Nat.not_lt_zero _)]
    . have hk : q * n + k % n = k := by
        rw [← hq]
        exact Nat.div_add_mod' k n
      have hmod : k % n < n := Nat.mod_lt _ (Nat.pos_of_ne_zero hn)
      rw [hq, Function.update_self, Bytes.get_setBytes _ _ _ hmod]
      have hsub : k % n - off = k - (q * n + off) := by omega
      rw [hsub]
      congr 1
      apply propext
      omega
  . rw [Function.update_of_ne hq, if_neg]
    rintro ⟨hle, hlt⟩
    apply hq
    have hpos : 0 < n := by omega
    apply Nat.div_eq_of_lt_le
    . omega
    . rw [Nat.succ_mul]
      omega

theorem contents_overwrite {chunk chunk' : Nat → Bytes n} {src : Nat → UInt8} {size off k : Nat}
    (hoff : off ≤ size)
    (h : ∀ m, byteAt chunk' m = if off ≤ m ∧ m < off + k then src (m - off) else byteAt chunk m)
    : contents chunk' (max size (off + k))
      = (contents chunk size).take off ++ (List.range k).map src ++ (contents chunk size).drop (off + k) := by
  apply List.ext_getElem
  . simp only [contents, List.length_map, List.length_range, List.length_append, List.length_take,
      List.length_drop]
    omega
  . intro m hm hm'
    simp only [contents, List.length_map, List.length_range] at hm
    simp only [contents, List.getElem_map, List.getElem_range, List.getElem_append, List.length_append,
      List.length_take, List.length_map, List.length_range, List.getElem_take, List.getElem_drop, h]
    rw [Nat.min_eq_left hoff]
    split
    . next hcond =>
      rw [dif_pos (by omega), dif_neg (by omega)]
    . next hcond =>
      by_cases hlt : m < off
      . rw [dif_pos (by omega), dif_pos hlt]
      . rw [dif_neg (by omega)]
        congr 1
        omega

end Chunks
