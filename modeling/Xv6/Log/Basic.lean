import Xv6.Disk.Basic

namespace Xv6

structure LogHeader where
  block : List Nat
  length_le : block.length ≤ LOGSIZE
  lt : ∀ b ∈ block, b < 2 ^ 32

namespace LogHeader

def n (lh : LogHeader) : Nat :=
  lh.block.length

def empty : LogHeader where
  block := []
  length_le := Nat.zero_le _
  lt := nofun

@[ext]
theorem ext {lh lh' : LogHeader} (h : lh.block = lh'.block) : lh = lh' := by
  cases lh
  cases lh'
  cases h
  rfl

def encode (lh : LogHeader) (b : Block) : Block :=
  (b.setLE 0 4 lh.n).setWords 4 lh.block

def diskN (b : Block) : Int :=
  int32 (b.getLE 0 4)

def decode (b : Block) : Option LogHeader :=
  if h : diskN b ≤ LOGSIZE then
    some {
      block := b.getWords 4 (diskN b).toNat
      length_le := by
        rw [Bytes.length_getWords]
        omega
      lt := fun _ => Bytes.lt_of_mem_getWords
    }
  else
    none

theorem n_le (lh : LogHeader) : lh.n ≤ 30 :=
  lh.length_le

@[simp]
theorem diskN_encode (lh : LogHeader) (b : Block) : diskN (lh.encode b) = lh.n := by
  have hn := lh.n_le
  have hword : (lh.encode b).getLE 0 4 = lh.n := by
    unfold encode
    rw [Bytes.getLE_setWords_of_le _ _ (by decide), Bytes.getLE_setLE _ _ (by decide)]
    apply Nat.mod_eq_of_lt
    omega
  unfold diskN
  rw [hword, int32_of_lt]
  omega

@[simp]
theorem decode_encode (lh : LogHeader) (b : Block) : decode (lh.encode b) = some lh := by
  have hn := lh.n_le
  have hle : diskN (lh.encode b) ≤ LOGSIZE := by
    rw [diskN_encode]
    exact Int.ofNat_le.mpr hn
  unfold decode
  rw [dif_pos hle]
  apply congrArg some
  apply LogHeader.ext
  dsimp only
  rw [diskN_encode, Int.toNat_natCast]
  apply Bytes.getWords_setWords
  . have hfits : 4 + 4 * lh.n ≤ 512 := by omega
    exact hfits
  . exact lh.lt

theorem decode_of_diskN_eq_zero {b : Block} (h : diskN b = 0) : decode b = some empty := by
  have hle : diskN b ≤ LOGSIZE := by
    rw [h]
    decide
  unfold decode
  rw [dif_pos hle]
  apply congrArg some
  apply LogHeader.ext
  dsimp only
  rw [h]
  rfl

end LogHeader
end Xv6
