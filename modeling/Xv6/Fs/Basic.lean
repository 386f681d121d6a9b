import Xv6.Disk.Basic

namespace Xv6

abbrev ROOTINO : Nat := 1

abbrev NDIRECT : Nat := 12
abbrev NINDIRECT : Nat := BSIZE / 4
abbrev MAXFILE : Nat := NDIRECT + NINDIRECT

abbrev DINODESIZE : Nat := 64

abbrev IPB : Nat := BSIZE / DINODESIZE

abbrev BPB : Nat := BSIZE * 8

abbrev DIRSIZ : Nat := 14

abbrev DIRENTSIZE : Nat := 16

abbrev T_DIR : Int16 := 1
abbrev T_FILE : Int16 := 2
abbrev T_DEV : Int16 := 3

structure Superblock where
  size : Nat
  nblocks : Nat
  ninodes : Nat
  nlog : Nat
  logstart : Nat
  inodestart : Nat
  bmapstart : Nat
  size_lt : size < 2 ^ 32

namespace Superblock

def iblock (sb : Superblock) (i : Nat) : Nat :=
  i / IPB + sb.inodestart

def bblock (sb : Superblock) (b : Nat) : Nat :=
  b / BPB + sb.bmapstart

end Superblock

@[ext]
structure Dinode where
  type : Int16
  major : Int16
  minor : Int16
  nlink : Int16
  size : UInt32
  addrs : Fin (NDIRECT + 1) → UInt32

def getShort {n : Nat} (b : Bytes n) (off : Nat) : Int16 :=
  (UInt16.ofNat (b.getLE off 2)).toInt16

def setShort {n : Nat} (b : Bytes n) (off : Nat) (v : Int16) : Bytes n :=
  b.setLE off 2 v.toUInt16.toNat

def getUint {n : Nat} (b : Bytes n) (off : Nat) : UInt32 :=
  UInt32.ofNat (b.getLE off 4)

namespace Dinode

def get (b : Block) (off : Nat) : Dinode where
  type := getShort b off
  major := getShort b (off + 2)
  minor := getShort b (off + 4)
  nlink := getShort b (off + 6)
  size := getUint b (off + 8)
  addrs := fun k => getUint b (off + 12 + 4 * k)

def put (di : Dinode) (b : Block) (off : Nat) : Block :=
  let b := setShort b off di.type
  let b := setShort b (off + 2) di.major
  let b := setShort b (off + 4) di.minor
  let b := setShort b (off + 6) di.nlink
  let b := b.setLE (off + 8) 4 di.size.toNat
  b.setWords (off + 12) (List.ofFn fun k => (di.addrs k).toNat)

def fresh (type : Int16) : Dinode where
  type := type
  major := 0
  minor := 0
  nlink := 0
  size := 0
  addrs := fun _ => 0

def addr (di : Dinode) (k : Nat) : Nat :=
  if h : k < NDIRECT + 1 then (di.addrs ⟨k, h⟩).toNat else 0

def setAddr (di : Dinode) (k b : Nat) : Dinode :=
  { di with addrs := fun j => if j = k then UInt32.ofNat b else di.addrs j }

theorem addr_setAddr_self (di : Dinode) {k b : Nat} (hk : k ≤ NDIRECT) (hb : b < 2 ^ 32)
    : (di.setAddr k b).addr k = b := by
  unfold addr setAddr
  rw [dif_pos (Nat.lt_succ_of_le hk)]
  dsimp only
  rw [if_pos rfl]
  exact UInt32.toNat_ofNat_of_lt' hb

theorem addr_setAddr_of_ne (di : Dinode) {j k : Nat} (h : j ≠ k) (b : Nat)
    : (di.setAddr k b).addr j = di.addr j := by
  unfold addr setAddr
  split
  . dsimp only
    rw [if_neg h]
  . rfl

end Dinode

section
variable {n : Nat}

theorem getShort_setShort (b : Bytes n) {off : Nat} (v : Int16) (h : off + 2 ≤ n)
    : getShort (setShort b off v) off = v := by
  have hlt : v.toUInt16.toNat < 256 ^ 2 := UInt16.toNat_lt _
  unfold getShort setShort
  rw [Bytes.getLE_setLE _ _ h, Nat.mod_eq_of_lt hlt, UInt16.ofNat_toNat]
  apply Int16.toInt16_toUInt16

theorem getUint_setLE (b : Bytes n) {off : Nat} (v : UInt32) (h : off + 4 ≤ n)
    : getUint (b.setLE off 4 v.toNat) off = v := by
  have hlt : v.toNat < 256 ^ 4 := UInt32.toNat_lt _
  unfold getUint
  rw [Bytes.getLE_setLE _ _ h, Nat.mod_eq_of_lt hlt, UInt32.ofNat_toNat]

theorem getShort_congr {b b' : Bytes n} {off : Nat} (h : ∀ i, off ≤ i → i < off + 2 → b.get i = b'.get i)
    : getShort b off = getShort b' off := by
  unfold getShort
  rw [Bytes.getLE_congr h]

theorem getUint_congr {b b' : Bytes n} {off : Nat} (h : ∀ i, off ≤ i → i < off + 4 → b.get i = b'.get i)
    : getUint b off = getUint b' off := by
  unfold getUint
  rw [Bytes.getLE_congr h]

theorem getShort_setShort_of_disjoint (b : Bytes n) {off off' : Nat} (v : Int16)
    (h : off' + 2 ≤ off ∨ off + 2 ≤ off')
    : getShort (setShort b off v) off' = getShort b off' := by
  unfold getShort setShort
  rw [Bytes.getLE_setLE_of_disjoint _ _ h]

theorem getShort_setLE_of_disjoint (b : Bytes n) {off off' k : Nat} (v : Nat) (h : off' + 2 ≤ off ∨ off + k ≤ off')
    : getShort (b.setLE off k v) off' = getShort b off' := by
  unfold getShort
  rw [Bytes.getLE_setLE_of_disjoint _ _ h]

theorem getShort_setWords_of_le (b : Bytes n) {off off' : Nat} (ws : List Nat) (h : off' + 2 ≤ off)
    : getShort (b.setWords off ws) off' = getShort b off' := by
  unfold getShort
  rw [Bytes.getLE_setWords_of_le _ _ h]

theorem getUint_setWords_of_le (b : Bytes n) {off off' : Nat} (ws : List Nat) (h : off' + 4 ≤ off)
    : getUint (b.setWords off ws) off' = getUint b off' := by
  unfold getUint
  rw [Bytes.getLE_setWords_of_le _ _ h]

theorem get_setShort_of_disjoint (b : Bytes n) {off j : Nat} (v : Int16) (h : j < off ∨ off + 2 ≤ j)
    : (setShort b off v).get j = b.get j :=
  Bytes.get_setLE_of_disjoint b _ h

end

namespace Dinode

theorem get_put_of_disjoint (di : Dinode) (b : Block) {off j : Nat} (h : j < off ∨ off + DINODESIZE ≤ j)
    : (di.put b off).get j = b.get j := by
  have hlen : (List.ofFn fun k => (di.addrs k).toNat).length = 13 := List.length_ofFn
  have hsize : DINODESIZE = 64 := rfl
  unfold put
  rw [Bytes.get_setWords_of_disjoint, Bytes.get_setLE_of_disjoint, get_setShort_of_disjoint,
    get_setShort_of_disjoint, get_setShort_of_disjoint, get_setShort_of_disjoint]
  all_goals omega

theorem get_congr {b b' : Block} {off : Nat} (h : ∀ i, off ≤ i → i < off + DINODESIZE → b.get i = b'.get i)
    : get b off = get b' off := by
  have hsub : ∀ {o k : Nat}, off ≤ o → o + k ≤ off + DINODESIZE →
      ∀ i, o ≤ i → i < o + k → b.get i = b'.get i := by
    intro o k ho hk i hi hi'
    apply h
    . omega
    . omega
  have hsize : DINODESIZE = 64 := rfl
  ext1
  . exact getShort_congr (hsub (by omega) (by omega))
  . exact getShort_congr (hsub (by omega) (by omega))
  . exact getShort_congr (hsub (by omega) (by omega))
  . exact getShort_congr (hsub (by omega) (by omega))
  . exact getUint_congr (hsub (by omega) (by omega))
  . funext k
    have hk : (k : Nat) < 13 := k.isLt
    exact getUint_congr (hsub (by omega) (by omega))

theorem get_put (di : Dinode) (b : Block) {off : Nat} (h : off + DINODESIZE ≤ BSIZE)
    : get (di.put b off) off = di := by
  have hsize : DINODESIZE = 64 := rfl
  -- each field is read through the stores that come after it
  ext1
  . unfold get put
    dsimp only
    rw [getShort_setWords_of_le, getShort_setLE_of_disjoint, getShort_setShort_of_disjoint,
      getShort_setShort_of_disjoint, getShort_setShort_of_disjoint, getShort_setShort]
    all_goals omega
  . unfold get put
    dsimp only
    rw [getShort_setWords_of_le, getShort_setLE_of_disjoint, getShort_setShort_of_disjoint,
      getShort_setShort_of_disjoint, getShort_setShort]
    all_goals omega
  . unfold get put
    dsimp only
    rw [getShort_setWords_of_le, getShort_setLE_of_disjoint, getShort_setShort_of_disjoint,
      getShort_setShort]
    all_goals omega
  . unfold get put
    dsimp only
    rw [getShort_setWords_of_le, getShort_setLE_of_disjoint, getShort_setShort]
    all_goals omega
  . unfold get put
    dsimp only
    rw [getUint_setWords_of_le, getUint_setLE]
    all_goals omega
  . funext k
    have hlt : (di.addrs k).toNat < 256 ^ 4 := UInt32.toNat_lt _
    have hk : (k : Nat) < (List.ofFn fun k => (di.addrs k).toNat).length := by
      rw [List.length_ofFn]
      exact k.isLt
    unfold get put getUint
    dsimp only
    rw [Bytes.getLE_setWords _ _ hk, List.getElem_ofFn, Nat.mod_eq_of_lt hlt, UInt32.ofNat_toNat]
    rw [List.length_ofFn]
    exact h

end Dinode
end Xv6
