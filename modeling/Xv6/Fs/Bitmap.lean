import Xv6.Fs.Lemmas.Inode

/-!
The loops of `balloc` in the arithmetic of the machine, and the proof that `balloc` and
`bfree` are an allocator for the blocks of the disk. The free map lies on the same disk, so its own blocks
have to be in use.
-/

namespace Xv6.Fs

open Outcome

variable {s : Store} {b : Nat} {fuel : Nat}

def int (x : Int) : Int :=
  x.bmod (2 ^ 32)

def uint (x : Int) : Nat :=
  (x % 2 ^ 32).toNat

theorem uint_natCast {n : Nat} (h : n < 2 ^ 32) : uint n = n := by
  unfold uint
  omega

theorem uint_int (x : Int) : uint (int x) = uint x := by
  unfold uint int
  congr 1
  exact Int.bmod_emod

theorem int_natCast {n : Nat} (h : n < 2 ^ 31) : int n = n := by
  unfold int
  exact Int.bmod_eq_of_le (by omega) (by omega)

namespace Store

def bitLoop (size : Nat) (data : Block) (b : Int) (bi k : Nat) : Option Nat :=
  match k with
  | 0 => none
  | k + 1 =>
    if bi < BPB ∧ uint (int (b + bi)) < size then
      if data.bit bi then bitLoop size data b (bi + 1) k else some bi
    else
      none

def bblockInt (sb : Superblock) (b : Int) : Nat :=
  uint (b.tdiv BPB + sb.bmapstart)

def ballocLoop (s : Store) (b : Int) (fuel : Nat) : Except Halt (Nat × Store) :=
  match fuel with
  | 0 => .error .stuck
  | fuel + 1 =>
    if uint b < s.sb.size then
      let bp := s.disk (bblockInt s.sb b)
      match bitLoop s.sb.size bp b 0 BPB with
      | some bi => do
        let s ← s.logWrite (bblockInt s.sb b) (bp.setBit bi)
        let s ← s.bzero (uint (int (b + bi)))
        return (uint (int (b + bi)), s)
      | none => ballocLoop s (int (b + BPB)) fuel
    else
      .error .outOfBlocks

def ballocInt (s : Store) (fuel : Nat) : Except Halt (Nat × Store) :=
  s.ballocLoop 0 fuel

def leastFree (s : Store) : Option Nat :=
  (List.range s.sb.size).find? fun b => !s.sb.bit s.disk b

def take (s : Store) (b : Nat) : Except Halt (Nat × Store) := do
  let s ← s.logWrite (s.sb.bblock b) ((s.disk (s.sb.bblock b)).setBit (b % BPB))
  let s ← s.bzero b
  return (b, s)

theorem uint_int_add {b bi : Nat} (h : b + bi < 2 ^ 32) : uint (int ((b : Int) + bi)) = b + bi := by
  rw [uint_int, ← Int.natCast_add, uint_natCast h]

theorem bitLoop_eq_some {size : Nat} {data : Block} (hb : b + BPB ≤ 2 ^ 31) {bi k r : Nat}
    (h : bitLoop size data b bi k = some r)
    : bi ≤ r ∧ r < BPB ∧ b + r < size ∧ data.bit r = false ∧ ∀ j, bi ≤ j → j < r → data.bit j = true := by
  induction k generalizing bi with
  | zero => cases h
  | succ k ih =>
    unfold bitLoop at h
    split at h
    . next hlt =>
      rw [uint_int_add (by omega)] at hlt
      split at h
      . next hset =>
        obtain ⟨hle, hr, hsize, hclear, hall⟩ := ih h
        refine ⟨by omega, hr, hsize, hclear, ?_⟩
        intro j hj hjr
        by_cases hjbi : j = bi
        . rw [hjbi]
          exact hset
        . exact hall j (by omega) hjr
      . next hclear =>
        cases h
        refine ⟨Nat.le_refl _, hlt.1, hlt.2, ?_, ?_⟩
        . rw [Bool.not_eq_true] at hclear
          exact hclear
        . intro j hj hjr
          omega
    . cases h

theorem bitLoop_eq_none {size : Nat} {data : Block} (hb : b + BPB ≤ 2 ^ 31) {bi k : Nat}
    (h : bitLoop size data b bi k = none) {j : Nat} (hj : bi ≤ j) (hjk : j < bi + k) (hBPB : j < BPB)
    (hsize : b + j < size)
    : data.bit j = true := by
  induction k generalizing bi with
  | zero => omega
  | succ k ih =>
    unfold bitLoop at h
    split at h
    . split at h
      . next hset =>
        by_cases hjbi : j = bi
        . rw [hjbi]
          exact hset
        . exact ih h (by omega) (by omega)
      . cases h
    . next hlt =>
      exfalso
      apply hlt
      rw [uint_int_add (by omega)]
      omega

theorem bblockInt_natCast {sb : Superblock} (hsize : sb.size ≤ 2 ^ 31) (hb : sb.bblock b < sb.size)
    : bblockInt sb b = sb.bblock b := by
  unfold bblockInt
  unfold Superblock.bblock at hb ⊢
  rw [Int.tdiv_eq_ediv_of_nonneg (Int.natCast_nonneg b)]
  norm_cast
  exact uint_natCast (by omega)

theorem leastFree_eq_some (hb : b < s.sb.size) (hfree : s.sb.bit s.disk b = false)
    (hused : ∀ c < b, s.sb.bit s.disk c = true)
    : s.leastFree = some b := by
  unfold leastFree
  rw [List.find?_range_eq_some]
  refine ⟨?_, List.mem_range.mpr hb, ?_⟩
  . rw [hfree]
    rfl
  . intro c hc
    rw [hused c hc]
    rfl

theorem leastFree_eq_none (hused : ∀ c < s.sb.size, s.sb.bit s.disk c = true)
    : s.leastFree = none := by
  unfold leastFree
  rw [List.find?_eq_none]
  intro c hc
  rw [hused c (List.mem_range.mp hc)]
  decide

theorem add_mod_of_dvd {b bi : Nat} (hb : b % BPB = 0) (hbi : bi < BPB) : (b + bi) % BPB = bi := by
  rw [Nat.add_mod, hb, Nat.zero_add, Nat.mod_mod, Nat.mod_eq_of_lt hbi]

theorem bblock_add (sb : Superblock) {b bi : Nat} (hb : b % BPB = 0) (hbi : bi < BPB)
    : sb.bblock (b + bi) = sb.bblock b := by
  have hdiv : b = b / BPB * BPB := by
    rw [Nat.div_mul_cancel (Nat.dvd_of_mod_eq_zero hb)]
  rw [hdiv]
  exact Superblock.bblock_mul_add sb _ hbi

theorem bit_add (sb : Superblock) (d : Disk) {b bi : Nat} (hb : b % BPB = 0) (hbi : bi < BPB)
    : sb.bit d (b + bi) = (d (sb.bblock b)).bit bi := by
  unfold Superblock.bit
  rw [bblock_add sb hb hbi, add_mod_of_dvd hb hbi]

theorem bit_of_lt_add {sb : Superblock} {d : Disk} {b n c : Nat} (hb : b % BPB = 0) (hn : n ≤ BPB)
    (hused : ∀ c < b, c < sb.size → sb.bit d c = true)
    (hall : ∀ i < n, b + i < sb.size → (d (sb.bblock b)).bit i = true) (hc : c < b + n) (hcs : c < sb.size)
    : sb.bit d c = true := by
  by_cases hcb : c < b
  . exact hused c hcb hcs
  . obtain ⟨i, rfl⟩ : ∃ i, c = b + i := ⟨c - b, by omega⟩
    rw [bit_add _ _ hb (by omega)]
    exact hall i (by omega) hcs

theorem ballocLoop_of_some {b : Int} {bi : Nat} (fuel : Nat) (hlt : uint b < s.sb.size)
    (h : bitLoop s.sb.size (s.disk (bblockInt s.sb b)) b 0 BPB = some bi)
    : s.ballocLoop b (fuel + 1) = (do
        let s' ← s.logWrite (bblockInt s.sb b) ((s.disk (bblockInt s.sb b)).setBit bi)
        let s' ← s'.bzero (uint (int (b + bi)))
        return (uint (int (b + bi)), s')) := by
  rw [ballocLoop, if_pos hlt]
  simp only [h]

theorem ballocLoop_of_none {b : Int} (fuel : Nat) (hlt : uint b < s.sb.size)
    (h : bitLoop s.sb.size (s.disk (bblockInt s.sb b)) b 0 BPB = none)
    : s.ballocLoop b (fuel + 1) = s.ballocLoop (int (b + BPB)) fuel := by
  rw [ballocLoop, if_pos hlt]
  simp only [h]

theorem ballocLoop_eq (hsize : s.sb.size ≤ 2 ^ 31)
    (hmap : ∀ b < s.sb.size, s.sb.bblock b < s.sb.size) {fuel b : Nat}
    (hfuel : s.sb.size + 4096 ≤ b + fuel * 4096) (hb : b < s.sb.size + 4096) (hmod : b % 4096 = 0)
    (hused : ∀ c < b, c < s.sb.size → s.sb.bit s.disk c = true)
    : s.ballocLoop (int b) fuel
      = match s.leastFree with
        | some b => s.take b
        | none => .error .outOfBlocks := by
  have hBPB : BPB = 4096 := rfl
  -- the invariant is `hused`: no bit below `b` is clear
  induction fuel generalizing b with
  | zero => omega
  | succ fuel ih =>
    have hb' : uint b = b := uint_natCast (by omega)
    by_cases hlt : b < s.sb.size
    . have hroom : b + BPB ≤ 2 ^ 31 := by omega
      have hlt' : uint b < s.sb.size := by omega
      have hblock := bblockInt_natCast hsize (hmap _ hlt)
      rw [int_natCast (by omega)]
      cases hloop : bitLoop s.sb.size (s.disk (bblockInt s.sb b)) b 0 BPB with
      | some bi =>
        rw [ballocLoop_of_some fuel hlt' hloop, hblock]
        rw [hblock] at hloop
        obtain ⟨_, hbi, hend, hclear, hall⟩ := bitLoop_eq_some hroom hloop
        have hleast : s.leastFree = some (b + bi) := by
          apply leastFree_eq_some hend
          . rw [bit_add _ _ hmod hbi]
            exact hclear
          . intro c hc
            exact bit_of_lt_add hmod (Nat.le_of_lt hbi) hused (fun i hi _ => hall i (Nat.zero_le _) hi)
              hc (by omega)
        rw [hleast, uint_int_add (by omega)]
        dsimp only
        unfold take
        rw [bblock_add _ hmod hbi, add_mod_of_dvd hmod hbi]
      | none =>
        have hnext : (b : Int) + (BPB : Nat) = ((b + 4096 : Nat) : Int) := by
          rw [hBPB, ← Int.natCast_add]
        rw [ballocLoop_of_none fuel hlt' hloop, hnext]
        rw [hblock] at hloop
        apply ih
        . omega
        . omega
        . omega
        . intro c hc hcs
          refine bit_of_lt_add hmod (Nat.le_refl _) hused ?_ hc hcs
          intro i hi his
          exact bitLoop_eq_none hroom hloop (Nat.zero_le _) (by omega) hi his
    . rw [ballocLoop, uint_int, hb', if_neg hlt, leastFree_eq_none]
      intro c hc
      exact hused c (by omega) hc

def took (s : Store) (b : Nat) : Store :=
  (s.wrote (s.sb.bblock b) ((s.disk (s.sb.bblock b)).setBit (b % BPB))).wrote b .zero

theorem take_sat (s : Store) (b : Nat) : Sat (s.Limit 2 0) (fun r => r = (b, s.took b)) (s.take b) := by
  apply Sat.bind ((logWrite_sat s _ _).mono
    (fun _ he => he.mono (fun hfits => hfits.mono (by omega)) (by omega)) (fun _ h => h))
  rintro _ rfl
  apply Sat.bind ((logWrite_sat _ _ _).mono (fun _ he => he.mono fits_wrote (by omega)) (fun _ h => h))
  rintro _ rfl
  rfl

theorem bfree_clears (h : s.sb.bit s.disk b = true)
    : Sat (s.Limit 1 0) (fun s' => s' = s.wrote (s.sb.bblock b) ((s.disk (s.sb.bblock b)).clearBit (b % BPB)))
      (s.bfree b) := by
  have hbit : (s.disk (s.sb.bblock b)).bit (b % BPB) = true := h
  unfold bfree
  dsimp only
  rw [if_pos hbit]
  exact logWrite_sat _ _ _

theorem bfree_panics (h : s.sb.bit s.disk b = false)
    : s.bfree b = .error .freeingFree := by
  have hbit : (s.disk (s.sb.bblock b)).bit (b % BPB) = false := h
  unfold bfree
  dsimp only
  rw [hbit]
  rfl

theorem exists_of_fits {α : Type} {k : Nat} {Q : α → Prop} {x : Except Halt α}
    (h : Sat (s.Limit k 0) Q x) (hfits : s.Fits k)
    : ∃ a, x = .ok a ∧ Q a := by
  cases x with
  | ok a => exact ⟨a, rfl, h⟩
  | error e =>
    rcases h with ⟨_, hnot⟩ | ⟨_, hlt⟩
    . exact absurd hfits hnot
    . omega

def MapInUse (s : Store) : Prop :=
  ∀ b < s.sb.size, s.sb.bblock b < s.sb.size ∧ s.sb.bit s.disk (s.sb.bblock b) = true

structure Allocated (s : Store) (b : Nat) (s' : Store) : Prop where
  sb : s'.sb = s.sb
  zero : s'.disk b = .zero
  bits : ∀ c < s.sb.size, s.sb.bit s'.disk c = Function.update (s.sb.bit s.disk) b true c
  others : ∀ c, c ≠ b → c ≠ s.sb.bblock b → s'.disk c = s.disk c

structure Freed (s : Store) (b : Nat) (s' : Store) : Prop where
  sb : s'.sb = s.sb
  bits : s.sb.bit s'.disk = Function.update (s.sb.bit s.disk) b false
  others : ∀ c, c ≠ s.sb.bblock b → s'.disk c = s.disk c

theorem allocated_took (hmap : s.MapInUse) (hfree : s.sb.bit s.disk b = false)
    : s.Allocated b (s.took b) := by
  refine ⟨rfl, Function.update_self .., ?_, ?_⟩
  . intro c hc
    have hne : b ≠ s.sb.bblock c := by
      rintro rfl
      rw [(hmap c hc).2] at hfree
      cases hfree
    change s.sb.bit (Function.update (Function.update s.disk (s.sb.bblock b) _) b _) c = _
    rw [Superblock.bit_update_of_ne hne, Superblock.bit_setBit]
  . intro c hcb hcm
    change Function.update (Function.update s.disk (s.sb.bblock b) _) b _ c = _
    rw [Function.update_of_ne hcb, Function.update_of_ne hcm]

theorem freed_wrote (s : Store) (b : Nat)
    : s.Freed b (s.wrote (s.sb.bblock b) ((s.disk (s.sb.bblock b)).clearBit (b % BPB))) := by
  refine ⟨rfl, Superblock.bit_clearBit _ _ _, ?_⟩
  intro c hc
  exact Function.update_of_ne hc _ _

theorem ballocInt_eq (hsize : s.sb.size ≤ 2 ^ 31) (hfuel : s.sb.size ≤ fuel * BPB)
    (hmap : s.MapInUse)
    : s.ballocInt (fuel + 1)
      = match s.leastFree with
        | some b => s.take b
        | none => .error .outOfBlocks := by
  have hBPB : BPB = 4096 := rfl
  rw [hBPB] at hfuel
  exact ballocLoop_eq (b := 0) hsize (fun b hb => (hmap b hb).1) (by omega) (by omega) rfl (by omega)

theorem leastFree_of_findFree {q bi : Nat} (h : s.findFree = some (q, bi))
    : s.leastFree = some (q * BPB + bi) := by
  obtain ⟨hbi, hlt, hfree⟩ := findFree_eq_some h
  apply leastFree_eq_some hlt hfree
  intro c hc
  have hBPB : BPB = 4096 := rfl
  unfold findFree at h
  obtain ⟨l₁, q', l₂, hrange, hfirst, hnone⟩ := List.findSome?_eq_some_iff.mp h
  obtain ⟨bi', hfind, heq⟩ := Option.map_eq_some_iff.mp hfirst
  cases heq
  have hmem := div_mem_range (s := s) (show c < s.sb.size by omega)
  by_cases hq : c / BPB = q
  . -- the block of the map is the one where the bit was found
    obtain ⟨_, _, hused⟩ := List.find?_range_eq_some.mp hfind
    have hc' : q * BPB + c % BPB = c := by
      rw [← hq]
      exact Nat.div_add_mod' c BPB
    have hbit := hused (c % BPB) (by omega)
    rw [Bool.not_not, ← Superblock.bit_mul_add _ _ _ (Nat.mod_lt c (by decide)), hc'] at hbit
    exact hbit
  . apply used_of_find_eq_none (by omega)
    apply hnone
    have hlt' : c / BPB < q := by
      rw [hBPB] at hc hbi hq ⊢
      omega
    have hsorted := List.pairwise_lt_range (n := (s.sb.size + BPB - 1) / BPB)
    rw [hrange] at hmem hsorted
    rcases List.mem_append.mp hmem with hmem | hmem
    . exact hmem
    . rcases List.mem_cons.mp hmem with heq | hmem
      . exact absurd heq hq
      . have hgt := (List.pairwise_cons.mp (List.pairwise_append.mp hsorted).2.1).1 _ hmem
        omega

theorem ballocInt_eq_balloc (hsize : s.sb.size ≤ 2 ^ 31)
    (hfuel : s.sb.size ≤ fuel * BPB) (hmap : s.MapInUse)
    : s.ballocInt (fuel + 1) = s.balloc := by
  rw [ballocInt_eq hsize hfuel hmap]
  unfold balloc
  cases hfind : s.findFree with
  | none =>
    rw [leastFree_eq_none]
    intro c hc
    unfold findFree at hfind
    exact used_of_find_eq_none hc (List.findSome?_eq_none_iff.mp hfind _ (div_mem_range hc))
  | some r =>
    obtain ⟨q, bi⟩ := r
    obtain ⟨hbi, _⟩ := findFree_eq_some hfind
    rw [leastFree_of_findFree hfind]
    unfold take
    dsimp only
    rw [bblock_add _ (Nat.mul_mod_left ..) hbi, add_mod_of_dvd (Nat.mul_mod_left ..) hbi]

theorem ballocInt_of_least {fuel b : Nat} (hsize : s.sb.size ≤ 2 ^ 31)
    (hfuel : s.sb.size ≤ fuel * BPB) (hmap : s.MapInUse) (hb : b < s.sb.size)
    (hfree : s.sb.bit s.disk b = false) (hused : ∀ c < b, s.sb.bit s.disk c = true)
    : Sat (s.Limit 2 0) (fun r => r.1 = b ∧ s.Allocated b r.2) (s.ballocInt (fuel + 1)) := by
  rw [ballocInt_eq hsize hfuel hmap, leastFree_eq_some hb hfree hused]
  apply (take_sat s b).mono (fun _ he => he)
  rintro _ rfl
  exact ⟨rfl, allocated_took hmap hfree⟩

theorem ballocInt_sat (hsize : s.sb.size ≤ 2 ^ 31) (hfuel : s.sb.size ≤ fuel * BPB)
    (hmap : s.MapInUse)
    : Sat (fun _ => True) (fun r => r.1 < s.sb.size ∧ s.sb.bit s.disk r.1 = false ∧ s.Allocated r.1 r.2)
      (s.ballocInt (fuel + 1)) := by
  rw [ballocInt_eq hsize hfuel hmap]
  cases hleast : s.leastFree with
  | none => trivial
  | some b =>
    have hb := List.mem_range.mp (List.mem_of_find?_eq_some hleast)
    have hfree := List.find?_some hleast
    rw [Bool.not_eq_true'] at hfree
    apply (take_sat s b).mono (fun _ _ => trivial)
    rintro _ rfl
    exact ⟨hb, hfree, allocated_took hmap hfree⟩

theorem bfree_sat_freed (s : Store) (b : Nat) : Sat (fun _ => True) (s.Freed b) (s.bfree b) := by
  cases hbit : s.sb.bit s.disk b with
  | false =>
    rw [bfree_panics hbit]
    trivial
  | true =>
    apply (bfree_clears hbit).mono (fun _ _ => trivial)
    rintro _ rfl
    exact freed_wrote s b

theorem Allocated.mapInUse {s s' : Store} (h : s.Allocated b s') (hmap : s.MapInUse)
    : s'.MapInUse := by
  intro c hc
  rw [h.sb] at hc ⊢
  obtain ⟨hlt, hused⟩ := hmap c hc
  refine ⟨hlt, ?_⟩
  rw [h.bits _ hlt]
  by_cases hcb : s.sb.bblock c = b
  . rw [hcb, Function.update_self]
  . rw [Function.update_of_ne hcb]
    exact hused

theorem Freed.mapInUse {s s' : Store} (h : s.Freed b s') (hmap : s.MapInUse)
    (hb : ∀ c < s.sb.size, s.sb.bblock c ≠ b)
    : s'.MapInUse := by
  intro c hc
  rw [h.sb] at hc ⊢
  obtain ⟨hlt, hused⟩ := hmap c hc
  refine ⟨hlt, ?_⟩
  rw [h.bits, Function.update_of_ne (hb c hc)]
  exact hused

theorem bit_of_freed {s s' s'' : Store} (hfree : s.sb.bit s.disk b = false) (h : s.Allocated b s')
    (h' : s'.Freed b s'') {c : Nat} (hc : c < s.sb.size)
    : s.sb.bit s''.disk c = s.sb.bit s.disk c := by
  have hbits := h'.bits
  rw [h.sb] at hbits
  rw [hbits]
  by_cases hcb : c = b
  . rw [hcb, Function.update_self, hfree]
  . rw [Function.update_of_ne hcb, h.bits c hc, Function.update_of_ne hcb]

inductive Event
  | alloc (b : Nat)
  | free (b : Nat)
  | beginOp
  | endOp

inductive Step (fuel : Nat) : Store → Event → Store → Prop
  | alloc {s s' : Store} {b : Nat} (h : s.ballocInt fuel = .ok (b, s')) : Step fuel s (.alloc b) s'
  | free {s s' : Store} {b : Nat} (h : s.bfree b = .ok s') : Step fuel s (.free b) s'
  | beginOp {s s' : Store} (h : s.beginOp = .ok s') : Step fuel s .beginOp s'
  | endOp (s : Store) : Step fuel s .endOp s.endOp

inductive Run (fuel : Nat) : Store → List Event → Store → Prop
  | nil (s : Store) : Run fuel s [] s
  | cons {s s' s'' : Store} {e : Event} {l : List Event} (h : Step fuel s e s') (hl : Run fuel s' l s'')
    : Run fuel s (e :: l) s''

theorem Run.append {s s'' : Store} {l l' : List Event} (h : Run fuel s (l ++ l') s'')
    : ∃ s', Run fuel s l s' ∧ Run fuel s' l' s'' := by
  induction l generalizing s with
  | nil => exact ⟨s, .nil s, h⟩
  | cons e l ih =>
    cases h with
    | cons he hl =>
      obtain ⟨s', hl, hl'⟩ := ih hl
      exact ⟨s', .cons he hl, hl'⟩

theorem Run.of_alloc {fuel b : Nat} {s s'' : Store} {l : List Event} (h : Run fuel s (.alloc b :: l) s'')
    : ∃ s', s.ballocInt fuel = .ok (b, s') ∧ Run fuel s' l s'' := by
  cases h with
  | cons he hl =>
    cases he with
    | alloc hok => exact ⟨_, hok, hl⟩

def SparesMap (sb : Superblock) (l : List Event) : Prop :=
  ∀ b, .free b ∈ l → ∀ c < sb.size, sb.bblock c ≠ b

theorem step_sat {s s' : Store} {e : Event} (hsize : s.sb.size ≤ 2 ^ 31)
    (hfuel : s.sb.size ≤ fuel * BPB) (hmap : s.MapInUse)
    (hspares : ∀ b, e = .free b → ∀ c < s.sb.size, s.sb.bblock c ≠ b) (h : Step (fuel + 1) s e s')
    : s'.sb = s.sb ∧ s'.MapInUse
      ∧ ∀ b < s.sb.size, e ≠ .free b → s.sb.bit s.disk b = true → s.sb.bit s'.disk b = true := by
  cases h with
  | alloc h =>
    obtain ⟨_, _, halloc⟩ := (ballocInt_sat hsize hfuel hmap).of_ok h
    refine ⟨halloc.sb, halloc.mapInUse hmap, ?_⟩
    intro b hb _ hused
    rw [halloc.bits b hb, Function.update_apply, hused]
    exact ite_self _
  | free h =>
    have hfreed := (bfree_sat_freed s _).of_ok h
    refine ⟨hfreed.sb, hfreed.mapInUse hmap (hspares _ rfl), ?_⟩
    intro b hb hne hused
    rw [hfreed.bits, Function.update_of_ne]
    . exact hused
    . rintro rfl
      exact hne rfl
  | beginOp h =>
    unfold Store.beginOp at h
    split at h
    . cases h
    . cases h
      exact ⟨rfl, hmap, fun _ _ _ hused => hused⟩
  | endOp =>
    unfold Store.endOp
    split
    all_goals exact ⟨rfl, hmap, fun _ _ _ hused => hused⟩

theorem run_sat {s s' : Store} {l : List Event} (hsize : s.sb.size ≤ 2 ^ 31)
    (hfuel : s.sb.size ≤ fuel * BPB) (hmap : s.MapInUse) (hspares : SparesMap s.sb l) (h : Run (fuel + 1) s l s')
    : s'.sb = s.sb ∧ s'.MapInUse
      ∧ ∀ b < s.sb.size, .free b ∉ l → s.sb.bit s.disk b = true → s.sb.bit s'.disk b = true := by
  induction l generalizing s with
  | nil =>
    cases h
    exact ⟨rfl, hmap, fun _ _ _ hused => hused⟩
  | cons e l ih =>
    cases h with
    | cons he hl =>
      obtain ⟨hsb, hmap', hbits⟩ := step_sat hsize hfuel hmap
        (fun b hb => hspares b (by rw [hb]; exact List.mem_cons_self)) he
      rw [← hsb] at hsize hfuel hspares
      obtain ⟨hsb', hmap'', hbits'⟩ := ih hsize hfuel hmap'
        (fun b hb => hspares b (List.mem_cons_of_mem _ hb)) hl
      refine ⟨hsb'.trans hsb, hmap'', ?_⟩
      intro b hb hfree hused
      rw [hsb] at hbits'
      apply hbits' b hb (fun hmem => hfree (List.mem_cons_of_mem _ hmem))
      apply hbits b hb _ hused
      rintro rfl
      exact hfree List.mem_cons_self

theorem free_mem_of_run {fuel b : Nat} {s s' : Store} {l₁ l₂ l₃ : List Event} (hsize : s.sb.size ≤ 2 ^ 31)
    (hfuel : s.sb.size ≤ fuel * BPB) (hmap : s.MapInUse)
    (hspares : SparesMap s.sb (l₁ ++ .alloc b :: (l₂ ++ .alloc b :: l₃)))
    (h : Run (fuel + 1) s (l₁ ++ .alloc b :: (l₂ ++ .alloc b :: l₃)) s')
    : .free b ∈ l₂ := by
  by_contra hnot
  obtain ⟨s₁, h₁, h⟩ := h.append
  obtain ⟨hsb₁, hmap₁, _⟩ := run_sat hsize hfuel hmap
    (fun c hc => hspares c (List.mem_append_left _ hc)) h₁
  rw [← hsb₁] at hsize hfuel hspares
  obtain ⟨s₂, hok, h⟩ := h.of_alloc
  obtain ⟨hb, _, halloc⟩ := (ballocInt_sat hsize hfuel hmap₁).of_ok hok
  have hused : s₂.sb.bit s₂.disk b = true := by
    rw [halloc.sb, halloc.bits b hb, Function.update_self]
  rw [← halloc.sb] at hsize hfuel hspares hb
  obtain ⟨s₃, h₂, h⟩ := h.append
  obtain ⟨hsb₃, hmap₃, hbits⟩ := run_sat hsize hfuel (halloc.mapInUse hmap₁)
    (fun c hc => hspares c (List.mem_append_right _ (List.mem_cons_of_mem _ (List.mem_append_left _ hc)))) h₂
  have hused' := hbits b hb hnot hused
  rw [← hsb₃] at hsize hfuel hused'
  obtain ⟨s₄, hok', _⟩ := h.of_alloc
  obtain ⟨_, hfree, _⟩ := (ballocInt_sat hsize hfuel hmap₃).of_ok hok'
  rw [hused'] at hfree
  cases hfree

/--
`balloc` and `bfree` allocate blocks, on a disk of up to 2^31 blocks whose free map is in use.
-/
theorem bitmap_allocates (s : Store) (fuel : Nat) (hsize : s.sb.size ≤ 2 ^ 31)
    (hfuel : s.sb.size ≤ fuel * BPB) (hmap : s.MapInUse)
    : (s.Fits 2 → ∀ b < s.sb.size, s.sb.bit s.disk b = false → (∀ c < b, s.sb.bit s.disk c = true) →
        ∃ s', s.ballocInt (fuel + 1) = .ok (b, s') ∧ s.Allocated b s')
      ∧ (s.Fits 1 → ∀ b, s.sb.bit s.disk b = true → ∃ s', s.bfree b = .ok s' ∧ s.Freed b s')
      ∧ (∀ b, s.sb.bit s.disk b = false → s.bfree b = .error .freeingFree)
      ∧ (∀ b s' s'', s.ballocInt (fuel + 1) = .ok (b, s') → s'.bfree b = .ok s'' →
          ∀ c < s.sb.size, s.sb.bit s''.disk c = s.sb.bit s.disk c)
      ∧ ∀ b l₁ l₂ l₃ s', Run (fuel + 1) s (l₁ ++ .alloc b :: (l₂ ++ .alloc b :: l₃)) s' →
          SparesMap s.sb (l₁ ++ .alloc b :: (l₂ ++ .alloc b :: l₃)) → .free b ∈ l₂ := by
  refine ⟨?_, ?_, ?_, ?_, ?_⟩
  . intro hfits b hb hfree hused
    obtain ⟨⟨b', s'⟩, hok, rfl, halloc⟩ :=
      exists_of_fits (ballocInt_of_least hsize hfuel hmap hb hfree hused) hfits
    exact ⟨s', hok, halloc⟩
  . intro hfits b hused
    obtain ⟨s', hok, rfl⟩ := exists_of_fits (bfree_clears hused) hfits
    exact ⟨_, hok, freed_wrote s b⟩
  . intro b hfree
    exact bfree_panics hfree
  . intro b s' s'' hballoc hbfree c hc
    obtain ⟨_, hfree, halloc⟩ := (ballocInt_sat hsize hfuel hmap).of_ok hballoc
    exact bit_of_freed hfree halloc ((bfree_sat_freed s' b).of_ok hbfree) hc
  . intro b l₁ l₂ l₃ s' hrun hspares
    exact free_mem_of_run hsize hfuel hmap hspares hrun

def fourBlocks (used : List Nat) : Store where
  sb := { size := 4, nblocks := 1, ninodes := 0, nlog := 10, logstart := 0, inodestart := 2, bmapstart := 2,
          size_lt := by decide }
  disk _ := used.foldl Bytes.setBit .zero
  lh := []
  outstanding := 1

theorem bitmap_allocates_of_four
    : ∃ s', (fourBlocks [0, 1, 2]).ballocInt 2 = .ok (3, s') ∧ (fourBlocks [0, 1, 2]).Allocated 3 s' := by
  have hmap : (fourBlocks [0, 1, 2]).MapInUse := by
    unfold MapInUse
    decide +kernel
  exact (bitmap_allocates (fourBlocks [0, 1, 2]) 1 (by decide) (by decide) hmap).1
    ⟨by decide, by decide, by decide⟩ 3 (by decide) (by decide +kernel) (by decide +kernel)

/-- A free map whose own block is free is lost: the bits of the blocks 0 and 1 are clear afterwards. -/
theorem balloc_zeroes_free_map
    : (fourBlocks [0, 1]).sb.bit (fourBlocks [0, 1]).disk 0 = true
      ∧ ((fourBlocks [0, 1]).ballocInt 2).toOption.map (fun r => (r.1, r.2.sb.bit r.2.disk 0))
        = some (2, false) := by
  decide +kernel

end Store
end Xv6.Fs
