import Mathlib.Logic.Function.Basic
import Xv6.Proc.Lemmas.Step

namespace Xv6

def intOfFloat (x : Rat) : Int :=
  let t := x.num.tdiv x.den
  if -2 ^ 31 ≤ t ∧ t < 2 ^ 31 then t else -2 ^ 31

abbrev PID_LEN : Nat := 3
abbrev AT_LEN : Nat := 10
abbrev ATR_LEN : Nat := 1
abbrev PR_LEN : Nat := 13
abbrev PRR_LEN : Nat := 1
abbrev EX_LEN : Nat := 10
abbrev EXR_LEN : Nat := 1
abbrev SIZE_LEN : Nat := 7
abbrev SIZER_LEN : Nat := 2
abbrev TICKS_LEN : Nat := 6

def Proc.cells (p : Proc) (sz ticks : UInt32) : List (Int × Nat) :=
  [(p.pid, PID_LEN),
   (int32 p.arrivetime.toNat, AT_LEN),
   (p.priority, PR_LEN),
   (intOfFloat p.priorityRatio, PRR_LEN),
   (intOfFloat p.arrivetimeRatio, ATR_LEN),
   (intOfFloat p.executedCycleRatio, EXR_LEN),
   (intOfFloat p.sizeRatio, SIZER_LEN),
   (int32 p.runningTicks.toNat, EX_LEN),
   (int32 sz.toNat, SIZE_LEN),
   (int32 ticks.toNat, TICKS_LEN)]

def reverseLoop (inp : Nat) (rev : Int) (cnt : Nat) : Int × Nat :=
  let rev := int32 (int32 (rev * 10) + (inp % 10 : Nat))
  if 0 < inp / 10 then
    reverseLoop (inp / 10) rev (cnt + 1)
  else
    (rev, cnt + 1)
  termination_by inp

def digitLoop (holder : Nat → UInt8) (rev : Int) (i cnt : Nat) : Nat → UInt8 :=
  match cnt with
  | 0 => holder
  | cnt + 1 =>
    digitLoop (Function.update holder i (UInt8.ofInt (rev.tmod 10 + 48))) (rev.tdiv 10) (i + 1) cnt

def wrapSpacei (inp : Int) (holder : Nat → UInt8) (len : Nat) : Except String (Nat → UInt8) :=
  if inp < 0 then
    .error "negative pid or arrive time"
  else
    let holder := fun k => if k < len then 32 else holder k
    let holder := Function.update holder len 0
    let (rev, cnt) := reverseLoop inp.toNat 0 0
    .ok (digitLoop holder rev 0 cnt)

def reversed (inp r : Nat) : Nat :=
  if 0 < inp / 10 then
    reversed (inp / 10) (10 * r + inp % 10)
  else
    10 * r + inp
  termination_by inp

theorem toDigits_of_pos {n : Nat} (h : 0 < n / 10)
    : Nat.toDigits 10 n = Nat.toDigits 10 (n / 10) ++ [Nat.digitChar (n % 10)] := by
  have hsplit := Nat.toDigits_append_toDigits (b := 10) (n := n / 10) (d := n % 10) (by decide) h
    (Nat.mod_lt _ (by decide))
  rw [Nat.toDigits_of_lt_base (Nat.mod_lt n (by decide)), Nat.div_add_mod] at hsplit
  exact hsplit.symm

theorem toDigits_of_zero {n : Nat} (h : ¬0 < n / 10) : Nat.toDigits 10 n = [Nat.digitChar n] :=
  Nat.toDigits_of_lt_base (by omega)

theorem reversed_div (inp r : Nat) : reversed inp r / 10 ^ (Nat.toDigits 10 inp).length = r := by
  fun_induction reversed inp r with
  | case1 inp r h ih =>
    rw [toDigits_of_pos h, List.length_append, List.length_singleton, Nat.pow_succ,
      ← Nat.div_div_eq_div_mul, ih]
    omega
  | case2 inp r h =>
    rw [toDigits_of_zero h, List.length_singleton]
    omega

theorem reversed_lt (inp : Nat) : reversed inp 0 < 10 ^ (Nat.toDigits 10 inp).length := by
  rw [← Nat.div_eq_zero_iff_lt (Nat.pow_pos (by decide))]
  exact reversed_div inp 0

theorem reversed_digit (inp r : Nat) {k : Nat} {c : Char} (h : (Nat.toDigits 10 inp)[k]? = some c)
    : Nat.digitChar (reversed inp r / 10 ^ k % 10) = c := by
  fun_induction reversed inp r with
  | case1 inp r hpos ih =>
    rw [toDigits_of_pos hpos] at h
    by_cases hk : k < (Nat.toDigits 10 (inp / 10)).length
    . rw [List.getElem?_append_left hk] at h
      exact ih h
    rw [List.getElem?_append_right (by omega), List.getElem?_singleton] at h
    split at h
    next hlast =>
      have hlen : k = (Nat.toDigits 10 (inp / 10)).length := by omega
      have hmod : (10 * r + inp % 10) % 10 = inp % 10 := by omega
      cases h
      rw [hlen, reversed_div, hmod]
    next => cases h
  | case2 inp r hzero =>
    rw [toDigits_of_zero hzero, List.getElem?_singleton] at h
    split at h
    next hk =>
      have hmod : (10 * r + inp) % 10 = inp := by omega
      cases h
      rw [hk, Nat.pow_zero, Nat.div_one, hmod]
    next => cases h

theorem int32_mul_add (r x : Int) : int32 (int32 (int32 r * 10) + x) = int32 (10 * r + x) := by
  unfold int32
  rw [Int.bmod_add_bmod, ← Int.bmod_add_bmod, Int.bmod_mul_bmod, Int.bmod_add_bmod, Int.mul_comm]

theorem reverseLoop_eq (inp r cnt : Nat)
    : reverseLoop inp (int32 r) cnt = (int32 (reversed inp r), cnt + (Nat.toDigits 10 inp).length) := by
  fun_induction reversed inp r generalizing cnt with
  | case1 inp r hpos ih =>
    rw [reverseLoop, int32_mul_add, if_pos hpos, toDigits_of_pos hpos, List.length_append,
      List.length_singleton]
    refine (ih (cnt + 1)).trans ?_
    rw [Nat.add_right_comm, Nat.add_assoc]
  | case2 inp r hzero =>
    rw [reverseLoop, int32_mul_add, if_neg hzero, toDigits_of_zero hzero, List.length_singleton,
      Nat.mod_eq_of_lt (by omega)]
    rfl

theorem digitLoop_of_lt (holder : Nat → UInt8) (rev : Int) {i k : Nat} (cnt : Nat) (h : k < i)
    : digitLoop holder rev i cnt k = holder k := by
  induction cnt generalizing holder rev i with
  | zero => rfl
  | succ cnt ih => rw [digitLoop, ih _ _ (by omega), Function.update_of_ne (by omega)]

theorem digitLoop_of_le (holder : Nat → UInt8) (rev : Int) {i cnt k : Nat} (h : i + cnt ≤ k)
    : digitLoop holder rev i cnt k = holder k := by
  induction cnt generalizing holder rev i with
  | zero => rfl
  | succ cnt ih => rw [digitLoop, ih _ _ (by omega), Function.update_of_ne (by omega)]

theorem ofInt_natCast (n : Nat) : UInt8.ofInt n = UInt8.ofNat n := by
  apply UInt8.toNat.inj
  simp only [UInt8.ofInt, UInt8.toNat_ofNat']
  omega

theorem digitLoop_eq (holder : Nat → UInt8) (rev : Nat) (i : Nat) {cnt k : Nat} (h : k < cnt)
    : digitLoop holder rev i cnt (i + k) = UInt8.ofNat (rev / 10 ^ k % 10 + 48) := by
  induction cnt generalizing holder rev i k with
  | zero => omega
  | succ cnt ih =>
    rw [digitLoop]
    cases k with
    | zero =>
      have hfirst := digitLoop_of_lt (Function.update holder i (UInt8.ofInt ((rev : Int).tmod 10 + 48)))
        ((rev : Int).tdiv 10) cnt (Nat.lt_add_one i)
      rw [Function.update_self] at hfirst
      rw [Nat.pow_zero, Nat.div_one, Nat.add_zero]
      exact hfirst.trans (ofInt_natCast (rev % 10 + 48))
    | succ k =>
      rw [show (rev : Int).tdiv 10 = (rev / 10 : Nat) from rfl, show i + (k + 1) = i + 1 + k by omega,
        ih _ _ _ (by omega), Nat.div_div_eq_div_mul, Nat.pow_succ, Nat.mul_comm]

theorem eq_of_digitLoop (holder : Nat → UInt8) {rev : Int} {r i cnt : Nat}
    (h : ∀ k < cnt, digitLoop holder rev i cnt (i + k) = UInt8.ofNat (r / 10 ^ k % 10 + 48))
    (hrev : rev.natAbs < 10 ^ cnt) (hr : r < 10 ^ cnt)
    : rev = r := by
  induction cnt generalizing holder rev r i with
  | zero => omega
  | succ cnt ih =>
    rw [Nat.pow_succ] at hrev hr
    have hfirst : digitLoop holder rev i (cnt + 1) i = _ := h 0 (Nat.succ_pos cnt)
    rw [digitLoop, digitLoop_of_lt _ _ _ (Nat.lt_add_one i), Function.update_self, Nat.pow_zero,
      Nat.div_one] at hfirst
    have hdiv : rev.tdiv 10 = (r / 10 : Nat) := by
      apply ih (Function.update holder i (UInt8.ofInt (rev.tmod 10 + 48))) (i := i + 1)
      . intro k hk
        have hnext := h (k + 1) (by omega)
        rw [digitLoop, Nat.pow_succ, Nat.mul_comm, ← Nat.div_div_eq_div_mul] at hnext
        rw [← hnext]
        congr 1
        omega
      . rw [Int.natAbs_tdiv]
        exact Nat.div_lt_of_lt_mul (by rw [Nat.mul_comm]; exact hrev)
      . omega
    have hsum := Int.mul_tdiv_add_tmod rev 10
    have hmod : rev.tmod 10 = (r % 10 : Nat) := by
      have hlt := Int.tmod_lt_of_pos rev (show (0 : Int) < 10 by decide)
      have hgt := Int.lt_tmod_of_pos rev (show (0 : Int) < 10 by decide)
      have hnat := congrArg UInt8.toNat hfirst
      simp only [UInt8.ofInt, UInt8.toNat_ofNat'] at hnat
      omega
    omega

/--
A number fills its field from the left, with its digits in order, and nothing behind the field is written, just
if it has at most `len` digits and its digits are an `int` in reverse order too.
-/
theorem wrap_spacei_exact (inp : Int) (len : Nat) (holder : Nat → UInt8)
    : (∃ holder', wrapSpacei inp holder len = .ok holder' ∧ holder' len = 0 ∧ (∀ k, len < k → holder' k = holder k)
        ∧ (∀ k c, (Nat.toDigits 10 inp.toNat)[k]? = some c → holder' k = UInt8.ofNat c.toNat)
        ∧ ∀ k, (Nat.toDigits 10 inp.toNat).length ≤ k → k < len → holder' k = 32)
      ↔ 0 ≤ inp ∧ (Nat.toDigits 10 inp.toNat).length ≤ len ∧ reversed inp.toNat 0 < 2 ^ 31 := by
  have hloop : reverseLoop inp.toNat 0 0
      = (int32 (reversed inp.toNat 0), (Nat.toDigits 10 inp.toNat).length) := by
    have := reverseLoop_eq inp.toNat 0 0
    rw [Nat.zero_add] at this
    exact this
  have hchar : ∀ {k c}, (Nat.toDigits 10 inp.toNat)[k]? = some c
      → c.toNat = reversed inp.toNat 0 / 10 ^ k % 10 + 48 := by
    intro k c hc
    rw [← reversed_digit _ 0 hc, Nat.toNat_digitChar_of_lt_ten (Nat.mod_lt _ (by decide)), Nat.add_comm]
  constructor
  . rintro ⟨holder', hok, hend, -, hdigits, -⟩
    have hnonneg : 0 ≤ inp := by
      by_contra hneg
      rw [wrapSpacei, if_pos (by omega)] at hok
      cases hok
    rw [wrapSpacei, if_neg (by omega), hloop] at hok
    cases hok
    have hlt := reversed_lt inp.toNat
    refine ⟨hnonneg, ?_, ?_⟩
    . -- The end of the string and a digit cannot be at the same place.
      by_contra hlen
      have hc := List.getElem?_eq_getElem (Nat.lt_of_not_le hlen)
      have hdigit := hdigits len _ hc
      rw [hend, hchar hc] at hdigit
      have hnat := congrArg UInt8.toNat hdigit
      simp only [UInt8.toNat_ofNat', UInt8.toNat_zero] at hnat
      omega
    . by_contra hge
      have hle := Int.le_bmod (x := reversed inp.toNat 0) (show 0 < 2 ^ 32 by decide)
      have hlt' := Int.bmod_lt (x := reversed inp.toNat 0) (show 0 < 2 ^ 32 by decide)
      have heq : int32 (reversed inp.toNat 0) = reversed inp.toNat 0 := by
        refine eq_of_digitLoop (Function.update (fun k => if k < len then 32 else holder k) len 0) (i := 0)
          ?_ ?_ hlt
        . intro k hk
          have hc := List.getElem?_eq_getElem hk
          rw [Nat.zero_add, ← hchar hc]
          exact hdigits k _ hc
        . unfold int32
          omega
      unfold int32 at heq
      omega
  . rintro ⟨hnonneg, hlen, hrev⟩
    refine ⟨digitLoop (Function.update (fun k => if k < len then 32 else holder k) len 0)
      (reversed inp.toNat 0) 0 (Nat.toDigits 10 inp.toNat).length, ?_, ?_, ?_, ?_, ?_⟩
    . rw [wrapSpacei, if_neg (by omega), hloop, int32_of_lt hrev]
    . rw [digitLoop_of_le _ _ (by omega), Function.update_self]
    . intro k hk
      rw [digitLoop_of_le _ _ (by omega), Function.update_of_ne (by omega), if_neg (by omega)]
    . intro k c hc
      have hdigit := digitLoop_eq
        (Function.update (fun k => if k < len then 32 else holder k) len 0) (reversed inp.toNat 0) 0
        (List.getElem?_eq_some_iff.mp hc).1
      rw [Nat.zero_add] at hdigit
      rw [hdigit, hchar hc]
    . intro k hk hlt
      rw [digitLoop_of_le _ _ (by omega), Function.update_of_ne (by omega), if_pos hlt]

/-- A ratio of two digits, which `change_global_bjf` lets pass, is written over the end of its field. -/
theorem wrap_spacei_past_end
    : ∃ s : State 1, Reach.Reachable State.init State.Steps s ∧ (10, PRR_LEN) ∈ (s.proc 0).cells 0 0
      ∧ ∀ holder, ∃ holder', wrapSpacei 10 holder PRR_LEN = .ok holder' ∧ holder' PRR_LEN = 48 := by
  have hrun : ∃ s : State 1, Reach.Reachable State.init State.Steps s
      ∧ decide ((10, PRR_LEN) ∈ (s.proc 0).cells 0 0) = true := by
    apply Reach.exists_of_exec (f := State.checkedStep fun _ _ _ => true) State.steps_of_checkedStep
      [.userinit, .scheduler 0, .afterSwtch 0, .changeGlobalBjf 0 10 10 10 10]
    decide +kernel
  rcases hrun with ⟨s, hreach, hcell⟩
  refine ⟨s, hreach, of_decide_eq_true hcell, ?_⟩
  intro holder
  have hloop : reverseLoop (10 : Int).toNat 0 0 = (1, 2) := by
    simp [reverseLoop, int32]
  refine ⟨digitLoop (Function.update (fun k => if k < PRR_LEN then 32 else holder k) PRR_LEN 0) 1 0 2,
    ?_, rfl⟩
  rw [wrapSpacei, if_neg (by decide), hloop]

end Xv6
