import Mathlib.Data.List.Induction
import Xv6.Proc.Impl.Queue

namespace Xv6
namespace Queue

variable {l : List ProcPtr} {q : Queue} {i qi : Nat}

structure Holds (q : Queue) (l : List ProcPtr) : Prop where
  pi_eq : q.pi.toInt = (l.length : Int) - 1
  length_le : l.length ≤ NPROC
  proc_eq : ∀ (i : Fin NPROC) (p : ProcPtr), l[i.val]? = some p → q.proc i = .proc p

theorem holds_init : init.Holds [] where
  pi_eq := by rfl
  length_le := by simp
  proc_eq := by simp

theorem Holds.get_eq (h : q.Holds l) {i : Nat} {p : ProcPtr} (hi : l[i]? = some p)
    : q.get i = .ok (.proc p) := by
  have hlt : i < l.length := (List.getElem?_eq_some_iff.mp hi).1
  have hbound : i < NPROC := Nat.lt_of_lt_of_le hlt h.length_le
  unfold get
  rw [dif_pos hbound]
  rw [h.proc_eq ⟨i, hbound⟩ p hi]

theorem Holds.slot?_eq (h : q.Holds l) {i : Nat} (hi : i < l.length)
    : q.slot? i = l[i]? := by
  have hget : l[i]? = some l[i] := List.getElem?_eq_getElem hi
  unfold slot?
  rw [h.get_eq hget, hget]

theorem filterMap_getElem?_range (l : List ProcPtr)
    : (List.range l.length).filterMap (fun i => l[i]?) = l := by
  induction l using List.reverseRecOn with
  | nil => simp
  | append_singleton l p ih =>
    have hinit : (List.range l.length).filterMap (fun i => (l ++ [p])[i]?) = l := by
      conv => rhs; rw [← ih]
      apply List.filterMap_congr
      intro i hi
      rw [List.getElem?_append_left]
      simpa using hi
    simp [List.range_succ, hinit]

theorem Holds.entries_eq (h : q.Holds l) : q.entries = l := by
  unfold entries
  have hlen : (q.pi.toInt + 1).toNat = l.length := by
    have := h.pi_eq
    omega
  rw [hlen]
  conv => rhs; rw [← filterMap_getElem?_range l]
  apply List.filterMap_congr
  intro i hi
  apply h.slot?_eq
  simpa using hi

theorem append_holds (h : q.Holds l) (p : ProcPtr) (hlen : l.length < NPROC)
    : ∃ q', q.append p = .ok q' ∧ q'.Holds (l ++ [p]) := by
  have hpi : (q.setPi (q.pi.toInt + 1)).pi.toInt = l.length := by
    simp [setPi, h.pi_eq]
  refine ⟨{ q.setPi (q.pi.toInt + 1) with
    proc := fun j => if j.val = l.length then .proc p else q.proc j }, ?_, ?_⟩
  . unfold append
    simp only [hpi]
    rw [if_pos (by omega)]
    unfold set
    rw [Int.toNat_natCast, if_pos hlen]
    rfl
  . constructor
    . simp [hpi]
    . simp
      omega
    . intro i x hx
      by_cases hi : i.val = l.length
      . rw [hi, List.getElem?_append_right (Nat.le_refl _)] at hx
        simp only [Nat.sub_self, List.getElem?_cons_zero, Option.some.injEq] at hx
        simp [hi, hx]
      have hlt : i.val < (l ++ [p]).length := (List.getElem?_eq_some_iff.mp hx).1
      rw [List.length_append, List.length_singleton] at hlt
      rw [List.getElem?_append_left (by omega)] at hx
      simp only [hi, ↓reduceIte]
      exact h.proc_eq i x hx

theorem findQi_eq (h : q.Holds l) (pid : ProcPtr → Int) (x : Int)
    (m qi : Nat) (hm : qi + m = l.length)
    : findQi pid q x m qi = .ok (qi + (l.drop qi).findIdx (fun p => pid p = x)) := by
  induction m generalizing qi with
  | zero =>
    have hqi : qi = l.length := by omega
    subst hqi
    simp [findQi]
  | succ m ih =>
    have hlt : qi < l.length := by omega
    unfold findQi
    rw [h.get_eq (List.getElem?_eq_getElem hlt)]
    rw [List.drop_eq_getElem_cons hlt, List.findIdx_cons]
    simp only [bind, Except.bind, Word.deref]
    split
    . next hpid => simp [hpid]
    . next hpid =>
      rw [ih (qi + 1) (by omega)]
      simp only [hpid, decide_false, cond_false, Except.ok.injEq]
      omega

structure Shifting (q : Queue) (l : List ProcPtr) (i qi : Nat) : Prop where
  pi_eq : q.pi.toInt = (l.length : Int) - 1
  below : ∀ j : Fin NPROC, j.val < i → ∀ p, l[j.val]? = some p → q.proc j = .proc p
  moved : ∀ j : Fin NPROC, i ≤ j.val → j.val < qi → ∀ p, l[j.val + 1]? = some p → q.proc j = .proc p
  current : ∀ j : Fin NPROC, j.val = qi → qi < l.length → ∃ p, q.proc j = .proc p
  above : ∀ j : Fin NPROC, qi < j.val → ∀ p, l[j.val]? = some p → q.proc j = .proc p

theorem Holds.shifting (h : q.Holds l) (i : Nat)
    : q.Shifting l i i where
  pi_eq := h.pi_eq
  below := fun j _ p hp => h.proc_eq j p hp
  moved := by omega
  current := by
    intro j hj hlt
    exact ⟨l[j.val], h.proc_eq j _ (List.getElem?_eq_getElem (by omega))⟩
  above := fun j _ p hp => h.proc_eq j p hp

def swap (q : Queue) (qi : Nat) (hqi : qi + 1 < NPROC) : Queue :=
  { q with proc := fun j =>
      if j.val = qi + 1 then q.proc ⟨qi, by omega⟩
      else if j.val = qi then q.proc ⟨qi + 1, hqi⟩
      else q.proc j }

theorem swap_proc_of_ne (q : Queue) (qi : Nat) (hqi : qi + 1 < NPROC) (j : Fin NPROC)
    (h1 : j.val ≠ qi) (h2 : j.val ≠ qi + 1)
    : (q.swap qi hqi).proc j = q.proc j := by
  simp [swap, h1, h2]

theorem Shifting.swap (h : q.Shifting l i qi)
    (hi : i ≤ qi) (hlt : qi < l.length) (hqi : qi + 1 < NPROC)
    : (q.swap qi hqi).Shifting l i (qi + 1) where
  pi_eq := h.pi_eq
  below := by
    intro j hj p hp
    rw [swap_proc_of_ne]
    . exact h.below j hj p hp
    . omega
    . omega
  moved := by
    intro j hij hj p hp
    by_cases heq : j.val = qi
    . -- the slot that the iteration fills
      rw [heq] at hp
      have hne : ¬qi = qi + 1 := by omega
      simp only [Queue.swap, heq, hne, ↓reduceIte]
      exact h.above ⟨qi + 1, hqi⟩ (by simp) p hp
    . rw [swap_proc_of_ne]
      . exact h.moved j hij (by omega) p hp
      . exact heq
      . omega
  current := by
    intro j hj _
    simp only [Queue.swap, hj, ↓reduceIte]
    exact h.current ⟨qi, by omega⟩ rfl hlt
  above := by
    intro j hj p hp
    rw [swap_proc_of_ne]
    . exact h.above j (by omega) p hp
    . omega
    . omega

theorem get_of_lt (q : Queue) {i : Nat} (hi : i < NPROC) : q.get i = .ok (q.proc ⟨i, hi⟩) := by
  unfold get
  rw [dif_pos hi]

theorem shiftLoop_swap (fuel : Nat)
    (h : q.Shifting l i qi) (hlt : qi < l.length) (hqi : qi + 1 < NPROC)
    : shiftLoop (fuel + 1) q qi = shiftLoop fuel (q.swap qi hqi) (qi + 1) := by
  have hpi := h.pi_eq
  have hqi' : qi < NPROC := by omega
  conv => lhs; unfold shiftLoop
  rw [if_pos (by omega)]
  rw [get_of_lt q hqi', get_of_lt q hqi]
  simp only [bind, Except.bind, set, hqi, hqi', ↓reduceIte]
  rfl

theorem shiftLoop_eq (fuel : Nat)
    (h : q.Shifting l i qi) (hi : i ≤ qi) (hle : qi ≤ l.length) (hlen : l.length < NPROC)
    (hfuel : l.length < qi + fuel)
    : ∃ q', shiftLoop fuel q qi = .ok (q', l.length) ∧ q'.Shifting l i l.length := by
  induction fuel generalizing q qi with
  | zero => omega
  | succ fuel ih =>
    by_cases hlt : qi < l.length
    . rw [shiftLoop_swap fuel h hlt (by omega)]
      exact ih (h.swap hi hlt (by omega)) (by omega) (by omega) (by omega)
    have heq : qi = l.length := by omega
    subst heq
    refine ⟨q, ?_, h⟩
    have hpi := h.pi_eq
    unfold shiftLoop
    rw [if_neg (by omega)]

theorem procAddr_neg (p : ProcPtr) : Word.procAddr p < 0 := by
  unfold Word.procAddr
  have : p.val < 64 := p.isLt
  omega

theorem shiftLoop_full (fuel : Nat)
    (h : q.Shifting l i qi) (hi : i ≤ qi) (hle : qi ≤ l.length) (hlen : l.length = NPROC)
    (hfuel : NPROC + 1 < qi + fuel)
    : ∃ q', shiftLoop fuel q qi = .ok (q', NPROC) := by
  induction fuel generalizing q qi with
  | zero => omega
  | succ fuel ih =>
    have hpi := h.pi_eq
    by_cases hlt : qi + 1 < NPROC
    . rw [shiftLoop_swap fuel h (by omega) hlt]
      exact ih (h.swap hi (by omega) hlt) (by omega) (by omega) (by omega)
    by_cases hlast : qi + 1 = NPROC
    . rcases h.current ⟨qi, by omega⟩ rfl (by omega) with ⟨p, hp⟩
      have hneg := procAddr_neg p
      have hget : q.get (qi + 1) = .ok q.pi := by
        simp [get, hlast]
      rcases Nat.exists_eq_succ_of_ne_zero (by omega : fuel ≠ 0) with ⟨fuel', rfl⟩
      unfold shiftLoop
      rw [if_pos (by omega), hget, get_of_lt q (by omega), hp]
      simp only [bind, Except.bind, set, (by omega : qi < NPROC), hlast, ↓reduceIte,
        Nat.lt_irrefl]
      unfold shiftLoop
      rw [if_neg (by simp only [Word.toInt]; omega)]
      exact ⟨_, rfl⟩
    . have heq : qi = NPROC := by omega
      subst heq
      refine ⟨q, ?_⟩
      unfold shiftLoop
      rw [if_neg (by omega)]

def removed (pid : ProcPtr → Int) (x : Int) (l : List ProcPtr) : List ProcPtr :=
  if l.length = NPROC then
    []
  else if x ∈ l.map pid then
    l.eraseP fun p => pid p = x
  else
    l.dropLast

theorem length_removed_lt (pid : ProcPtr → Int) (x : Int) (hne : l ≠ [])
    : (removed pid x l).length < l.length := by
  have hpos := List.length_pos_iff.mpr hne
  unfold removed
  split
  . exact hpos
  split
  . next hmem =>
    rcases List.mem_map.mp hmem with ⟨p, hp, hpid⟩
    rw [List.length_eraseP_of_mem hp (by simpa using hpid)]
    omega
  . rw [List.length_dropLast]
    omega

theorem Shifting.holds {l r : List ProcPtr} {i : Nat} (h : q.Shifting l i l.length)
    (hlen : l.length < NPROC) (hr : r.length + 1 = l.length)
    (hget : ∀ j, j < r.length → r[j]? = if j < i then l[j]? else l[j + 1]?)
    : ∃ q', (q.set l.length .null >>= fun q => pure (q.setPi (q.pi.toInt - 1))) = .ok q'
        ∧ q'.Holds r := by
  have hpi := h.pi_eq
  simp only [set, hlen, ↓reduceIte, bind, Except.bind, pure, Except.pure]
  refine ⟨_, rfl, ?_⟩
  constructor
  . simp [setPi]
    omega
  . omega
  . intro j p hp
    have hj : j.val < r.length := (List.getElem?_eq_some_iff.mp hp).1
    have hne : ¬j.val = l.length := by omega
    simp only [setPi, hne, ↓reduceIte]
    rw [hget j.val hj] at hp
    split at hp
    . next hlt => exact h.below j hlt p hp
    . exact h.moved j (by omega) (by omega) p hp

theorem eraseP_eq_eraseIdx_findIdx {f : ProcPtr → Bool} (h : l.findIdx f < l.length)
    : l.eraseP f = l.eraseIdx (l.findIdx f) := by
  have : l.findIdx? f = some (l.findIdx f) := by
    rw [List.findIdx?_eq_some_iff_findIdx_eq]
    exact ⟨h, rfl⟩
  rw [List.eraseP_eq_eraseIdx, this]

theorem remove_holds (h : q.Holds l) (pid : ProcPtr → Int)
    (p : ProcPtr) (hne : l ≠ [])
    : ∃ q', q.remove pid p = .ok q' ∧ q'.Holds (removed pid (pid p) l) := by
  generalize hi : l.findIdx (fun p' => pid p' = pid p) = i
  have hlen := h.length_le
  have hpos : 0 < l.length := List.length_pos_iff.mpr hne
  have hfind : findQi pid q (pid p) (q.pi.toInt + 1).toNat 0 = .ok i := by
    have hm : (q.pi.toInt + 1).toNat = l.length := by
      have := h.pi_eq
      omega
    rw [hm, findQi_eq h pid (pid p) l.length 0 (by omega)]
    simp [hi]
  have hile : i ≤ l.length := by
    rw [← hi]
    exact List.findIdx_le_length
  unfold remove shiftOutQueue
  rw [hfind]
  by_cases hfull : l.length = NPROC
  . rcases shiftLoop_full (NPROC + 2) (h.shifting i) (Nat.le_refl i) hile hfull (by omega)
      with ⟨q', hq'⟩
    simp only [hq', bind, Except.bind, set, Nat.lt_irrefl, ↓reduceIte, pure, Except.pure]
    refine ⟨_, rfl, ?_⟩
    unfold removed
    rw [if_pos hfull]
    constructor
    . simp only [setPi, Word.toInt_ofInt]
      rfl
    . simp
    . simp
  . rcases shiftLoop_eq (NPROC + 2) (h.shifting i) (Nat.le_refl i) hile (by omega) (by omega)
      with ⟨q', hq', hshift⟩
    unfold removed
    rw [if_neg hfull]
    split
    . next hmem =>
      have hlt : i < l.length := by
        rw [← hi]
        apply List.findIdx_lt_length_of_exists
        simpa using hmem
      rw [eraseP_eq_eraseIdx_findIdx (by omega), hi]
      have := hshift.holds (r := l.eraseIdx i) (by omega) (by simp [List.length_eraseIdx, hlt]; omega)
        (fun j _ => List.getElem?_eraseIdx)
      simpa [hq', bind, Except.bind] using this
    . next hmem =>
      have heq : i = l.length := by
        rw [← hi]
        apply List.findIdx_eq_length_of_false
        intro x hx
        simp only [List.mem_map, not_exists, not_and] at hmem
        simp [hmem x hx]
      have := hshift.holds (r := l.dropLast) (by omega) (by simp; omega) (by
        intro j hj
        rw [List.length_dropLast] at hj
        rw [List.getElem?_dropLast, if_pos hj, if_pos (by omega)])
      simpa [hq', bind, Except.bind] using this

end Queue
end Xv6
