import Xv6.Lib.Outcome
import Xv6.Proc.Lemmas.Queue

namespace Xv6
namespace Queue

variable {q : Queue} {l : List ProcPtr} {pid : ProcPtr → Int} {p : ProcPtr}

def getIn (q : Queue) (i : Nat) : Except Halt Word :=
  if i < NPROC then q.get i else .error .wild

def setIn (q : Queue) (i : Nat) (w : Word) : Except Halt Queue :=
  if i < NPROC then q.set i w else .error .wild

def findQiIn (pid : ProcPtr → Int) (q : Queue) (x : Int) (n : Nat) (qi : Nat) : Except Halt Nat :=
  match n with
  | 0 => .ok qi
  | n + 1 => do
    let p ← (← q.getIn qi).deref
    if pid p = x then
      .ok qi
    else
      findQiIn pid q x n (qi + 1)

def shiftLoopIn (fuel : Nat) (q : Queue) (qi : Nat) : Except Halt (Queue × Nat) :=
  match fuel with
  | 0 => .error .wild
  | fuel + 1 =>
    if (qi : Int) ≤ q.pi.toInt then do
      let temp ← q.getIn qi
      let next ← q.getIn (qi + 1)
      let q ← q.setIn qi next
      let q ← q.setIn (qi + 1) temp
      shiftLoopIn fuel q (qi + 1)
    else
      .ok (q, qi)

def shiftOutQueueIn (pid : ProcPtr → Int) (q : Queue) (p : ProcPtr) : Except Halt Queue := do
  let qi ← findQiIn pid q (pid p) (q.pi.toInt + 1).toNat 0
  let (q, qi) ← shiftLoopIn (NPROC + 2) q qi
  q.setIn qi .null

theorem getIn_eq {i : Nat} (hi : i < NPROC) : q.getIn i = q.get i := by
  rw [getIn, if_pos hi]

theorem setIn_eq {i : Nat} (hi : i < NPROC) (w : Word) : q.setIn i w = q.set i w := by
  rw [setIn, if_pos hi]

theorem findQiIn_eq (pid : ProcPtr → Int) (q : Queue) (x : Int) {m qi : Nat} (hm : qi + m ≤ NPROC)
    : findQiIn pid q x m qi = findQi pid q x m qi := by
  induction m generalizing qi with
  | zero => rfl
  | succ m ih =>
    unfold findQiIn findQi
    rw [getIn_eq (by omega), ih (by omega)]

theorem shiftLoopIn_eq {i qi : Nat} (fuel : Nat) (h : q.Shifting l i qi) (hi : i ≤ qi)
    (hle : qi ≤ l.length) (hlen : l.length < NPROC)
    : shiftLoopIn fuel q qi = shiftLoop fuel q qi := by
  induction fuel generalizing q qi with
  | zero => rfl
  | succ fuel ih =>
    have hpi := h.pi_eq
    by_cases hlt : qi < l.length
    . have hqi : qi < NPROC := by omega
      have hqi' : qi + 1 < NPROC := by omega
      rw [shiftLoop_swap fuel h hlt hqi', ← ih (h.swap hi hlt hqi') (by omega) (by omega)]
      conv => lhs; unfold shiftLoopIn
      rw [if_pos (by omega), getIn_eq hqi, getIn_eq hqi', get_of_lt q hqi, get_of_lt q hqi']
      simp only [bind, Except.bind, setIn, set, hqi, hqi', ↓reduceIte]
      rfl
    . unfold shiftLoopIn shiftLoop
      rw [if_neg (by omega), if_neg (by omega)]

theorem eraseP_pid_eq_erase (hp : p ∈ l) (hpid : ∀ q ∈ l, pid q = pid p → q = p)
    : (l.eraseP fun q => pid q = pid p) = l.erase p := by
  induction l with
  | nil => cases hp
  | cons a l ih =>
    by_cases ha : a = p
    . simp [ha]
    have hne : pid a ≠ pid p := fun heq => ha (hpid a List.mem_cons_self heq)
    have hmem : p ∈ l := by
      rcases List.mem_cons.mp hp with rfl | hmem
      . exact absurd rfl ha
      . exact hmem
    rw [List.eraseP_cons_of_neg (by simpa using hne), List.erase_cons_tail (by simpa using ha),
      ih hmem fun q hq => hpid q (List.mem_cons_of_mem a hq)]

theorem removed_eq_erase (hlen : l.length < NPROC) (hp : p ∈ l) (hpid : ∀ q ∈ l, pid q = pid p → q = p)
    : removed pid (pid p) l = l.erase p := by
  unfold removed
  rw [if_neg (by omega), if_pos (List.mem_map_of_mem hp), eraseP_pid_eq_erase hp hpid]

theorem Holds.shiftOutQueueIn_eq (h : q.Holds l) (hlen : l.length < NPROC)
    : q.shiftOutQueueIn pid p = q.shiftOutQueue pid p := by
  have hm : (q.pi.toInt + 1).toNat = l.length := by
    have := h.pi_eq
    omega
  have hle : (l.findIdx fun p' => pid p' = pid p) ≤ l.length := List.findIdx_le_length
  unfold shiftOutQueueIn shiftOutQueue
  rw [hm, findQiIn_eq pid q (pid p) (by omega), findQi_eq h pid (pid p) l.length 0 (by omega)]
  simp only [List.drop_zero, Nat.zero_add, bind, Except.bind]
  rw [shiftLoopIn_eq (NPROC + 2) (h.shifting _) (Nat.le_refl _) hle hlen]
  rcases shiftLoop_eq (NPROC + 2) (h.shifting _) (Nat.le_refl _) hle hlen (by omega)
    with ⟨q', hq', _⟩
  rw [hq']
  exact setIn_eq hlen .null

structure RemovesExactly (q : Queue) (pid : ProcPtr → Int) (p : ProcPtr) (l : List ProcPtr) : Prop where
  removes : ∃ q', q.remove pid p = .ok q' ∧ q'.pi.toInt = (l.length : Int) - 2
    ∧ ∀ i x, (l.erase p)[i]? = some x → q'.get i = .ok (.proc x)
  inside : ∃ q', q.shiftOutQueueIn pid p = .ok q' ∧ q.shiftOutQueue pid p = .ok q'

/-- It does so unless the queue is full. -/
theorem removes_exactly_iff (h : q.Holds l) (hp : l.count p = 1) (hpid : ∀ a ∈ l, ∀ b ∈ l, pid a = pid b → a = b)
    : q.RemovesExactly pid p l ↔ l.length < NPROC := by
  have hmem : p ∈ l := List.count_pos_iff.mp (by omega)
  have hpos := List.length_pos_of_mem hmem
  have herase := List.length_erase_of_mem hmem
  rcases remove_holds h pid p (List.ne_nil_of_mem hmem) with ⟨q', hq', hholds⟩
  constructor
  . rintro ⟨⟨q1, hq1, hpi, _⟩, _⟩
    by_contra hfull
    -- A full queue loses all of its processes.
    have hlen : l.length = NPROC := by
      have := h.length_le
      omega
    have hnil : removed pid (pid p) l = [] := by
      rw [removed, if_pos hlen]
    have hpi' := hholds.pi_eq
    rw [hq'] at hq1
    cases hq1
    rw [hpi, hnil, hlen] at hpi'
    cases hpi'
  . intro hlen
    rw [removed_eq_erase hlen hmem fun a ha => hpid a ha p hmem] at hholds
    refine ⟨⟨q', hq', ?_, fun i x hx => hholds.get_eq hx⟩, ?_⟩
    . rw [hholds.pi_eq, herase]
      omega
    . unfold remove at hq'
      rcases Outcome.bind_eq_ok.mp hq' with ⟨q1, hq1, _⟩
      exact ⟨q1, by rw [h.shiftOutQueueIn_eq hlen, hq1], hq1⟩

def firstOf (len : Nat) : Queue where
  proc := fun i => if i.val < len then .proc i else .null
  pi := .ofInt (len - 1)

theorem firstOf_holds {len : Nat} (hlen : len ≤ NPROC)
    : (firstOf len).Holds ((List.finRange NPROC).take len) where
  pi_eq := by
    simp [firstOf, hlen]
  length_le := by
    simp
  proc_eq := by
    intro i p hp
    have hlt : i.val < len := by
      have := (List.getElem?_eq_some_iff.mp hp).1
      rw [List.length_take] at this
      omega
    rw [List.getElem?_take_of_lt hlt, List.getElem?_eq_getElem (by simp)] at hp
    simp only [List.getElem_finRange, Option.some.injEq] at hp
    simp only [firstOf, hlt, if_true]
    rw [← hp]
    rfl

theorem removes_exactly_of_three
    : (firstOf 3).RemovesExactly (fun p => (p.val : Int) + 1) 0 ((List.finRange NPROC).take 3) := by
  rw [removes_exactly_iff (firstOf_holds (by decide)) (by decide) (by decide)]
  decide

/--
In a full queue the last exchange is one of `proc[NPROC - 1]` and `pi`. The null pointer is stored to
`pi` then, and the queue is empty.
-/
theorem full_queue_loses_all
    : ((firstOf NPROC).remove (fun p => (p.val : Int) + 1) 0).toOption.map (fun q => q.pi.toInt)
          = some (-1)
        ∧ ((firstOf NPROC).shiftOutQueueIn (fun p => (p.val : Int) + 1) 0).toOption.isNone = true
        ∧ ¬(firstOf NPROC).RemovesExactly (fun p => (p.val : Int) + 1) 0 (List.finRange NPROC) := by
  refine ⟨by decide +kernel, by decide +kernel, ?_⟩
  rintro ⟨⟨q', hq', hpi, _⟩, _⟩
  have hlost : ((firstOf NPROC).remove (fun p => (p.val : Int) + 1) 0).toOption.map
      (fun q => q.pi.toInt) = some (-1) := by decide +kernel
  rw [hq'] at hlost
  simp [Except.toOption, hpi] at hlost

end Queue
end Xv6
