import Xv6.Exec.Stack

namespace Xv6
namespace Exec
namespace Walk

open Vm

def entry (w : Nat) : Option Pte :=
  if w % 2 = 1 then
    some { pa := w / 4096 * 4096, w := w / 2 % 2 = 1, u := w / 4 % 2 = 1, rest := w % 4096 / 8 }
  else
    none

/--
`*walkpgdir(pgdir, va, 0)` for the virtual page `v`. Without a page table `walkpgdir` returns 0, so the entry is
the word `null` at the address 0 of the running process. The `Bool` says whether this has happened.
-/
def walk (d : PageDir) (null v : Nat) : Option Pte × Bool :=
  match d.table (v / 1024) with
  | some _ => (d.pte v, false)
  | none => (entry null, true)

def p2v (pa : Nat) : Option Nat :=
  if (pa + KERNBASE) % 2 ^ 32 = 0 then none else some pa

def uva2ka (d : PageDir) (null uva : Nat) : Option Nat × Bool :=
  match walk d null (uva / 4096) with
  | (none, stray) => (none, stray)
  | (some e, stray) => (if e.u then p2v e.pa else none, stray)

def fill (mem : Nat → Page) (pg off : Nat) (l : List UInt8) : Nat → Page :=
  Function.update mem pg fun o => if off ≤ o ∧ o < off + l.length then l.getD (o - off) 0 else mem pg o

structure Result where
  mem : Nat → Page
  ret : Int
  stray : Bool

def copyout (mem : Nat → Page) (d : PageDir) (null va : Nat) (l : List UInt8) : Result :=
  if _h : 0 < l.length then
    let va0 := va / 4096 * 4096
    let n := min (4096 - (va - va0)) l.length
    match uva2ka d null va0 with
    | (none, stray) => ⟨mem, -1, stray⟩
    | (some pa0, stray) =>
      let r := copyout (fill mem pa0 (va - va0) (l.take n)) d null ((va0 + 4096) % 2 ^ 32) (l.drop n)
      { r with stray := stray || r.stray }
  else
    ⟨mem, 0, false⟩
termination_by l.length
decreasing_by
  rw [List.length_drop]
  omega

variable {mem : Nat → Page} {d : PageDir} {null va : Nat} {l : List UInt8}

def Physical (d : PageDir) : Prop :=
  ∀ v e, d.pte v = some e → e.u = true → e.pa < PHYSTOP

def Walkable (d : PageDir) (va len : Nat) : Prop :=
  ∀ i < len, (∀ j < i, Exec.uva2ka d ((va + j) % 2 ^ 32) ≠ none) →
    d.table ((va + i) % 2 ^ 32 / 4096 / 1024) ≠ none

def Unshared (d : PageDir) : Prop :=
  ∀ a b, a < 2 ^ 32 → b < 2 ^ 32 → Exec.uva2ka d a ≠ none → Exec.uva2ka d a = Exec.uva2ka d b → a = b

theorem fill_of_mem {pg off i : Nat} {b : UInt8} (hb : l[i]? = some b)
    : fill mem pg off l pg (off + i) = b := by
  obtain ⟨hi, _⟩ := List.getElem?_eq_some_iff.mp hb
  unfold fill
  rw [Function.update_self, if_pos (by omega), Nat.add_sub_cancel_left, List.getD_eq_getElem?_getD, hb]
  rfl

theorem fill_of_not_mem {pg off pg' o : Nat} (h : ∀ i < l.length, (pg, off + i) ≠ (pg', o))
    : fill mem pg off l pg' o = mem pg' o := by
  unfold fill
  by_cases hpg : pg' = pg
  . rw [hpg, Function.update_self, if_neg]
    rintro ⟨hle, hlt⟩
    apply h (o - off) (by omega)
    rw [hpg, Nat.add_sub_cancel' hle]
  . rw [Function.update_of_ne hpg]

theorem uva2ka_eq (hphys : Physical d) (htable : d.table (va / 4096 / 1024) ≠ none)
    : uva2ka d null (va / 4096 * 4096) = ((Exec.uva2ka d va).map Prod.fst, false) := by
  have hstop : PHYSTOP = 234881024 := rfl
  have hbase : KERNBASE = 2 ^ 31 := rfl
  have hpage : va / 4096 * 4096 / 4096 = va / 4096 := by omega
  obtain ⟨t, ht⟩ := Option.ne_none_iff_exists'.mp htable
  unfold uva2ka walk Exec.uva2ka
  rw [hpage, ht]
  cases he : d.pte (va / 4096) with
  | none => rfl
  | some e =>
    dsimp only
    split
    . next hu =>
      have hpa := hphys _ e he hu
      unfold p2v
      rw [if_neg (by omega)]
      rfl
    . rfl

theorem uva2ka_stray (null : Nat) (htable : d.table (va / 4096 / 1024) = none)
    : (uva2ka d null (va / 4096 * 4096)).2 = true := by
  unfold uva2ka walk
  rw [Nat.mul_div_cancel _ (by decide), htable]
  cases entry null with
  | none => rfl
  | some e => rfl

theorem uva2ka_first {i pg o : Nat} (hva : va < 2 ^ 32) (hi : i < 4096 - (va - va / 4096 * 4096))
    (h : Exec.uva2ka d va = some (pg, o))
    : Exec.uva2ka d ((va + i) % 2 ^ 32) = some (pg, va - va / 4096 * 4096 + i) := by
  have hdiv : (va + i) % 2 ^ 32 / 4096 = va / 4096 := by omega
  have hmod : (va + i) % 2 ^ 32 % 4096 = va - va / 4096 * 4096 + i := by omega
  unfold Exec.uva2ka at h ⊢
  rw [hdiv, hmod]
  split at h
  . cases h
  split at h
  next hu =>
    cases h
    exact if_pos hu
  next => cases h

structure Meets (mem : Nat → Page) (d : PageDir) (va : Nat) (l : List UInt8) (r : Result) : Prop where
  stray : r.stray = false
  ret : r.ret = 0 ∧ (∀ i < l.length, Exec.uva2ka d ((va + i) % 2 ^ 32) ≠ none)
    ∨ r.ret = -1 ∧ ∃ i < l.length, Exec.uva2ka d ((va + i) % 2 ^ 32) = none
  frame : ∀ pg o, (∀ i < l.length, Exec.uva2ka d ((va + i) % 2 ^ 32) ≠ some (pg, o)) → r.mem pg o = mem pg o
  copies : Unshared d → r.ret = 0 → ∀ i b, l[i]? = some b → load r.mem d ((va + i) % 2 ^ 32) = some b

theorem meets_step {pa0 o n : Nat} {r : Result} (hva : va < 2 ^ 32) (hlen : l.length < 2 ^ 32)
    (hn : n = min (4096 - (va - va / 4096 * 4096)) l.length) (hpa : Exec.uva2ka d va = some (pa0, o))
    (h : Meets (fill mem pa0 (va - va / 4096 * 4096) (l.take n)) d ((va / 4096 * 4096 + 4096) % 2 ^ 32)
      (l.drop n) r)
    : Meets mem d va l r := by
  have hfirst : ∀ i < n, Exec.uva2ka d ((va + i) % 2 ^ 32) = some (pa0, va - va / 4096 * 4096 + i) :=
    fun i hi => uva2ka_first hva (by omega) hpa
  have hdrop : (l.drop n).length = l.length - n := List.length_drop
  have htake : (l.take n).length = n := by
    rw [List.length_take]
    omega
  have hrest : ∀ i, n + i < l.length
      → ((va / 4096 * 4096 + 4096) % 2 ^ 32 + i) % 2 ^ 32 = (va + (n + i)) % 2 ^ 32 := by
    intro i hi
    omega
  refine ⟨h.stray, ?_, ?_, ?_⟩
  . rcases h.ret with ⟨hret, hall⟩ | ⟨hret, i, hi, hnone⟩
    . refine .inl ⟨hret, ?_⟩
      intro i hi
      by_cases hin : i < n
      . rw [hfirst i hin]
        exact Option.some_ne_none _
      . have hnext := hall (i - n) (by omega)
        rw [hrest (i - n) (by omega), Nat.add_sub_cancel' (by omega)] at hnext
        exact hnext
    . rw [hrest i (by omega)] at hnone
      exact .inr ⟨hret, n + i, by omega, hnone⟩
  . intro pg o' hout
    rw [h.frame pg o', fill_of_not_mem]
    . intro i hi heq
      rw [htake] at hi
      apply hout i (by omega)
      rw [hfirst i hi, heq]
    . intro i hi
      rw [hrest i (by omega)]
      exact hout (n + i) (by omega)
  . intro hunshared hret i b hb
    obtain ⟨hi, _⟩ := List.getElem?_eq_some_iff.mp hb
    by_cases hin : i < n
    . have hframe : r.mem pa0 (va - va / 4096 * 4096 + i) = b := by
        rw [h.frame]
        . apply fill_of_mem
          rw [List.getElem?_take_of_lt hin, hb]
        . -- a later round writes to the same byte only if it is mapped twice
          intro j hj heq
          rw [hrest j (by omega)] at heq
          have hsame := hunshared ((va + i) % 2 ^ 32) ((va + (n + j)) % 2 ^ 32) (Nat.mod_lt _ (by decide))
            (Nat.mod_lt _ (by decide)) (by rw [hfirst i hin]; exact Option.some_ne_none _)
            (by rw [hfirst i hin, heq])
          omega
      unfold load
      rw [hfirst i hin, Option.map_some, hframe]
    . have hb' : (l.drop n)[i - n]? = some b := by
        rw [List.getElem?_drop, Nat.add_sub_cancel' (by omega), hb]
      have hnext := h.copies hunshared hret (i - n) b hb'
      rw [hrest (i - n) (by omega), Nat.add_sub_cancel' (by omega)] at hnext
      exact hnext

theorem walkable_iff_rest {len n : Nat} {x : Nat × Nat} (hva : va < 2 ^ 32)
    (htable : d.table (va / 4096 / 1024) ≠ none) (hn : n = min (4096 - (va - va / 4096 * 4096)) len)
    (hplace : Exec.uva2ka d va = some x)
    : Walkable d ((va / 4096 * 4096 + 4096) % 2 ^ 32) (len - n) ↔ Walkable d va len := by
  have hfirst : ∀ i < n, Exec.uva2ka d ((va + i) % 2 ^ 32) ≠ none := by
    intro i hi
    rw [uva2ka_first hva (by omega) hplace]
    exact Option.some_ne_none _
  have hrest : ∀ j, n + j < len
      → ((va / 4096 * 4096 + 4096) % 2 ^ 32 + j) % 2 ^ 32 = (va + (n + j)) % 2 ^ 32 := by
    intro j hj
    omega
  constructor
  . intro h i hi hbefore
    by_cases hin : i < n
    . have hpage : (va + i) % 2 ^ 32 / 4096 = va / 4096 := by omega
      rw [hpage]
      exact htable
    have hi' := h (i - n) (by omega) ?_
    . rw [hrest (i - n) (by omega), Nat.add_sub_cancel' (by omega)] at hi'
      exact hi'
    . intro j hj
      rw [hrest j (by omega)]
      exact hbefore (n + j) (by omega)
  . intro h i hi hbefore
    rw [hrest i (by omega)]
    apply h (n + i) (by omega)
    intro j hj
    by_cases hjn : j < n
    . exact hfirst j hjn
    . have hj' := hbefore (j - n) (by omega)
      rw [hrest (j - n) (by omega), Nat.add_sub_cancel' (by omega)] at hj'
      exact hj'

/-- Without a page table on the way nothing is known but that `copyout` goes astray. -/
theorem copyout_meets (mem : Nat → Page) (null : Nat) (hphys : Physical d) (hva : va < 2 ^ 32)
    (hlen : l.length < 2 ^ 32)
    : (Walkable d va l.length → Meets mem d va l (copyout mem d null va l))
      ∧ ((copyout mem d null va l).stray = false → Walkable d va l.length) := by
  induction hm : l.length using Nat.strongRecOn generalizing mem va l with
  | ind m ih =>
  subst hm
  rw [copyout]
  split
  next hpos =>
    have hmod : (va + 0) % 2 ^ 32 = va := by omega
    dsimp only
    by_cases htable : d.table (va / 4096 / 1024) = none
    . refine ⟨fun h => absurd (by rw [hmod, htable]) (h 0 hpos (by omega)), ?_⟩
      have hstray := uva2ka_stray null htable
      generalize uva2ka d null (va / 4096 * 4096) = x at hstray ⊢
      rcases x with ⟨_ | pa0, stray⟩
      . rintro rfl
        cases hstray
      . cases hstray
        nofun
    rw [uva2ka_eq hphys htable]
    cases hplace : Exec.uva2ka d va with
    | none =>
      dsimp only [Option.map]
      refine ⟨fun _ => ⟨rfl, .inr ⟨rfl, 0, hpos, by rw [hmod, hplace]⟩, fun _ _ _ => rfl, nofun⟩, ?_⟩
      intro _ i hi hbefore
      by_cases hzero : i = 0
      . rw [hzero, hmod]
        exact htable
      . exact absurd hplace (by rw [← hmod]; exact hbefore 0 (by omega))
    | some x =>
      obtain ⟨pa0, o⟩ := x
      dsimp only [Option.map]
      generalize hn : min (4096 - (va - va / 4096 * 4096)) l.length = n
      have hdrop : (l.drop n).length = l.length - n := List.length_drop
      rw [← walkable_iff_rest hva htable hn.symm hplace, ← hdrop]
      have hnext := ih (l.drop n).length (by omega) (fill mem pa0 (va - va / 4096 * 4096) (l.take n))
        (Nat.mod_lt (va / 4096 * 4096 + 4096) (show 0 < 2 ^ 32 by decide)) (by omega) rfl
      exact ⟨fun hwalk => meets_step hva hlen hn.symm hplace (hnext.1 hwalk), hnext.2⟩
  next hzero =>
    have hnil : l.length = 0 := by omega
    refine ⟨fun _ => ⟨rfl, .inl ⟨rfl, fun i hi => by omega⟩, fun _ _ _ => rfl, ?_⟩, fun _ i hi => by omega⟩
    intro _ _ i b hb
    obtain ⟨hi, _⟩ := List.getElem?_eq_some_iff.mp hb
    omega

def Accessible (d : PageDir) (v : Nat) : Prop :=
  d.table (v / 1024) ≠ none ∧ ∃ e, d.pte v = some e ∧ e.u = true

theorem uva2ka_ne_none_iff {a : Nat}
    : Exec.uva2ka d a ≠ none ↔ ∃ e, d.pte (a / 4096) = some e ∧ e.u = true := by
  unfold Exec.uva2ka
  cases d.pte (a / 4096) with
  | none => exact iff_of_false (fun h => h rfl) nofun
  | some e =>
    dsimp only
    cases hu : e.u with
    | false => exact iff_of_false (fun h => h rfl) (by rintro ⟨x, ⟨⟩, hx⟩; rw [hu] at hx; cases hx)
    | true => exact iff_of_true (Option.some_ne_none _) ⟨e, rfl, hu⟩

theorem Walkable.accessible_iff {len : Nat} (h : Walkable d va len)
    : (∀ i < len, Accessible d ((va + i) % 2 ^ 32 / 4096))
      ↔ ∀ i < len, Exec.uva2ka d ((va + i) % 2 ^ 32) ≠ none := by
  constructor
  . intro hall i hi
    exact uva2ka_ne_none_iff.mpr (hall i hi).2
  . intro hall i hi
    exact ⟨h i hi (fun j hj => hall j (by omega)), uva2ka_ne_none_iff.mp (hall i hi)⟩

theorem Meets.ret_eq_zero_iff {r : Result} (h : Meets mem d va l r)
    : r.ret = 0 ↔ ∀ i < l.length, Exec.uva2ka d ((va + i) % 2 ^ 32) ≠ none := by
  rcases h.ret with ⟨hret, hall⟩ | ⟨hret, i, hi, hnone⟩
  . exact iff_of_true hret hall
  . exact iff_of_false (by omega) (fun hall => hall i hi hnone)

theorem Meets.load_of_not_mem {r : Result} (h : Meets mem d va l r) (hunshared : Unshared d) {a : Nat}
    (ha : a < 2 ^ 32) (hout : ∀ i < l.length, a ≠ (va + i) % 2 ^ 32)
    : load r.mem d a = load mem d a := by
  unfold load
  cases hplace : Exec.uva2ka d a with
  | none => rfl
  | some x =>
    rw [Option.map_some, Option.map_some, h.frame]
    intro i hi heq
    apply hout i hi
    exact hunshared a _ ha (Nat.mod_lt _ (by decide)) (by rw [hplace]; exact Option.some_ne_none _)
      (by rw [hplace, heq])

theorem Meets.page_of_not_user {r : Result} (h : Meets mem d va l r) {pg : Nat}
    (hpg : ∀ v e, d.pte v = some e → e.u = true → e.pa ≠ pg)
    : r.mem pg = mem pg := by
  funext o
  apply h.frame
  intro i _ heq
  unfold Exec.uva2ka at heq
  split at heq
  next => cases heq
  next e he =>
    split at heq
    next hu =>
      cases heq
      exact hpg _ e he hu rfl
    next => cases heq

/--
`copyout` respects the page table, just if it does not come by a page without one: it succeeds if all
pages are accessible, and it writes the bytes of the range and nothing else.
-/
theorem copyout_respects (mem : Nat → Page) (d : PageDir) (null va : Nat) (l : List UInt8) (hphys : Physical d)
    (hva : va < 2 ^ 32) (hlen : l.length < 2 ^ 32)
    : (copyout mem d null va l).stray = false
        ∧ ((copyout mem d null va l).ret = 0 ↔ ∀ i < l.length, Accessible d ((va + i) % 2 ^ 32 / 4096))
        ∧ ((copyout mem d null va l).ret ≠ 0 → (copyout mem d null va l).ret = -1)
        ∧ (Unshared d → (copyout mem d null va l).ret = 0 →
            (∀ i b, l[i]? = some b → load (copyout mem d null va l).mem d ((va + i) % 2 ^ 32) = some b)
            ∧ ∀ a < 2 ^ 32, (∀ i < l.length, a ≠ (va + i) % 2 ^ 32) →
              load (copyout mem d null va l).mem d a = load mem d a)
        ∧ (∀ pg, (∀ v e, d.pte v = some e → e.u = true → e.pa ≠ pg) → (copyout mem d null va l).mem pg = mem pg)
      ↔ Walkable d va l.length := by
  refine ⟨fun h => (copyout_meets mem null hphys hva hlen).2 h.1, ?_⟩
  intro hwalk
  have h := (copyout_meets mem null hphys hva hlen).1 hwalk
  refine ⟨h.stray, ?_, ?_, ?_, fun pg => h.page_of_not_user⟩
  . rw [hwalk.accessible_iff]
    exact h.ret_eq_zero_iff
  . intro hne
    rcases h.ret with ⟨hret, _⟩ | ⟨hret, _⟩
    . exact absurd hret hne
    . exact hret
  . intro hunshared hret
    exact ⟨h.copies hunshared hret, fun a ha => h.load_of_not_mem hunshared ha⟩

def userPage : PageDir :=
  ((PageDir.blank 0x403000).setTable 0 0x404000).setPte 0 (some ⟨0x405000, true, true, 0⟩)

theorem copyout_respects_of_two : (copyout (fun _ _ => 0) userPage 0 4094 [1, 2]).ret = 0 := by
  have hphys : Physical userPage := by
    intro v e he _
    by_cases hv : v = 0
    . rw [hv] at he
      cases he
      decide
    . rw [userPage, pte_setPte_of_ne hv] at he
      cases he
  have htable : ∀ i < 2, (4094 + i) % 2 ^ 32 / 4096 = 0 := by
    intro i hi
    omega
  refine ((copyout_respects _ _ _ _ _ hphys (by decide) (by decide)).mpr ?_).2.1.mpr ?_
  . intro i hi _
    rw [htable i hi]
    nofun
  . intro i hi
    rw [htable i hi]
    exact ⟨nofun, _, rfl, rfl⟩

/--
In an address space without any page table, `copyout` takes the word at the address 0 of the running process
for the entry. It writes to a page of its choice, and returns 0.
-/
theorem copyout_strays
    : (copyout (fun _ _ => 0) (PageDir.blank 0x403000) 0x115007 0 [65]).ret = 0
      ∧ (copyout (fun _ _ => 0) (PageDir.blank 0x403000) 0x115007 0 [65]).stray = true
      ∧ (copyout (fun _ _ => 0) (PageDir.blank 0x403000) 0x115007 0 [65]).mem 0x115000 0 = 65 := by
  have hcopy : copyout (fun _ _ => 0) (PageDir.blank 0x403000) 0x115007 0 [65]
      = ⟨fill (fun _ _ => 0) 0x115000 0 [65], 0, true⟩ := by
    have hword : uva2ka (PageDir.blank 0x403000) 0x115007 (0 / 4096 * 4096) = (some 0x115000, true) := by decide
    rw [copyout, dif_pos (by decide)]
    dsimp only
    rw [hword]
    dsimp only
    rw [copyout, dif_neg (by decide)]
    rfl
  rw [hcopy]
  exact ⟨rfl, rfl, by decide⟩

end Walk
end Exec
end Xv6
