import Xv6.Vm.Calls
import Xv6.Vm.Pages

namespace Xv6
namespace Vm

open Tally

variable {L : Layout} {k k' : Kmem} {d d' : PageDir} {v n e : Nat}

def PageDir.missing (d : PageDir) : Nat :=
  tally (fun t => if t = none then 1 else 0) (fun j => d.table (512 + j)) 512

structure Ready (k : Kmem) (d : PageDir) (e : Nat) : Prop where
  plan_eq : k.plan = []
  enough : d.missing + e ≤ k.freelist.length

theorem kalloc_of_plan (hplan : k.plan = []) (hlen : 0 < k.freelist.length)
    : ∃ r l, k.freelist = r :: l ∧ kalloc k = ({ k with freelist := l }, some r) := by
  cases hl : k.freelist with
  | nil =>
    rw [hl] at hlen
    cases hlen
  | cons r l =>
    refine ⟨r, l, rfl, ?_⟩
    unfold kalloc
    rw [hplan, hl]
    rfl

theorem missing_setTable {t : Nat} (h512 : 512 ≤ v) (hlt : v < 1024) (hnone : d.table v = none)
    : (d.setTable v t).missing + 1 = d.missing := by
  have hshift : (fun j => (d.setTable v t).table (512 + j))
      = Function.update (fun j => d.table (512 + j)) (v - 512) (some t) := by
    funext j
    by_cases hj : j = v - 512
    . rw [hj, Function.update_self, PageDir.setTable]
      have : 512 + (v - 512) = v := by omega
      simp only [this, Function.update_self]
    . rw [Function.update_of_ne hj, PageDir.setTable]
      simp only
      rw [Function.update_of_ne (by omega)]
  have := tally_update (w := fun t => if t = none then 1 else 0) (f := fun j => d.table (512 + j))
    (show v - 512 < 512 by omega) (some t)
  have hv : 512 + (v - 512) = v := by omega
  simp only [hv, hnone, if_true] at this
  unfold PageDir.missing
  rw [hshift]
  simpa using this

theorem Ready.walkpgdir (h : Ready k d e) (hv : 2 ^ 19 ≤ v) (hlt : v < 2 ^ 20)
    : ∃ k' d', walkpgdir k d v = (k', d', true) ∧ Ready k' d' e := by
  unfold Vm.walkpgdir
  split
  next => exact ⟨k, d, rfl, h⟩
  next hnone =>
    have hset := missing_setTable (t := 0) (show 512 ≤ v / 1024 by omega) (by omega) hnone
    have henough := h.enough
    rcases kalloc_of_plan h.plan_eq (by omega) with ⟨t, l, hl, hk⟩
    rw [hk]
    refine ⟨_, _, rfl, h.plan_eq, ?_⟩
    have hset := missing_setTable (t := t) (show 512 ≤ v / 1024 by omega) (by omega) hnone
    rw [hl, List.length_cons] at henough
    show _ ≤ l.length
    omega

theorem Ready.mapLoop {x : Pte} {ok : Bool} (h : Ready k d e) (hv : 2 ^ 19 ≤ v) (hlt : v + n ≤ 2 ^ 20)
    (heq : mapLoop k d v n x = .ok (k', d', ok))
    : ok = true ∧ Ready k' d' e := by
  induction n generalizing k d v x with
  | zero =>
    cases heq
    exact ⟨rfl, h⟩
  | succ n ih =>
    rcases h.walkpgdir hv (by omega) with ⟨k₁, d₁, hwalk, h₁⟩
    simp only [Vm.mapLoop, mapPage, hwalk, bind, Except.bind] at heq
    split at heq
    next => cases heq
    next y hy =>
      split at hy
      next => cases hy
      next =>
        cases hy
        have h₂ : Ready k₁ (d₁.setPte v (some x)) e := ⟨h₁.plan_eq, h₁.enough⟩
        simp only [if_true] at heq
        exact ih h₂ (by omega) (by omega) heq

theorem Ready.kmapLoop {l : List Kmap} {r : Option PageDir} (h : Ready k d e)
    (hrange : ∀ x ∈ l, userPages ≤ x.first ∧ x.first + x.pages ≤ 2 ^ 20) (heq : kmapLoop L k d l = .ok (k', r))
    : ∃ d', r = some d' ∧ Ready k' d' e := by
  induction l generalizing k d with
  | nil =>
    cases heq
    exact ⟨d, rfl, h⟩
  | cons x l ih =>
    have hx := hrange x List.mem_cons_self
    rw [userPages_eq] at hx
    rw [Vm.kmapLoop] at heq
    cases hmap : mappages k d x.virt x.size ⟨x.physStart, x.w, false, 0⟩ with
    | error p =>
      rw [hmap] at heq
      cases heq
    | ok y =>
      rcases y with ⟨k₁, d₁, ok⟩
      rcases h.mapLoop hx.1 hx.2 hmap with ⟨rfl, h₁⟩
      rw [hmap] at heq
      exact ih h₁ (fun x' hx' => hrange x' (List.mem_cons_of_mem x hx')) heq

theorem missing_blank (page : Nat) : (PageDir.blank page).missing ≤ 512 := by
  have hle : ∀ n, tally (fun t => if t = none then 1 else 0)
      (fun j => (PageDir.blank page).table (512 + j)) n ≤ n := by
    intro n
    induction n with
    | zero => exact Nat.le_refl 0
    | succ n ih =>
      rw [tally_succ]
      simp only [PageDir.blank, if_true] at ih ⊢
      omega
  exact hle 512

theorem setupkvm_ready {r : Option PageDir} (hplan : k.plan = []) (hlen : 513 + e ≤ k.freelist.length)
    (heq : setupkvm L k = .ok (k', r))
    : ∃ d, r = some d ∧ k'.plan = [] ∧ e ≤ k'.freelist.length := by
  rcases kalloc_of_plan hplan (by omega) with ⟨page, l, hl, hk⟩
  unfold setupkvm at heq
  rw [hk] at heq
  rw [hl, List.length_cons] at hlen
  have hready : Ready { k with freelist := l } (.blank page) e := by
    refine ⟨hplan, ?_⟩
    have := missing_blank page
    show _ ≤ l.length
    omega
  rcases hready.kmapLoop (kmap_range L).1 heq with ⟨d, hr, h⟩
  have := h.enough
  exact ⟨d, hr, h.plan_eq, by omega⟩

theorem kfree_ok {p : Nat} (hp : p % 4096 = 0) (hkend : L.kend ≤ p) (hstop : p < PHYSTOP)
    : ∃ k', kfree L k p = .ok k' ∧ k'.plan = k.plan ∧ k'.freelist.length = k.freelist.length + 1 := by
  refine ⟨{ k with freelist := p :: k.freelist, mem := Function.update k.mem p (fun _ => 1) }, ?_, rfl,
    List.length_cons⟩
  rw [kfree, if_neg]
  omega

theorem freerange_ok (p vend : Nat) (hp : p % 4096 = 0) (hkend : L.kend ≤ p) (hvend : vend ≤ PHYSTOP)
    : ∃ k', freerange L k p vend = .ok k' ∧ k'.plan = k.plan
      ∧ ∀ j, p + 4096 * j ≤ vend → k.freelist.length + j ≤ k'.freelist.length := by
  induction hn : vend - p using Nat.strongRecOn generalizing k p with
  | ind n ih =>
  by_cases hle : p + 4096 ≤ vend
  . rcases kfree_ok (k := k) hp hkend (by omega) with ⟨k₁, hk₁, hplan₁, hlen₁⟩
    rcases ih _ (by omega) (p + 4096) (by omega) (by omega) rfl with ⟨k', hfree, hplan, hlen⟩
    refine ⟨k', ?_, hplan.trans hplan₁, ?_⟩
    . rw [freerange, dif_pos hle]
      simp only [hk₁, bind, Except.bind]
      exact hfree
    . intro j hj
      cases j with
      | zero =>
        have := hlen 0 (by omega)
        omega
      | succ j =>
        have := hlen j (by omega)
        omega
  . refine ⟨k, by rw [freerange, dif_neg hle], rfl, ?_⟩
    intro j hj
    cases j with
    | zero => exact Nat.le_refl _
    | succ j => omega

theorem inituvm_ok (init : Page) (hplan : k.plan = []) (hlen : e + 2 ≤ k.freelist.length) (hnone : d.pte 0 = none)
    : ∃ k' d', inituvm k d init = .ok (some (k', d')) ∧ e ≤ k'.freelist.length := by
  rcases kalloc_of_plan hplan (by omega) with ⟨mem, l, hl, hk⟩
  rw [hl, List.length_cons] at hlen
  have hwalk : ∃ k' d', walkpgdir { k with freelist := l } d 0 = (k', d', true) ∧ d'.pte = d.pte
      ∧ e ≤ k'.freelist.length := by
    unfold walkpgdir
    split
    next => exact ⟨_, d, rfl, rfl, by dsimp only; omega⟩
    next =>
      rcases kalloc_of_plan (k := { k with freelist := l }) hplan (show 0 < l.length by omega)
        with ⟨t, l', hl', hk'⟩
      have hl' : l = t :: l' := hl'
      rw [hl', List.length_cons] at hlen
      rw [hk']
      exact ⟨_, _, rfl, rfl, by dsimp only; omega⟩
  rcases hwalk with ⟨k', d', hwalk, hpte, hlen'⟩
  refine ⟨{ k' with mem := Function.update k'.mem mem init },
    d'.setPte 0 (some ⟨mem, true, true, 0⟩), ?_, hlen'⟩
  unfold inituvm
  rw [hk]
  have hmap : mapPage { k with freelist := l } d 0 ⟨mem, true, true, 0⟩
      = .ok (k', d'.setPte 0 (some ⟨mem, true, true, 0⟩), true) := by
    unfold mapPage
    rw [hwalk]
    simp only [hpte, hnone, Option.isSome_none, Bool.false_eq_true, if_false]
  have hpages : mappages { k with freelist := l } d 0 4096 ⟨mem, true, true, 0⟩
      = .ok (k', d'.setPte 0 (some ⟨mem, true, true, 0⟩), true) := by
    rw [mappages]
    show mapLoop _ d 0 1 _ = _
    rw [mapLoop, hmap]
    rfl
  simp only [hpages, bind, Except.bind, if_true]
  rfl

theorem userinit_ok (init : Page) {P : Nat → Prop} {c X : Nat → Nat} {m : Nat → Page}
    (h : Account L c P m k X) (hplan : k.plan = []) (hlen : e + 516 ≤ k.freelist.length)
    : ∃ k' x, userinit L k init = .ok (some (k', x)) ∧ e ≤ k'.freelist.length := by
  rcases kalloc_of_plan hplan (by omega) with ⟨kstack, l, hl, hk⟩
  rcases h.kalloc with ⟨k₁, hk₁, -⟩ | ⟨k₁, r, hk₁, h₁⟩
  . rw [hk] at hk₁
    cases hk₁
  . rw [hk] at hk₁
    cases hk₁
    rw [hl, List.length_cons] at hlen
    rcases setupkvm_spec h₁ with ⟨k₂, r, hsetup, -, hsome⟩
    rcases setupkvm_ready (k := { k with freelist := l }) (e := e + 2) hplan
        (show 513 + (e + 2) ≤ l.length by omega) hsetup
      with ⟨d, rfl, hplan₂, hlen₂⟩
    rcases inituvm_ok init hplan₂ hlen₂ ((hsome d rfl).2.2.1 0 (by rw [userPages_eq]; omega))
      with ⟨k₃, d₃, hinit, hlen₃⟩
    refine ⟨k₃, ⟨kstack, d₃, 4096, false⟩, ?_, hlen₃⟩
    unfold userinit
    rw [hk]
    simp only [hsetup, hinit, bind, Except.bind]
    rfl

end Vm
end Xv6
