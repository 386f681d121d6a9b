import Xv6.Lib.Tally
import Xv6.Vm.Impl

namespace Xv6
namespace Vm

open Tally

def holds (pg : Nat) (x : Option Nat) : Nat :=
  if x = some pg then 1 else 0

@[simp]
theorem holds_none (pg : Nat) : holds pg none = 0 := by
  rfl

def userPages : Nat :=
  2 ^ 19

theorem userPages_eq : userPages = 2 ^ 19 := by
  rfl

namespace PageDir

def frames (d : PageDir) (pg : Nat) : Nat :=
  holds pg (some d.page) + tally (holds pg) d.table 1024

def users (d : PageDir) (pg : Nat) : Nat :=
  tally (fun e => holds pg (e.map Pte.pa)) d.pte userPages

def own (d : PageDir) (pg : Nat) : Nat :=
  d.frames pg + d.users pg

def Closed (d : PageDir) : Prop :=
  ∀ v, d.table (v / 1024) = none → d.pte v = none

end PageDir

/--
Every page `pg` is `c pg` times free or in use elsewhere, as counted by `o`, and only pages of the
allocator are. The pages in `P` are neither, and they have the contents that `m` says.
-/
structure Account (L : Layout) (c : Nat → Nat) (P : Nat → Prop) (m : Nat → Page) (k : Kmem)
    (o : Nat → Nat) : Prop where
  count : ∀ pg, k.freelist.count pg + o pg = c pg
  frame : ∀ pg, P pg → c pg = 0 ∧ k.mem pg = m pg
  valid : ∀ pg, 0 < c pg → pg % 4096 = 0 ∧ L.kend ≤ pg ∧ pg < PHYSTOP

variable {L : Layout} {c : Nat → Nat} {P : Nat → Prop} {m : Nat → Page} {k : Kmem} {o X : Nat → Nat} {d : PageDir}
  {v r : Nat}

theorem Account.congr {o' : Nat → Nat} (h : Account L c P m k o) (heq : ∀ pg, o' pg = o pg)
    : Account L c P m k o' where
  count pg := by
    rw [heq]
    exact h.count pg
  frame := h.frame
  valid := h.valid

theorem Account.write (h : Account L c P m k o) (hr : 0 < o r) (x : Page)
    : Account L c P m { k with mem := Function.update k.mem r x } o where
  count := h.count
  frame pg hpg := by
    have hframe := h.frame pg hpg
    have hne : pg ≠ r := by
      rintro rfl
      have := h.count pg
      omega
    refine ⟨hframe.1, ?_⟩
    show Function.update k.mem r x pg = m pg
    rw [Function.update_of_ne hne]
    exact hframe.2
  valid := h.valid

theorem Account.valid_of_own (pg : Nat) (h : Account L c P m k o) (hpg : 0 < o pg)
    : pg % 4096 = 0 ∧ L.kend ≤ pg ∧ pg < PHYSTOP := by
  apply h.valid
  have := h.count pg
  omega

theorem Account.kalloc (h : Account L c P m k o)
    : (∃ k', kalloc k = (k', none) ∧ Account L c P m k' o)
      ∨ ∃ k' r, kalloc k = (k', some r) ∧ Account L c P m k' (fun pg => o pg + holds pg (some r)) := by
  unfold Vm.kalloc
  split
  next => exact .inl ⟨_, rfl, h.count, h.frame, h.valid⟩
  next =>
    split
    next hnil =>
      refine .inl ⟨_, rfl, ?_, h.frame, h.valid⟩
      intro pg
      exact h.count pg
    next r l hcons =>
      refine .inr ⟨_, r, rfl, ?_, h.frame, h.valid⟩
      intro pg
      have := h.count pg
      rw [hcons, List.count_cons] at this
      simp only [holds, Option.some.injEq]
      split at this
      next hr => rw [if_pos (eq_of_beq hr)]; omega
      next hr => rw [if_neg (fun heq => hr (beq_iff_eq.mpr heq))]; omega

theorem Account.kfree (h : Account L c P m k (fun pg => o pg + holds pg (some r)))
    : ∃ k', kfree L k r = .ok k' ∧ Account L c P m k' o := by
  have hr : 0 < c r := by
    have := h.count r
    rw [holds, if_pos rfl] at this
    omega
  have hvalid := h.valid r hr
  refine ⟨{ k with freelist := r :: k.freelist, mem := Function.update k.mem r (fun _ => 1) }, ?_, ?_,
    ?_, h.valid⟩
  . rw [Vm.kfree, if_neg]
    omega
  . intro pg
    have := h.count pg
    rw [List.count_cons]
    simp only [holds, Option.some.injEq] at this
    split at this
    next heq => rw [if_pos (beq_iff_eq.mpr heq)]; omega
    next hne => rw [if_neg (fun heq => hne (eq_of_beq heq))]; omega
  . intro pg hpg
    have hframe := h.frame pg hpg
    refine ⟨hframe.1, ?_⟩
    show Function.update k.mem r _ pg = m pg
    rw [Function.update_of_ne (by rintro rfl; omega)]
    exact hframe.2

theorem pte_setPte_self (v : Nat) (e : Option Pte) : (d.setPte v e).pte v = e := by
  exact Function.update_self v e d.pte

theorem pte_setPte_of_ne {u : Nat} (h : u ≠ v) (e : Option Pte) : (d.setPte v e).pte u = d.pte u := by
  exact Function.update_of_ne h e d.pte

theorem frames_setTable {t : Nat} (hv : d.table v = none) (hlt : v < 1024) (pg : Nat)
    : (d.setTable v t).frames pg = d.frames pg + holds pg (some t) := by
  have := tally_update (w := holds pg) (f := d.table) hlt (some t)
  rw [hv, holds_none] at this
  simp only [PageDir.frames, PageDir.setTable]
  omega

theorem users_setPte (e : Option Pte) (hlt : v < userPages) (pg : Nat)
    : (d.setPte v e).users pg + holds pg ((d.pte v).map Pte.pa) = d.users pg + holds pg (e.map Pte.pa) := by
  unfold PageDir.users PageDir.setPte
  exact tally_update hlt e

theorem own_clear {e : Pte} (hlt : v < userPages) (he : d.pte v = some e) (pg : Nat)
    : d.own pg = (d.setPte v none).own pg + holds pg (some e.pa) := by
  have husers := users_setPte (d := d) none hlt pg
  rw [he, Option.map_some, Option.map_none, holds_none] at husers
  have hframes : (d.setPte v none).frames pg = d.frames pg := rfl
  rw [PageDir.own, PageDir.own, hframes]
  omega

theorem PageDir.Closed.clear (h : d.Closed) (v : Nat) : (d.setPte v none).Closed := by
  intro u hu
  by_cases heq : u = v
  . rw [heq, pte_setPte_self]
  . rw [pte_setPte_of_ne heq]
    exact h u hu

theorem users_congr {d' : PageDir} (h : d'.pte = d.pte) (pg : Nat) : d'.users pg = d.users pg := by
  rw [PageDir.users, h, PageDir.users]

theorem users_of_same {d' : PageDir} (h : ∀ u, u < userPages → d'.pte u = d.pte u) (pg : Nat)
    : d'.users pg = d.users pg := by
  unfold PageDir.users
  apply tally_congr
  intro u hu
  rw [h u hu]

section
variable (h : Account L c P m k (fun pg => d.frames pg + X pg))
include h

theorem walkpgdir_spec (hclosed : d.Closed)
    (hv : v < 2 ^ 20)
    : ∃ k' d' ok, walkpgdir k d v = (k', d', ok) ∧ d'.pte = d.pte ∧ d'.Closed
      ∧ Account L c P m k' (fun pg => d'.frames pg + X pg) ∧ (ok = true → d'.table (v / 1024) ≠ none) := by
  unfold walkpgdir
  split
  next t ht => exact ⟨k, d, true, rfl, rfl, hclosed, h, fun _ => by rw [ht]; nofun⟩
  next ht =>
    rcases h.kalloc with ⟨k', hk, h'⟩ | ⟨k', t, hk, h'⟩
    . rw [hk]
      exact ⟨k', d, false, rfl, rfl, hclosed, h', nofun⟩
    . rw [hk]
      refine ⟨k', d.setTable (v / 1024) t, true, rfl, rfl, ?_, ?_, ?_⟩
      . intro u hu
        apply hclosed
        simp only [PageDir.setTable] at hu
        by_cases heq : u / 1024 = v / 1024
        . rw [heq, Function.update_self] at hu
          cases hu
        . rwa [Function.update_of_ne heq] at hu
      . apply h'.congr
        intro pg
        rw [frames_setTable ht (by omega)]
        omega
      . intro _
        simp only [PageDir.setTable, Function.update_self]
        nofun

theorem mapPage_spec {e : Pte}
    (hclosed : d.Closed) (hv : v < 2 ^ 20) (hnone : d.pte v = none)
    : ∃ k' d' ok, mapPage k d v e = .ok (k', d', ok) ∧ d'.Closed
      ∧ Account L c P m k' (fun pg => d'.frames pg + X pg)
      ∧ d'.pte = if ok then Function.update d.pte v (some e) else d.pte := by
  rcases walkpgdir_spec h hclosed hv with ⟨k', d', ok, hwalk, hpte, hclosed', h', htable⟩
  unfold mapPage
  rw [hwalk]
  cases ok with
  | false => exact ⟨k', d', false, rfl, hclosed', h', hpte⟩
  | true =>
    refine ⟨k', d'.setPte v (some e), true, ?_, ?_, h', ?_⟩
    . simp only [hpte, hnone, Option.isSome_none, Bool.false_eq_true, if_false]
    . intro u hu
      by_cases heq : u = v
      . rw [heq] at hu
        exact absurd hu (htable rfl)
      . rw [pte_setPte_of_ne heq]
        exact hclosed' u hu
    . rw [PageDir.setPte, hpte]
      rfl

theorem mapLoop_spec {n : Nat} {e : Pte}
    (hclosed : d.Closed) (hv : v + n ≤ 2 ^ 20) (hnone : ∀ u, v ≤ u → u < v + n → d.pte u = none)
    : ∃ k' d' ok, mapLoop k d v n e = .ok (k', d', ok) ∧ d'.Closed
      ∧ Account L c P m k' (fun pg => d'.frames pg + X pg)
      ∧ (∀ u, u < v ∨ v + n ≤ u → d'.pte u = d.pte u)
      ∧ ∀ u x, d'.pte u = some x → d.pte u = some x ∨ x.u = e.u := by
  induction n generalizing k d v e with
  | zero => exact ⟨k, d, true, rfl, hclosed, h, fun _ _ => rfl, fun _ _ hx => .inl hx⟩
  | succ n ih =>
    rcases mapPage_spec (e := e) h hclosed (by omega) (hnone v (Nat.le_refl v) (by omega))
      with ⟨k₁, d₁, ok, hmap, hclosed₁, h₁, hpte⟩
    unfold mapLoop
    rw [hmap]
    cases ok with
    | false =>
      exact ⟨k₁, d₁, false, rfl, hclosed₁, h₁, fun u _ => congrFun hpte u,
        fun u x hx => .inl ((congrFun hpte u).symm.trans hx)⟩
    | true =>
      have hsame : ∀ u, u ≠ v → d₁.pte u = d.pte u := by
        intro u hu
        rw [hpte, if_pos rfl, Function.update_of_ne hu]
      rcases ih (v := v + 1) (e := { e with pa := e.pa + 4096 }) h₁ hclosed₁ (by omega) (by
          intro u hle hlt
          rw [hsame u (by omega)]
          exact hnone u (by omega) (by omega))
        with ⟨k₂, d₂, ok₂, hloop, hclosed₂, h₂, hother, hflags⟩
      refine ⟨k₂, d₂, ok₂, hloop, hclosed₂, h₂, ?_, ?_⟩
      . intro u hu
        rw [hother u (by omega), hsame u (by omega)]
      . intro u x hx
        rcases hflags u x hx with hx | hx
        . by_cases hu : u = v
          . rw [hpte, if_pos rfl, hu, Function.update_self] at hx
            cases hx
            exact .inr rfl
          . rw [hsame u hu] at hx
            exact .inl hx
        . exact .inr hx

end

theorem mapUser_spec {a : Nat} {e : Pte}
    (h : Account L c P m k (fun pg => d.own pg + X pg + holds pg (some e.pa))) (hclosed : d.Closed)
    (ha : a % 4096 = 0) (hlt : a < KERNBASE) (hnone : d.pte (a / 4096) = none)
    : ∃ k' d' ok, mappages k d a 4096 e = .ok (k', d', ok) ∧ d'.Closed
      ∧ d'.pte = (if ok then Function.update d.pte (a / 4096) (some e) else d.pte)
      ∧ Account L c P m k' (fun pg => d'.own pg + X pg + if ok then 0 else holds pg (some e.pa)) := by
  have hbase : KERNBASE = 2 ^ 31 := rfl
  have hpages : (a + 4096 - 1) / 4096 + 1 - a / 4096 = 1 := by
    omega
  have h' : Account L c P m k (fun pg => d.frames pg + (d.users pg + X pg + holds pg (some e.pa))) := by
    apply h.congr
    intro pg
    rw [PageDir.own]
    omega
  rcases mapPage_spec (e := e) h' hclosed (by omega) hnone with ⟨k', d', ok, hmap, hclosed', h'', hpte⟩
  refine ⟨k', d', ok, ?_, hclosed', hpte, ?_⟩
  . rw [mappages, hpages, mapLoop, hmap]
    cases ok <;> rfl
  . apply h''.congr
    intro pg
    rw [PageDir.own]
    cases ok with
    | false =>
      rw [users_congr hpte]
      simp only [Bool.false_eq_true, if_false]
      omega
    | true =>
      have := users_setPte (d := d) (some e) (show a / 4096 < userPages by rw [userPages_eq]; omega) pg
      rw [hnone] at this
      rw [users_congr (d := d.setPte (a / 4096) (some e)) hpte]
      simp only [if_true, Option.map_none, holds_none, Option.map_some] at this ⊢
      omega

theorem deallocLoop_spec {oldsz a : Nat} (h : Account L c P m k (fun pg => d.own pg + X pg))
    (hclosed : d.Closed) (ha : a % 4096 = 0) (hold : oldsz ≤ KERNBASE)
    : ∃ k' d', deallocLoop L k d oldsz a = .ok (k', d') ∧ d'.Closed ∧ d'.table = d.table
      ∧ d'.page = d.page ∧ Account L c P m k' (fun pg => d'.own pg + X pg)
      ∧ ∀ u, d'.pte u = if a ≤ 4096 * u ∧ 4096 * u < oldsz then none else d.pte u := by
  induction hn : oldsz - a using Nat.strongRecOn generalizing k d a with
  | ind n ih =>
  have hbase : KERNBASE = 2 ^ 31 := rfl
  rw [deallocLoop]
  split
  next hlt =>
    split
    next htable =>
      -- there is no table, so none of its pages is mapped
      rcases ih _ (by omega) h hclosed (show (a / 4096 / 1024 + 1) * 1024 * 4096 % 4096 = 0 by omega) rfl
        with ⟨k', d', hloop, hclosed', htable', hpage', h', hpte⟩
      refine ⟨k', d', hloop, hclosed', htable', hpage', h', ?_⟩
      intro u
      rw [hpte]
      by_cases hu : u / 1024 = a / 4096 / 1024
      . have hnone := hclosed u (by rw [hu]; exact htable)
        rw [hnone, ite_self, ite_self]
      . congr 1
        simp only [eq_iff_iff]
        omega
    next t htable =>
      split
      next hnone =>
        rcases ih _ (by omega) h hclosed (show (a + 4096) % 4096 = 0 by omega) rfl
          with ⟨k', d', hloop, hclosed', htable', hpage', h', hpte⟩
        refine ⟨k', d', hloop, hclosed', htable', hpage', h', ?_⟩
        intro u
        rw [hpte]
        by_cases hu : u = a / 4096
        . rw [hu, hnone, ite_self, ite_self]
        . congr 1
          simp only [eq_iff_iff]
          omega
      next e he =>
        have hlt' : a / 4096 < userPages := by
          rw [userPages_eq]
          omega
        have h₁ : Account L c P m k
            (fun pg => ((d.setPte (a / 4096) none).own pg + X pg) + holds pg (some e.pa)) := by
          apply h.congr
          intro pg
          rw [own_clear hlt' he pg]
          omega
        have hpa : e.pa ≠ 0 := by
          have := (h₁.valid_of_own e.pa (by rw [holds, if_pos rfl]; omega)).2.1
          have := L.kend_pos
          omega
        rcases h₁.kfree with ⟨k₁, hfree, h₂⟩
        simp only [hpa, if_false, hfree, bind, Except.bind]
        rcases ih _ (by omega) h₂ (hclosed.clear (a / 4096)) (show (a + 4096) % 4096 = 0 by omega) rfl
          with ⟨k', d', hloop, hclosed', htable', hpage', h', hpte⟩
        refine ⟨k', d', hloop, hclosed', htable', hpage', h', ?_⟩
        intro u
        rw [hpte]
        by_cases hu : u = a / 4096
        . rw [hu, pte_setPte_self, ite_self, if_pos (by omega)]
        rw [pte_setPte_of_ne hu]
        congr 1
        simp only [eq_iff_iff]
        omega
  next hge =>
    refine ⟨k, d, rfl, hclosed, rfl, rfl, h, ?_⟩
    intro u
    rw [if_neg (by omega)]

theorem deallocuvm_spec (newsz : Nat) {oldsz : Nat} (h : Account L c P m k (fun pg => d.own pg + X pg))
    (hclosed : d.Closed) (hold : oldsz ≤ KERNBASE)
    : ∃ k' d' r, deallocuvm L k d oldsz newsz = .ok (k', d', r) ∧ d'.Closed ∧ d'.table = d.table
      ∧ d'.page = d.page ∧ Account L c P m k' (fun pg => d'.own pg + X pg)
      ∧ (∀ u, d'.pte u
        = if pgRoundUp newsz ≤ 4096 * u ∧ 4096 * u < oldsz then none else d.pte u)
      ∧ r = if oldsz ≤ newsz then oldsz else newsz := by
  have hup := le_pgRoundUp newsz
  unfold deallocuvm
  split
  next hle =>
    refine ⟨k, d, oldsz, rfl, hclosed, rfl, rfl, h, ?_, rfl⟩
    intro u
    rw [if_neg (by omega)]
  next hlt =>
    rcases deallocLoop_spec h hclosed (pgRoundUp_mod newsz) hold
      with ⟨k', d', hloop, hclosed', htable, hpage, h', hpte⟩
    rw [hloop]
    exact ⟨k', d', newsz, rfl, hclosed', htable, hpage, h', hpte, rfl⟩

theorem freeTables_spec {l : List Nat}
    (h : Account L c P m k (fun pg => X pg + (l.map fun i => holds pg (d.table i)).sum))
    : ∃ k', freeTables L k d l = .ok k' ∧ Account L c P m k' X := by
  induction l generalizing k with
  | nil => exact ⟨k, rfl, h⟩
  | cons i l ih =>
    unfold freeTables
    split
    next hnone =>
      apply ih
      apply h.congr
      intro pg
      rw [List.map_cons, List.sum_cons, hnone, holds_none, Nat.zero_add]
    next t ht =>
      have h₁ : Account L c P m k
          (fun pg => X pg + (l.map fun i => holds pg (d.table i)).sum + holds pg (some t)) := by
        apply h.congr
        intro pg
        rw [List.map_cons, List.sum_cons, ht]
        omega
      rcases h₁.kfree with ⟨k₁, hfree, h₂⟩
      rw [hfree]
      exact ih h₂

theorem freevm_spec (h : Account L c P m k (fun pg => d.own pg + X pg)) (hclosed : d.Closed)
    : ∃ k', freevm L k d = .ok k' ∧ Account L c P m k' X := by
  rcases deallocuvm_spec 0 h hclosed (Nat.le_refl KERNBASE)
    with ⟨k₁, d₁, r, hdealloc, -, -, hpage, h₁, hpte, -⟩
  have husers : ∀ pg, d₁.users pg = 0 := by
    intro pg
    apply tally_eq_zero
    intro u hu
    have hbase : KERNBASE = 2 ^ 31 := rfl
    have hzero : pgRoundUp 0 = 0 := rfl
    rw [userPages_eq] at hu
    rw [hpte, if_pos (by omega), Option.map_none, holds_none]
  have h₂ : Account L c P m k₁ (fun pg => X pg + holds pg (some d₁.page)
      + ((List.range 1024).map fun i => holds pg (d₁.table i)).sum) := by
    apply h₁.congr
    intro pg
    rw [PageDir.own, husers, PageDir.frames, tally]
    omega
  rcases freeTables_spec h₂ with ⟨k₂, htables, h₃⟩
  rcases h₃.kfree with ⟨k₃, hfree, h₄⟩
  refine ⟨k₃, ?_, h₄⟩
  unfold freevm
  simp only [hdealloc, htables, bind, Except.bind, hfree]

theorem allocLoop_spec (newsz : Nat) {oldsz a : Nat} (h : Account L c P m k (fun pg => d.own pg + X pg))
    (hclosed : d.Closed) (ha : a % 4096 = 0) (hnew : newsz < KERNBASE) (hle : pgRoundUp oldsz ≤ a)
    (hnone : ∀ u, a ≤ 4096 * u → 4096 * u < newsz → d.pte u = none)
    : ∃ k' d' r, allocLoop L k d oldsz newsz a = .ok (k', d', r) ∧ d'.Closed
      ∧ Account L c P m k' (fun pg => d'.own pg + X pg)
      ∧ (r = 0 ∧ (∀ u, d'.pte u
          = if pgRoundUp oldsz ≤ 4096 * u ∧ 4096 * u < newsz then none else d.pte u)
        ∨ r = newsz ∧ (∀ u, a ≤ 4096 * u → 4096 * u < newsz → d'.pte u ≠ none)
          ∧ ∀ u, ¬(a ≤ 4096 * u ∧ 4096 * u < newsz) → d'.pte u = d.pte u) := by
  induction hn : newsz - a using Nat.strongRecOn generalizing k d a with
  | ind n ih =>
  rw [allocLoop]
  split
  next hlt =>
    rcases h.kalloc with ⟨k₁, hk, h₁⟩ | ⟨k₁, mem, hk, h₁⟩
    . rcases deallocuvm_spec oldsz h₁ hclosed (Nat.le_of_lt hnew)
        with ⟨k₂, d₂, r, hdealloc, hclosed₂, -, -, h₂, hpte, -⟩
      refine ⟨k₂, d₂, 0, ?_, hclosed₂, h₂, .inl ⟨rfl, hpte⟩⟩
      simp only [hk, hdealloc, bind, Except.bind]
      rfl
    . have hwrite := h₁.write (r := mem) (by rw [holds, if_pos rfl]; omega) (fun _ => 0)
      rcases mapUser_spec (e := ⟨mem, true, true, 0⟩) hwrite hclosed ha (by omega)
          (hnone (a / 4096) (by omega) (by omega))
        with ⟨k₂, d₂, ok, hmap, hclosed₂, hpte, h₂⟩
      cases ok with
      | false =>
        -- the page that could not be mapped goes back, too
        rcases deallocuvm_spec oldsz
            (X := fun pg => X pg + holds pg (some mem)) (h₂.congr (fun pg => by
              simp only [Bool.false_eq_true, if_false]
              omega)) hclosed₂ (Nat.le_of_lt hnew)
          with ⟨k₃, d₃, r, hdealloc, hclosed₃, -, -, h₃, hpte₃, -⟩
        rcases Account.kfree (h₃.congr (fun pg => Nat.add_assoc _ _ _)) with ⟨k₄, hfree, h₄⟩
        refine ⟨k₄, d₃, 0, ?_, hclosed₃, h₄, .inl ⟨rfl, ?_⟩⟩
        . simp only [hk, hmap, hdealloc, hfree, bind, Except.bind, Bool.false_eq_true, if_false]
          rfl
        . intro u
          rw [hpte₃, hpte, if_neg Bool.false_ne_true]
      | true =>
        have hself : d₂.pte (a / 4096) = some ⟨mem, true, true, 0⟩ := by
          rw [hpte, if_pos rfl, Function.update_self]
        have hother : ∀ u, u ≠ a / 4096 → d₂.pte u = d.pte u := by
          intro u hu
          rw [hpte, if_pos rfl, Function.update_of_ne hu]
        rcases ih _ (by omega) (h₂.congr (fun pg => by simp only [if_true, Nat.add_zero])) hclosed₂
            (show (a + 4096) % 4096 = 0 by omega) (by omega) (by
              intro u hu hu'
              rw [hother u (by omega)]
              exact hnone u (by omega) hu') rfl
          with ⟨k₃, d₃, r, hloop, hclosed₃, h₃, hcases⟩
        refine ⟨k₃, d₃, r, ?_, hclosed₃, h₃, ?_⟩
        . simp only [hk, hmap, bind, Except.bind, if_true]
          exact hloop
        . rcases hcases with ⟨hr, hpte₃⟩ | ⟨hr, hsome, hsame⟩
          . refine .inl ⟨hr, ?_⟩
            intro u
            rw [hpte₃]
            by_cases hu : u = a / 4096
            . rw [if_pos (by omega), if_pos (by omega)]
            . rw [hother u hu]
          . refine .inr ⟨hr, ?_, ?_⟩
            . intro u hu hu'
              by_cases heq : u = a / 4096
              . rw [hsame u (by omega), heq, hself]
                nofun
              . exact hsome u (by omega) hu'
            . intro u hu
              rw [hsame u (by omega), hother u (by omega)]
  next hge =>
    exact ⟨k, d, newsz, rfl, hclosed, h, .inr ⟨rfl, fun u _ _ => by omega, fun u _ => rfl⟩⟩

theorem allocuvm_spec (newsz : Nat) {oldsz : Nat} (h : Account L c P m k (fun pg => d.own pg + X pg))
    (hclosed : d.Closed) (hnone : ∀ u, oldsz ≤ 4096 * u → u < userPages → d.pte u = none)
    : ∃ k' d' r, allocuvm L k d oldsz newsz = .ok (k', d', r) ∧ d'.Closed
      ∧ Account L c P m k' (fun pg => d'.own pg + X pg)
      ∧ (r = 0 ∧ d'.pte = d.pte
        ∨ newsz < oldsz ∧ r = oldsz ∧ d' = d
        ∨ oldsz ≤ newsz ∧ newsz < KERNBASE ∧ r = newsz
          ∧ (∀ u, oldsz ≤ 4096 * u → 4096 * u < newsz → d'.pte u ≠ none)
          ∧ ∀ u, ¬(oldsz ≤ 4096 * u ∧ 4096 * u < newsz) → d'.pte u = d.pte u) := by
  have hbase : KERNBASE = 2 ^ 31 := rfl
  unfold allocuvm
  split
  next => exact ⟨k, d, 0, rfl, hclosed, h, .inl ⟨rfl, rfl⟩⟩
  next hlt =>
    split
    next hshrink => exact ⟨k, d, oldsz, rfl, hclosed, h, .inr (.inl ⟨hshrink, rfl, rfl⟩)⟩
    next hgrow =>
      have hround : ∀ u, pgRoundUp oldsz ≤ 4096 * u ↔ oldsz ≤ 4096 * u := by
        intro u
        unfold pgRoundUp
        omega
      rcases allocLoop_spec newsz h hclosed
          (pgRoundUp_mod oldsz) (by omega) (Nat.le_refl _) (by
            intro u hu hu'
            exact hnone u ((hround u).mp hu) (by rw [userPages_eq]; omega))
        with ⟨k', d', r, hloop, hclosed', h', ⟨hr, hpte⟩ | ⟨hr, hsome, hsame⟩⟩
      . refine ⟨k', d', r, hloop, hclosed', h', .inl ⟨hr, ?_⟩⟩
        funext u
        rw [hpte]
        split
        next hin => rw [hnone u ((hround u).mp hin.1) (by rw [userPages_eq]; omega)]
        next => rfl
      . refine ⟨k', d', r, hloop, hclosed', h', .inr (.inr ⟨by omega, by omega, hr, ?_, ?_⟩)⟩
        . intro u hu hu'
          exact hsome u ((hround u).mpr hu) hu'
        . intro u hu
          apply hsame
          rw [hround]
          exact hu

def Kmap.first (e : Kmap) : Nat :=
  e.virt / 4096

def Kmap.pages (e : Kmap) : Nat :=
  (e.virt + e.size - 1) / 4096 + 1 - e.virt / 4096

theorem kmapLoop_spec {l : List Kmap} (h : Account L c P m k (fun pg => d.own pg + X pg))
    (hclosed : d.Closed) (hsorted : l.Pairwise (fun e e' => e.first + e.pages ≤ e'.first))
    (hrange : ∀ e ∈ l, userPages ≤ e.first ∧ e.first + e.pages ≤ 2 ^ 20)
    (hnone : ∀ e ∈ l, ∀ u, e.first ≤ u → d.pte u = none)
    (huser : ∀ u x, d.pte u = some x → x.u = false)
    : ∃ k' r, kmapLoop L k d l = .ok (k', r) ∧ (r = none → Account L c P m k' X)
      ∧ ∀ d', r = some d' → d'.Closed ∧ Account L c P m k' (fun pg => d'.own pg + X pg)
        ∧ (∀ u, u < userPages → d'.pte u = d.pte u) ∧ ∀ u x, d'.pte u = some x → x.u = false := by
  induction l generalizing k d with
  | nil =>
    refine ⟨k, some d, rfl, nofun, ?_⟩
    rintro d' ⟨⟩
    exact ⟨hclosed, h, fun _ _ => rfl, huser⟩
  | cons e l ih =>
    have he := hrange e List.mem_cons_self
    rw [List.pairwise_cons] at hsorted
    have h₀ : Account L c P m k (fun pg => d.frames pg + (d.users pg + X pg)) :=
      h.congr (fun pg => by rw [PageDir.own, Nat.add_assoc])
    rcases mapLoop_spec (e := ⟨e.physStart, e.w, false, 0⟩) h₀ hclosed he.2
        (fun u hu _ => hnone e List.mem_cons_self u hu)
      with ⟨k₁, d₁, ok, hmap, hclosed₁, h₁, hsame, hflags⟩
    have husers : ∀ pg, d₁.users pg = d.users pg := by
      apply users_of_same
      intro u hu
      rw [hsame u (by omega)]
    have h₂ : Account L c P m k₁ (fun pg => d₁.own pg + X pg) :=
      h₁.congr (fun pg => by rw [PageDir.own, husers, Nat.add_assoc])
    have hmappages : mappages k d e.virt e.size ⟨e.physStart, e.w, false, 0⟩ = .ok (k₁, d₁, ok) := by
      rw [mappages]
      exact hmap
    cases ok with
    | false =>
      rcases freevm_spec h₂ hclosed₁ with ⟨k₂, hfree, h₃⟩
      refine ⟨k₂, none, ?_, fun _ => h₃, nofun⟩
      rw [kmapLoop, hmappages]
      simp only [hfree, bind, Except.bind, Bool.false_eq_true, if_false]
      rfl
    | true =>
      rcases ih h₂ hclosed₁ hsorted.2 (fun e' he' => hrange e' (List.mem_cons_of_mem e he')) (by
          intro e' he' u hu
          have := hsorted.1 e' he'
          rw [hsame u (by omega)]
          exact hnone e' (List.mem_cons_of_mem e he') u hu) (by
          intro u x hx
          rcases hflags u x hx with hx | hx
          . exact huser u x hx
          . exact hx)
        with ⟨k₂, r, hloop, hnone₂, hsome₂⟩
      refine ⟨k₂, r, ?_, hnone₂, ?_⟩
      . rw [kmapLoop, hmappages]
        simp only [bind, Except.bind, if_true]
        exact hloop
      . intro d' hd'
        rcases hsome₂ d' hd' with ⟨hclosed', h', hsame', huser'⟩
        refine ⟨hclosed', h', ?_, huser'⟩
        intro u hu
        rw [hsame' u hu, hsame u (by omega)]

theorem kmap_range (L : Layout)
    : (∀ e ∈ kmap L, userPages ≤ e.first ∧ e.first + e.pages ≤ 2 ^ 20)
      ∧ (kmap L).Pairwise (fun e e' => e.first + e.pages ≤ e'.first) := by
  have halign := L.data_align
  have habove := L.data_above
  have hbelow := L.data_below
  have hbase : KERNBASE = 2147483648 := rfl
  have hext : EXTMEM = 1048576 := rfl
  have hstop : PHYSTOP = 234881024 := rfl
  have hdev : DEVSPACE = 4261412864 := rfl
  rw [hbase, hext] at habove
  rw [hbase, hstop] at hbelow
  constructor
  . intro e he
    simp only [kmap, List.mem_cons, List.not_mem_nil, or_false, hbase, hext, hstop, hdev] at he
    rcases he with rfl | rfl | rfl | rfl
    all_goals
      simp only [Kmap.first, Kmap.pages, Kmap.size, userPages_eq]
      omega
  . simp only [kmap, List.pairwise_cons, List.mem_cons, List.not_mem_nil, or_false, forall_eq_or_imp,
      forall_eq, Kmap.first, Kmap.pages, Kmap.size, hbase, hext, hstop, hdev]
    simp
    omega

theorem own_blank (page pg : Nat) : (PageDir.blank page).own pg = holds pg (some page) := by
  have htable : tally (holds pg) (PageDir.blank page).table 1024 = 0 :=
    tally_eq_zero (fun _ _ => rfl)
  have husers : (PageDir.blank page).users pg = 0 :=
    tally_eq_zero (fun _ _ => rfl)
  rw [PageDir.own, PageDir.frames, htable, husers]
  rfl

theorem setupkvm_spec (h : Account L c P m k X)
    : ∃ k' r, setupkvm L k = .ok (k', r) ∧ (r = none → Account L c P m k' X)
      ∧ ∀ d, r = some d → d.Closed ∧ Account L c P m k' (fun pg => d.own pg + X pg)
        ∧ (∀ u, u < userPages → d.pte u = none) ∧ ∀ u x, d.pte u = some x → x.u = false := by
  unfold setupkvm
  rcases h.kalloc with ⟨k₁, hk, h₁⟩ | ⟨k₁, page, hk, h₁⟩
  . rw [hk]
    exact ⟨k₁, none, rfl, fun _ => h₁, nofun⟩
  . rw [hk]
    have h₂ : Account L c P m k₁ (fun pg => (PageDir.blank page).own pg + X pg) :=
      h₁.congr (fun pg => by rw [own_blank, Nat.add_comm])
    have hkmap := kmap_range L
    exact kmapLoop_spec h₂ (fun _ _ => rfl) hkmap.2 hkmap.1 (fun _ _ _ _ => rfl) nofun

end Vm
end Xv6
