import Mathlib.Data.Fintype.Card
import Xv6.Lib.Outcome
import Xv6.Vm.Ownership

namespace Xv6
namespace Vm

open Tally

variable {L : Layout} {S : Nat → Prop} {m : Nat → Page} {k k' : Kmem} {d d' : PageDir}

def Kept (S : Nat → Prop) (m : Nat → Page) (k : Kmem) : Prop :=
  ∀ pg, S pg → pg ∉ k.freelist ∧ k.mem pg = m pg

section
variable (h : Kept S m k)
include h

theorem Kept.kalloc {r : Option Nat} (heq : kalloc k = (k', r))
    : Kept S m k' ∧ ∀ pg, r = some pg → ¬S pg := by
  unfold Vm.kalloc at heq
  split at heq
  next =>
    cases heq
    exact ⟨h, by rintro _ ⟨⟩⟩
  next =>
    split at heq
    next =>
      cases heq
      exact ⟨h, by rintro _ ⟨⟩⟩
    next r l hlist =>
      cases heq
      constructor
      . intro pg hpg
        have := h pg hpg
        rw [hlist] at this
        exact ⟨fun hmem => this.1 (List.mem_cons_of_mem _ hmem), this.2⟩
      . intro pg hr hpg
        cases hr
        exact (h r hpg).1 (by rw [hlist]; exact List.mem_cons_self)

theorem Kept.write {r : Nat} (hr : ¬S r) (page : Page)
    : Kept S m { k with mem := Function.update k.mem r page } := by
  intro pg hpg
  have hne : pg ≠ r := fun heq => hr (heq ▸ hpg)
  exact ⟨(h pg hpg).1, (Function.update_of_ne hne _ _).trans (h pg hpg).2⟩

theorem Kept.kfree {v : Nat} (hv : ¬S v) (heq : kfree L k v = .ok k') : Kept S m k' := by
  unfold Vm.kfree at heq
  split at heq
  next => cases heq
  next =>
    cases heq
    intro pg hpg
    have hne : pg ≠ v := fun heq => hv (heq ▸ hpg)
    refine ⟨?_, (Function.update_of_ne hne _ _).trans (h pg hpg).2⟩
    intro hmem
    rcases List.mem_cons.mp hmem with heq | hmem
    . exact hne heq
    . exact (h pg hpg).1 hmem

theorem Kept.walkpgdir {v : Nat} {ok : Bool} (heq : walkpgdir k d v = (k', d', ok))
    : Kept S m k' ∧ d'.pte = d.pte := by
  unfold Vm.walkpgdir at heq
  split at heq
  next =>
    cases heq
    exact ⟨h, rfl⟩
  next =>
    split at heq
    next k₁ hk =>
      cases heq
      exact ⟨(h.kalloc hk).1, rfl⟩
    next k₁ t hk =>
      cases heq
      exact ⟨(h.kalloc hk).1, rfl⟩

theorem Kept.mapUser {a : Nat} {e : Pte} {ok : Bool} (ha : a % 4096 = 0)
    (heq : mappages k d a 4096 e = .ok (k', d', ok))
    : Kept S m k' ∧ ∀ u x, d'.pte u = some x → d.pte u = some x ∨ x = e := by
  have hpages : (a + 4096 - 1) / 4096 + 1 - a / 4096 = 1 := by
    omega
  rw [mappages, hpages, mapLoop, mapPage] at heq
  split at heq
  next k₁ d₁ hwalk =>
    cases heq
    rcases h.walkpgdir hwalk with ⟨hkept, hpte⟩
    exact ⟨hkept, fun u x hx => .inl (hpte ▸ hx)⟩
  next k₁ d₁ hwalk =>
    rcases h.walkpgdir hwalk with ⟨hkept, hpte⟩
    split at heq
    next => cases heq
    next =>
      cases heq
      refine ⟨hkept, ?_⟩
      intro u x hx
      by_cases hu : u = a / 4096
      . rw [hu, pte_setPte_self] at hx
        exact .inr (Option.some.inj hx).symm
      . rw [pte_setPte_of_ne hu, hpte] at hx
        exact .inl hx

theorem Kept.deallocLoop {oldsz a : Nat} (ha : a % 4096 = 0)
    (hfree : ∀ u e, a ≤ 4096 * u → 4096 * u < oldsz → d.pte u = some e → ¬S e.pa)
    (heq : deallocLoop L k d oldsz a = .ok (k', d'))
    : Kept S m k' := by
  induction hn : oldsz - a using Nat.strongRecOn generalizing k d a with
  | ind n ih =>
  rw [Vm.deallocLoop] at heq
  split at heq
  next hlt =>
    split at heq
    next =>
      exact ih _ (by omega) h (by omega) (fun u e hu hu' => hfree u e (by omega) hu') heq rfl
    next =>
      split at heq
      next =>
        exact ih _ (by omega) h (by omega) (fun u e hu hu' => hfree u e (by omega) hu') heq rfl
      next e he =>
        split at heq
        next => cases heq
        next =>
          rcases Outcome.bind_eq_ok.mp heq with ⟨k₁, hk₁, heq⟩
          have hkept := h.kfree (hfree (a / 4096) e (by omega) (by omega) he) hk₁
          refine ih _ (by omega) hkept (by omega) ?_ heq rfl
          intro u x hu hu' hx
          rw [pte_setPte_of_ne (by omega)] at hx
          exact hfree u x (by omega) hu' hx
  next =>
    cases heq
    exact h

theorem Kept.deallocuvm {oldsz newsz r : Nat}
    (hfree : ∀ u e, newsz ≤ 4096 * u → 4096 * u < oldsz → d.pte u = some e → ¬S e.pa)
    (heq : deallocuvm L k d oldsz newsz = .ok (k', d', r))
    : Kept S m k' := by
  unfold Vm.deallocuvm at heq
  split at heq
  next =>
    cases heq
    exact h
  next =>
    rcases Outcome.bind_eq_ok.mp heq with ⟨⟨k₁, d₁⟩, hloop, heq⟩
    cases heq
    refine h.deallocLoop (pgRoundUp_mod newsz) ?_ hloop
    intro u e hu
    exact hfree u e (Nat.le_trans (le_pgRoundUp newsz) hu)

theorem Kept.allocLoop {oldsz newsz a r : Nat} (ha : a % 4096 = 0)
    (hfree : ∀ u e, oldsz ≤ 4096 * u → 4096 * u < newsz → d.pte u = some e → ¬S e.pa)
    (heq : allocLoop L k d oldsz newsz a = .ok (k', d', r))
    : Kept S m k' := by
  induction hn : newsz - a using Nat.strongRecOn generalizing k d a with
  | ind n ih =>
  rw [Vm.allocLoop] at heq
  split at heq
  next hlt =>
    split at heq
    next k₁ hk =>
      rcases Outcome.bind_eq_ok.mp heq with ⟨⟨k₂, d₂, r₂⟩, hdealloc, heq⟩
      cases heq
      exact (h.kalloc hk).1.deallocuvm hfree hdealloc
    next k₁ mem hk =>
      rcases h.kalloc hk with ⟨h₁, hmem⟩
      have hfresh := hmem mem rfl
      rcases Outcome.bind_eq_ok.mp heq with ⟨⟨k₂, d₂, ok⟩, hmap, heq⟩
      rcases (h₁.write hfresh (fun _ => 0)).mapUser ha hmap with ⟨h₂, hpte⟩
      have hfree₂ : ∀ u e, oldsz ≤ 4096 * u → 4096 * u < newsz → d₂.pte u = some e → ¬S e.pa := by
        intro u e hu hu' he
        rcases hpte u e he with he | rfl
        . exact hfree u e hu hu' he
        . exact hfresh
      simp only at heq
      split at heq
      next => exact ih _ (by omega) h₂ (by omega) hfree₂ heq rfl
      next =>
        rcases Outcome.bind_eq_ok.mp heq with ⟨⟨k₃, d₃, r₃⟩, hdealloc, heq⟩
        rcases Outcome.bind_eq_ok.mp heq with ⟨k₄, hk₄, heq⟩
        cases heq
        exact (h₂.deallocuvm hfree₂ hdealloc).kfree hfresh hk₄
  next =>
    cases heq
    exact h

theorem Kept.allocuvm {oldsz newsz r : Nat}
    (hfree : ∀ u e, oldsz ≤ 4096 * u → 4096 * u < newsz → d.pte u = some e → ¬S e.pa)
    (heq : allocuvm L k d oldsz newsz = .ok (k', d', r))
    : Kept S m k' := by
  unfold Vm.allocuvm at heq
  split at heq
  next =>
    cases heq
    exact h
  next =>
    split at heq
    next =>
      cases heq
      exact h
    next => exact h.allocLoop (pgRoundUp_mod oldsz) hfree heq

end

theorem pte_inj {u v : Nat} {e x : Pte} (hone : ∀ pg, d.own pg ≤ 1) (hu : u < userPages)
    (hv : v < userPages) (he : d.pte u = some e) (hx : d.pte v = some x) (hpa : e.pa = x.pa)
    : u = v := by
  apply Classical.byContradiction
  intro hne
  have hclear := users_setPte (d := d) none hu x.pa
  have hle : holds x.pa (((d.setPte u none).pte v).map Pte.pa) ≤ (d.setPte u none).users x.pa := by
    unfold PageDir.users
    exact le_tally (w := fun y => holds x.pa (y.map Pte.pa)) (f := (d.setPte u none).pte) hv
  rw [pte_setPte_of_ne (Ne.symm hne), hx, Option.map_some, holds, if_pos rfl] at hle
  rw [he, Option.map_some, Option.map_none, holds_none, hpa, holds, if_pos rfl] at hclear
  have := hone x.pa
  rw [PageDir.own] at this
  omega

theorem size_lt {sz : Nat} (hone : ∀ pg, d.own pg ≤ 1) (hvalid : ∀ pg, 0 < d.own pg → pg % 4096 = 0 ∧ pg < PHYSTOP)
    (hmapped : ∀ u, u < userPages → (d.pte u ≠ none ↔ 4096 * u < sz))
    : sz < KERNBASE := by
  have hbase : KERNBASE = 2 ^ 31 := rfl
  have hstop : PHYSTOP = 57344 * 4096 := rfl
  apply Nat.lt_of_not_le
  intro hge
  have hentry : ∀ u : Fin 57345, ∃ e, d.pte u = some e := by
    intro u
    have := u.isLt
    exact Option.ne_none_iff_exists'.mp ((hmapped u (by rw [userPages_eq]; omega)).mpr (by omega))
  choose f hf using hentry
  have hpage : ∀ u, (f u).pa % 4096 = 0 ∧ (f u).pa < PHYSTOP := by
    intro u
    have := u.isLt
    exact hvalid _ (Exec.own_pos (by rw [userPages_eq]; omega) (hf u))
  have hinj : Function.Injective fun u : Fin 57345 =>
      (⟨(f u).pa / 4096, by have := hpage u; omega⟩ : Fin 57344) := by
    intro u v huv
    have heq := congrArg Fin.val huv
    have := hpage u
    have := hpage v
    have := u.isLt
    have := v.isLt
    simp only at heq
    exact Fin.ext (pte_inj hone (by rw [userPages_eq]; omega) (by rw [userPages_eq]; omega) (hf u) (hf v)
      (by omega))
  have := Fintype.card_le_of_injective _ hinj
  rw [Fintype.card_fin, Fintype.card_fin] at this
  omega

structure Grown (m m' : Nat → Page) (d d' : PageDir) (sz sz' : Nat) (n : Int) : Prop where
  size : (sz' : Int) = sz + n
  size_lt : sz' < KERNBASE
  mapped : ∀ u, u < userPages → (d'.pte u ≠ none ↔ 4096 * u < sz')
  kept : ∀ u e, 4096 * u < sz → 4096 * u < sz' → d.pte u = some e
    → d'.pte u = some e ∧ m' e.pa = m e.pa

structure Unchanged (m m' : Nat → Page) (d d' : PageDir) (sz sz' : Nat) : Prop where
  size : sz' = sz
  pte : d'.pte = d.pte
  kept : ∀ u e, u < userPages → d.pte u = some e → m' e.pa = m e.pa

section

variable {c X : Nat → Nat} {P : Nat → Prop} {sz : Nat} {n : Int}

def mappedBelow (d : PageDir) (bound pg : Nat) : Prop :=
  ∃ u e, 4096 * u < bound ∧ d.pte u = some e ∧ e.pa = pg

section
variable (h : Account L c P m k (fun pg => d.own pg + X pg))
include h

theorem kept_mappedBelow {bound : Nat}
    (hone : ∀ pg, c pg ≤ 1) (hbound : bound ≤ KERNBASE)
    : Kept (mappedBelow d bound) k.mem k := by
  have hbase : KERNBASE = 2 ^ 31 := rfl
  rintro pg ⟨u, e, hu, he, rfl⟩
  have hpos := Exec.own_pos (by rw [userPages_eq]; omega) he
  have := h.count e.pa
  have := hone e.pa
  exact ⟨List.count_eq_zero.mp (by omega), rfl⟩

theorem grown_of_pos (hone : ∀ pg, c pg ≤ 1)
    (hfits : Fits d sz) (hmapped : ∀ u, u < userPages → (d.pte u ≠ none ↔ 4096 * u < sz))
    (hn : 0 < n) (hlt : n < 2 ^ 31)
    : ∃ k' d' sz' r, growproc L k d sz n = .ok (k', d', sz', r)
      ∧ (r = 0 ∧ Grown k.mem k'.mem d d' sz sz' n ∨ r = -1 ∧ Unchanged k.mem k'.mem d d' sz sz') := by
  have hbase : KERNBASE = 2 ^ 31 := rfl
  have hle := hfits.sz_le
  have hnew : ((sz + n) % 2 ^ 32).toNat = sz + n.toNat := by
    rw [Int.emod_eq_of_lt (by omega) (by omega)]
    omega
  by_cases hlarge : KERNBASE ≤ sz + n.toNat
  . refine ⟨k, d, sz, -1, ?_, .inr ⟨rfl, rfl, rfl, fun _ _ _ _ => rfl⟩⟩
    unfold growproc
    simp only [hnew, if_pos hn, allocuvm, if_pos hlarge, bind, Except.bind]
    rfl
  rcases allocuvm_spec (sz + n.toNat) h hfits.closed hfits.above
    with ⟨k', d', r, halloc, hclosed, h', hcases⟩
  have hkept : Kept (mappedBelow d sz) k.mem k' := by
    refine (kept_mappedBelow h hone hle).allocuvm ?_ halloc
    intro u e hu hu' he
    rw [hfits.above u hu (by rw [userPages_eq]; omega)] at he
    cases he
  unfold growproc
  simp only [hnew, if_pos hn, halloc, bind, Except.bind]
  rcases hcases with ⟨rfl, hpte⟩ | ⟨hgrow, -, -⟩ | ⟨-, hbelow, rfl, hsome, hsame⟩
  . refine ⟨k', d', sz, -1, rfl, .inr ⟨rfl, rfl, hpte, ?_⟩⟩
    intro u e hu he
    have hu' := (hmapped u hu).mp (by rw [he]; exact Option.some_ne_none e)
    exact (hkept e.pa ⟨u, e, hu', he, rfl⟩).2
  . omega
  . refine ⟨k', d', sz + n.toNat, 0, by rw [if_neg (by omega)]; rfl, .inl ⟨rfl, ?_⟩⟩
    refine ⟨by omega, hbelow, ?_, ?_⟩
    . intro u hu
      by_cases hnewPage : sz ≤ 4096 * u ∧ 4096 * u < sz + n.toNat
      . exact iff_of_true (hsome u hnewPage.1 hnewPage.2) hnewPage.2
      . rw [hsame u hnewPage, hmapped u hu]
        omega
    . intro u e hu hu' he
      exact ⟨(hsame u (by omega)).trans he, (hkept e.pa ⟨u, e, hu, he, rfl⟩).2⟩

theorem grown_of_neg (hone : ∀ pg, c pg ≤ 1)
    (hfits : Fits d sz) (hmapped : ∀ u, u < userPages → (d.pte u ≠ none ↔ 4096 * u < sz))
    (hn : n < 0) (hrest : 0 < sz + n)
    : ∃ k' d' sz', growproc L k d sz n = .ok (k', d', sz', 0) ∧ Grown k.mem k'.mem d d' sz sz' n := by
  have hbase : KERNBASE = 2 ^ 31 := rfl
  have hle := hfits.sz_le
  have hnew : ((sz + n) % 2 ^ 32).toNat = (sz + n).toNat := by
    rw [Int.emod_eq_of_lt (by omega) (by omega)]
  rcases deallocuvm_spec (sz + n).toNat h hfits.closed hle
    with ⟨k', d', r, hdealloc, hclosed, -, -, h', hpte, hr⟩
  rw [if_neg (by omega)] at hr
  have hkept : Kept (mappedBelow d (sz + n).toNat) k.mem k' := by
    refine (kept_mappedBelow h hone (by omega)).deallocuvm ?_ hdealloc
    rintro u e hu hu' he ⟨v, x, hv, hx, hpa⟩
    have hown : ∀ pg, d.own pg ≤ 1 := by
      intro pg
      have := h.count pg
      have := hone pg
      omega
    have := pte_inj hown (by rw [userPages_eq]; omega) (by rw [userPages_eq]; omega) hx he hpa
    omega
  refine ⟨k', d', (sz + n).toNat, ?_, ?_⟩
  . unfold growproc
    simp only [hnew, if_neg (Int.not_lt.mpr (Int.le_of_lt hn)), if_pos hn, hdealloc, bind, Except.bind, hr]
    rw [if_neg (by omega)]
    rfl
  . refine ⟨by omega, by omega, ?_, ?_⟩
    . intro u hu
      have hup : pgRoundUp (sz + n).toNat ≤ 4096 * u ↔ (sz + n).toNat ≤ 4096 * u := by
        unfold pgRoundUp
        omega
      rw [hpte]
      split
      next hout => exact iff_of_false (fun hne => hne rfl) (by omega)
      next hin =>
        rw [hmapped u hu]
        omega
    . intro u e hu hu' he
      refine ⟨?_, (hkept e.pa ⟨u, e, hu', he, rfl⟩).2⟩
      have := le_pgRoundUp (sz + n).toNat
      rw [hpte, if_neg (by omega), he]

end

theorem unchanged_of_empty (hn : n < 0)
    : ∃ k' d' sz', growproc L k d 0 n = .ok (k', d', sz', -1) ∧ Unchanged k.mem k'.mem d d' 0 sz' := by
  refine ⟨k, d, 0, ?_, ⟨rfl, rfl, fun _ _ _ _ => rfl⟩⟩
  unfold growproc
  simp only [if_neg (Int.not_lt.mpr (Int.le_of_lt hn)), if_pos hn, deallocuvm, if_pos (Nat.zero_le _),
    bind, Except.bind]
  rfl

/-- The size 0 is taken for a failure, but the pages are gone. -/
theorem growproc_of_all (h : Account L c P m k (fun pg => d.own pg + X pg)) (hfits : Fits d sz)
    (hpos : 0 < sz) (hn : sz + n = 0)
    : ∃ k' d', growproc L k d sz n = .ok (k', d', sz, -1) ∧ d'.pte 0 = none := by
  have hnew : ((sz + n) % 2 ^ 32).toNat = 0 := by omega
  rcases deallocuvm_spec 0 h hfits.closed hfits.sz_le with ⟨k', d', r, hdealloc, -, -, -, -, hpte, hr⟩
  rw [if_neg (by omega)] at hr
  refine ⟨k', d', ?_, ?_⟩
  . unfold growproc
    simp only [hnew, if_neg (show ¬0 < n by omega), if_pos (show n < 0 by omega), hdealloc, hr, bind, Except.bind]
    rfl
  . rw [hpte, if_pos ⟨by decide, by omega⟩]

theorem growproc_of_wrap (hle : sz ≤ KERNBASE) (hpos : 0 < sz) (hn : sz + n < 0) (hlow : -2 ^ 31 ≤ n)
    : growproc L k d sz n = .ok (k, d, sz, 0) := by
  have hbase : KERNBASE = 2 ^ 31 := rfl
  unfold growproc
  simp only [if_neg (show ¬0 < n by omega), if_pos (show n < 0 by omega), deallocuvm, bind, Except.bind]
  rw [if_pos (by omega)]
  simp only [if_neg (show ¬sz = 0 by omega)]
  rfl

end

variable {copyout : Exec.Copyout} {cpus : Nat} {plan : List Bool} {mem : Nat → Page} {init : Page}
  {s₀ s : Sys} {i : Nat} {x : Owner}

theorem Inv.account_plan (hinv : Inv L s) (hi : i < 64) (hx : s.slot i = some x) (fails : List Bool)
    : Account L (pool L) (fun _ => False) s.kmem.mem { s.kmem with plan := fails }
      (fun pg => x.pgdir.own pg + (holds pg (some x.kstack) + (s.setSlot i none).others pg)) := by
  have hslot := hinv.account_slot hi hx
  refine ⟨?_, fun _ h => h.elim, hslot.valid⟩
  intro pg
  have := hslot.count pg
  rw [Owner.own] at this
  show s.kmem.freelist.count pg + _ = _
  omega

/--
`growproc` of any process, with `fails` saying which calls of `kalloc` fail: it reaches the exact size or
nothing changes, just if the process does not give back all its memory, or more than it has.
-/
theorem growproc_exact (hboot : boot L cpus plan mem init = .ok (some s₀))
    (hreach : Reach.Reachable s₀ (Steps L copyout) s) (hi : i < 64) (hx : s.slot i = some x)
    (hmapped : ∀ u, u < userPages → (x.pgdir.pte u ≠ none ↔ 4096 * u < x.sz)) (fails : List Bool)
    {n : Int} (hlow : -2 ^ 31 ≤ n) (hlt : n < 2 ^ 31)
    : (∃ k' d' sz' r, growproc L { s.kmem with plan := fails } x.pgdir x.sz n = .ok (k', d', sz', r)
        ∧ (r = 0 ∧ Grown s.kmem.mem k'.mem x.pgdir d' x.sz sz' n
          ∨ r = -1 ∧ Unchanged s.kmem.mem k'.mem x.pgdir d' x.sz sz')) ↔ 0 ≤ n ∨ 0 < x.sz + n ∨ x.sz = 0 := by
  have hinv := Inv.of_reachable hboot hreach
  have hacc := hinv.account_plan hi hx fails
  have hone : ∀ pg, pool L pg ≤ 1 := fun pg => between_le_one _ _ pg
  have hown : ∀ pg, x.pgdir.own pg ≤ 1 := by
    intro pg
    have := hacc.count pg
    have := hone pg
    omega
  have hsize : x.sz < KERNBASE := by
    refine size_lt hown ?_ hmapped
    intro pg hpg
    have := hacc.valid_of_own pg (by omega)
    exact ⟨this.1, this.2.2⟩
  have hfits := hinv.fits i x hx
  constructor
  . rintro ⟨k', d', sz', r, hgrow, hexact⟩
    by_contra hnot
    by_cases hall : x.sz + n = 0
    . rcases growproc_of_all hacc hfits (by omega) hall with ⟨k₁, d₁, hall, hgone⟩
      rw [hall] at hgrow
      cases hgrow
      rcases hexact with ⟨hr, -⟩ | ⟨-, hsame⟩
      . cases hr
      . rw [hsame.pte] at hgone
        exact (hmapped 0 (by decide)).mpr (by omega) hgone
    . rw [growproc_of_wrap hfits.sz_le (by omega) (by omega) hlow] at hgrow
      cases hgrow
      rcases hexact with ⟨-, hgrown⟩ | ⟨hr, -⟩
      . have := hgrown.size
        omega
      . cases hr
  . intro hrest
    by_cases hpos : 0 < n
    . exact grown_of_pos hacc hone hfits hmapped hpos hlt
    by_cases hzero : n = 0
    . subst hzero
      refine ⟨_, _, _, _, rfl, .inl ⟨rfl, by omega, hsize, hmapped, ?_⟩⟩
      exact fun u e _ _ he => ⟨he, rfl⟩
    rcases hrest with hnonneg | hrest | hempty
    . omega
    . rcases grown_of_neg hacc hone hfits hmapped (by omega) hrest with ⟨k', d', sz', hgrow, hgrown⟩
      exact ⟨k', d', sz', 0, hgrow, .inl ⟨rfl, hgrown⟩⟩
    . rw [hempty]
      rcases unchanged_of_empty (L := L) (k := { s.kmem with plan := fails }) (d := x.pgdir) (n := n)
          (by omega)
        with ⟨k', d', sz', hgrow, hsame⟩
      exact ⟨k', d', sz', -1, hgrow, .inr ⟨rfl, hsame⟩⟩

theorem mapped_of_first (hfits : Fits x.pgdir x.sz) (hsz : x.sz = 4096) (hfirst : x.pgdir.pte 0 ≠ none)
    (u : Nat) (hu : u < userPages)
    : x.pgdir.pte u ≠ none ↔ 4096 * u < x.sz := by
  by_cases hzero : u = 0
  . rw [hzero]
    exact iff_of_true hfirst (by omega)
  . exact iff_of_false (fun hne => hne (hfits.above u (by omega) hu)) (by omega)

theorem growproc_exact_of_first
    : ∃ s x, boot smallKernel 0 [] (fun _ _ => 0) (fun _ => 0) = .ok (some s) ∧ s.slot 0 = some x
      ∧ ∃ k' d' sz' r, growproc smallKernel { s.kmem with plan := [] } x.pgdir x.sz 3
          = .ok (k', d', sz', r)
        ∧ (r = 0 ∧ Grown s.kmem.mem k'.mem x.pgdir d' x.sz sz' 3
          ∨ r = -1 ∧ Unchanged s.kmem.mem k'.mem x.pgdir d' x.sz sz') := by
  rcases boot_ok (L := smallKernel) (by decide) (fun _ _ => 0) (fun _ => 0)
    with ⟨s, x, hboot, hx, hsz, hfirst, -⟩
  have hreach : Reach.Reachable s (Steps smallKernel fun mem _ _ _ => (mem, false)) s := .refl
  have hfits := (Inv.of_reachable hboot hreach).fits 0 x hx
  exact ⟨s, x, hboot, hx, (growproc_exact hboot hreach (by decide) hx (mapped_of_first hfits hsz hfirst) []
    (by decide) (by decide)).mpr (.inl (by decide))⟩

/--
The first process gives back its only page. `growproc` returns `-1`, but the page is gone. Giving back
more than that has no effect, and yet it returns `0`.
-/
theorem growproc_inexact
    : ∃ s x, boot smallKernel 0 [] (fun _ _ => 0) (fun _ => 0) = .ok (some s) ∧ s.slot 0 = some x
      ∧ (∀ u, u < userPages → (x.pgdir.pte u ≠ none ↔ 4096 * u < x.sz))
      ∧ (∃ k' d', growproc smallKernel s.kmem x.pgdir x.sz (-4096) = .ok (k', d', x.sz, -1)
        ∧ d'.pte 0 = none ∧ x.pgdir.pte 0 ≠ none)
      ∧ growproc smallKernel s.kmem x.pgdir x.sz (-4097) = .ok (s.kmem, x.pgdir, x.sz, 0) := by
  rcases boot_ok (L := smallKernel) (by decide) (fun _ _ => 0) (fun _ => 0)
    with ⟨s, x, hboot, hx, hsz, hfirst, -⟩
  have hreach : Reach.Reachable s (Steps smallKernel fun mem _ _ _ => (mem, false)) s := .refl
  have hinv := Inv.of_reachable hboot hreach
  have hfits := hinv.fits 0 x hx
  have hacc := hinv.account_plan (by decide) hx s.kmem.plan
  refine ⟨s, x, hboot, hx, mapped_of_first hfits hsz hfirst, ?_,
    growproc_of_wrap hfits.sz_le (by omega) (by omega) (by decide)⟩
  rcases growproc_of_all (n := -4096) hacc hfits (by omega) (by omega) with ⟨k', d', hgrow, hgone⟩
  exact ⟨k', d', hgrow, hgone, hfirst⟩

end Vm
end Xv6
