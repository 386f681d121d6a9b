import Xv6.Vm.Resize

namespace Xv6
namespace Vm

variable {L : Layout} {c X : Nat → Nat} {P : Nat → Prop} {m : Nat → Page} {k k' : Kmem} {src d d' : PageDir}

theorem copyLoop_ok {sz i : Nat} (h : Account L c P m k (fun pg => d.own pg + X pg)) (hclosed : d.Closed)
    (hi : i % 4096 = 0) (hsz : sz ≤ KERNBASE) (hnone : ∀ u, i ≤ 4096 * u → u < userPages → d.pte u = none)
    (hsrc : ∀ u, 4096 * u < sz → src.walks u = true ∧ src.pte u ≠ none)
    : ∃ k' r, copyLoop L k src d sz i = .ok (k', r) := by
  induction hn : sz - i using Nat.strongRecOn generalizing k d i with
  | ind n ih =>
  have hbase : KERNBASE = 2 ^ 31 := rfl
  rw [copyLoop]
  split
  next hlt =>
    obtain ⟨hwalks, hpresent⟩ := hsrc (i / 4096) (by omega)
    obtain ⟨e, he⟩ := Option.ne_none_iff_exists'.mp hpresent
    rw [if_pos hwalks, he]
    dsimp only
    rcases h.kalloc with ⟨k₁, hk, h₁⟩ | ⟨k₁, mem, hk, h₁⟩
    . obtain ⟨k₂, hfree, _⟩ := freevm_spec h₁ hclosed
      rw [hk]
      simp only [hfree, bind, Except.bind]
      exact ⟨k₂, none, rfl⟩
    . rw [hk]
      have hwrite := h₁.write (r := mem) (by rw [holds, if_pos rfl]; omega) (k₁.mem e.pa)
      rcases mapUser_spec (e := { e with pa := mem }) hwrite hclosed hi (by omega)
          (hnone (i / 4096) (by omega) (by rw [userPages_eq]; omega))
        with ⟨k₂, d₂, ok, hmap, hclosed₂, hpte, h₂⟩
      simp only [hmap, bind, Except.bind]
      cases ok with
      | false =>
        have h₃ : Account L c P m k₂ (fun pg => (d₂.own pg + X pg) + holds pg (some mem)) := h₂
        obtain ⟨k₃, hfree, h₄⟩ := h₃.kfree
        obtain ⟨k₄, hfreevm, _⟩ := freevm_spec h₄ hclosed₂
        simp only [Bool.false_eq_true, if_false, hfree, hfreevm]
        exact ⟨k₄, none, rfl⟩
      | true =>
        simp only [if_true]
        have h₃ : Account L c P m k₂ (fun pg => d₂.own pg + X pg) :=
          h₂.congr (fun pg => by simp only [if_true, Nat.add_zero])
        apply ih _ (by omega) h₃ hclosed₂ (by omega) _ rfl
        intro u hu hu'
        rw [hpte, if_pos rfl, Function.update_of_ne (by omega)]
        exact hnone u (by omega) hu'
  next => exact ⟨k, some d, rfl⟩

theorem copyLoop_copies {sz i : Nat} (hi : i % 4096 = 0) (hnodup : k.freelist.Nodup)
    (hsrc : ∀ u e, 4096 * u < sz → src.pte u = some e → e.pa ∉ k.freelist)
    (heq : copyLoop L k src d sz i = .ok (k', some d'))
    : (∀ pg, pg ∉ k.freelist → pg ∉ k'.freelist ∧ k'.mem pg = k.mem pg)
      ∧ (∀ u, 4096 * u < i ∨ sz ≤ 4096 * u → d'.pte u = d.pte u)
      ∧ ∀ u, i ≤ 4096 * u → 4096 * u < sz → ∃ e, src.pte u = some e ∧ ∃ pg ∈ k.freelist,
        pg ∉ k'.freelist ∧ d'.pte u = some { e with pa := pg } ∧ k'.mem pg = k.mem e.pa := by
  induction hn : sz - i using Nat.strongRecOn generalizing k d i with
  | ind n ih =>
  rw [copyLoop] at heq
  split at heq
  next hlt =>
    split at heq
    next =>
      split at heq
      next => cases heq
      next e he =>
        split at heq
        next =>
          obtain ⟨k₂, _, heq⟩ := Outcome.bind_eq_ok.mp heq
          cases heq
        next k₁ mem hk =>
          obtain ⟨⟨k₂, d₂, ok⟩, hmap, heq⟩ := Outcome.bind_eq_ok.mp heq
          dsimp only at heq
          split at heq
          next hok =>
            have h := mapsFresh_of_mappages hi hnodup hk hmap hok
            obtain ⟨hkept, hbelow, hnew⟩ := ih _ (by omega) (show (i + 4096) % 4096 = 0 by omega) h.nodup
              (fun u e hu he hin => hsrc u e hu he (h.sub _ hin)) heq rfl
            rw [h.pte] at hbelow
            -- the page of this round is not free any more, so the rounds after it leave it alone
            refine ⟨?_, ?_, ?_⟩
            . intro pg hpg
              obtain ⟨hfree, hmem⟩ := hkept pg (fun hin => hpg (h.sub pg hin))
              exact ⟨hfree, hmem.trans (h.others pg hpg)⟩
            . intro u hu
              rw [hbelow u (by omega), Function.update_of_ne (by omega)]
            . intro u hu hu'
              by_cases hiu : u = i / 4096
              . obtain ⟨hfree, hmem⟩ := hkept mem h.gone
                refine ⟨e, by rw [hiu, he], mem, h.taken, hfree, ?_, ?_⟩
                . rw [hbelow u (by omega), hiu, Function.update_self]
                . rw [hmem, h.page, (kalloc_takes hk).1]
              . obtain ⟨x, hx, pg, hpg, hfree, hpte, hmem⟩ := hnew u (by omega) hu'
                exact ⟨x, hx, pg, h.sub pg hpg, hfree, hpte, hmem.trans (h.others x.pa (hsrc u x hu' hx))⟩
          next =>
            obtain ⟨k₃, _, heq⟩ := Outcome.bind_eq_ok.mp heq
            obtain ⟨k₄, _, heq⟩ := Outcome.bind_eq_ok.mp heq
            cases heq
    next => cases heq
  next hge =>
    cases heq
    exact ⟨fun pg hpg => ⟨hpg, rfl⟩, fun _ _ => rfl, fun u hu hu' => by omega⟩

theorem Account.kept {pg : Nat} (h : Account L c P m k X) (hpg : P pg) : pg ∉ k.freelist ∧ k.mem pg = m pg := by
  obtain ⟨hzero, hmem⟩ := h.frame pg hpg
  have := h.count pg
  exact ⟨List.count_eq_zero.mp (by omega), hmem⟩

theorem Account.perm (h : Account L (fun pg => k.freelist.count pg) P m k' (fun _ => 0))
    : k'.freelist.Perm k.freelist :=
  List.perm_iff_count.mpr h.count

structure Copied (L : Layout) (k k' : Kmem) (src d : PageDir) : Prop where
  copy : ∀ u e, u < userPages → src.pte u = some e →
    ∃ pg ∈ k.freelist, pg ∉ k'.freelist ∧ d.pte u = some { e with pa := pg } ∧ k'.mem pg = k.mem e.pa
  none : ∀ u, u < userPages → src.pte u = none → d.pte u = none
  inj : ∀ u v e x, u < userPages → v < userPages → d.pte u = some e → d.pte v = some x → e.pa = x.pa → u = v
  kernel : ∃ k₀ d₀, setupkvm L k = .ok (k₀, some d₀) ∧ ∀ u, userPages ≤ u → d.pte u = d₀.pte u

theorem Placed.account_child (h : Placed L k src)
    : Account L (fun pg => k.freelist.count pg) (fun pg => 0 < src.own pg) k.mem k (fun _ => 0) := by
  refine ⟨fun _ => rfl, ?_, fun pg hpg => h.valid pg (by omega)⟩
  intro pg hpg
  have := h.once pg
  exact ⟨by omega, rfl⟩

theorem copied_of_loop {sz : Nat} {k₀ : Kmem} {d₀ : PageDir} (hplaced : Placed L k src) (hsz : sz ≤ KERNBASE)
    (hmapped : ∀ u, u < userPages → (src.pte u ≠ none ↔ 4096 * u < sz))
    (hsetup : setupkvm L k = .ok (k₀, some d₀)) (hclosed : d₀.Closed)
    (hempty : ∀ u, u < userPages → d₀.pte u = none)
    (h : Account L (fun pg => k.freelist.count pg) (fun pg => 0 < src.own pg) k.mem k₀
      (fun pg => d₀.own pg + 0))
    (hloop : copyLoop L k₀ src d₀ sz 0 = .ok (k', some d))
    : Copied L k k' src d := by
  have hbase : KERNBASE = 2 ^ 31 := rfl
  have hpages := userPages_eq
  have hone : ∀ pg, k.freelist.count pg ≤ 1 := List.nodup_iff_count_le_one.mp hplaced.nodup
  have hsub : ∀ pg, pg ∈ k₀.freelist → pg ∈ k.freelist := by
    intro pg hpg
    have := h.count pg
    have := List.count_pos_iff.mpr hpg
    exact List.count_pos_iff.mp (by omega)
  have hnodup : k₀.freelist.Nodup := by
    rw [List.nodup_iff_count_le_one]
    intro pg
    have := h.count pg
    have := hone pg
    omega
  have hsrc : ∀ u e, 4096 * u < sz → src.pte u = some e → e.pa ∉ k₀.freelist := by
    intro u e hu he hmem
    exact hplaced.notMem (by omega) he (hsub _ hmem)
  obtain ⟨_, hother, hnew⟩ := copyLoop_copies (Nat.zero_mod 4096) hnodup hsrc hloop
  obtain ⟨_, hspec⟩ := copyLoop_spec h hclosed (Nat.zero_mod 4096) hsz (fun u _ hlt => hempty u hlt) hloop
  obtain ⟨_, h', _⟩ := hspec d rfl
  refine ⟨?_, ?_, ?_, k₀, d₀, hsetup, fun u hu => hother u (by omega)⟩
  . intro u e hu he
    have hlt := (hmapped u hu).mp (by rw [he]; exact Option.some_ne_none e)
    obtain ⟨x, hx, pg, hpg, hfree, hpte, hmem⟩ := hnew u (Nat.zero_le _) hlt
    rw [he] at hx
    cases hx
    refine ⟨pg, hsub pg hpg, hfree, hpte, hmem.trans ?_⟩
    exact (h.frame e.pa (Exec.own_pos hu he)).2
  . intro u hu hnone
    have hge : ¬4096 * u < sz := fun hlt => (hmapped u hu).mpr hlt hnone
    rw [hother u (by omega), hempty u hu]
  . intro u v e x hu hv he hx hpa
    refine pte_inj ?_ hu hv he hx hpa
    intro pg
    have := h'.count pg
    have := hone pg
    omega

/--
`copyuvm` copies the address space. If there is not enough memory, the pages that it has taken are free
again. In any case, the parent is as before.
-/
theorem copyuvm_copies (L : Layout) (k : Kmem) (src : PageDir) (sz : Nat) (hplaced : Placed L k src)
    (hclosed : src.Closed) (hmapped : ∀ u, u < userPages → (src.pte u ≠ none ↔ 4096 * u < pgRoundUp sz))
    (hsz : sz < KERNBASE)
    : ∃ k' r, copyuvm L k src sz = .ok (k', r) ∧ (∀ pg, 0 < src.own pg → pg ∉ k'.freelist ∧ k'.mem pg = k.mem pg)
      ∧ (r = none → k'.freelist.Perm k.freelist) ∧ ∀ d, r = some d → Copied L k k' src d := by
  have hbase : KERNBASE = 2 ^ 31 := rfl
  have hpages := userPages_eq
  have hmapped : ∀ u, u < userPages → (src.pte u ≠ none ↔ 4096 * u < sz) := by
    intro u hu
    have := pgRoundUp_le_iff sz u
    rw [hmapped u hu]
    omega
  have haccount := hplaced.account_child
  obtain ⟨k₀, r₀, hsetup, hnone₀, hsome₀⟩ := setupkvm_spec haccount
  cases r₀ with
  | none =>
    refine ⟨k₀, none, ?_, fun pg hpg => (hnone₀ rfl).kept hpg, fun _ => (hnone₀ rfl).perm, nofun⟩
    rw [copyuvm, hsetup]
    rfl
  | some d₀ =>
    obtain ⟨hclosed₀, h₀, hempty, _⟩ := hsome₀ d₀ rfl
    have hsrc : ∀ u, 4096 * u < sz → src.walks u = true ∧ src.pte u ≠ none := by
      intro u hu
      have hsome := (hmapped u (by omega)).mpr hu
      refine ⟨?_, hsome⟩
      unfold PageDir.walks
      rw [Option.isSome_iff_ne_none]
      exact fun htable => hsome (hclosed u htable)
    obtain ⟨k', r, hloop⟩ := copyLoop_ok h₀ hclosed₀ (Nat.zero_mod 4096) (Nat.le_of_lt hsz)
      (fun u _ hlt => hempty u hlt) hsrc
    obtain ⟨hnone, hsome⟩ := copyLoop_spec h₀ hclosed₀ (Nat.zero_mod 4096) (Nat.le_of_lt hsz)
      (fun u _ hlt => hempty u hlt) hloop
    refine ⟨k', r, ?_, ?_, fun hr => (hnone hr).perm, ?_⟩
    . rw [copyuvm, hsetup]
      exact hloop
    . intro pg hpg
      cases r with
      | none => exact (hnone rfl).kept hpg
      | some d => exact (hsome d rfl).2.1.kept hpg
    . rintro d rfl
      exact copied_of_loop hplaced (Nat.le_of_lt hsz) hmapped hsetup hclosed₀ hempty h₀ hloop

theorem copyLoop_succeeds {sz i : Nat} {r : Option PageDir} (hi : i % 4096 = 0)
    (h : Plenty k (2 * ((sz - i + 4095) / 4096))) (heq : copyLoop L k src d sz i = .ok (k', r))
    : r ≠ none := by
  induction hn : sz - i using Nat.strongRecOn generalizing k d i with
  | ind n ih =>
  rw [copyLoop] at heq
  split at heq
  next hlt =>
    have hcount : 2 * ((sz - i + 4095) / 4096) = 2 * ((sz - (i + 4096) + 4095) / 4096) + 1 + 1 := by omega
    rw [hcount] at h
    obtain ⟨k₁, mem, hk, h₁⟩ := h.kalloc
    split at heq
    next =>
      split at heq
      next => cases heq
      next e he =>
        rw [hk] at heq
        obtain ⟨⟨k₂, d₂, ok⟩, hmap, heq⟩ := Outcome.bind_eq_ok.mp heq
        have hwrite : Plenty { k₁ with mem := Function.update k₁.mem mem (k₁.mem e.pa) }
            (2 * ((sz - (i + 4096) + 4095) / 4096) + 1) := ⟨h₁.plan, h₁.pages⟩
        obtain ⟨hok, h₂⟩ := hwrite.mapUser hi hmap
        dsimp only at heq
        rw [if_pos hok] at heq
        exact ih _ (by omega) (by omega) h₂ heq rfl
    next => cases heq
  next =>
    cases heq
    exact Option.some_ne_none d

theorem copyuvm_succeeds {sz : Nat} {r : Option PageDir} (hplan : k.plan = [])
    (hlen : 513 + 2 * ((sz + 4095) / 4096) ≤ k.freelist.length) (heq : copyuvm L k src sz = .ok (k', r))
    : r ≠ none := by
  rw [copyuvm] at heq
  obtain ⟨⟨k₀, r₀⟩, hsetup, heq⟩ := Outcome.bind_eq_ok.mp heq
  obtain ⟨d₀, rfl, hplan₀, hlen₀⟩ := setupkvm_ready hplan hlen hsetup
  exact copyLoop_succeeds (Nat.zero_mod 4096) (.of_plan hplan₀ hlen₀) heq

def manyFree (n : Nat) : Kmem where
  freelist := (List.range n).map fun j => 0x406000 + 4096 * j
  plan := []
  mem := fun _ _ => 7

theorem placed_manyFree {n : Nat} (hn : n ≤ 1000) : Placed smallKernel (manyFree n) onePage := by
  have hkend : smallKernel.kend ≤ 0x406000 := by decide
  have hstop : PHYSTOP = 234881024 := rfl
  apply placed_onePage
  . exact List.nodup_range.map fun i j (hij : 0x406000 + 4096 * i = 0x406000 + 4096 * j) => by omega
  . intro pg hpg
    obtain ⟨j, hj, rfl⟩ := List.mem_map.mp hpg
    have hj := List.mem_range.mp hj
    simp only [List.mem_cons, List.not_mem_nil, or_false]
    omega

theorem copyuvm_copies_of_onePage
    : ∃ k' d pg, copyuvm smallKernel (manyFree 600) onePage 4096 = .ok (k', some d)
      ∧ pg ∈ (manyFree 600).freelist ∧ d.pte 0 = some ⟨pg, true, false, 0⟩ ∧ k'.mem pg = fun _ => 7 := by
  obtain ⟨k', r, hcopy, _, _, hsome⟩ := copyuvm_copies smallKernel _ _ 4096
    (placed_manyFree (n := 600) (by decide)) onePage_closed (onePage_mapped (by decide) (by decide)) (by decide)
  have hlen : (manyFree 600).freelist.length = 600 := by
    rw [manyFree, List.length_map, List.length_range]
  obtain ⟨d, rfl⟩ := Option.ne_none_iff_exists'.mp (copyuvm_succeeds rfl (by rw [hlen]; decide) hcopy)
  obtain ⟨pg, hpg, _, hpte, hmem⟩ := (hsome d rfl).copy 0 _ (by rw [userPages_eq]; decide) rfl
  exact ⟨k', d, pg, hcopy, hpg, hpte, hmem⟩

end Vm
end Xv6
