import Xv6.Vm.Sbrk

namespace Xv6
namespace Vm

variable {L : Layout} {k k' : Kmem} {d d' : PageDir}

def pagesFrom (a sz : Nat) : List Nat :=
  List.range' (a / 4096) ((sz + 4095) / 4096 - a / 4096)

theorem mem_pagesFrom {a sz u : Nat} (ha : a % 4096 = 0)
    : u ∈ pagesFrom a sz ↔ a ≤ 4096 * u ∧ 4096 * u < sz := by
  unfold pagesFrom
  rw [List.mem_range'_1]
  omega

def deallocPages (L : Layout) (k : Kmem) (d : PageDir) (l : List Nat) : Except Panic (Kmem × PageDir) :=
  match l with
  | [] => .ok (k, d)
  | u :: l =>
    match d.pte u with
    | none => deallocPages L k d l
    | some e =>
      if e.pa = 0 then
        .error .kfree
      else do
        let k ← kfree L k e.pa
        deallocPages L k (d.setPte u none) l

theorem deallocPages_append {l l' : List Nat} (h : ∀ u ∈ l, d.pte u = none)
    : deallocPages L k d (l ++ l') = deallocPages L k d l' := by
  induction l with
  | nil => rfl
  | cons u l ih =>
    rw [List.cons_append, deallocPages, h u List.mem_cons_self]
    exact ih (fun v hv => h v (List.mem_cons_of_mem _ hv))

theorem pagesFrom_eq_append {a b sz : Nat} (ha : a ≤ b) (hb : b ≤ sz) (hmod : b % 4096 = 0)
    : pagesFrom a sz = pagesFrom a b ++ pagesFrom b sz := by
  unfold pagesFrom
  have hmid : b / 4096 = a / 4096 + ((b + 4095) / 4096 - a / 4096) := by omega
  rw [hmid, List.range'_append_1]
  congr 1
  omega

theorem pagesFrom_eq_cons {a sz : Nat} (ha : a % 4096 = 0) (hlt : a < sz)
    : pagesFrom a sz = a / 4096 :: pagesFrom (a + 4096) sz := by
  unfold pagesFrom
  have hlen : (sz + 4095) / 4096 - a / 4096 = (sz + 4095) / 4096 - (a + 4096) / 4096 + 1 := by omega
  have hnext : (a + 4096) / 4096 = a / 4096 + 1 := by omega
  rw [hlen, List.range'_succ, hnext]

theorem pagesFrom_eq_nil {a sz : Nat} (ha : a % 4096 = 0) (hle : sz ≤ a) : pagesFrom a sz = [] := by
  unfold pagesFrom
  have hlen : (sz + 4095) / 4096 - a / 4096 = 0 := by omega
  rw [hlen]
  rfl

theorem deallocLoop_eq_deallocPages {oldsz a : Nat} (hclosed : d.Closed) (ha : a % 4096 = 0)
    : deallocLoop L k d oldsz a = deallocPages L k d (pagesFrom a oldsz) := by
  induction hn : oldsz - a using Nat.strongRecOn generalizing k d a with
  | ind n ih =>
  rw [deallocLoop]
  split
  next hlt =>
    split
    next htable =>
      -- no page of the missing table is mapped, and `oldsz` may lie before its end
      have hnone : ∀ b, b ≤ (a / 4096 / 1024 + 1) * 1024 * 4096 → ∀ u ∈ pagesFrom a b, d.pte u = none := by
        intro b hb u hu
        rw [mem_pagesFrom ha] at hu
        apply hclosed
        have hindex : u / 1024 = a / 4096 / 1024 := by omega
        rw [hindex, htable]
      rw [ih _ (by omega) hclosed (by omega) rfl]
      by_cases hend : (a / 4096 / 1024 + 1) * 1024 * 4096 ≤ oldsz
      . have hsplit := pagesFrom_eq_append (a := a) (by omega) hend (by omega)
        rw [hsplit, deallocPages_append (hnone _ (Nat.le_refl _))]
      have hall : deallocPages L k d (pagesFrom a oldsz ++ []) = deallocPages L k d [] :=
        deallocPages_append (hnone oldsz (by omega))
      rw [List.append_nil] at hall
      rw [pagesFrom_eq_nil (by omega) (by omega), hall]
    next =>
      rw [pagesFrom_eq_cons ha hlt, deallocPages]
      cases d.pte (a / 4096) with
      | none => exact ih _ (by omega) hclosed (by omega) rfl
      | some e =>
        dsimp only
        by_cases hpa : e.pa = 0
        . rw [if_pos hpa, if_pos hpa]
        rw [if_neg hpa, if_neg hpa]
        congr 1
        funext k₁
        exact ih _ (by omega) (hclosed.clear _) (by omega) rfl
  next hge => rw [pagesFrom_eq_nil ha (by omega), deallocPages]

theorem deallocPages_frees {l : List Nat} (hnodup : l.Nodup) (heq : deallocPages L k d l = .ok (k', d'))
    : k'.freelist = ((l.filterMap d.pte).map Pte.pa).reverse ++ k.freelist := by
  induction l generalizing k d with
  | nil =>
    cases heq
    rfl
  | cons u l ih =>
    obtain ⟨hu, hnodup⟩ := List.nodup_cons.mp hnodup
    rw [deallocPages] at heq
    split at heq
    next hpte =>
      rw [List.filterMap_cons_none hpte]
      exact ih hnodup heq
    next e hpte =>
      rw [List.filterMap_cons_some hpte]
      split at heq
      next => cases heq
      next =>
        obtain ⟨k₁, hkfree, heq⟩ := Outcome.bind_eq_ok.mp heq
        have hlist : k₁.freelist = e.pa :: k.freelist := by
          unfold kfree at hkfree
          split at hkfree
          next => cases hkfree
          next =>
            cases hkfree
            rfl
        have hsame : l.filterMap (d.setPte u none).pte = l.filterMap d.pte := by
          apply List.filterMap_congr
          intro v hv
          apply pte_setPte_of_ne
          rintro rfl
          exact hu hv
        rw [ih hnodup heq, hsame, hlist, List.map_cons, List.reverse_cons, List.append_assoc]
        rfl

def lastOfTable (a : UInt32) : UInt32 :=
  (((a >>> 22) &&& 0x3FF) + 1) <<< 22 - 4096

def deallocWords (L : Layout) (k : Kmem) (d : PageDir) (oldsz a : UInt32) (fuel : Nat)
    : Option (Except Panic (Kmem × PageDir)) :=
  match fuel with
  | 0 => none
  | fuel + 1 =>
    if a < oldsz then
      match d.table (a.toNat / 4096 / 1024) with
      | none => deallocWords L k d oldsz (lastOfTable a + 4096) fuel
      | some _ =>
        match d.pte (a.toNat / 4096) with
        | none => deallocWords L k d oldsz (a + 4096) fuel
        | some e =>
          if e.pa = 0 then
            some (.error .kfree)
          else
            match kfree L k e.pa with
            | .error p => some (.error p)
            | .ok k => deallocWords L k (d.setPte (a.toNat / 4096) none) oldsz (a + 4096) fuel
    else
      some (.ok (k, d))

theorem toNat_lastOfTable {a : UInt32} (ha : a.toNat < 2 ^ 31)
    : (lastOfTable a + 4096).toNat = (a.toNat / 4096 / 1024 + 1) * 1024 * 4096 := by
  have hpdx : ((a >>> 22) &&& 0x3FF).toNat = a.toNat / 2 ^ 22 := by
    rw [UInt32.toNat_and, UInt32.toNat_shiftRight]
    change a.toNat >>> 22 &&& (2 ^ 10 - 1) = _
    rw [Nat.and_two_pow_sub_one_eq_mod, Nat.shiftRight_eq_div_pow]
    omega
  have hsucc : (((a >>> 22) &&& 0x3FF) + 1).toNat = a.toNat / 2 ^ 22 + 1 := by
    have hone : (1 : UInt32).toNat = 1 := rfl
    rw [UInt32.toNat_add, hpdx]
    omega
  unfold lastOfTable
  -- the `- PGSIZE` here and the `+ PGSIZE` of the loop cancel as words
  rw [UInt32.sub_add_cancel, UInt32.toNat_shiftLeft, hsucc]
  change (a.toNat / 2 ^ 22 + 1) <<< 22 % 2 ^ 32 = _
  rw [Nat.shiftLeft_eq]
  omega

theorem toNat_add_4096 {a : UInt32} (ha : a.toNat < 2 ^ 31) : (a + 4096).toNat = a.toNat + 4096 := by
  have hsize : (4096 : UInt32).toNat = 4096 := rfl
  rw [UInt32.toNat_add]
  omega

theorem deallocWords_eq {oldsz a : UInt32} {fuel : Nat} (hold : oldsz.toNat ≤ KERNBASE)
    (hfuel : oldsz.toNat - a.toNat < fuel)
    : deallocWords L k d oldsz a fuel = some (deallocLoop L k d oldsz.toNat a.toNat) := by
  have hbase : KERNBASE = 2 ^ 31 := rfl
  induction fuel generalizing k d a with
  | zero => omega
  | succ fuel ih =>
    rw [deallocWords, deallocLoop]
    by_cases hlt : a.toNat < oldsz.toNat
    . have hskip := toNat_lastOfTable (a := a) (by omega)
      have hnext := toNat_add_4096 (a := a) (by omega)
      rw [if_pos (UInt32.lt_iff_toNat_lt.mpr hlt), dif_pos hlt]
      cases d.table (a.toNat / 4096 / 1024) with
      | none =>
        dsimp only
        rw [ih (by omega), hskip]
      | some t =>
        cases d.pte (a.toNat / 4096) with
        | none =>
          dsimp only
          rw [ih (by omega), hnext]
        | some e =>
          dsimp only
          by_cases hpa : e.pa = 0
          . rw [if_pos hpa, if_pos hpa]
          rw [if_neg hpa, if_neg hpa]
          cases kfree L k e.pa with
          | error p => rfl
          | ok k₁ =>
            have hpure : (Except.ok k₁ : Except Panic Kmem) = pure k₁ := rfl
            rw [hpure, pure_bind, ← hnext]
            exact ih (by omega)
    . rw [if_neg (fun h => hlt (UInt32.lt_iff_toNat_lt.mp h)), dif_neg hlt]

theorem kalloc_pops {r : Option Nat} (heq : kalloc k = (k', r))
    : k'.mem = k.mem
      ∧ (r = none ∧ k'.freelist = k.freelist ∨ ∃ pg, r = some pg ∧ k.freelist = pg :: k'.freelist) := by
  unfold kalloc at heq
  split at heq
  next =>
    cases heq
    exact ⟨rfl, .inl ⟨rfl, rfl⟩⟩
  next =>
    split at heq
    next =>
      cases heq
      exact ⟨rfl, .inl ⟨rfl, rfl⟩⟩
    next pg l hlist =>
      cases heq
      exact ⟨rfl, .inr ⟨pg, rfl, hlist⟩⟩

theorem kalloc_takes {pg : Nat} (heq : kalloc k = (k', some pg))
    : k'.mem = k.mem ∧ k.freelist = pg :: k'.freelist := by
  obtain ⟨hmem, ⟨hnone, _⟩ | ⟨_, hsome, hlist⟩⟩ := kalloc_pops heq
  . cases hnone
  . cases hsome
    exact ⟨hmem, hlist⟩

theorem kalloc_suffix {r : Option Nat} (heq : kalloc k = (k', r)) : k'.freelist <:+ k.freelist := by
  rcases (kalloc_pops heq).2 with ⟨_, hlist⟩ | ⟨pg, _, hlist⟩
  . rw [hlist]
  . rw [hlist]
    exact List.suffix_cons _ _

theorem mapUser_pops {a : Nat} {e : Pte} {ok : Bool} (ha : a % 4096 = 0)
    (heq : mappages k d a 4096 e = .ok (k', d', ok))
    : k'.freelist <:+ k.freelist ∧ k'.mem = k.mem
      ∧ (ok = true → d'.pte = Function.update d.pte (a / 4096) (some e)) := by
  have hpages : (a + 4096 - 1) / 4096 + 1 - a / 4096 = 1 := by omega
  have hwalk : ∀ k₁ d₁ ok₁, walkpgdir k d (a / 4096) = (k₁, d₁, ok₁)
      → k₁.freelist <:+ k.freelist ∧ k₁.mem = k.mem ∧ d₁.pte = d.pte := by
    intro k₁ d₁ ok₁ hwalk
    unfold walkpgdir at hwalk
    split at hwalk
    next =>
      cases hwalk
      exact ⟨List.suffix_refl _, rfl, rfl⟩
    next =>
      split at hwalk
      next hk =>
        cases hwalk
        exact ⟨kalloc_suffix hk, (kalloc_pops hk).1, rfl⟩
      next hk =>
        cases hwalk
        exact ⟨kalloc_suffix hk, (kalloc_pops hk).1, rfl⟩
  rw [mappages, hpages, mapLoop, mapPage] at heq
  split at heq
  next hw =>
    cases heq
    obtain ⟨hlist, hmem, _⟩ := hwalk _ _ _ hw
    exact ⟨hlist, hmem, fun hok => absurd hok Bool.false_ne_true⟩
  next hw =>
    obtain ⟨hlist, hmem, hpte⟩ := hwalk _ _ _ hw
    split at heq
    next => cases heq
    next =>
      cases heq
      refine ⟨hlist, hmem, fun _ => ?_⟩
      rw [← hpte]
      rfl

structure MapsFresh (k k' : Kmem) (d d' : PageDir) (v mem : Nat) (e : Pte) (page : Page) : Prop where
  nodup : k'.freelist.Nodup
  sub : ∀ pg, pg ∈ k'.freelist → pg ∈ k.freelist
  taken : mem ∈ k.freelist
  gone : mem ∉ k'.freelist
  page : k'.mem mem = page
  others : ∀ pg, pg ∉ k.freelist → k'.mem pg = k.mem pg
  pte : d'.pte = Function.update d.pte v (some e)

theorem mapsFresh_of_mappages {k₁ : Kmem} {a mem : Nat} {e : Pte} {page : Page} {ok : Bool} (ha : a % 4096 = 0)
    (hnodup : k.freelist.Nodup) (hk : kalloc k = (k₁, some mem))
    (hmap : mappages { k₁ with mem := Function.update k₁.mem mem page } d a 4096 e = .ok (k', d', ok))
    (hok : ok = true)
    : MapsFresh k k' d d' (a / 4096) mem e page := by
  obtain ⟨hmem₁, hlist₁⟩ := kalloc_takes hk
  obtain ⟨hlist, hmem, hpte⟩ := mapUser_pops ha hmap
  dsimp only at hlist hmem
  rw [hlist₁, List.nodup_cons] at hnodup
  refine ⟨hnodup.2.sublist hlist.sublist, ?_, ?_, fun h => hnodup.1 (hlist.subset h), ?_, ?_, hpte hok⟩
  . intro pg hpg
    rw [hlist₁]
    exact List.mem_cons_of_mem _ (hlist.subset hpg)
  . rw [hlist₁]
    exact List.mem_cons_self
  . rw [hmem, Function.update_self]
  . intro pg hpg
    rw [hlist₁, List.mem_cons, not_or] at hpg
    rw [hmem, Function.update_of_ne hpg.1, hmem₁]

theorem allocLoop_zeroes {oldsz newsz a r : Nat} (ha : a % 4096 = 0) (hnodup : k.freelist.Nodup)
    (heq : allocLoop L k d oldsz newsz a = .ok (k', d', r)) (hr : r ≠ 0)
    : (∀ pg, pg ∉ k.freelist → pg ∉ k'.freelist ∧ k'.mem pg = k.mem pg)
      ∧ (∀ u, 4096 * u < a → d'.pte u = d.pte u)
      ∧ ∀ u, a ≤ 4096 * u → 4096 * u < newsz →
        ∃ pg ∈ k.freelist, pg ∉ k'.freelist ∧ d'.pte u = some ⟨pg, true, true, 0⟩ ∧ k'.mem pg = fun _ => 0 := by
  induction hn : newsz - a using Nat.strongRecOn generalizing k d a with
  | ind n ih =>
  rw [allocLoop] at heq
  split at heq
  next hlt =>
    split at heq
    next =>
      obtain ⟨⟨k₂, d₂, r₂⟩, _, heq⟩ := Outcome.bind_eq_ok.mp heq
      cases heq
      exact absurd rfl hr
    next k₁ mem hk =>
      obtain ⟨⟨k₂, d₂, ok⟩, hmap, heq⟩ := Outcome.bind_eq_ok.mp heq
      dsimp only at heq
      split at heq
      next hok =>
        have h := mapsFresh_of_mappages ha hnodup hk hmap hok
        obtain ⟨hkept, hbelow, hnew⟩ := ih _ (by omega) (show (a + 4096) % 4096 = 0 by omega) h.nodup heq rfl
        rw [h.pte] at hbelow
        -- the page of this round is not free any more, so the rounds after it leave it alone
        refine ⟨?_, ?_, ?_⟩
        . intro pg hpg
          obtain ⟨hfree, hmem⟩ := hkept pg (fun hin => hpg (h.sub pg hin))
          exact ⟨hfree, hmem.trans (h.others pg hpg)⟩
        . intro u hu
          rw [hbelow u (by omega), Function.update_of_ne (by omega)]
        . intro u hu hu'
          by_cases hau : u = a / 4096
          . obtain ⟨hfree, hmem⟩ := hkept mem h.gone
            refine ⟨mem, h.taken, hfree, ?_, hmem.trans h.page⟩
            rw [hbelow u (by omega), hau, Function.update_self]
          . obtain ⟨pg, hpg, hrest⟩ := hnew u (by omega) hu'
            exact ⟨pg, h.sub pg hpg, hrest⟩
      next =>
        obtain ⟨⟨k₃, d₃, r₃⟩, _, heq⟩ := Outcome.bind_eq_ok.mp heq
        obtain ⟨k₄, _, heq⟩ := Outcome.bind_eq_ok.mp heq
        cases heq
        exact absurd rfl hr
  next hge =>
    cases heq
    exact ⟨fun pg hpg => ⟨hpg, rfl⟩, fun _ _ => rfl, fun u hu hu' => by omega⟩

structure Plenty (k : Kmem) (n : Nat) : Prop where
  plan : ∀ b ∈ k.plan, b = false
  pages : n ≤ k.freelist.length

theorem Plenty.of_plan {n : Nat} (hplan : k.plan = []) (h : n ≤ k.freelist.length) : Plenty k n := by
  refine ⟨?_, h⟩
  rw [hplan]
  exact List.forall_mem_nil _

theorem Plenty.kalloc {n : Nat} (h : Plenty k (n + 1)) : ∃ k' pg, kalloc k = (k', some pg) ∧ Plenty k' n := by
  have hhead : k.plan.headD false = false := by
    cases hplan : k.plan with
    | nil => rfl
    | cons b l =>
      apply h.plan
      rw [hplan]
      exact List.mem_cons_self
  have hpages := h.pages
  unfold Vm.kalloc
  rw [hhead, if_neg Bool.false_ne_true]
  cases hlist : k.freelist with
  | nil =>
    rw [hlist, List.length_nil] at hpages
    omega
  | cons pg l =>
    rw [hlist, List.length_cons] at hpages
    exact ⟨_, pg, rfl, fun b hb => h.plan b (List.mem_of_mem_tail hb), by dsimp only; omega⟩

theorem Plenty.mapUser {n a : Nat} {e : Pte} {ok : Bool} (h : Plenty k (n + 1)) (ha : a % 4096 = 0)
    (heq : mappages k d a 4096 e = .ok (k', d', ok))
    : ok = true ∧ Plenty k' n := by
  have hpages : (a + 4096 - 1) / 4096 + 1 - a / 4096 = 1 := by omega
  have hwalk : ∃ k₁ d₁, walkpgdir k d (a / 4096) = (k₁, d₁, true) ∧ Plenty k₁ n := by
    unfold walkpgdir
    split
    next =>
      have hpages := h.pages
      exact ⟨k, d, rfl, h.plan, by omega⟩
    next =>
      obtain ⟨k₁, t, hk, h₁⟩ := h.kalloc
      rw [hk]
      exact ⟨_, _, rfl, h₁⟩
  obtain ⟨k₁, d₁, hw, h₁⟩ := hwalk
  rw [mappages, hpages, mapLoop, mapPage, hw] at heq
  dsimp only at heq
  split at heq
  next => cases heq
  next =>
    cases heq
    exact ⟨rfl, h₁⟩

theorem allocLoop_succeeds {oldsz newsz a r : Nat} (ha : a % 4096 = 0)
    (h : Plenty k (2 * ((newsz - a + 4095) / 4096))) (heq : allocLoop L k d oldsz newsz a = .ok (k', d', r))
    : r = newsz := by
  induction hn : newsz - a using Nat.strongRecOn generalizing k d a with
  | ind n ih =>
  rw [allocLoop] at heq
  split at heq
  next hlt =>
    have hcount : 2 * ((newsz - a + 4095) / 4096) = 2 * ((newsz - (a + 4096) + 4095) / 4096) + 1 + 1 := by omega
    rw [hcount] at h
    obtain ⟨k₁, mem, hk, h₁⟩ := h.kalloc
    rw [hk] at heq
    obtain ⟨⟨k₂, d₂, ok⟩, hmap, heq⟩ := Outcome.bind_eq_ok.mp heq
    have hwrite : Plenty { k₁ with mem := Function.update k₁.mem mem (fun _ => 0) }
        (2 * ((newsz - (a + 4096) + 4095) / 4096) + 1) := ⟨h₁.plan, h₁.pages⟩
    obtain ⟨hok, h₂⟩ := hwrite.mapUser ha hmap
    dsimp only at heq
    rw [if_pos hok] at heq
    exact ih _ (by omega) (by omega) h₂ heq rfl
  next =>
    cases heq
    rfl

structure Placed (L : Layout) (k : Kmem) (d : PageDir) : Prop where
  once : ∀ pg, k.freelist.count pg + d.own pg ≤ 1
  valid : ∀ pg, 0 < k.freelist.count pg + d.own pg → pg % 4096 = 0 ∧ L.kend ≤ pg ∧ pg < PHYSTOP

theorem Placed.account (h : Placed L k d)
    : Account L (fun pg => k.freelist.count pg + d.own pg) (fun _ => False) k.mem k
      (fun pg => d.own pg + 0) := by
  refine ⟨?_, fun _ h => h.elim, h.valid⟩
  intro pg
  rw [Nat.add_zero]

theorem Placed.nodup (h : Placed L k d) : k.freelist.Nodup := by
  rw [List.nodup_iff_count_le_one]
  intro pg
  have := h.once pg
  omega

theorem Placed.notMem {u : Nat} {e : Pte} (h : Placed L k d) (hu : u < userPages) (he : d.pte u = some e)
    : e.pa ∉ k.freelist := by
  have := h.once e.pa
  have := Exec.own_pos hu he
  exact List.count_eq_zero.mp (by omega)

structure Extended (k k' : Kmem) (d d' : PageDir) (old new : Nat) : Prop where
  added : ∀ u, old ≤ 4096 * u → 4096 * u < new →
    ∃ pg ∈ k.freelist, d'.pte u = some ⟨pg, true, true, 0⟩ ∧ k'.mem pg = fun _ => 0
  others : ∀ u, ¬(old ≤ 4096 * u ∧ 4096 * u < new) → d'.pte u = d.pte u

structure Undone (k k' : Kmem) (d d' : PageDir) : Prop where
  pte : d'.pte = d.pte
  pages : ∀ pg, k'.freelist.count pg + d'.frames pg = k.freelist.count pg + d.frames pg

structure Restored (k' k'' : Kmem) (d d' d'' : PageDir) (old new : Nat) : Prop where
  pte : d''.pte = d.pte
  pages : k''.freelist = (((pagesFrom (pgRoundUp old) new).filterMap d'.pte).map Pte.pa).reverse ++ k'.freelist

theorem pgRoundUp_le_iff (sz u : Nat) : pgRoundUp sz ≤ 4096 * u ↔ sz ≤ 4096 * u := by
  unfold pgRoundUp
  omega

theorem undone_of_account {c : Nat → Nat} {P P' : Nat → Prop} {m m' : Nat → Page}
    (h : Account L c P m k (fun pg => d.own pg + 0)) (h' : Account L c P' m' k' (fun pg => d'.own pg + 0))
    (hpte : d'.pte = d.pte)
    : Undone k k' d d' := by
  refine ⟨hpte, ?_⟩
  intro pg
  have hcount := h.count pg
  have hcount' := h'.count pg
  have husers := users_congr hpte pg
  rw [PageDir.own] at hcount hcount'
  omega

theorem restored_of_extended {c : Nat → Nat} {P : Nat → Prop} {m : Nat → Page} {old new : Nat}
    (h : Account L c P m k' (fun pg => d'.own pg + 0)) (hclosed : d'.Closed) (hlt : new < KERNBASE)
    (hle : old ≤ new)
    (hnone : ∀ u, old ≤ 4096 * u → u < userPages → d.pte u = none) (hext : Extended k k' d d' old new)
    : ∃ k'' d'', deallocuvm L k' d' new old = .ok (k'', d'', old) ∧ Restored k' k'' d d' d'' old new := by
  have hbase : KERNBASE = 2 ^ 31 := rfl
  obtain ⟨k'', d'', r, hdealloc, _, _, _, _, hpte, hr⟩ := deallocuvm_spec old h hclosed (Nat.le_of_lt hlt)
  have hr : r = old := by
    rw [hr]
    split
    . omega
    . rfl
  rw [hr] at hdealloc
  refine ⟨k'', d'', hdealloc, ?_, ?_⟩
  . funext u
    have hround := pgRoundUp_le_iff old u
    rw [hpte]
    split
    next hin => rw [hnone u (hround.mp hin.1) (by rw [userPages_eq]; omega)]
    next hout =>
      apply hext.others
      rw [← hround]
      exact hout
  . have hmod := pgRoundUp_mod old
    unfold deallocuvm at hdealloc
    split at hdealloc
    next hge =>
      cases hdealloc
      have := le_pgRoundUp old
      rw [pagesFrom_eq_nil hmod (by omega)]
      rfl
    next =>
      obtain ⟨⟨k₁, d₁⟩, hloop, hdealloc⟩ := Outcome.bind_eq_ok.mp hdealloc
      cases hdealloc
      rw [deallocLoop_eq_deallocPages hclosed hmod] at hloop
      exact deallocPages_frees (List.nodup_range' ..) hloop

/--
`allocuvm` and `deallocuvm` are inverse. `allocuvm` fails only for want of memory, and then it undoes what
it has done. The loop of `deallocuvm`, in 32 bits, does what a visit to every page would do.
-/
theorem allocuvm_deallocuvm (L : Layout) (k : Kmem) (d : PageDir) (old new : Nat) (hplaced : Placed L k d)
    (hclosed : d.Closed) (hmapped : ∀ u, u < userPages → (d.pte u ≠ none ↔ 4096 * u < pgRoundUp old))
    (hle : old ≤ new) (hpos : 0 < new) (hlt : new < KERNBASE)
    : (∃ k' d' r, allocuvm L k d old new = .ok (k', d', r)
        ∧ (∀ u e, u < userPages → d.pte u = some e → d'.pte u = some e ∧ k'.mem e.pa = k.mem e.pa)
        ∧ (r = 0 ∧ Undone k k' d d' ∨ r = new ∧ Extended k k' d d' old new
            ∧ ∃ k'' d'', deallocuvm L k' d' new old = .ok (k'', d'', old) ∧ Restored k' k'' d d' d'' old new)
        ∧ (Plenty k (2 * ((new - pgRoundUp old + 4095) / 4096)) → r = new))
      ∧ ∀ (k : Kmem) (d : PageDir) (oldsz a : UInt32) (fuel : Nat), d.Closed → a.toNat % 4096 = 0 →
        oldsz.toNat ≤ KERNBASE → oldsz.toNat - a.toNat < fuel →
        deallocWords L k d oldsz a fuel = some (deallocPages L k d (pagesFrom a.toNat oldsz.toNat))
        ∧ deallocLoop L k d oldsz.toNat a.toNat = deallocPages L k d (pagesFrom a.toNat oldsz.toNat) := by
  have hbase : KERNBASE = 2 ^ 31 := rfl
  have hnone : ∀ u, old ≤ 4096 * u → u < userPages → d.pte u = none := by
    intro u hu hu'
    by_contra hsome
    have := (hmapped u hu').mp hsome
    have := (pgRoundUp_le_iff old u).mpr hu
    omega
  refine ⟨?_, ?_⟩
  . obtain ⟨k', d', r, halloc, hclosed', haccount, hcases⟩ := allocuvm_spec new hplaced.account hclosed hnone
    have hloop : allocLoop L k d old new (pgRoundUp old) = .ok (k', d', r) := by
      unfold allocuvm at halloc
      rw [if_neg (by omega), if_neg (by omega)] at halloc
      exact halloc
    have hkept : Kept (mappedBelow d KERNBASE) k.mem k' := by
      refine (kept_mappedBelow hplaced.account hplaced.once (Nat.le_refl _)).allocuvm ?_ halloc
      intro u e hu hu' he
      rw [hnone u hu (by rw [userPages_eq]; omega)] at he
      cases he
    refine ⟨k', d', r, halloc, ?_, ?_, ?_⟩
    . intro u e hu he
      refine ⟨?_, (hkept e.pa ⟨u, e, by rw [userPages_eq] at hu; omega, he, rfl⟩).2⟩
      rcases hcases with ⟨_, hpte⟩ | ⟨hshrink, _, _⟩ | ⟨_, _, _, _, hsame⟩
      . rw [hpte, he]
      . omega
      . rw [hsame, he]
        intro hin
        rw [hnone u hin.1 hu] at he
        cases he
    . rcases hcases with ⟨rfl, hpte⟩ | ⟨hshrink, _, _⟩ | ⟨_, _, rfl, _, hsame⟩
      . exact .inl ⟨rfl, undone_of_account hplaced.account haccount hpte⟩
      . omega
      . have hext : Extended k k' d d' old r := by
          refine ⟨?_, hsame⟩
          intro u hu hu'
          obtain ⟨_, _, hnew⟩ := allocLoop_zeroes (pgRoundUp_mod old) hplaced.nodup hloop (by omega)
          obtain ⟨pg, hpg, _, hpte, hmem⟩ := hnew u ((pgRoundUp_le_iff old u).mpr hu) hu'
          exact ⟨pg, hpg, hpte, hmem⟩
        exact .inr ⟨rfl, hext, restored_of_extended haccount hclosed' hlt hle hnone hext⟩
    . intro hplenty
      exact allocLoop_succeeds (pgRoundUp_mod old) hplenty hloop
  . intro k d oldsz a fuel hclosed ha hold hfuel
    have heq : deallocLoop L k d oldsz.toNat a.toNat = deallocPages L k d (pagesFrom a.toNat oldsz.toNat) :=
      deallocLoop_eq_deallocPages hclosed ha
    refine ⟨?_, heq⟩
    rw [deallocWords_eq hold hfuel, heq]

def onePage : PageDir :=
  ((PageDir.blank 0x403000).setTable 0 0x404000).setPte 0 (some ⟨0x405000, true, false, 0⟩)

theorem onePage_closed : onePage.Closed := by
  intro v hv
  have hne : v ≠ 0 := by
    rintro rfl
    cases hv
  exact pte_setPte_of_ne hne _

theorem onePage_mapped {sz : Nat} (hpos : 0 < sz) (hsz : sz ≤ 4096) (u : Nat) (_ : u < userPages)
    : onePage.pte u ≠ none ↔ 4096 * u < pgRoundUp sz := by
  have hround : pgRoundUp sz = 4096 := by
    unfold pgRoundUp
    omega
  by_cases hu : u = 0
  . rw [hu]
    exact iff_of_true nofun (by omega)
  . exact iff_of_false (fun h => h (pte_setPte_of_ne hu _)) (by omega)

theorem own_onePage (pg : Nat)
    : onePage.own pg = holds pg (some 0x403000) + holds pg (some 0x404000) + holds pg (some 0x405000) := by
  have hblank := own_blank 0x403000 pg
  have hframes := frames_setTable (d := PageDir.blank 0x403000) (t := 0x404000) (v := 0) rfl (by decide) pg
  have husers := users_setPte (d := (PageDir.blank 0x403000).setTable 0 0x404000) (v := 0)
    (some ⟨0x405000, true, false, 0⟩) (by rw [userPages_eq]; decide) pg
  have hnone : ((PageDir.blank 0x403000).setTable 0 0x404000).pte 0 = none := rfl
  have hsame : ((PageDir.blank 0x403000).setTable 0 0x404000).users pg
      = (PageDir.blank 0x403000).users pg := rfl
  have hown : onePage.own pg
      = ((PageDir.blank 0x403000).setTable 0 0x404000).frames pg + onePage.users pg := rfl
  rw [hnone, hsame, Option.map_none, holds_none, Nat.add_zero, Option.map_some] at husers
  change onePage.users pg = _ + holds pg (some 0x405000) at husers
  rw [PageDir.own] at hblank
  omega

theorem placed_onePage (hnodup : k.freelist.Nodup) (hfree : ∀ pg ∈ k.freelist, pg % 4096 = 0
      ∧ smallKernel.kend ≤ pg ∧ pg < PHYSTOP ∧ pg ∉ [0x403000, 0x404000, 0x405000])
    : Placed smallKernel k onePage := by
  have hkend : smallKernel.kend ≤ 0x403000 := by decide
  have hstop : PHYSTOP = 234881024 := rfl
  have hone := List.nodup_iff_count_le_one.mp hnodup
  constructor
  all_goals
    intro pg
    have hle := hone pg
    have hpg := hfree pg
    rw [← List.count_pos_iff] at hpg
    rw [own_onePage]
    simp only [holds, Option.some.injEq]
    grind

theorem allocuvm_deallocuvm_of_onePage
    : ∃ k' d' r, allocuvm smallKernel ⟨[0x401000, 0x402000], [], fun _ _ => 7⟩ onePage 1 4097 = .ok (k', d', r)
      ∧ r = 4097 := by
  have hplaced : Placed smallKernel ⟨[0x401000, 0x402000], [], fun _ _ => 7⟩ onePage :=
    placed_onePage (by decide) (by decide)
  obtain ⟨k', d', r, halloc, _, _, hplenty⟩ := (allocuvm_deallocuvm smallKernel _ _ 1 4097 hplaced
    onePage_closed (onePage_mapped (by decide) (by decide)) (by decide) (by decide) (by decide)).1
  exact ⟨k', d', r, halloc, hplenty ⟨nofun, by decide⟩⟩

end Vm
end Xv6
