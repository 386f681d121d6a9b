import Xv6.Umalloc.Free

namespace Xv6
namespace Umalloc

open Circle

variable {h h' : Heap} {ring live : List Extent} {b c : Extent} {base fuel rounds n : Nat}

theorem Inv.frame (hinv : Inv base h ring live)
    (hring : ∀ b ∈ ring, h'.ptr b.start = h.ptr b.start ∧ h'.size b.start = h.size b.start)
    (hlive : ∀ b ∈ live, h'.size b.start = h.size b.start) (hfreep : h'.freep = h.freep)
    (hgot : h'.got = h.got) (hbrk : h'.brk = h.brk)
    : Inv base h' ring live where
  fresh := hinv.fresh.congr hgot hbrk
  list :=
    { head := hinv.list.head
      rep := hinv.list.rep.congr (fun b hb => (hring b hb).1) (fun b hb => (hring b hb).2)
      sep := hinv.list.sep
      pos := hinv.list.pos
      entry := hfreep ▸ hinv.list.entry }
  headers b hb := (hlive b hb).trans (hinv.headers b hb)
  live_pos := hinv.live_pos
  cover := hgot ▸ hinv.cover

theorem sbrk_cases (h : Heap) {n : Nat} (hpos : 0 < n) (hlt : n < 2 ^ 31)
    : (∃ plan, h.sbrk n = ({ h with plan }, none)) ∨ ∃ gap plan, h.brk + gap + n ≤ 2 ^ 31
        ∧ h.sbrk n = ({ h with brk := h.brk + gap + n, plan, got := ⟨h.brk + gap, n⟩ :: h.got },
          some (h.brk + gap)) := by
  unfold Heap.sbrk
  rw [if_pos ⟨hpos, hlt⟩]
  split
  next => exact .inl ⟨h.plan, rfl⟩
  next plan _ => exact .inl ⟨plan, rfl⟩
  next gap plan _ =>
    split
    next hle => exact .inr ⟨gap, plan, Nat.le_of_lt hle, rfl⟩
    next => exact .inl ⟨plan, rfl⟩

theorem Inv.sbrk {gap nu : Nat} (hinv : Inv base h ring live) (plan : List (Option Nat)) (hnu : 0 < nu)
    (hbrk : h.brk + gap + nu * 8 ≤ 2 ^ 31) (heq : h' = Heap.setSize { h with
      brk := h.brk + gap + nu * 8, plan := plan, got := ⟨h.brk + gap, nu * 8⟩ :: h.got } (h.brk + gap) nu)
    : Inv base h' ring (⟨h.brk + gap, nu⟩ :: live) := by
  subst heq
  have hbase := hinv.fresh.base_lt
  have hsame : ∀ a, a ≠ h.brk + gap → Function.update h.size (h.brk + gap) nu a = h.size a :=
    fun a ha => Function.update_of_ne ha _ _
  refine ⟨⟨hinv.fresh.base_pos, ?_, hbrk, ?_, ?_⟩, ⟨hinv.list.head, ?_, hinv.list.sep, hinv.list.pos,
    hinv.list.entry⟩, ?_, ?_, ?_⟩
  . show base + 8 ≤ h.brk + gap + nu * 8
    omega
  . intro r hr
    show base + 8 ≤ r.start ∧ r.stop 1 ≤ h.brk + gap + nu * 8
    rcases List.mem_cons.mp hr with rfl | hr
    . simp only [Extent.stop]
      omega
    . have := hinv.fresh.bounds r hr
      omega
  . intro x
    show Extent.cover 1 (⟨h.brk + gap, nu * 8⟩ :: h.got) x ≤ 1
    rw [Extent.cover_cons, Extent.covers_mk]
    have := hinv.fresh.once x
    split_ifs with hx
    . have hzero : Extent.cover 1 h.got x = 0 := by
        apply Extent.cover_eq_zero
        intro r hr hin
        have := hinv.fresh.bounds r hr
        omega
      omega
    . omega
  . refine hinv.list.rep.congr (fun _ _ => rfl) ?_
    intro b hb
    apply hsame
    by_cases hne : b.start = base
    . omega
    . have := hinv.ring_bounds hb hne
      omega
  . intro b hb
    rcases List.mem_cons.mp hb with rfl | hb
    . exact Function.update_self _ _ _
    . rw [← hinv.headers b hb]
      apply hsame
      have := hinv.live_bounds hb
      have := lt_stop (hinv.live_pos b hb)
      omega
  . intro b hb
    rcases List.mem_cons.mp hb with rfl | hb
    . exact hnu
    . exact hinv.live_pos b hb
  . intro x
    show Extent.cover 8 ring x + Extent.cover 8 (⟨h.brk + gap, nu⟩ :: live) x
      = Extent.cover 1 (⟨h.brk + gap, nu * 8⟩ :: h.got) x
    have hcovers : Extent.covers 8 ⟨h.brk + gap, nu⟩ x = Extent.covers 1 ⟨h.brk + gap, nu * 8⟩ x := by
      rw [Extent.covers_mk, Extent.covers_mk, Nat.one_mul, Nat.mul_comm]
    rw [Extent.cover_cons, Extent.cover_cons, ← hinv.cover x, hcovers]
    omega

theorem FreeList.freep_ne (hlist : FreeList base h ring) (hbase : 0 < base) : h.freep ≠ 0 := by
  rcases List.mem_map.mp hlist.entry with ⟨b, hb, hfreep⟩
  have := hlist.base_le hb
  omega

theorem Inv.morecore {nu : Nat} (hinv : Inv base h ring live) (hnu : 8 * nu < 2 ^ 31)
    (hrounds : ring.length ≤ rounds)
    : ∃ h' p, h.morecore rounds nu = some (h', p) ∧ ((p = 0 ∧ Inv base h' ring live)
        ∨ (p ≠ 0 ∧ p = h'.freep ∧ ∃ ring', Inv base h' ring' live ∧ ring'.length ≤ ring.length + 1
          ∧ ∃ c ∈ ring', nu ≤ c.len)) := by
  generalize hmax : (if nu < 4096 then 4096 else nu) = nu'
  have hle : nu ≤ nu' ∧ 0 < nu' ∧ nu' * 8 < 2 ^ 31 := by
    split at hmax <;> omega
  have hmod : nu' * 8 % 2 ^ 32 = nu' * 8 := Nat.mod_eq_of_lt (by omega)
  rcases sbrk_cases h (n := nu' * 8) (by omega) hle.2.2 with ⟨plan, hsbrk⟩ | ⟨gap, plan, hbrk, hsbrk⟩
  . refine ⟨{ h with plan }, 0, ?_, .inl ⟨rfl, ?_⟩⟩
    . simp only [Heap.morecore, hmax, hmod, hsbrk]
    . exact hinv.frame (fun _ _ => ⟨rfl, rfl⟩) (fun _ _ => rfl) rfl rfl rfl
  . -- the new memory is a block of `free`
    have hgot := hinv.sbrk plan hle.2.1 hbrk rfl
    rcases hgot.free hrounds with ⟨h', ring', hfree, hinv', -, hlen, c, hc, hcle⟩
    refine ⟨h', h'.freep, ?_, .inr ⟨hinv'.list.freep_ne hinv'.fresh.base_pos, rfl, ring', hinv', hlen,
      c, hc, Nat.le_trans hle.1 hcle⟩⟩
    simp only [Heap.morecore, hmax, hmod, hsbrk, hfree, Option.bind_eq_bind, Option.bind_some]
    rfl

theorem mallocLoop_walk (rounds n : Nat) {l : List Nat} {prev : Nat}
    (hpath : Path h.ptr (prev :: l) h.freep)
    (hfreep : h.freep ∉ l) (hfuel : l.length < fuel)
    : (∃ p ∈ prev :: l, n ≤ h.size (h.ptr p)
        ∧ h.mallocLoop rounds fuel n prev (h.ptr prev) = some (h.take n p (h.ptr p)))
      ∨ ((∀ a ∈ h.freep :: l, h.size a < n)
        ∧ ∃ k, fuel ≤ k + l.length + 1 ∧ ∀ h' p, h.morecore rounds n = some (h', p)
          → h.mallocLoop rounds fuel n prev (h.ptr prev)
            = if p = 0 then some (h', 0) else h'.mallocLoop rounds k n p (h'.ptr p)) := by
  induction l generalizing prev fuel with
  | nil =>
    have hnext : h.ptr prev = h.freep := hpath.1
    rcases Nat.exists_eq_add_one_of_ne_zero (Nat.ne_zero_of_lt hfuel) with ⟨k, rfl⟩
    by_cases hfit : n ≤ h.size (h.ptr prev)
    . refine .inl ⟨prev, List.mem_cons_self, hfit, ?_⟩
      rw [Heap.mallocLoop, if_pos hfit]
    refine .inr ⟨?_, k, Nat.le_refl _, ?_⟩
    . intro a ha
      rw [List.mem_singleton.mp ha, ← hnext]
      exact Nat.lt_of_not_le hfit
    . intro h' p hmore
      rw [Heap.mallocLoop, if_neg hfit, if_pos hnext, hmore]
      rfl
  | cons c l ih =>
    have hnext : h.ptr prev = c := hpath.1
    rw [List.mem_cons, not_or] at hfreep
    rcases Nat.exists_eq_add_one_of_ne_zero (Nat.ne_zero_of_lt hfuel) with ⟨fuel, rfl⟩
    by_cases hfit : n ≤ h.size (h.ptr prev)
    . refine .inl ⟨prev, List.mem_cons_self, hfit, ?_⟩
      rw [Heap.mallocLoop, if_pos hfit]
    have hstep : h.mallocLoop rounds (fuel + 1) n prev (h.ptr prev)
        = h.mallocLoop rounds fuel n c (h.ptr c) := by
      rw [Heap.mallocLoop, if_neg hfit, hnext, if_neg (Ne.symm hfreep.1)]
    rw [hstep]
    rcases ih hpath.2 hfreep.2 (Nat.lt_of_succ_lt_succ hfuel)
      with ⟨p, hp, hfound⟩ | ⟨hall, k, hk, hmore⟩
    . exact .inl ⟨p, List.mem_cons_of_mem prev hp, hfound⟩
    . refine .inr ⟨?_, k, Nat.succ_le_succ hk, hmore⟩
      intro a ha
      rcases List.mem_cons.mp ha with rfl | ha
      . exact hall _ List.mem_cons_self
      . rcases List.mem_cons.mp ha with rfl | ha
        . rw [hnext] at hfit
          exact Nat.lt_of_not_le hfit
        . exact hall a (List.mem_cons_of_mem _ ha)

theorem Inv.round (rounds n : Nat) (hinv : Inv base h ring live) (hfuel : ring.length ≤ fuel)
    : (∃ p ∈ ring.map Extent.start, n ≤ h.size (h.ptr p)
        ∧ h.mallocLoop rounds fuel n h.freep (h.ptr h.freep) = some (h.take n p (h.ptr p)))
      ∨ ((∀ b ∈ ring, b.len < n)
        ∧ ∃ k, fuel ≤ k + ring.length ∧ ∀ h' p, h.morecore rounds n = some (h', p)
          → h.mallocLoop rounds fuel n h.freep (h.ptr h.freep)
            = if p = 0 then some (h', 0) else h'.mallocLoop rounds k n p (h'.ptr p)) := by
  rcases hinv.list.circle with ⟨l, heq, hpath⟩
  rcases hpath.exists_rotate (heq ▸ hinv.list.entry) with ⟨l', hpath', hperm⟩
  rw [← heq] at hperm
  have hlen := hperm.length_eq
  rw [List.length_map, List.length_cons] at hlen
  have hnodup := List.nodup_cons.mp (hperm.nodup_iff.mpr hinv.list.nodup)
  rcases mallocLoop_walk rounds n hpath' hnodup.1 (by omega : l'.length < fuel)
    with ⟨p, hp, hfound⟩ | ⟨hall, k, hk, hmore⟩
  . exact .inl ⟨p, hperm.mem_iff.mp hp, hfound⟩
  . refine .inr ⟨?_, k, by omega, hmore⟩
    intro b hb
    rw [← hinv.list.rep.size_eq b hb]
    exact hall b.start (hperm.mem_iff.mpr (List.mem_map_of_mem hb))

theorem FreeList.exists_next (hlist : FreeList base h ring) {p : Nat}
    (hp : p ∈ ring.map Extent.start) (hne : h.ptr p ≠ base)
    : ∃ l₁ k b l₂, ring = l₁ ++ [⟨p, k⟩] ++ b :: l₂ ∧ b.start = h.ptr p := by
  rcases List.mem_map.mp hp with ⟨c, hc, rfl⟩
  rcases hlist.ptr_mem hc with ⟨b, hb, hstart⟩
  rcases List.append_of_mem hb with ⟨l, l₂, heq⟩
  rcases List.eq_nil_or_concat l with rfl | ⟨l₁, d, rfl⟩
  . rcases hlist.exists_cons with ⟨l', hl'⟩
    rw [heq, List.nil_append] at hl'
    injection hl' with hb' _
    rw [hb'] at hstart
    exact absurd hstart.symm hne
  . rw [List.concat_eq_append] at heq
    -- the block in front of `b` is the one that points to it
    have hrep := rep_append.mp (heq ▸ hlist.rep)
    have hptr : h.ptr d.start = b.start := by
      have := hrep.1.path
      rw [List.map_append] at this
      exact this.last_eq
    have hd : d ∈ ring := by
      simp [heq]
    rcases hlist.circle with ⟨l', heq', hpath⟩
    have hnodup := hlist.nodup
    rw [heq'] at hnodup
    have hcd : d.start = c.start := by
      apply hpath.pred_unique hnodup
      . exact heq' ▸ List.mem_map_of_mem hd
      . exact heq' ▸ List.mem_map_of_mem hc
      . rw [hptr, hstart]
    exact ⟨l₁, d.len, b, l₂, by rw [← hcd]; exact heq, hstart⟩

section
variable (hinv : Inv base h ring live)
include hinv

theorem Inv.take_exact {l₁ l₂ : List Extent} {p k : Nat}
    (heq : ring = l₁ ++ [⟨p, k⟩] ++ b :: l₂) (hb : 0 < b.len)
    : Inv base { h.setPtr p (h.ptr b.start) with freep := p } (l₁ ++ [⟨p, k⟩] ++ l₂) (b :: live) := by
  have hsep := heq ▸ hinv.list.sep
  have hsub : List.Sublist (l₁ ++ [(⟨p, k⟩ : Extent)] ++ l₂) ring := by
    rw [heq]
    exact (List.sublist_cons_self b l₂).append_left _
  have hrep := heq ▸ hinv.list.rep
  rw [rep_append, rep_cons] at hrep
  rcases hrep with ⟨hlower, hptr, hsize, hupper⟩
  have hsame : SameBut p h { h.setPtr p (h.ptr b.start) with freep := p } :=
    fun a ha => ⟨Function.update_of_ne ha _ _, rfl⟩
  have hbelow : ∀ c ∈ l₁, c.start ≠ p := by
    intro c hc
    have := (List.pairwise_append.mp (List.pairwise_append.mp hsep).1).2.2 c hc ⟨p, k⟩ (by simp)
    simp only [Before, Extent.stop] at this
    omega
  have habove : ∀ c ∈ l₂, c.start ≠ p := by
    intro c hc
    have := (List.pairwise_append.mp hsep).2.2 ⟨p, k⟩ (by simp) c (List.mem_cons_of_mem b hc)
    simp only [Before, Extent.stop] at this
    omega
  refine ⟨hinv.fresh.congr rfl rfl, ⟨?_, ?_, ?_, ?_, ?_⟩, ?_, ?_, ?_⟩
  . have := hinv.list.head
    rw [heq] at this
    cases l₁ with
    | nil => exact this
    | cons c l₁ => exact this
  . rw [rep_append]
    constructor
    . apply hlower.set_last hsame hbelow
      . rw [← hptr]
        exact Function.update_self _ _ _
      . exact hlower.size_eq ⟨p, k⟩ (by simp)
    . exact hupper.frame hsame habove
  . exact hinv.list.sep.sublist hsub
  . exact fun c hc => hinv.list.pos c (hsub.mem hc)
  . simp
  . intro c hc
    rcases List.mem_cons.mp hc with rfl | hc
    . exact hsize
    . exact hinv.headers c hc
  . intro c hc
    rcases List.mem_cons.mp hc with rfl | hc
    . exact hb
    . exact hinv.live_pos c hc
  . intro x
    have hall := hinv.cover x
    rw [heq] at hall
    simp only [Heap.setPtr, Extent.cover_append, Extent.cover_cons, Extent.cover_nil] at hall ⊢
    omega

theorem Inv.take_split {l₁ l₂ : List Extent} {p k m a : Nat}
    (heq : ring = l₁ ++ [⟨p, k⟩] ++ ⟨a, m + n⟩ :: l₂) (hm : 0 < m) (hn : 0 < n)
    : Inv base { (h.setSize a m).setSize (a + 8 * m) n with freep := p }
        (l₁ ++ [⟨p, k⟩] ++ ⟨a, m⟩ :: l₂) (⟨a + 8 * m, n⟩ :: live) := by
  have hsep := heq ▸ hinv.list.sep
  rw [List.pairwise_append, List.pairwise_cons] at hsep
  have hmem : ⟨a, m + n⟩ ∈ ring := by
    simp [heq]
  -- the headers that change are those of the two parts
  have hsame : ∀ x, x ≠ a → x ≠ a + 8 * m
      → Function.update (Function.update h.size a m) (a + 8 * m) n x = h.size x := by
    intro x hx hx'
    rw [Function.update_of_ne hx', Function.update_of_ne hx]
  have hother : ∀ c, c ∈ l₁ ++ [⟨p, k⟩] ∨ c ∈ l₂ → c.start ≠ a ∧ c.start ≠ a + 8 * m := by
    rintro c (hc | hc)
    . have := hsep.2.2 c hc ⟨a, m + n⟩ List.mem_cons_self
      simp only [Before, Extent.stop] at this
      omega
    . have := hsep.2.1.1 c hc
      simp only [Before, Extent.stop] at this
      omega
  refine ⟨hinv.fresh.congr rfl rfl, ⟨?_, ⟨?_, ?_⟩, ?_, ?_, ?_⟩, ?_, ?_, ?_⟩
  . have := hinv.list.head
    rw [heq] at this
    cases l₁ with
    | nil => exact this
    | cons c l₁ => exact this
  . have := hinv.list.rep.path
    rw [heq] at this
    simp only [List.map_append, List.map_cons] at this ⊢
    exact this
  . intro c hc
    rw [List.mem_append, List.mem_cons] at hc
    have hold : c ∈ l₁ ++ [⟨p, k⟩] ∨ c ∈ l₂ → c ∈ ring := by
      intro hc
      rw [heq]
      exact List.mem_append.mpr (hc.imp_right (List.mem_cons_of_mem _))
    rcases hc with hc | rfl | hc
    . have hne := hother c (.inl hc)
      exact (hsame _ hne.1 hne.2).trans (hinv.list.rep.size_eq c (hold (.inl hc)))
    . show Function.update (Function.update h.size a m) (a + 8 * m) n a = m
      rw [Function.update_of_ne (by omega), Function.update_self]
    . have hne := hother c (.inr hc)
      exact (hsame _ hne.1 hne.2).trans (hinv.list.rep.size_eq c (hold (.inr hc)))
  . rw [List.pairwise_append, List.pairwise_cons]
    refine ⟨hsep.1, ⟨?_, hsep.2.1.2⟩, ?_⟩
    . intro c hc
      have := hsep.2.1.1 c hc
      simp only [Before, Extent.stop] at this ⊢
      omega
    . intro c hc d hd
      rcases List.mem_cons.mp hd with rfl | hd
      . exact hsep.2.2 c hc ⟨a, m + n⟩ List.mem_cons_self
      . exact hsep.2.2 c hc d (List.mem_cons_of_mem _ hd)
  . intro c hc hne
    rw [List.mem_append, List.mem_cons] at hc
    rcases hc with hc | rfl | hc
    . exact hinv.list.pos c (by rw [heq]; exact List.mem_append_left _ hc) hne
    . exact hm
    . exact hinv.list.pos c (by simp [heq, hc]) hne
  . simp
  . intro c hc
    rcases List.mem_cons.mp hc with rfl | hc
    . exact Function.update_self _ _ _
    . rw [← hinv.headers c hc]
      have := hinv.apart hmem hc
      have := lt_stop (hinv.live_pos c hc)
      simp only [Extent.stop] at *
      apply hsame <;> omega
  . intro c hc
    rcases List.mem_cons.mp hc with rfl | hc
    . exact hn
    . exact hinv.live_pos c hc
  . intro x
    have hall := hinv.cover x
    rw [heq] at hall
    simp only [Heap.setSize, Extent.cover_append, Extent.cover_cons, Extent.cover_nil,
      Extent.covers_add] at hall ⊢
    omega

theorem Inv.take {p : Nat} (hp : p ∈ ring.map Extent.start) (hn : 0 < n)
    (hfit : n ≤ h.size (h.ptr p))
    : ∃ h' a ring', h.take n p (h.ptr p) = (h', a + 8) ∧ Inv base h' ring' (⟨a, n⟩ :: live) := by
  have hbase : h.ptr p ≠ base := by
    intro heq
    rcases hinv.list.exists_cons with ⟨l, hl⟩
    have := hinv.list.rep.size_eq ⟨base, 0⟩ (hl ▸ List.mem_cons_self)
    simp only at this
    rw [heq] at hfit
    omega
  rcases hinv.list.exists_next hp hbase with ⟨l₁, k, b, l₂, heq, hb⟩
  have hlen := hinv.list.rep.size_eq b (by simp [heq])
  rw [hb] at hlen
  unfold Heap.take
  split
  next hexact =>
    have hbn : b = ⟨h.ptr p, n⟩ := by
      rw [← hexact, hlen, ← hb]
    have hinv' := hinv.take_exact heq (by omega)
    rw [hb, hbn] at hinv'
    exact ⟨_, h.ptr p, _, rfl, hinv'⟩
  next hmore =>
    have hbn : b = ⟨h.ptr p, h.size (h.ptr p) - n + n⟩ := by
      rw [Nat.sub_add_cancel hfit, hlen, ← hb]
    have hsize : (h.setSize (h.ptr p) (h.size (h.ptr p) - n)).size (h.ptr p)
        = h.size (h.ptr p) - n := Function.update_self _ _ _
    rw [hbn] at heq
    simp only [hsize]
    exact ⟨_, _, _, rfl, hinv.take_split heq (by omega) hn⟩

theorem Inv.mallocLoop (hn : 0 < n) (hlt : 8 * n < 2 ^ 31)
    (hrounds : ring.length ≤ rounds) (hfuel : 2 * ring.length + 1 ≤ fuel)
    : ∃ h' p ring', h.mallocLoop rounds fuel n h.freep (h.ptr h.freep) = some (h', p)
      ∧ ((p = 0 ∧ Inv base h' ring' live) ∨ ∃ a, p = a + 8 ∧ Inv base h' ring' (⟨a, n⟩ :: live)) := by
  rcases hinv.round rounds n (by omega : ring.length ≤ fuel)
    with ⟨p, hp, hfit, hloop⟩ | ⟨-, k, hk, hloop⟩
  . rcases hinv.take hp hn hfit with ⟨h', a, ring', htake, hinv'⟩
    exact ⟨h', a + 8, ring', by rw [hloop, htake], .inr ⟨a, rfl, hinv'⟩⟩
  . rcases hinv.morecore hlt hrounds
      with ⟨h', p, hmore, ⟨rfl, hinv'⟩ | ⟨hp, rfl, ring', hinv', hlen, c, hc, hcle⟩⟩
    . refine ⟨h', 0, ring, ?_, .inl ⟨rfl, hinv'⟩⟩
      rw [hloop _ _ hmore, if_pos rfl]
    . -- the second time around a block fits
      have hagain := hloop _ _ hmore
      rw [if_neg hp] at hagain
      rcases hinv'.round rounds n (by omega : ring'.length ≤ k)
        with ⟨q, hq, hfit, hloop'⟩ | ⟨hall, -⟩
      . rcases hinv'.take hq hn hfit with ⟨h'', a, ring'', htake, hinv''⟩
        exact ⟨h'', a + 8, ring'', by rw [hagain, hloop', htake], .inr ⟨a, rfl, hinv''⟩⟩
      . have := hall c hc
        omega

theorem Inv.live_apart (hb : b ∈ live) (hc : c ∈ live)
    : c.start ≤ b.start ∨ b.stop 8 ≤ c.start := by
  by_cases hbc : c = b
  . exact .inl (Nat.le_of_eq (congrArg Extent.start hbc))
  have hc' := (List.mem_erase_of_ne hbc).mpr hc
  have hinv' := hinv.perm (List.perm_cons_erase hb)
  have hdisjoint : Extent.Disjoint 8 b c := by
    apply Extent.disjoint_of_covers (lt_stop (hinv.live_pos b hb)) (lt_stop (hinv.live_pos c hc))
    intro x
    have hall := hinv'.cover x
    have hle := Extent.covers_le_cover (w := 8) (x := x) hc'
    have := hinv.fresh.once x
    rw [Extent.cover_cons] at hall
    omega
  have := lt_stop (hinv.live_pos c hc)
  rcases hdisjoint with hd | hd
  . exact .inr hd
  . omega

end

namespace State

def Good (base : Nat) (s : State) : Prop :=
  s.Initial base ∨ ∃ ring, Inv base s.heap ring s.live

theorem Good.start {s : State} (hgood : s.Good base)
    : (∃ ring, Inv base (s.heap.start base) ring s.live) ∧ (s.heap.start base).brk = s.heap.brk := by
  rcases hgood with hinit | ⟨ring, hinv⟩
  . have hstart : s.heap.start base = { (s.heap.setPtr base base).setSize base 0 with freep := base } :=
      if_pos hinit.freep_eq
    rw [hstart]
    refine ⟨⟨[⟨base, 0⟩], ?_, ⟨rfl, ?_, List.pairwise_singleton _ _, ?_, ?_⟩, ?_, ?_, ?_⟩, rfl⟩
    . refine ⟨hinit.base_pos, hinit.base_lt, hinit.brk_le, ?_, ?_⟩
      . simp [Heap.setSize, Heap.setPtr, hinit.got_eq]
      . simp [Heap.setSize, Heap.setPtr, hinit.got_eq]
    . refine rep_cons.mpr ⟨Function.update_self _ _ _, Function.update_self _ _ _, trivial, ?_⟩
      simp
    . intro b hb hne
      exact absurd (congrArg Extent.start (List.mem_singleton.mp hb)) hne
    . exact List.mem_singleton_self base
    . simp [hinit.live_eq]
    . simp [hinit.live_eq]
    . intro x
      simp [Heap.setSize, Heap.setPtr, hinit.got_eq, hinit.live_eq, Extent.covers_mk]
  . rw [Heap.start, if_neg (hinv.list.freep_ne hinv.fresh.base_pos)]
    exact ⟨⟨ring, hinv⟩, rfl⟩

theorem Good.malloc {s : State} (hgood : s.Good base) {nbytes : Nat} (hbytes : nbytes ≤ 2 ^ 31 - 16)
    (hfuel : 2 * s.heap.brk + 1 ≤ fuel)
    : ∃ h p ring, s.heap.malloc base fuel nbytes = some (h, p) ∧ ((p = 0 ∧ Inv base h ring s.live)
        ∨ ∃ a n, p = a + 8 ∧ nbytes ≤ 8 * (n - 1) ∧ Inv base h ring (⟨a, n⟩ :: s.live)) := by
  rcases hgood.start with ⟨⟨ring, hinv⟩, hbrk⟩
  have hlen := hinv.length_le
  have hmod : (nbytes + 8 - 1) % 2 ^ 32 = nbytes + 7 := Nat.mod_eq_of_lt (by omega)
  rcases hinv.mallocLoop (n := (nbytes + 7) / 8 + 1) (Nat.succ_pos _) (by omega)
    (by omega : ring.length ≤ fuel) (by omega : 2 * ring.length + 1 ≤ fuel)
    with ⟨h, p, ring', hloop, hp | ⟨a, hp, hinv'⟩⟩
  . exact ⟨h, p, ring', by rw [Heap.malloc, hmod]; exact hloop, .inl hp⟩
  . exact ⟨h, p, ring', by rw [Heap.malloc, hmod]; exact hloop, .inr ⟨a, _, hp, by omega, hinv'⟩⟩

theorem Good.free {s : State} (hgood : s.Good base) (hb : b ∈ s.live) (hfuel : s.heap.brk ≤ fuel)
    : ∃ h ring, s.heap.free fuel (b.start + 8) = some h ∧ Inv base h ring (s.live.erase b) := by
  rcases hgood with hinit | ⟨ring, hinv⟩
  . rw [hinit.live_eq] at hb
    cases hb
  . have hlen := hinv.length_le
    rcases (hinv.perm (List.perm_cons_erase hb)).free (Nat.le_trans hlen hfuel)
      with ⟨h, ring', hfree, hinv', -⟩
    exact ⟨h, ring', hfree, hinv'⟩

theorem Good.write {s : State} {ptr size : Nat → Nat} (hgood : s.Good base)
    (hsame : ∀ a, (∀ b ∈ s.live, a ≤ b.start ∨ b.stop 8 ≤ a) → ptr a = s.heap.ptr a ∧ size a = s.heap.size a)
    : Good base { s with heap := { s.heap with ptr, size } } := by
  rcases hgood with hinit | ⟨ring, hinv⟩
  . exact .inl ⟨hinit.base_pos, hinit.base_lt, hinit.brk_le, hinit.freep_eq, hinit.got_eq,
      hinit.live_eq⟩
  . refine .inr ⟨ring, hinv.frame ?_ ?_ rfl rfl rfl⟩
    . intro c hc
      apply hsame
      intro b hb
      have := hinv.apart hc hb
      omega
    . intro c hc
      apply And.right
      apply hsame
      intro b hb
      exact hinv.live_apart hb hc

theorem Good.step {s s' : State} {op : Op} (hgood : s.Good base) (hstep : Steps base s op s')
    : s'.Good base := by
  cases hstep with
  | malloc hbytes hfuel heq =>
    rcases hgood.malloc (Nat.le_trans (Nat.le_of_lt hbytes) (by decide)) hfuel with ⟨h, p, ring, heq', hp⟩
    rw [heq'] at heq
    cases heq
    right
    rcases hp with ⟨rfl, hinv⟩ | ⟨a, n, rfl, -, hinv⟩
    . exact ⟨ring, hinv⟩
    . refine ⟨ring, ?_⟩
      have hsize := hinv.headers ⟨a, n⟩ List.mem_cons_self
      simp only [Nat.add_sub_cancel, if_neg (Nat.succ_ne_zero _ : a + 8 ≠ 0)] at hsize ⊢
      rw [hsize]
      exact hinv
  | free hb hfuel heq =>
    rcases hgood.free hb hfuel with ⟨h, ring, heq', hinv⟩
    rw [heq'] at heq
    cases heq
    exact .inr ⟨ring, hinv⟩
  | write hsame => exact hgood.write hsame

theorem Good.run {s₀ s : State} (hinit : s₀.Initial base) (h : Reach.Reachable s₀ (Steps base) s)
    : s.Good base := by
  exact h.induct (Good base) (.inl hinit) (fun _ _ _ _ hgood hstep => hgood.step hstep)

def Partitioned (s : State) (ring : List Extent) : Prop :=
  ∀ x, Extent.cover 8 ring x + Extent.cover 8 s.live x
    = if ∃ r ∈ s.heap.got, r.start ≤ x ∧ x < r.stop 1 then 1 else 0

structure Obtained (h : Heap) (ring live : List Extent) (nbytes p : Nat) : Prop where
  header_le : 8 ≤ p
  room : nbytes ≤ 8 * (h.size (p - 8) - 1)
  disjoint : ∀ c ∈ ring ++ live, Extent.Disjoint 8 ⟨p - 8, h.size (p - 8)⟩ c

end State

theorem Inv.partitioned {s : State} (hinv : Inv base s.heap ring s.live) : s.Partitioned ring := by
  intro x
  rw [hinv.cover x]
  have := hinv.fresh.once x
  split
  next hin =>
    rcases hin with ⟨r, hr, hx⟩
    have := Extent.covers_le_cover (w := 1) (x := x) hr
    rw [Extent.covers_of_mem hx] at this
    omega
  next hout =>
    apply Extent.cover_eq_zero
    intro r hr hx
    exact hout ⟨r, hr, hx⟩

theorem Inv.obtained {a nbytes : Nat} (hinv : Inv base h ring (⟨a, n⟩ :: live)) (hroom : nbytes ≤ 8 * (n - 1))
    : State.Obtained h ring live nbytes (a + 8) := by
  have hsize : h.size a = n := hinv.headers ⟨a, n⟩ List.mem_cons_self
  have hpos := hinv.live_pos ⟨a, n⟩ List.mem_cons_self
  refine ⟨Nat.le_add_left _ _, ?_, ?_⟩
  . rw [Nat.add_sub_cancel, hsize]
    exact hroom
  . rw [Nat.add_sub_cancel, hsize]
    intro c hc
    rcases List.mem_append.mp hc with hc | hc
    . rcases hinv.apart hc List.mem_cons_self with hd | hd
      . exact .inr hd.2
      . exact .inl hd
    . have hc' := List.mem_cons_of_mem ⟨a, n⟩ hc
      have hne := hinv.live_start_ne hc
      rcases hinv.live_apart List.mem_cons_self hc' with hd | hd
      . rcases hinv.live_apart hc' List.mem_cons_self with hd' | hd'
        . exact absurd (Nat.le_antisymm hd hd') hne
        . exact .inr hd'
      . exact .inl hd

namespace State

/--
After any calls of `malloc` and `free`, the free list is a circle of disjoint blocks with increasing
addresses that are not adjacent, the blocks divide up the memory, and the next call returns: `malloc`
with `0` or with a block that is large enough and nobody else's.
-/
theorem malloc_free_correct {s₀ s : State} (hinit : s₀.Initial base) (h : Reach.Reachable s₀ (Steps base) s)
    : ((s.heap.freep = 0 ∧ s.heap.got = [] ∧ s.live = []) ∨ ∃ ring, FreeList base s.heap ring ∧ s.Partitioned ring)
      ∧ (∀ nbytes fuel, nbytes < 2 ^ 31 - 4096 → 2 * s.heap.brk + 1 ≤ fuel
        → ∃ h p, s.heap.malloc base fuel nbytes = some (h, p)
          ∧ (p = 0 ∨ ∃ ring, FreeList base h ring ∧ Obtained h ring s.live nbytes p))
      ∧ ∀ b ∈ s.live, ∀ fuel, s.heap.brk ≤ fuel → ∃ h, s.heap.free fuel (b.start + 8) = some h := by
  have hgood := Good.run hinit h
  refine ⟨?_, ?_, ?_⟩
  . rcases hgood with hinit | ⟨ring, hinv⟩
    . exact .inl ⟨hinit.freep_eq, hinit.got_eq, hinit.live_eq⟩
    . exact .inr ⟨ring, hinv.list, hinv.partitioned⟩
  . intro nbytes fuel hbytes hfuel
    rcases hgood.malloc (Nat.le_trans (Nat.le_of_lt hbytes) (by decide)) hfuel
      with ⟨h, p, ring, heq, ⟨hp, -⟩ | ⟨a, n, rfl, hroom, hinv⟩⟩
    . exact ⟨h, p, heq, .inl hp⟩
    . exact ⟨h, a + 8, heq, .inr ⟨ring, hinv.list, hinv.obtained hroom⟩⟩
  . intro b hb fuel hfuel
    rcases hgood.free hb hfuel with ⟨h, ring, heq, -⟩
    exact ⟨h, heq⟩

def step (base : Nat) (s : State) (op : Op) : Option State :=
  match op with
  | .malloc nbytes =>
    if nbytes < 2 ^ 31 - 4096 then
      (s.heap.malloc base (2 * s.heap.brk + 1) nbytes).map fun r =>
        { heap := r.1, live := if r.2 = 0 then s.live else ⟨r.2 - 8, r.1.size (r.2 - 8)⟩ :: s.live }
    else
      none
  | .free ap =>
    (s.live.find? fun b => b.start + 8 == ap).bind fun b =>
      (s.heap.free s.heap.brk ap).map fun h => { heap := h, live := s.live.erase b }
  | .write => some s

theorem steps_of_step {s s' : State} {op : Op} (h : s.step base op = some s') : Steps base s op s' := by
  cases op with
  | malloc nbytes =>
    unfold step at h
    simp only at h
    split at h
    next hbytes =>
      rcases Option.map_eq_some_iff.mp h with ⟨r, hr, rfl⟩
      exact .malloc hbytes (Nat.le_refl _) hr
    next => cases h
  | free ap =>
    rcases Option.bind_eq_some_iff.mp h with ⟨b, hb, h⟩
    rcases Option.map_eq_some_iff.mp h with ⟨h', hh', rfl⟩
    have hap : b.start + 8 = ap := by
      have := List.find?_some hb
      exact eq_of_beq this
    subst hap
    exact .free (List.mem_of_find?_eq_some hb) (Nat.le_refl _) hh'
  | write =>
    cases h
    exact .write (fun _ _ => ⟨rfl, rfl⟩)

def fresh : State where
  heap :=
    { ptr := fun _ => 0, size := fun _ => 0, freep := 0, brk := 64, plan := [some 0, some 16, none]
      got := [] }
  live := []

theorem malloc_free_correct_of_three
    : ∃ s, Reach.Reachable fresh (Steps 16) s ∧ s.live = [⟨32800, 4⟩, ⟨32688, 14⟩]
      ∧ ∃ ring, FreeList 16 s.heap ring ∧ s.Partitioned ring := by
  have hinit : fresh.Initial 16 := by
    constructor <;> decide
  have hrun : ∃ s, Reach.Reachable fresh (Steps 16) s
      ∧ decide (s.live = [⟨32800, 4⟩, ⟨32688, 14⟩]) = true := by
    apply Reach.exists_of_exec (f := step 16) (fun _ _ _ => steps_of_step)
      [.malloc 20, .malloc 100, .free 32808, .malloc 24]
    decide +kernel
  rcases hrun with ⟨s, hreach, hs⟩
  have hlive := of_decide_eq_true hs
  rcases (malloc_free_correct hinit hreach).1 with hnone | hring
  . rw [hlive] at hnone
    cases hnone.2.2
  . exact ⟨s, hreach, hlive, hring⟩

end State

end Umalloc
end Xv6
