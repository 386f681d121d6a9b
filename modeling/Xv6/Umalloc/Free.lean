import Mathlib.Data.List.Perm.Subperm
import Xv6.Umalloc.Lemmas

namespace Xv6
namespace Umalloc

open Circle

structure Fresh (base : Nat) (h : Heap) : Prop where
  base_pos : 0 < base
  base_lt : base + 8 ≤ h.brk
  brk_le : h.brk ≤ 2 ^ 31
  bounds : ∀ r ∈ h.got, base + 8 ≤ r.start ∧ r.stop 1 ≤ h.brk
  once : ∀ x, Extent.cover 1 h.got x ≤ 1

structure FreeList (base : Nat) (h : Heap) (ring : List Extent) : Prop where
  head : ring.head? = some ⟨base, 0⟩
  rep : Rep h ring base
  sep : ring.Pairwise Before
  pos : ∀ b ∈ ring, b.start ≠ base → 0 < b.len
  entry : h.freep ∈ ring.map Extent.start

structure Inv (base : Nat) (h : Heap) (ring live : List Extent) : Prop where
  fresh : Fresh base h
  list : FreeList base h ring
  headers : ∀ b ∈ live, h.size b.start = b.len
  live_pos : ∀ b ∈ live, 0 < b.len
  cover : ∀ x, Extent.cover 8 ring x + Extent.cover 8 live x = Extent.cover 1 h.got x

variable {h h' : Heap} {ring live live' : List Extent} {b c : Extent} {base fuel : Nat}

theorem Inv.perm (hinv : Inv base h ring live) (hperm : live.Perm live') : Inv base h ring live' where
  fresh := hinv.fresh
  list := hinv.list
  headers b hb := hinv.headers b (hperm.mem_iff.mpr hb)
  live_pos b hb := hinv.live_pos b (hperm.mem_iff.mpr hb)
  cover x := by
    rw [← Extent.cover_perm hperm]
    exact hinv.cover x

theorem FreeList.exists_cons (hlist : FreeList base h ring) : ∃ l, ring = ⟨base, 0⟩ :: l := by
  have := hlist.head
  cases ring with
  | nil => cases this
  | cons b l =>
    injection this with hb
    exact ⟨l, by rw [hb]⟩

theorem lt_stop (h : 0 < b.len) : b.start < b.stop 8 := by
  rw [Extent.stop]
  omega

section
variable (hinv : Inv base h ring live)
include hinv

theorem Inv.in_bounds {x : Nat}
    (hx : 0 < Extent.cover 8 ring x + Extent.cover 8 live x)
    : base + 8 ≤ x ∧ x < h.brk := by
  rw [hinv.cover] at hx
  rcases Extent.exists_of_cover hx with ⟨r, hr, hle, hlt⟩
  have := hinv.fresh.bounds r hr
  omega

theorem Inv.live_bounds (hb : b ∈ live)
    : base + 8 ≤ b.start ∧ b.stop 8 ≤ h.brk := by
  have hlt := lt_stop (hinv.live_pos b hb)
  have hin : ∀ x, b.start ≤ x ∧ x < b.stop 8 → base + 8 ≤ x ∧ x < h.brk := by
    intro x hx
    apply hinv.in_bounds
    have := Extent.covers_le_cover (w := 8) (x := x) hb
    rw [Extent.covers_of_mem hx] at this
    omega
  have hfirst := hin b.start (by omega)
  have hlast := hin (b.stop 8 - 1) (by omega)
  omega

theorem Inv.ring_bounds (hb : b ∈ ring) (hne : b.start ≠ base)
    : base + 8 ≤ b.start ∧ b.start < h.brk := by
  apply hinv.in_bounds
  have := Extent.covers_le_cover (w := 8) (x := b.start) hb
  have hlt := lt_stop (hinv.list.pos b hb hne)
  rw [Extent.covers_of_mem (by omega)] at this
  omega

theorem Inv.disjoint (hb : b ∈ ring) (hne : b.start ≠ base) (hc : c ∈ live)
    : Extent.Disjoint 8 b c := by
  apply Extent.disjoint_of_covers (lt_stop (hinv.list.pos b hb hne)) (lt_stop (hinv.live_pos c hc))
  intro x
  have hle := Extent.covers_le_cover (w := 8) (x := x) hb
  have hle' := Extent.covers_le_cover (w := 8) (x := x) hc
  have := hinv.cover x
  have := hinv.fresh.once x
  omega

end

theorem FreeList.len_of_base (hlist : FreeList base h ring) (hb : b ∈ ring) (heq : b.start = base)
    : b.len = 0 := by
  rcases hlist.exists_cons with ⟨l, rfl⟩
  rcases List.mem_cons.mp hb with rfl | hb
  . rfl
  . have := (List.pairwise_cons.mp hlist.sep).1 b hb
    simp only [Before, Extent.stop] at this
    omega

theorem Inv.apart (hinv : Inv base h ring live) (hb : b ∈ ring) (hc : c ∈ live)
    : (b.start < c.start ∧ b.stop 8 ≤ c.start) ∨ c.stop 8 ≤ b.start := by
  have hbounds := hinv.live_bounds hc
  by_cases hne : b.start = base
  . have := hinv.list.len_of_base hb hne
    rw [Extent.stop, this]
    omega
  have := lt_stop (hinv.list.pos b hb hne)
  rcases hinv.disjoint hb hne hc with hd | hd
  . omega
  . exact .inr hd

theorem FreeList.nodup (hlist : FreeList base h ring) : (ring.map Extent.start).Nodup := by
  rw [List.Nodup, List.pairwise_map]
  apply hlist.sep.imp
  intro b c hbc
  rw [Before, Extent.stop] at hbc
  omega

theorem Inv.length_le (hinv : Inv base h ring live) : ring.length ≤ h.brk := by
  have hsub : ring.map Extent.start ⊆ List.range h.brk := by
    intro a ha
    rcases List.mem_map.mp ha with ⟨b, hb, rfl⟩
    rw [List.mem_range]
    by_cases hne : b.start = base
    . have := hinv.fresh.base_lt
      omega
    . exact (hinv.ring_bounds hb hne).2
  have := (hinv.list.nodup.subperm hsub).length_le
  rw [List.length_map, List.length_range] at this
  exact this

theorem exists_split (hsep : ring.Pairwise Before) {a : Nat}
    : ∃ l₁ l₂, ring = l₁ ++ l₂ ∧ (∀ b ∈ l₁, b.start ≤ a) ∧ ∀ b ∈ l₂, a < b.start := by
  induction ring with
  | nil => exact ⟨[], [], rfl, by simp, by simp⟩
  | cons c ring ih =>
    rw [List.pairwise_cons] at hsep
    by_cases hc : c.start ≤ a
    . rcases ih hsep.2 with ⟨l₁, l₂, rfl, hl₁, hl₂⟩
      refine ⟨c :: l₁, l₂, rfl, ?_, hl₂⟩
      intro b hb
      rcases List.mem_cons.mp hb with rfl | hb
      . exact hc
      . exact hl₁ b hb
    . refine ⟨[], c :: ring, rfl, by simp, ?_⟩
      intro b hb
      rcases List.mem_cons.mp hb with rfl | hb
      . omega
      . have := hsep.1 b hb
        rw [Before, Extent.stop] at this
        omega

structure Place (ring l₁ : List Extent) (p : Extent) (l₂ : List Extent) (b : Extent) : Prop where
  ring_eq : ring = l₁ ++ [p] ++ l₂
  lt : p.start < b.start
  stop_le : p.stop 8 ≤ b.start
  above : ∀ c ∈ l₂, b.stop 8 ≤ c.start

theorem Inv.exists_place (hinv : Inv base h ring live) (hb : b ∈ live)
    : ∃ l₁ p l₂, Place ring l₁ p l₂ b := by
  rcases exists_split hinv.list.sep (a := b.start) with ⟨l, l₂, heq, hle, hlt⟩
  have hbase := (hinv.live_bounds hb).1
  have hpos := lt_stop (hinv.live_pos b hb)
  rcases List.eq_nil_or_concat l with rfl | ⟨l₁, p, rfl⟩
  . rcases hinv.list.exists_cons with ⟨l', hl'⟩
    have := hlt ⟨base, 0⟩ (by
      rw [heq, List.nil_append] at hl'
      rw [hl']
      exact List.mem_cons_self)
    simp only at this
    omega
  . rw [List.concat_eq_append] at heq hle
    have hp : p.start < b.start ∧ p.stop 8 ≤ b.start := by
      have := hle p (by simp)
      rcases hinv.apart (b := p) (by simp [heq]) hb with hd | hd
      . exact hd
      . omega
    refine ⟨l₁, p, l₂, heq, hp.1, hp.2, ?_⟩
    intro c hc
    have := hlt c hc
    rcases hinv.apart (b := c) (by simp [heq, hc]) hb with hd | hd
    . omega
    . exact hd

section
variable {l l₁ l₂ : List Extent} {p : Extent}

section
variable (hplace : Place ring l₁ p l₂ b)
include hplace

theorem Place.mem : p ∈ ring := by
  simp [hplace.ring_eq]

theorem Place.below (hsep : ring.Pairwise Before)
    : ∀ c ∈ l₁, c.start < p.start := by
  rw [hplace.ring_eq] at hsep
  intro c hc
  have := (List.pairwise_append.mp (List.pairwise_append.mp hsep).1).2.2 c hc p (by simp)
  rw [Before, Extent.stop] at this
  omega

theorem Place.gap (hsep : ring.Pairwise Before) (hpos : 0 < b.len)
    : ∀ c ∈ ring, c.start ≤ p.start ∨ b.start < c.start := by
  intro c hc
  simp only [hplace.ring_eq, List.mem_append, List.mem_singleton] at hc
  rcases hc with (hc | rfl) | hc
  . exact .inl (Nat.le_of_lt (hplace.below hsep c hc))
  . exact .inl (Nat.le_refl _)
  . exact .inr (Nat.lt_of_lt_of_le (lt_stop hpos) (hplace.above c hc))

end

end

section
variable (hlist : FreeList base h ring)
include hlist

theorem FreeList.next (hb : b ∈ ring)
    : (b.start < h.ptr b.start ∧ ∀ c ∈ ring, c.start ≤ b.start ∨ h.ptr b.start ≤ c.start)
      ∨ (h.ptr b.start = base ∧ ∀ c ∈ ring, c.start ≤ b.start) := by
  rcases List.append_of_mem hb with ⟨l₁, l₂, rfl⟩
  have hnext := (rep_cons.mp (rep_append.mp hlist.rep).2).1
  have hsep := List.pairwise_append.mp hlist.sep
  have hbelow : ∀ c ∈ l₁, c.start ≤ b.start := by
    intro c hc
    have := hsep.2.2 c hc b List.mem_cons_self
    rw [Before, Extent.stop] at this
    omega
  cases l₂ with
  | nil =>
    refine .inr ⟨hnext, ?_⟩
    intro c hc
    rcases List.mem_append.mp hc with hc | hc
    . exact hbelow c hc
    . exact Nat.le_of_eq (congrArg Extent.start (List.mem_singleton.mp hc))
  | cons d l₂ =>
    rw [List.map_cons, List.headD_cons] at hnext
    have hbd := (List.pairwise_cons.mp hsep.2.1).1 d List.mem_cons_self
    have hd := (List.pairwise_cons.mp (List.pairwise_cons.mp hsep.2.1).2).1
    rw [Before, Extent.stop] at hbd
    refine .inl ⟨by omega, ?_⟩
    intro c hc
    simp only [List.mem_append, List.mem_cons] at hc
    rcases hc with hc | rfl | rfl | hc
    . exact .inl (hbelow c hc)
    . exact .inl (Nat.le_refl _)
    . exact .inr (Nat.le_of_eq hnext)
    . have := hd c hc
      rw [Before, Extent.stop] at this
      omega

theorem FreeList.circle
    : ∃ l, ring.map Extent.start = base :: l ∧ Path h.ptr (base :: l) base := by
  rcases hlist.exists_cons with ⟨l, rfl⟩
  exact ⟨l.map Extent.start, rfl, hlist.rep.path⟩

theorem FreeList.ptr_mem (hb : b ∈ ring)
    : ∃ c ∈ ring, c.start = h.ptr b.start := by
  rcases hlist.circle with ⟨l, heq, hpath⟩
  have := hpath.next_mem (heq ▸ List.mem_map_of_mem hb)
  rw [← heq] at this
  exact List.mem_map.mp this

theorem FreeList.base_le (hb : b ∈ ring) : base ≤ b.start := by
  rcases hlist.exists_cons with ⟨l, rfl⟩
  rcases List.mem_cons.mp hb with rfl | hb
  . exact Nat.le_refl _
  . have := (List.pairwise_cons.mp hlist.sep).1 b hb
    simp only [Before, Extent.stop] at this
    omega

theorem FreeList.stops_iff {a : Nat} {p : Extent} (hp : p ∈ ring)
    (hlt : p.start < a) (hplace : ∀ c ∈ ring, c.start ≤ p.start ∨ a < c.start) (hb : b ∈ ring)
    : h.stops a b.start = true ↔ b.start = p.start := by
  rcases hlist.ptr_mem hb with ⟨c, hc, hptr⟩
  have hcp := hplace c hc
  have hbp := hplace b hb
  have hbase := hlist.base_le hb
  have hbase' := hlist.base_le hp
  simp only [Heap.stops, Bool.or_eq_true, Bool.and_eq_true, decide_eq_true_eq]
  rcases hlist.next hb with ⟨hnext, hgap⟩ | ⟨hnext, hgap⟩
  . have := hgap p hp
    omega
  . have := hgap p hp
    omega

theorem FreeList.find_eq {a : Nat} {p : Extent} (hp : p ∈ ring)
    (hlt : p.start < a) (hplace : ∀ c ∈ ring, c.start ≤ p.start ∨ a < c.start) (hfuel : ring.length ≤ fuel)
    : find h.ptr (h.stops a) fuel h.freep = some p.start := by
  rcases hlist.circle with ⟨l, heq, hpath⟩
  apply hpath.find_circle
  . rw [← heq]
    exact hlist.entry
  . rw [← heq]
    exact List.mem_map_of_mem hp
  . intro x hx
    rw [← heq] at hx
    rcases List.mem_map.mp hx with ⟨b, hb, rfl⟩
    exact hlist.stops_iff hp hlt hplace hb
  . rw [← heq, List.length_map]
    exact hfuel

end

theorem join_got (bp p : Nat)
    : ((h.joinUpper bp p).joinLower bp p).got = h.got ∧ ((h.joinUpper bp p).joinLower bp p).brk = h.brk := by
  unfold Heap.joinLower Heap.joinUpper
  constructor <;> split <;> split <;> rfl

theorem Fresh.congr (hfresh : Fresh base h) (hgot : h'.got = h.got) (hbrk : h'.brk = h.brk)
    : Fresh base h' where
  base_pos := hfresh.base_pos
  base_lt := hbrk ▸ hfresh.base_lt
  brk_le := hbrk ▸ hfresh.brk_le
  bounds := hgot ▸ hbrk ▸ hfresh.bounds
  once := hgot ▸ hfresh.once

def insertBehind (l₁ : List Extent) (p b : Extent) (l : List Extent) : List Extent :=
  l₁ ++ (if p.stop 8 = b.start then [⟨p.start, p.len + b.len⟩] else [p, b]) ++ l

theorem insertBehind_cover {l₁ l : List Extent} {p b : Extent} {x : Nat}
    : Extent.cover 8 (insertBehind l₁ p b l) x = Extent.cover 8 (l₁ ++ [p]) x + Extent.cover 8 (b :: l) x := by
  rcases p with ⟨a, k⟩
  unfold insertBehind
  split
  next hadj =>
    have : b = ⟨a + 8 * k, b.len⟩ := congrArg (Extent.mk · b.len) hadj.symm
    simp only [Extent.cover_append, Extent.cover_cons, Extent.cover_nil, Extent.covers_add, ← this]
    omega
  next hadj =>
    simp only [Extent.cover_append, Extent.cover_cons, Extent.cover_nil]
    omega

theorem insertBehind_sep {l₁ l l₂ : List Extent} {p b : Extent}
    (hsep : (l₁ ++ [p] ++ l₂).Pairwise Before) (hsub : l <:+ l₂) (hp : p.start < b.start)
    (hstop : p.stop 8 ≤ b.start) (habove : ∀ c ∈ l, b.stop 8 < c.start)
    : (insertBehind l₁ p b l).Pairwise Before := by
  simp only [List.pairwise_append, List.mem_append, List.mem_singleton] at hsep
  rcases hsep with ⟨⟨hl₁, -, hl₁p⟩, hl₂, hcross⟩
  have hl := hl₂.sublist hsub.sublist
  -- a block below `p` is below all others
  have hbelow : ∀ c ∈ l₁, c.stop 8 < p.start := fun c hc => hl₁p c hc p rfl
  have hbelow' : ∀ c ∈ l₁, ∀ d ∈ l, Before c d := fun c hc d hd => hcross c (.inl hc) d (hsub.mem hd)
  unfold insertBehind
  rw [List.pairwise_append, List.pairwise_append]
  split
  next hadj =>
    refine ⟨⟨hl₁, List.pairwise_singleton _ _, ?_⟩, hl, ?_⟩
    . intro c hc d hd
      rw [List.mem_singleton.mp hd]
      exact hbelow c hc
    . intro c hc d hd
      rcases List.mem_append.mp hc with hc | hc
      . exact hbelow' c hc d hd
      . have := habove d hd
        rw [List.mem_singleton.mp hc]
        simp only [Before, Extent.stop] at this hadj ⊢
        omega
  next hadj =>
    refine ⟨⟨hl₁, List.pairwise_pair.mpr (Nat.lt_of_le_of_ne hstop hadj), ?_⟩, hl, ?_⟩
    . intro c hc d hd
      have := hbelow c hc
      rcases List.mem_pair.mp hd with rfl | rfl
      . exact this
      . exact Nat.lt_trans this hp
    . intro c hc d hd
      rcases List.mem_append.mp hc with hc | hc
      . exact hbelow' c hc d hd
      . rcases List.mem_pair.mp hc with rfl | rfl
        . exact hcross c (.inr rfl) d (hsub.mem hd)
        . exact habove d hd

theorem mem_insertBehind {l₁ l : List Extent} {p b c : Extent} (hc : c ∈ insertBehind l₁ p b l)
    : c ∈ l₁ ∨ c.start = p.start ∧ p.len ≤ c.len ∨ c = b ∨ c ∈ l := by
  unfold insertBehind at hc
  split at hc
  next hadj =>
    simp only [List.mem_append, List.mem_singleton] at hc
    rcases hc with (hc | rfl) | hc
    . exact .inl hc
    . exact .inr (.inl ⟨rfl, Nat.le_add_right _ _⟩)
    . exact .inr (.inr (.inr hc))
  next hadj =>
    simp only [List.mem_append, List.mem_cons, List.not_mem_nil, or_false] at hc
    rcases hc with (hc | rfl | rfl) | hc
    . exact .inl hc
    . exact .inr (.inl ⟨rfl, Nat.le_refl _⟩)
    . exact .inr (.inr (.inl rfl))
    . exact .inr (.inr (.inr hc))

theorem exists_le_insertBehind (l₁ l : List Extent) (p b : Extent)
    : ∃ c ∈ insertBehind l₁ p b l, b.len ≤ c.len := by
  unfold insertBehind
  split
  next => exact ⟨⟨p.start, p.len + b.len⟩, by simp, Nat.le_add_left _ _⟩
  next => exact ⟨b, by simp, Nat.le_refl _⟩

theorem insertBehind_length {l₁ l l₂ : List Extent} {p b : Extent} (hsub : l <:+ l₂)
    : (insertBehind l₁ p b l).length ≤ (l₁ ++ [p] ++ l₂).length + 1 := by
  have := hsub.length_le
  unfold insertBehind
  split <;> simp only [List.length_append, List.length_cons, List.length_nil] <;> omega

theorem insertBehind_head {l₁ l l₂ : List Extent} {p b : Extent}
    (hhead : (l₁ ++ [p] ++ l₂).head? = some ⟨base, 0⟩) (hb : base < b.start)
    : (insertBehind l₁ p b l).head? = some ⟨base, 0⟩ := by
  cases l₁ with
  | nil =>
    -- `p` is `base`, which is not joined to anything
    injection hhead with hp
    subst hp
    have hne : Extent.stop 8 ⟨base, 0⟩ ≠ b.start := by
      simp only [Extent.stop]
      omega
    rw [insertBehind, if_neg hne]
    rfl
  | cons c l₁ => exact hhead

theorem mem_starts_insertBehind {l₁ l : List Extent} {p b : Extent}
    : p.start ∈ (insertBehind l₁ p b l).map Extent.start := by
  unfold insertBehind
  split <;> simp

theorem FreeList.free {l₁ l₂ : List Extent} {p : Extent} (hlist : FreeList base h ring)
    (hplace : Place ring l₁ p l₂ b) (hbase : base < b.start) (hsize : h.size b.start = b.len) (hpos : 0 < b.len)
    : ∃ m l, b.len ≤ m ∧ l <:+ l₂ ∧ FreeList base
          { (h.joinUpper b.start p.start).joinLower b.start p.start with freep := p.start }
          (insertBehind l₁ p ⟨b.start, m⟩ l)
      ∧ ∀ x, Extent.cover 8 (⟨b.start, m⟩ :: l) x = Extent.cover 8 (b :: l₂) x := by
  have hsep := hplace.ring_eq ▸ hlist.sep
  have hbelow := hplace.below hlist.sep
  -- the chain is cut behind `p`
  have hrep := hplace.ring_eq ▸ hlist.rep
  rw [rep_append] at hrep
  have hptr : h.ptr p.start = (l₂.map Extent.start).headD base := by
    have := hrep.1.path
    rw [List.map_append] at this
    exact this.last_eq
  rcases joinUpper_rep hrep.2 hptr hsize hpos hbase hplace.above (List.pairwise_append.mp hsep).2.1
    with ⟨m, l, hm, hupper, hsub, habove, hcover⟩
  have hlower : Rep (h.joinUpper b.start p.start) (l₁ ++ [p]) ((l₂.map Extent.start).headD base) := by
    apply hrep.1.frame (joinUpper_sameBut h b.start p.start)
    intro c hc
    have := hplace.lt
    rcases List.mem_append.mp hc with hc | hc
    . have := hbelow c hc
      omega
    . rw [List.mem_singleton.mp hc]
      omega
  have hjoined := joinLower_rep hlower hupper (fun c hc => Nat.ne_of_lt (hbelow c hc)) hplace.lt (by
    intro c hc
    have := habove c hc
    have := hplace.lt
    omega)
  refine ⟨m, l, hm, hsub, ⟨?_, ⟨hjoined.path, hjoined.size_eq⟩, ?_, ?_, ?_⟩, hcover⟩
  . exact insertBehind_head (hplace.ring_eq ▸ hlist.head) hbase
  . exact insertBehind_sep hsep hsub hplace.lt hplace.stop_le habove
  . intro c hc hne
    rcases mem_insertBehind hc with hc | ⟨hc, hlen⟩ | rfl | hc
    . exact hlist.pos c (by simp [hplace.ring_eq, hc]) hne
    . have := hlist.pos p hplace.mem (hc ▸ hne)
      omega
    . exact Nat.lt_of_lt_of_le hpos hm
    . exact hlist.pos c (by simp [hplace.ring_eq, hsub.mem hc]) hne
  . exact mem_starts_insertBehind

theorem Inv.live_start_ne (hinv : Inv base h ring (b :: live)) (hc : c ∈ live)
    : c.start ≠ b.start := by
  intro heq
  have hb := lt_stop (hinv.live_pos b List.mem_cons_self)
  have hc' := lt_stop (hinv.live_pos c (List.mem_cons_of_mem b hc))
  -- the first byte of both would be covered twice
  have hall := hinv.cover b.start
  have hle := Extent.covers_le_cover (w := 8) (x := b.start) hc
  have := hinv.fresh.once b.start
  rw [Extent.covers_of_mem (by omega)] at hle
  rw [Extent.cover_cons, Extent.covers_of_mem (by omega)] at hall
  omega

theorem Inv.free (hinv : Inv base h ring (b :: live)) (hfuel : ring.length ≤ fuel)
    : ∃ h' ring', h.free fuel (b.start + 8) = some h' ∧ Inv base h' ring' live ∧ h'.brk = h.brk
      ∧ ring'.length ≤ ring.length + 1 ∧ ∃ c ∈ ring', b.len ≤ c.len := by
  have hb := List.mem_cons_self (a := b) (l := live)
  have hpos := hinv.live_pos b hb
  rcases hinv.exists_place hb with ⟨l₁, p, l₂, hplace⟩
  have hfind := hinv.list.find_eq hplace.mem hplace.lt (hplace.gap hinv.list.sep hpos) hfuel
  have hbase := (hinv.live_bounds hb).1
  rcases hinv.list.free hplace (by omega) (hinv.headers b hb) hpos
    with ⟨m, l, hm, hsub, hlist, hcover⟩
  have hgot := join_got (h := h) b.start p.start
  refine ⟨{ (h.joinUpper b.start p.start).joinLower b.start p.start with freep := p.start }, _, ?_,
    ⟨hinv.fresh.congr hgot.1 hgot.2, hlist, ?_, ?_, ?_⟩, hgot.2, ?_, ?_⟩
  . simp only [Heap.free, Nat.add_sub_cancel, hfind, Option.bind_eq_bind, Option.bind_some]
    rfl
  . intro c hc
    have hp : c.start ≠ p.start := by
      have := hinv.apart hplace.mem (List.mem_cons_of_mem b hc)
      have := lt_stop (hinv.live_pos c (List.mem_cons_of_mem b hc))
      omega
    have hupper := (joinUpper_sameBut h b.start p.start _ (hinv.live_start_ne hc)).2
    have hlower := (joinLower_sameBut (h.joinUpper b.start p.start) b.start p.start _ hp).2
    exact (hlower.trans hupper).trans (hinv.headers c (List.mem_cons_of_mem b hc))
  . intro c hc
    exact hinv.live_pos c (List.mem_cons_of_mem b hc)
  . intro x
    have hall := hinv.cover x
    have hx := hcover x
    rw [hplace.ring_eq] at hall
    simp only [insertBehind_cover, hgot.1, Extent.cover_append, Extent.cover_cons] at hall hx ⊢
    omega
  . rw [hplace.ring_eq]
    exact insertBehind_length hsub
  . rcases exists_le_insertBehind l₁ l p ⟨b.start, m⟩ with ⟨c, hc, hle⟩
    exact ⟨c, hc, Nat.le_trans hm hle⟩

end Umalloc
end Xv6
