import Xv6.Umalloc.Impl

namespace Xv6
namespace Umalloc

open Circle

variable {h h' : Heap} {l l₁ l₂ ring : List Extent} {b c : Extent} {e base p bp k m : Nat}

structure Rep (h : Heap) (l : List Extent) (e : Nat) : Prop where
  path : Path h.ptr (l.map Extent.start) e
  size_eq : ∀ b ∈ l, h.size b.start = b.len

def Before (b c : Extent) : Prop :=
  b.stop 8 < c.start

theorem rep_append
    : Rep h (l₁ ++ l₂) e ↔ Rep h l₁ ((l₂.map Extent.start).headD e) ∧ Rep h l₂ e := by
  constructor
  . rintro ⟨hpath, hsize⟩
    rw [List.map_append, path_append] at hpath
    exact ⟨⟨hpath.1, fun b hb => hsize b (List.mem_append_left l₂ hb)⟩,
      ⟨hpath.2, fun b hb => hsize b (List.mem_append_right l₁ hb)⟩⟩
  . rintro ⟨hl, hr⟩
    constructor
    . rw [List.map_append, path_append]
      exact ⟨hl.path, hr.path⟩
    . intro b hb
      exact (List.mem_append.mp hb).elim (hl.size_eq b) (hr.size_eq b)

theorem rep_cons
    : Rep h (b :: l) e ↔ h.ptr b.start = (l.map Extent.start).headD e ∧ h.size b.start = b.len ∧ Rep h l e := by
  constructor
  . rintro ⟨hpath, hsize⟩
    exact ⟨hpath.1, hsize b List.mem_cons_self,
      ⟨hpath.2, fun c hc => hsize c (List.mem_cons_of_mem b hc)⟩⟩
  . rintro ⟨hptr, hb, hl⟩
    constructor
    . exact ⟨hptr, hl.path⟩
    . intro c hc
      rcases List.mem_cons.mp hc with rfl | hc
      . exact hb
      . exact hl.size_eq c hc

theorem Rep.congr (hrep : Rep h l e) (hptr : ∀ b ∈ l, h'.ptr b.start = h.ptr b.start)
    (hsize : ∀ b ∈ l, h'.size b.start = h.size b.start)
    : Rep h' l e := by
  constructor
  . apply hrep.path.congr
    intro a ha
    rcases List.mem_map.mp ha with ⟨b, hb, rfl⟩
    exact hptr b hb
  . intro b hb
    rw [hsize b hb]
    exact hrep.size_eq b hb

def SameBut (p : Nat) (h h' : Heap) : Prop :=
  ∀ a, a ≠ p → h'.ptr a = h.ptr a ∧ h'.size a = h.size a

theorem Rep.frame (hrep : Rep h l e) (hsame : SameBut p h h') (hp : ∀ b ∈ l, b.start ≠ p)
    : Rep h' l e := by
  exact hrep.congr (fun b hb => (hsame _ (hp b hb)).1) (fun b hb => (hsame _ (hp b hb)).2)

theorem Rep.set_last {e' : Nat} (hrep : Rep h (l ++ [⟨p, k⟩]) e) (hsame : SameBut p h h')
    (hp : ∀ b ∈ l, b.start ≠ p) (hptr : h'.ptr p = e') (hsize : h'.size p = m)
    : Rep h' (l ++ [⟨p, m⟩]) e' := by
  rw [rep_append] at hrep ⊢
  constructor
  . exact hrep.1.frame hsame hp
  . exact rep_cons.mpr ⟨hptr, hsize, ⟨trivial, by simp⟩⟩

theorem joinUpper_sameBut (h : Heap) (bp p : Nat) : SameBut bp h (h.joinUpper bp p) := by
  intro a ha
  unfold Heap.joinUpper
  split
  . exact ⟨Function.update_of_ne ha _ _, Function.update_of_ne ha _ _⟩
  . exact ⟨Function.update_of_ne ha _ _, rfl⟩

theorem joinLower_sameBut (h : Heap) (bp p : Nat) : SameBut p h (h.joinLower bp p) := by
  intro a ha
  unfold Heap.joinLower
  split
  . exact ⟨Function.update_of_ne ha _ _, Function.update_of_ne ha _ _⟩
  . exact ⟨Function.update_of_ne ha _ _, rfl⟩

theorem ne_of_before {a : Nat} (hlt : ∀ c ∈ l, a < c.start) : ∀ c ∈ l, c.start ≠ a := by
  intro c hc heq
  have := hlt c hc
  omega

theorem joinUpper_rep (hrep : Rep h l base) (hptr : h.ptr p = (l.map Extent.start).headD base)
    (hbp : h.size bp = m) (hm : 0 < m) (hbase : base < bp) (habove : ∀ c ∈ l, bp + 8 * m ≤ c.start)
    (hsep : l.Pairwise Before)
    : ∃ m' l', m ≤ m' ∧ Rep (h.joinUpper bp p) (⟨bp, m'⟩ :: l') base ∧ l' <:+ l ∧ (∀ c ∈ l', bp + 8 * m' < c.start)
      ∧ ∀ x, Extent.cover 8 (⟨bp, m'⟩ :: l') x = Extent.cover 8 (⟨bp, m⟩ :: l) x := by
  have hlt : ∀ c ∈ l, bp < c.start := by
    intro c hc
    have := habove c hc
    omega
  have hframe := hrep.frame (joinUpper_sameBut h bp p) (ne_of_before hlt)
  by_cases hadj : bp + 8 * m = h.ptr p
  . cases l with
    | nil =>
      -- the pointer leads back to `base`, which is below
      rw [List.map_nil, List.headD_nil] at hptr
      omega
    | cons c l =>
      rw [List.map_cons, List.headD_cons] at hptr
      have hc := rep_cons.mp hrep
      have hne : h.ptr p ≠ bp := by
        omega
      have hjoin : h.joinUpper bp p
          = (h.setSize bp (m + c.len)).setPtr bp ((l.map Extent.start).headD base) := by
        rw [Heap.joinUpper, if_pos (by rw [hbp]; exact hadj)]
        simp only [Heap.setSize, hbp, hptr, hc.1, hc.2.1]
      refine ⟨m + c.len, l, Nat.le_add_right m c.len, ?_, List.suffix_cons c l, ?_, ?_⟩
      . refine rep_cons.mpr ⟨?_, ?_, (rep_cons.mp hframe).2.2⟩
        . rw [hjoin]
          exact Function.update_self _ _ _
        . rw [hjoin]
          exact Function.update_self _ _ _
      . intro d hd
        have := (List.pairwise_cons.mp hsep).1 d hd
        rw [Before, Extent.stop] at this
        omega
      . intro x
        have hstart : c = ⟨bp + 8 * m, c.len⟩ := by
          rw [hadj, hptr]
        rw [Extent.cover_cons, Extent.cover_cons, Extent.cover_cons, Extent.covers_add, ← hstart,
          Nat.add_assoc]
  . have hjoin : h.joinUpper bp p = h.setPtr bp (h.ptr p) := by
      rw [Heap.joinUpper, if_neg (by rw [hbp]; exact hadj)]
    refine ⟨m, l, Nat.le_refl m, ?_, List.suffix_refl l, ?_, fun _ => rfl⟩
    . refine rep_cons.mpr ⟨?_, ?_, hframe⟩
      . rw [hjoin, ← hptr]
        exact Function.update_self _ _ _
      . rw [hjoin]
        exact hbp
    . intro c hc
      cases l with
      | nil => cases hc
      | cons d l =>
        rw [List.map_cons, List.headD_cons] at hptr
        have hd := habove d List.mem_cons_self
        rcases List.mem_cons.mp hc with rfl | hc
        . omega
        . have := (List.pairwise_cons.mp hsep).1 c hc
          rw [Before, Extent.stop] at this
          omega

theorem joinLower_rep (hrep : Rep h (l₁ ++ [⟨p, k⟩]) e) (hrep' : Rep h (⟨bp, m⟩ :: l₂) base)
    (hp : ∀ b ∈ l₁, b.start ≠ p) (hbp : p < bp) (habove : ∀ c ∈ l₂, p < c.start)
    : Rep (h.joinLower bp p)
        (l₁ ++ (if p + 8 * k = bp then [⟨p, k + m⟩] else [⟨p, k⟩, ⟨bp, m⟩]) ++ l₂) base := by
  have hsize : h.size p = k := hrep.size_eq ⟨p, k⟩ (by simp)
  have hcons := rep_cons.mp hrep'
  have hsame := joinLower_sameBut h bp p
  have hupper := hrep'.frame hsame (ne_of_before (a := p) (by
    intro c hc
    rcases List.mem_cons.mp hc with rfl | hc
    . exact hbp
    . exact habove c hc))
  rw [rep_append]
  by_cases hadj : p + 8 * k = bp
  . rw [if_pos hadj]
    have hjoin : h.joinLower bp p
        = (h.setSize p (k + m)).setPtr p ((l₂.map Extent.start).headD base) := by
      rw [Heap.joinLower, if_pos (by rw [hsize]; exact hadj)]
      simp only [Heap.setSize, hsize, hcons.1, hcons.2.1]
    refine ⟨hrep.set_last hsame hp ?_ ?_, (rep_cons.mp hupper).2.2⟩
    . rw [hjoin]
      exact Function.update_self _ _ _
    . rw [hjoin]
      exact Function.update_self _ _ _
  . rw [if_neg hadj]
    have hjoin : h.joinLower bp p = h.setPtr p bp := by
      rw [Heap.joinLower, if_neg (by rw [hsize]; exact hadj)]
    have hlower : Rep (h.joinLower bp p) (l₁ ++ [⟨p, k⟩]) bp := by
      apply hrep.set_last hsame hp
      . rw [hjoin]
        exact Function.update_self _ _ _
      . rw [hjoin]
        exact hsize
    rw [← rep_append, List.append_assoc, List.cons_append, List.singleton_append,
      List.append_cons, rep_append]
    exact ⟨hlower, hupper⟩

end Umalloc
end Xv6
