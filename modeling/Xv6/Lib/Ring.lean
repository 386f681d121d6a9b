import Mathlib.Data.List.Nodup
import Mathlib.Data.List.Induction
import Mathlib.Data.Option.Basic
import Mathlib.Logic.Function.Iterate

namespace Ring

variable {α : Type}

structure Links (α : Type) where
  next : Option α → Option α
  prev : Option α → Option α

namespace Links

section
variable [DecidableEq α]

def setNext (r : Links α) (x y : Option α) : Links α :=
  { r with next := Function.update r.next x y }

def setPrev (r : Links α) (x y : Option α) : Links α :=
  { r with prev := Function.update r.prev x y }

def clear (r : Links α) : Links α :=
  (r.setPrev none none).setNext none none

def insertFront (r : Links α) (b : α) : Links α :=
  let r := r.setNext (some b) (r.next none)
  let r := r.setPrev (some b) none
  let r := r.setPrev (r.next none) (some b)
  r.setNext none (some b)

def unlink (r : Links α) (b : α) : Links α :=
  let r := r.setPrev (r.next (some b)) (r.prev (some b))
  r.setNext (r.prev (some b)) (r.next (some b))

end

def scan (step : Option α → Option α) (p : α → Bool) (fuel : Nat) (x : Option α)
    : Option (Option α) :=
  match fuel, x with
  | _, none => some none
  | 0, some _ => none
  | fuel + 1, some b => if p b then some (some b) else scan step p fuel (step (some b))

def Seg (r : Links α) (x : Option α) (l : List α) (y : Option α) : Prop :=
  match l with
  | [] => r.next x = y ∧ r.prev y = x
  | b :: l => r.next x = some b ∧ r.prev (some b) = x ∧ Seg r (some b) l y

structure Represents (r : Links α) (l : List α) : Prop where
  nodup : l.Nodup
  seg : r.Seg none l none

variable {r r' : Links α} {x y : Option α} {b : α} {l l₁ l₂ : List α}

theorem seg_append
    : r.Seg x (l₁ ++ b :: l₂) y ↔ r.Seg x l₁ (some b) ∧ r.Seg (some b) l₂ y := by
  induction l₁ generalizing x with
  | nil =>
    simp only [List.nil_append, Seg, and_assoc]
  | cons c l₁ ih =>
    simp only [List.cons_append, Seg, ih, and_assoc]

theorem Seg.congr (h : r.Seg x l y) (hnext : ∀ z, z = x ∨ z ∈ l.map some → r'.next z = r.next z)
    (hprev : ∀ z, z ∈ l.map some ∨ z = y → r'.prev z = r.prev z)
    : r'.Seg x l y := by
  induction l generalizing x with
  | nil =>
    constructor
    . rw [hnext x (.inl rfl)]
      exact h.1
    . rw [hprev y (.inr rfl)]
      exact h.2
  | cons b l ih =>
    refine ⟨?_, ?_, ?_⟩
    . rw [hnext x (.inl rfl)]
      exact h.1
    . rw [hprev (some b) (.inl (by simp))]
      exact h.2.1
    . apply ih h.2.2
      . intro z hz
        apply hnext
        simp only [List.map_cons, List.mem_cons]
        exact .inr hz
      . intro z hz
        apply hprev
        simp only [List.map_cons, List.mem_cons]
        rcases hz with hz | hz
        . exact .inl (.inr hz)
        . exact .inr hz

theorem Seg.next_eq (h : r.Seg x l y) : r.next x = (l.map some).headD y := by
  cases l with
  | nil => exact h.1
  | cons b l => exact h.1

theorem Seg.prev_eq (h : r.Seg x l y) : r.prev y = (l.map some).getLastD x := by
  induction l generalizing x with
  | nil => exact h.2
  | cons b l ih =>
    rw [ih h.2.2, List.map_cons, List.getLastD_cons]

theorem Seg.redirect (h : r.Seg x l (some b)) (hnodup : (x :: l.map some).Nodup)
    (hy : y ∉ l.map some) (hnext : r'.next (r.prev (some b)) = y)
    (hprev : r'.prev y = r.prev (some b)) (hn : ∀ z, z ≠ r.prev (some b) → r'.next z = r.next z)
    (hp : ∀ z, z ≠ y → r'.prev z = r.prev z)
    : r'.Seg x l y := by
  induction l generalizing x with
  | nil =>
    rw [h.2] at hnext hprev
    exact ⟨hnext, hprev⟩
  | cons c l ih =>
    rcases h with ⟨hxc, hcx, hseg⟩
    rw [List.map_cons] at hnodup
    rw [List.map_cons, List.mem_cons, not_or] at hy
    have hx : x ≠ r.prev (some b) := by
      intro heq
      apply (List.nodup_cons.mp hnodup).1
      rw [heq, hseg.prev_eq]
      exact List.getLastD_mem_cons
    refine ⟨?_, ?_, ?_⟩
    . rw [hn x hx]
      exact hxc
    . rw [hp _ (Ne.symm hy.1)]
      exact hcx
    . apply ih hseg _ hy.2
      exact (List.nodup_cons.mp hnodup).2

theorem Seg.prev_next (h : r.Seg x l y) {z : Option α} (hz : z ∈ x :: l.map some)
    : r.prev (r.next z) = z := by
  induction l generalizing x with
  | nil =>
    simp only [List.map_nil, List.mem_singleton] at hz
    rw [hz, h.1]
    exact h.2
  | cons b l ih =>
    rcases List.mem_cons.mp hz with rfl | hz
    . rw [h.1]
      exact h.2.1
    . exact ih h.2.2 hz

theorem Seg.next_prev (h : r.Seg x l y) {z : Option α} (hz : z ∈ y :: l.map some)
    : r.next (r.prev z) = z := by
  induction l generalizing x with
  | nil =>
    simp only [List.map_nil, List.mem_singleton] at hz
    rw [hz, h.2]
    exact h.1
  | cons b l ih =>
    rcases h with ⟨hnext, hprev, hseg⟩
    simp only [List.map_cons, List.mem_cons] at hz ih
    rcases hz with hz | rfl | hz
    . exact ih hseg (.inl hz)
    . rw [hprev]
      exact hnext
    . exact ih hseg (.inr hz)

theorem Seg.iterate_next (h : r.Seg x l none) {k : Nat} (hk : k ≤ l.length)
    : r.next^[k + 1] x = l[k]? := by
  induction l generalizing x k with
  | nil =>
    obtain rfl : k = 0 := Nat.le_zero.mp hk
    exact h.1
  | cons b l ih =>
    rw [Function.iterate_succ_apply, h.1]
    cases k with
    | zero => rfl
    | succ k => exact ih h.2.2 (Nat.le_of_succ_le_succ hk)

theorem Seg.scan_next (h : r.Seg x l none) (p : α → Bool) {fuel : Nat} (hfuel : l.length ≤ fuel)
    : scan r.next p fuel (r.next x) = some (l.find? p) := by
  induction l generalizing x fuel with
  | nil =>
    rw [h.1]
    simp [scan]
  | cons b l ih =>
    rw [h.1]
    cases fuel with
    | zero => simp at hfuel
    | succ fuel =>
      rw [List.find?_cons]
      unfold scan
      cases p b with
      | true => rfl
      | false => exact ih h.2.2 (Nat.le_of_succ_le_succ hfuel)

theorem Seg.scan_prev (h : r.Seg none l y) (p : α → Bool) {fuel : Nat} (hfuel : l.length ≤ fuel)
    : scan r.prev p fuel (r.prev y) = some (l.reverse.find? p) := by
  induction l using List.reverseRecOn generalizing y fuel with
  | nil =>
    rw [h.2]
    simp [scan]
  | append_singleton l b ih =>
    rcases seg_append.mp h with ⟨hseg, -, hprev⟩
    rw [hprev]
    cases fuel with
    | zero => simp at hfuel
    | succ fuel =>
      rw [List.reverse_concat, List.find?_cons]
      unfold scan
      cases p b with
      | true => rfl
      | false =>
        apply ih hseg
        simpa using hfuel

section
variable [DecidableEq α]

theorem represents_clear (r : Links α) : r.clear.Represents [] := by
  constructor
  . exact List.nodup_nil
  . simp [Seg, clear, setNext, setPrev]

theorem Represents.insertFront (h : r.Represents l) (hb : b ∉ l)
    : (r.insertFront b).Represents (b :: l) := by
  rcases h with ⟨hnodup, hseg⟩
  constructor
  . exact List.nodup_cons.mpr ⟨hb, hnodup⟩
  . cases l with
    | nil =>
      simp only [Seg] at hseg
      simp [Seg, Links.insertFront, setNext, setPrev, hseg.1]
    | cons c l =>
      rcases hseg with ⟨hnext, hprev, hseg⟩
      have hbc : b ≠ c := by
        rintro rfl
        apply hb
        exact List.mem_cons_self
      have hcb : some c ≠ some b := fun heq => hbc (Option.some.inj heq).symm
      refine ⟨?_, ?_, ?_, ?_, ?_⟩
      . simp [Links.insertFront, setNext, setPrev]
      . simp [Links.insertFront, setNext, setPrev, hnext, hbc]
      . simp [Links.insertFront, setNext, setPrev, hnext]
      . simp [Links.insertFront, setNext, setPrev, hnext]
      . apply hseg.congr
        . intro z hz
          have hzb : z ≠ some b := by
            rintro rfl
            apply hb
            simpa using hz
          have hz0 : z ≠ none := by
            rintro rfl
            simp at hz
          simp [Links.insertFront, setNext, setPrev, hzb, hz0]
        . intro z hz
          have hzb : z ≠ some b := by
            rintro rfl
            apply hb
            apply List.mem_cons_of_mem
            simpa using hz
          have hzc : z ≠ some c := by
            rintro rfl
            have := (List.nodup_cons.mp hnodup).1
            simp [this] at hz
          simp [Links.insertFront, setNext, setPrev, hnext, hzb, hzc]

theorem Represents.unlink (h : r.Represents (l₁ ++ b :: l₂))
    : (r.unlink b).Represents (l₁ ++ l₂) := by
  rcases h with ⟨hnodup, hseg⟩
  rcases seg_append.mp hseg with ⟨hfst, hsnd⟩
  have hmap := hnodup.map (Option.some_injective α)
  rw [List.nodup_middle] at hnodup
  simp only [List.map_append, List.map_cons, List.nodup_middle, List.nodup_cons] at hmap
  have hmem := hmap.1
  rw [List.mem_append, not_or] at hmem
  have hdisj := List.nodup_append.mp hmap.2
  have hu : r.prev (some b) ∈ none :: l₁.map some := by
    rw [hfst.prev_eq]
    exact List.getLastD_mem_cons
  have hv : r.next (some b) ≠ some b := by
    rw [hsnd.next_eq]
    cases l₂ with
    | nil => simp
    | cons c l =>
      intro heq
      apply hmem.2
      rw [← heq]
      exact List.mem_cons_self
  -- What `unlink` does to each pointer.
  have hnext : (r.unlink b).next = Function.update r.next (r.prev (some b)) (r.next (some b)) := by
    simp [Links.unlink, setNext, setPrev, Function.update_of_ne hv.symm]
  have hprev : (r.unlink b).prev = Function.update r.prev (r.next (some b)) (r.prev (some b)) := by
    simp [Links.unlink, setNext, setPrev]
  have hedge : ∀ y, r.next (some b) = y → y ∉ l₁.map some → (r.unlink b).Seg none l₁ y := by
    rintro y rfl hy
    apply hfst.redirect _ hy
    . rw [hnext, Function.update_self]
    . rw [hprev, Function.update_self]
    . intro z hz
      rw [hnext, Function.update_of_ne hz]
    . intro z hz
      rw [hprev, Function.update_of_ne hz]
    . apply List.nodup_cons.mpr ⟨_, hdisj.1⟩
      simp
  constructor
  . exact (List.nodup_cons.mp hnodup).2
  . cases l₂ with
    | nil =>
      rw [List.append_nil]
      apply hedge none hsnd.1
      simp
    | cons c l₂ =>
      rcases hsnd with ⟨hbc, -, hsnd⟩
      rw [List.map_cons] at hdisj
      apply seg_append.mpr
      constructor
      . apply hedge _ hbc
        intro hc
        exact hdisj.2.2 _ hc _ List.mem_cons_self rfl
      . apply hsnd.congr
        . intro z hz
          have hzl : z ∈ some c :: l₂.map some := List.mem_cons.mpr hz
          have hzu : z ≠ r.prev (some b) := by
            rintro rfl
            rcases List.mem_cons.mp hu with hnone | hmem
            . rw [hnone] at hzl
              simp at hzl
            . exact hdisj.2.2 _ hmem _ hzl rfl
          rw [hnext, Function.update_of_ne hzu]
        . intro z hz
          have hzv : z ≠ r.next (some b) := by
            rw [hbc]
            rintro rfl
            have := (List.nodup_cons.mp hdisj.2.1).1
            rcases hz with hz | hz
            . exact this hz
            . cases hz
          rw [hprev, Function.update_of_ne hzv]

end
end Links
end Ring
