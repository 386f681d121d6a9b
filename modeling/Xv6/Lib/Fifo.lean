import Mathlib.Data.List.Nodup
import Mathlib.Data.Fintype.Card
import Mathlib.Logic.Function.Basic

namespace Fifo

variable {α : Type}

abbrev Link (α : Type) : Type :=
  Option α → Option α

def Lists (link : Link α) (x : Option α) (l : List α) : Prop :=
  match l with
  | [] => link x = none
  | a :: l => link x = some a ∧ Lists link (some a) l

def findEnd (link : Link α) (fuel : Nat) (x : Option α) : Option (Option α) :=
  match link x, fuel with
  | none, _ => some x
  | some _, 0 => none
  | some a, fuel + 1 => findEnd link fuel (some a)

variable {link link' : Link α} {x : Option α} {a b : α} {l : List α}

def last (x : Option α) (l : List α) : Option α :=
  match l with
  | [] => x
  | a :: l => last (some a) l

theorem Lists.findEnd_eq (h : Lists link x l) {fuel : Nat} (hfuel : l.length ≤ fuel)
    : findEnd link fuel x = some (last x l) := by
  induction l generalizing x fuel with
  | nil =>
    unfold Lists at h
    unfold findEnd
    rw [h]
    rfl
  | cons a l ih =>
    rcases h with ⟨hx, hl⟩
    cases fuel with
    | zero => cases hfuel
    | succ fuel =>
      unfold findEnd
      rw [hx]
      exact ih hl (Nat.le_of_succ_le_succ hfuel)

theorem Lists.congr (h : Lists link x l) (hx : link' x = link x) (hl : ∀ a ∈ l, link' (some a) = link (some a))
    : Lists link' x l := by
  induction l generalizing x with
  | nil => exact hx.trans h
  | cons a l ih =>
    refine ⟨hx.trans h.1, ?_⟩
    apply ih h.2
    . exact hl a List.mem_cons_self
    . intro b hb
      exact hl b (List.mem_cons_of_mem a hb)

theorem last_mem (x : Option α) (l : List α) : last x l = x ∨ ∃ a ∈ l, last x l = some a := by
  induction l generalizing x with
  | nil => exact .inl rfl
  | cons a l ih =>
    rcases ih (some a) with h | ⟨b, hb, h⟩
    . exact .inr ⟨a, List.mem_cons_self, h⟩
    . exact .inr ⟨b, List.mem_cons_of_mem a hb, h⟩

section
variable [DecidableEq α]

def append (link : Link α) (pp : Option α) (b : α) : Link α :=
  Function.update (Function.update link (some b) none) pp (some b)

def pop (link : Link α) (a : α) : Link α :=
  Function.update link none (link (some a))

theorem Lists.append (h : Lists link x l) (hnodup : (x :: l.map some).Nodup) (hb : b ∉ l) (hx : x ≠ some b)
    : Lists (append link (last x l) b) x (l ++ [b]) := by
  induction l generalizing x with
  | nil =>
    constructor
    . exact Function.update_self ..
    . unfold Lists Fifo.append last
      rw [Function.update_of_ne (Ne.symm hx), Function.update_self]
  | cons a l ih =>
    rcases h with ⟨hxa, hl⟩
    have hlast : x ≠ last (some a) l := by
      intro heq
      apply (List.nodup_cons.mp hnodup).1
      rcases last_mem (some a) l with h | ⟨c, hc, h⟩
      . rw [heq, h]
        exact List.mem_cons_self
      . rw [heq, h]
        exact List.mem_cons_of_mem _ (List.mem_map_of_mem hc)
    constructor
    . unfold Fifo.append last
      rw [Function.update_of_ne hlast, Function.update_of_ne hx]
      exact hxa
    . apply ih hl (List.nodup_cons.mp hnodup).2
      . intro hmem
        exact hb (List.mem_cons_of_mem a hmem)
      . intro heq
        apply hb
        rw [Option.some.inj heq]
        exact List.mem_cons_self

theorem Lists.pop (h : Lists link none (a :: l)) : Lists (pop link a) none l := by
  rcases h with ⟨-, hl⟩
  cases l with
  | nil =>
    unfold Lists Fifo.pop at *
    rw [Function.update_self]
    exact hl
  | cons b l =>
    rcases hl with ⟨hab, hl⟩
    refine ⟨?_, ?_⟩
    . unfold Fifo.pop
      rw [Function.update_self]
      exact hab
    . apply hl.congr
      . exact Function.update_of_ne (Option.some_ne_none b) ..
      . intro c _
        exact Function.update_of_ne (Option.some_ne_none c) ..

end
end Fifo
