import Xv6.Console.Impl
import Xv6.Lib.Machine

namespace Xv6.Console

structure Line where
  committed : List UInt8
  edit : List UInt8

namespace Line

def type (q : Line) (c : UInt8) : Line :=
  if c = ctrlP then
    q
  else if c = ctrlU then
    { q with edit := [] }
  else if c = ctrlH ∨ c = delete then
    { q with edit := q.edit.dropLast }
  else if c = 0 ∨ INPUT_BUF ≤ q.committed.length + q.edit.length then
    q
  else
    let c := if c = return' then newline else c
    let edit := q.edit ++ [c]
    if c = newline ∨ c = ctrlD ∨ q.committed.length + edit.length = INPUT_BUF then
      ⟨q.committed ++ edit, []⟩
    else
      { q with edit }

def take (q : Line) (target : Nat) (dst : List UInt8) (n : Nat) : Line × (Reader ⊕ List UInt8) :=
  match n, q.committed with
  | 0, _ => (q, .inr dst)
  | n + 1, [] => (q, .inl { n := n + 1, target, dst })
  | n + 1, c :: l =>
    if c = ctrlD then
      if dst = [] then ({ q with committed := l }, .inr []) else (q, .inr dst)
    else if c = newline then
      ({ q with committed := l }, .inr (dst ++ [c]))
    else
      take { q with committed := l } target (dst ++ [c]) n

end Line

def reference : Device Line where
  intr := Line.type
  read := Line.take

def Line.init {P : Type} : State Line P where
  input := ⟨[], []⟩
  reader := fun _ => none

def Input.InOrder (s : Input) : Prop :=
  (s.w - s.r).toNat ≤ (s.e - s.r).toNat ∧ (s.e - s.r).toNat ≤ INPUT_BUF

structure Holds (base : Nat) (s : Input) (q : Line) : Prop where
  r : s.r = UInt32.ofNat base
  w : s.w = UInt32.ofNat (base + q.committed.length)
  e : s.e = UInt32.ofNat (base + (q.committed.length + q.edit.length))
  le : q.committed.length + q.edit.length ≤ INPUT_BUF
  data : ∀ i b, (q.committed ++ q.edit)[i]? = some b → s.buf.get ((base + i) % INPUT_BUF) = b
  plain : newline ∉ q.edit

variable {base : Nat} {s : Input} {q : Line}

theorem toNat_ofNat_mod (k : Nat) : (UInt32.ofNat k).toNat % INPUT_BUF = k % INPUT_BUF := by
  rw [UInt32.toNat_ofNat', Nat.mod_mod_of_dvd]
  decide

theorem mod_ne_of_lt {j k : Nat} (hlt : j < k) (hk : k < j + INPUT_BUF)
    : j % INPUT_BUF ≠ k % INPUT_BUF := by
  unfold INPUT_BUF at hk ⊢
  omega

theorem toNat_ofNat_sub {j k : Nat} (hle : k ≤ INPUT_BUF)
    : (UInt32.ofNat (j + k) - UInt32.ofNat j).toNat = k := by
  have hbuf : INPUT_BUF = 128 := rfl
  rw [UInt32.toNat_sub, UInt32.toNat_ofNat', UInt32.toNat_ofNat']
  omega

theorem ofNat_succ_sub (k : Nat) : UInt32.ofNat (k + 1) - 1 = UInt32.ofNat k := by
  rw [UInt32.ofNat_add]
  exact UInt32.add_sub_cancel _ _

namespace Holds

section
variable (h : Holds base s q)
include h

theorem length_sub
    : (s.w - s.r).toNat = q.committed.length ∧ (s.e - s.r).toNat = q.committed.length + q.edit.length := by
  have hle := h.le
  rw [h.w, h.e, h.r]
  exact ⟨toNat_ofNat_sub (by omega), toNat_ofNat_sub hle⟩

theorem edit_empty_iff : s.e = s.w ↔ q.edit = [] := by
  have hbuf : INPUT_BUF = 128 := rfl
  have hle := h.le
  rw [h.e, h.w, ← UInt32.toNat_inj, UInt32.toNat_ofNat', UInt32.toNat_ofNat', ← List.length_eq_zero_iff]
  omega

theorem committed_empty_iff : s.r = s.w ↔ q.committed = [] := by
  have hbuf : INPUT_BUF = 128 := rfl
  have hle := h.le
  rw [h.r, h.w, ← UInt32.toNat_inj, UInt32.toNat_ofNat', UInt32.toNat_ofNat', ← List.length_eq_zero_iff]
  omega

theorem erase (hne : q.edit ≠ [])
    : Holds base { s with e := s.e - 1 } { q with edit := q.edit.dropLast } where
  r := h.r
  w := h.w
  e := by
    have hlen := List.length_pos_iff.mpr hne
    have hindex : base + (q.committed.length + q.edit.length)
        = base + (q.committed.length + (q.edit.length - 1)) + 1 := by omega
    change s.e - 1 = _
    rw [h.e, hindex, ofNat_succ_sub, List.length_dropLast]
  le := by
    have hle := h.le
    change q.committed.length + q.edit.dropLast.length ≤ INPUT_BUF
    rw [List.length_dropLast]
    omega
  data i b hb := by
    apply h.data i b
    have happend : (q.committed ++ q.edit).dropLast = q.committed ++ q.edit.dropLast :=
      List.dropLast_append_of_ne_nil hne
    change (q.committed ++ q.edit.dropLast)[i]? = some b at hb
    rw [← happend, List.dropLast_eq_take, List.getElem?_take] at hb
    split at hb
    next => exact hb
    next => cases hb
  plain hmem := h.plain (List.dropLast_subset _ hmem)

theorem char_last (hne : q.edit ≠ []) : s.char (s.e - 1) ∈ q.edit := by
  have hlen := List.length_pos_iff.mpr hne
  have hlast : (q.committed ++ q.edit)[q.committed.length + (q.edit.length - 1)]?
      = some (q.edit.getLast hne) := by
    rw [List.getElem?_append_right (by omega), Nat.add_sub_cancel_left, ← List.getLast?_eq_getElem?,
      List.getLast?_eq_some_getLast hne]
  have hindex : base + (q.committed.length + q.edit.length)
      = base + (q.committed.length + (q.edit.length - 1)) + 1 := by omega
  have hdata := h.data _ _ hlast
  rw [Input.char, h.e, hindex, ofNat_succ_sub, toNat_ofNat_mod, hdata]
  exact List.getLast_mem hne

theorem killLine : Holds base s.killLine { q with edit := [] } := by
  induction hn : q.edit.length generalizing s q with
  | zero =>
    have hnil := List.length_eq_zero_iff.mp hn
    rw [Input.killLine, dif_neg (by rw [h.edit_empty_iff.mpr hnil]; exact fun hne => hne rfl)]
    rw [← hnil]
    exact h
  | succ n ih =>
    have hne : q.edit ≠ [] := by
      intro hnil
      rw [hnil] at hn
      cases hn
    have hplain : s.char (s.e - 1) ≠ newline := by
      intro heq
      exact h.plain (heq ▸ h.char_last hne)
    rw [Input.killLine, dif_pos (fun heq => hne (h.edit_empty_iff.mp heq)), if_pos hplain]
    exact ih (q := { q with edit := q.edit.dropLast }) (h.erase hne)
      (by change q.edit.dropLast.length = n; rw [List.length_dropLast, hn]; rfl)

theorem data_store (hlt : q.committed.length + q.edit.length < INPUT_BUF) (c : UInt8)
    {i : Nat} {b : UInt8} (hb : (q.committed ++ (q.edit ++ [c]))[i]? = some b)
    : (s.buf.set (s.e.toNat % INPUT_BUF) c).get ((base + i) % INPUT_BUF) = b := by
  have hbuf : INPUT_BUF = 128 := rfl
  rw [h.e, toNat_ofNat_mod]
  rw [← List.append_assoc] at hb
  by_cases hi : i < (q.committed ++ q.edit).length
  . rw [List.getElem?_append_left hi] at hb
    rw [List.length_append] at hi
    rw [Bytes.get_set_of_ne _ (mod_ne_of_lt (by omega) (by omega))]
    exact h.data i b hb
  . have hi' : i = (q.committed ++ q.edit).length := by
      have := (List.getElem?_eq_some_iff.mp hb).1
      rw [List.length_append, List.length_singleton] at this
      omega
    rw [hi', List.getElem?_concat_length] at hb
    cases hb
    rw [hi', List.length_append, Bytes.get_set_self _ (Nat.mod_lt _ (by decide))]

theorem e_store
    : s.e + 1 = UInt32.ofNat (base + (q.committed.length + (q.edit.length + 1))) := by
  have hindex : base + (q.committed.length + (q.edit.length + 1))
      = base + (q.committed.length + q.edit.length) + 1 := by omega
  rw [h.e, hindex, UInt32.ofNat_add _ 1]
  rfl

theorem store (hlt : q.committed.length + q.edit.length < INPUT_BUF) {c : UInt8}
    (hc : c ≠ newline)
    : Holds base { s with buf := s.buf.set (s.e.toNat % INPUT_BUF) c, e := s.e + 1 }
      { q with edit := q.edit ++ [c] } where
  r := h.r
  w := h.w
  e := by
    change s.e + 1 = UInt32.ofNat (base + (q.committed.length + (q.edit ++ [c]).length))
    rw [List.length_append, List.length_singleton]
    exact h.e_store
  le := by
    change q.committed.length + (q.edit ++ [c]).length ≤ INPUT_BUF
    rw [List.length_append, List.length_singleton]
    omega
  data _ _ hb := h.data_store hlt c hb
  plain hmem := by
    rcases List.mem_append.mp hmem with hmem | hmem
    . exact h.plain hmem
    . exact hc (List.mem_singleton.mp hmem).symm

theorem commit (hlt : q.committed.length + q.edit.length < INPUT_BUF) (c : UInt8)
    : Holds base { s with buf := s.buf.set (s.e.toNat % INPUT_BUF) c, e := s.e + 1, w := s.e + 1 }
      ⟨q.committed ++ (q.edit ++ [c]), []⟩ where
  r := h.r
  w := by
    change s.e + 1 = UInt32.ofNat (base + (q.committed ++ (q.edit ++ [c])).length)
    rw [List.length_append, List.length_append, List.length_singleton]
    exact h.e_store
  e := by
    change s.e + 1 = UInt32.ofNat (base + ((q.committed ++ (q.edit ++ [c])).length + 0))
    rw [List.length_append, List.length_append, List.length_singleton]
    exact h.e_store
  le := by
    change (q.committed ++ (q.edit ++ [c])).length + 0 ≤ INPUT_BUF
    rw [List.length_append, List.length_append, List.length_singleton]
    omega
  data _ _ hb := h.data_store hlt c (by rwa [List.append_nil] at hb)
  plain := List.not_mem_nil

theorem fetch {c : UInt8} {l : List UInt8} (hq : q.committed = c :: l)
    : s.char s.r = c ∧ Holds (base + 1) { s with r := s.r + 1 } { q with committed := l } := by
  constructor
  . rw [Input.char, h.r, toNat_ofNat_mod]
    exact h.data 0 c (by rw [hq]; rfl)
  . have hw := h.w
    have he := h.e
    have hle := h.le
    rw [hq, List.length_cons] at hw he hle
    refine ⟨?_, ?_, ?_, ?_, ?_, h.plain⟩
    . change s.r + 1 = _
      rw [h.r, UInt32.ofNat_add]
      rfl
    . change s.w = UInt32.ofNat (base + 1 + l.length)
      rw [hw]
      congr 1
      omega
    . change s.e = UInt32.ofNat (base + 1 + (l.length + q.edit.length))
      rw [he]
      congr 1
      omega
    . change l.length + q.edit.length ≤ INPUT_BUF
      omega
    . intro i b hb
      have hdata := h.data (i + 1) b (by rw [hq]; exact hb)
      rw [Nat.add_right_comm, Nat.add_assoc]
      exact hdata

theorem consoleintr (c : UInt8) : Holds base (s.consoleintr c) (q.type c) := by
  have hbuf : INPUT_BUF = 128 := rfl
  unfold Input.consoleintr Line.type
  split
  next => exact h
  next =>
    split
    next => exact h.killLine
    next =>
      split
      next =>
        by_cases hnil : q.edit = []
        . rw [if_neg (by rw [h.edit_empty_iff.mpr hnil]; exact fun hne => hne rfl), hnil]
          rw [List.dropLast_nil, ← hnil]
          exact h
        . rw [if_pos (fun heq => hnil (h.edit_empty_iff.mp heq))]
          exact h.erase hnil
      next =>
        have hroom : s.e - s.r < UInt32.ofNat INPUT_BUF
            ↔ q.committed.length + q.edit.length < INPUT_BUF := by
          rw [UInt32.lt_iff_toNat_lt, h.length_sub.2]
          exact Iff.rfl
        have hkeep : (c ≠ 0 ∧ s.e - s.r < UInt32.ofNat INPUT_BUF)
            ↔ ¬(c = 0 ∨ INPUT_BUF ≤ q.committed.length + q.edit.length) := by
          rw [hroom, not_or, Nat.not_le]
        by_cases hdrop : c = 0 ∨ INPUT_BUF ≤ q.committed.length + q.edit.length
        . rw [if_pos hdrop, if_neg (fun hand => hkeep.mp hand hdrop)]
          exact h
        rw [if_neg hdrop, if_pos (hkeep.mpr hdrop)]
        generalize hc : (if c = return' then newline else c) = c'
        have hlt : q.committed.length + q.edit.length < INPUT_BUF := by omega
        have hfull : s.e + 1 = s.r + UInt32.ofNat INPUT_BUF
            ↔ q.committed.length + (q.edit ++ [c']).length = INPUT_BUF := by
          rw [h.e_store, h.r, ← UInt32.ofNat_add, ← UInt32.toNat_inj, UInt32.toNat_ofNat',
            UInt32.toNat_ofNat', List.length_append, List.length_singleton]
          omega
        simp only [hfull]
        split
        next => exact h.commit hlt c'
        next hnot => exact h.store hlt (fun heq => hnot (.inl heq))

theorem readLoop {target : Nat} {dst : List UInt8} {n : Nat}
    (htarget : n + dst.length = target)
    : (∃ base, Holds base (s.readLoop target dst n).1 (q.take target dst n).1)
      ∧ (s.readLoop target dst n).2 = (q.take target dst n).2
      ∧ ∀ x, (q.take target dst n).2 = .inl x → x.n + x.dst.length = x.target := by
  induction n generalizing base s q dst with
  | zero => exact ⟨⟨base, h⟩, rfl, by rintro _ ⟨⟩⟩
  | succ n ih =>
    cases hq : q.committed with
    | nil =>
      have htake : q.take target dst (n + 1) = (q, .inl { n := n + 1, target, dst }) := by
        unfold Line.take
        rw [hq]
      rw [Input.readLoop, if_pos (h.committed_empty_iff.mpr hq), htake]
      refine ⟨⟨base, h⟩, rfl, ?_⟩
      rintro x ⟨⟩
      exact htarget
    | cons c l =>
      rcases h.fetch hq with ⟨hchar, hnext⟩
      have hne : ¬s.r = s.w := by
        rw [h.committed_empty_iff, hq]
        exact List.cons_ne_nil c l
      have htake : q.take target dst (n + 1)
          = if c = ctrlD then
              if dst = [] then ({ q with committed := l }, .inr []) else (q, .inr dst)
            else if c = newline then
              ({ q with committed := l }, .inr (dst ++ [c]))
            else
              Line.take { q with committed := l } target (dst ++ [c]) n := by
        conv => lhs; unfold Line.take
        rw [hq]
      rw [Input.readLoop, if_neg hne, htake, hchar]
      by_cases hD : c = ctrlD
      . rw [if_pos hD, if_pos hD]
        by_cases hdst : dst = []
        . have hfirst : ¬n + 1 < target := by
            rw [hdst, List.length_nil] at htarget
            omega
          rw [if_pos hdst, if_neg hfirst, hdst]
          exact ⟨⟨base + 1, hnext⟩, rfl, by rintro _ ⟨⟩⟩
        . have hmore : n + 1 < target := by
            have := List.length_pos_iff.mpr hdst
            omega
          have hback : s.r + 1 - 1 = s.r := UInt32.add_sub_cancel _ _
          rw [if_neg hdst, if_pos hmore, hback]
          exact ⟨⟨base, h⟩, rfl, by rintro _ ⟨⟩⟩
      . rw [if_neg hD, if_neg hD]
        split
        next => exact ⟨⟨base + 1, hnext⟩, rfl, by rintro _ ⟨⟩⟩
        next => exact ih hnext (by rw [List.length_append, List.length_singleton]; omega)

end

end Holds

variable {P : Type}

structure Agrees (s : State Input P) (t : State Line P) : Prop where
  input : ∃ base, Holds base s.input t.input
  reader : s.reader = t.reader
  target : ∀ p x, t.reader p = some x → x.n + x.dst.length = x.target

theorem agrees_init : Agrees (P := P) init Line.init where
  input := by
    refine ⟨0, rfl, rfl, rfl, Nat.zero_le _, ?_, List.not_mem_nil⟩
    rintro _ _ ⟨⟩
  reader := rfl
  target := by rintro _ _ ⟨⟩

variable [DecidableEq P]

theorem agrees_run {s : State Input P} {t : State Line P} (h : Agrees s t) (p : P) {x : Reader}
    (hx : x.n + x.dst.length = x.target)
    : Agrees (device.run s p x).1 (reference.run t p x).1 ∧ (device.run s p x).2 = (reference.run t p x).2 := by
  rcases h.input with ⟨base, hholds⟩
  rcases hholds.readLoop hx with ⟨hinput, hout, hleft⟩
  unfold Device.run device reference
  simp only
  revert hinput hout hleft
  rcases s.input.readLoop x.target x.dst x.n with ⟨i, o⟩
  rcases t.input.take x.target x.dst x.n with ⟨i', o'⟩
  intro hinput hout hleft
  simp only at hout
  subst hout
  cases o with
  | inl y =>
    refine ⟨⟨hinput, by rw [h.reader], ?_⟩, rfl⟩
    intro p' y' hy'
    change Function.update t.reader p (some y) p' = some y' at hy'
    by_cases hp : p' = p
    . rw [hp, Function.update_self] at hy'
      cases hy'
      exact hleft y rfl
    . rw [Function.update_of_ne hp] at hy'
      exact h.target p' y' hy'
  | inr dst =>
    refine ⟨⟨hinput, by rw [h.reader], ?_⟩, rfl⟩
    intro p' y' hy'
    change Function.update t.reader p none p' = some y' at hy'
    by_cases hp : p' = p
    . rw [hp, Function.update_self] at hy'
      cases hy'
    . rw [Function.update_of_ne hp] at hy'
      exact h.target p' y' hy'

theorem bisim : Machine.Bisim Agrees (device.step (P := P)) reference.step := by
  intro s t a h
  cases a with
  | intr c =>
    rcases h.input with ⟨base, hholds⟩
    exact ⟨⟨⟨base, hholds.consoleintr c⟩, h.reader, h.target⟩, rfl⟩
  | read p n =>
    unfold Device.step
    simp only [h.reader]
    cases hp : t.reader p with
    | some x => exact ⟨h, rfl⟩
    | none => exact agrees_run h p (Nat.add_zero _)
  | resume p =>
    unfold Device.step
    simp only [h.reader]
    cases hp : t.reader p with
    | some x => exact agrees_run h p (h.target p x hp)
    | none => exact ⟨h, rfl⟩

/--
Whatever is typed and whoever reads, the indices stay in order and the buffer never overflows, and every
read returns what the reference model returns.
-/
theorem line_discipline (l : List (Act P))
    : (Machine.final device.step (init (P := P)) l).input.InOrder
      ∧ Machine.outputs device.step (init (P := P)) l = Machine.outputs reference.step Line.init l := by
  refine ⟨?_, bisim.outputs agrees_init l⟩
  rcases (bisim.final (agrees_init (P := P)) l).input with ⟨base, hholds⟩
  have hle := hholds.le
  unfold Input.InOrder
  rw [hholds.length_sub.1, hholds.length_sub.2]
  omega

end Xv6.Console
