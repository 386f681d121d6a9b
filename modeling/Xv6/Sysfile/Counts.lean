import Xv6.Fs.Lemmas.Refs
import Xv6.Lib.Count
import Xv6.Lib.Reach
import Xv6.Sysfile.Impl
import Mathlib.Data.Fintype.Prod
import Mathlib.Data.Fin.VecNotation

namespace Xv6.Sysfile

open Outcome Xv6.Fs

variable {n : Nat} {P : Type} {f : Fin NFILE}

def unit (f g : Fin NFILE) : Int :=
  if f = g then 1 else 0

@[simp]
theorem unit_self (f : Fin NFILE) : unit f f = 1 :=
  if_pos rfl

theorem unit_nonneg (f g : Fin NFILE) : 0 ≤ unit f g := by
  unfold unit
  split <;> decide

theorem unit_of_ne {f g : Fin NFILE} (h : f ≠ g) : unit f g = 0 :=
  if_neg h

def refers (f : Fin NFILE) (x : Option (Fin NFILE)) : Int :=
  if (x = some f : Bool) then 1 else 0

@[simp]
theorem refers_none (f : Fin NFILE) : refers f none = 0 := by
  rfl

@[simp]
theorem refers_some (f g : Fin NFILE) : refers f (some g) = unit g f := by
  unfold refers unit
  simp

theorem refers_nonneg (f : Fin NFILE) (x : Option (Fin NFILE)) : 0 ≤ refers f x := by
  unfold refers
  split <;> decide

namespace Pipe

variable (x : Pipe) (writable : Bool)

theorem readopen_close : (x.close writable).readopen = true ↔ writable ≠ false ∧ x.readopen = true := by
  rcases x with ⟨r, w, k⟩
  cases r <;> cases w <;> cases writable <;> simp [Pipe.close]

theorem writeopen_close : (x.close writable).writeopen = true ↔ writable ≠ true ∧ x.writeopen = true := by
  rcases x with ⟨r, w, k⟩
  cases r <;> cases w <;> cases writable <;> simp [Pipe.close]

theorem kfreed_close
    : (x.close writable).kfreed = x.kfreed
      + if (x.close writable).readopen = false ∧ (x.close writable).writeopen = false then 1 else 0 := by
  rcases x with ⟨r, w, k⟩
  cases r <;> cases w <;> cases writable <;> simp [Pipe.close]

end Pipe

namespace State

variable {s : State n P} {extra : Fin NFILE → Int}

def Frame (s s' : State n P) : Prop :=
  s'.ofile = s.ofile ∧ s'.cwd = s.cwd

theorem filealloc_cases (s : State n P)
    : s.filealloc = (none, s)
      ∨ ∃ f, (s.file f).ref = 0 ∧ s.filealloc = (some f, s.setFile f { s.file f with ref := 1 }) := by
  unfold filealloc
  split
  . next f hfind =>
    have href := List.find?_some hfind
    rw [decide_eq_true_iff] at href
    exact .inr ⟨f, href, rfl⟩
  . exact .inl rfl

theorem fdalloc_cases [DecidableEq P] (s : State n P) (p : P) (f : Fin NFILE)
    : s.fdalloc p f = (none, s)
      ∨ ∃ fd, s.ofile (p, fd) = none ∧ s.fdalloc p f = (some fd, s.setOfile p fd (some f)) := by
  unfold fdalloc
  split
  . next fd hfind =>
    have hnone := List.find?_some hfind
    rw [Option.isNone_iff_eq_none] at hnone
    exact .inr ⟨fd, hnone, rfl⟩
  . exact .inl rfl

theorem argfd_eq_some [DecidableEq P] {p : P} {fd : Int} {k : Fin NOFILE}
    (h : s.argfd p fd = some (k, f))
    : s.ofile (p, k) = some f := by
  unfold argfd at h
  rcases List.exists_of_findSome?_eq_some h with ⟨j, _, hj⟩
  split at hj
  . rw [Option.map_eq_some_iff] at hj
    rcases hj with ⟨g, hg, heq⟩
    cases heq
    exact hg
  . cases hj

section
variable [Fintype P]

def slots (s : State n P) (f : Fin NFILE) : Int :=
  Count.total (refers f) s.ofile

theorem slots_nonneg (s : State n P) (f : Fin NFILE) : 0 ≤ s.slots f :=
  Count.total_nonneg fun _ => refers_nonneg f _

structure Counts (s : State n P) (extra : Fin NFILE → Int) : Prop where
  ref : ∀ f, (s.file f).ref = s.slots f + extra f
  unused : ∀ f, (s.file f).ref = 0 → (s.file f).type = .none
  known : ∀ f p, (s.file f).type = .pipe p → p < s.pipes.length
  single : ∀ f g p, (s.file f).type = .pipe p → (s.file g).type = .pipe p
    → (s.file f).writable = (s.file g).writable → f = g
  readable : ∀ f p, (s.file f).type = .pipe p → (s.file f).readable = !(s.file f).writable
  readopen : ∀ (p : Nat) (x : Pipe), s.pipes[p]? = some x
    → (x.readopen = true ↔ ∃ f, (s.file f).type = .pipe p ∧ (s.file f).writable = false)
  writeopen : ∀ (p : Nat) (x : Pipe), s.pipes[p]? = some x
    → (x.writeopen = true ↔ ∃ f, (s.file f).type = .pipe p ∧ (s.file f).writable = true)
  kfreed : ∀ (p : Nat) (x : Pipe), s.pipes[p]? = some x
    → x.kfreed = if x.readopen = false ∧ x.writeopen = false then 1 else 0

namespace Counts

theorem congr {extra' : Fin NFILE → Int} (h : s.Counts extra) (heq : ∀ f, extra f = extra' f)
    : s.Counts extra' := by
  have hfun : extra = extra' := funext heq
  rw [← hfun]
  exact h

theorem withFs (h : s.Counts extra) (fs : Fs.State n) : Counts { s with fs := fs } extra :=
  ⟨h.ref, h.unused, h.known, h.single, h.readable, h.readopen, h.writeopen, h.kfreed⟩

theorem ref_pos (h : s.Counts fun _ => 0) (htype : (s.file f).type ≠ .none)
    : 0 < (s.file f).ref := by
  have href := h.ref f
  have hslots := s.slots_nonneg f
  have hne : (s.file f).ref ≠ 0 := fun hzero => htype (h.unused f hzero)
  omega

theorem setFile {x : File n} (h : s.Counts extra)
    (hold : ∀ p, (s.file f).type ≠ .pipe p ∨ x.type = (s.file f).type ∧ x.writable = (s.file f).writable
      ∧ x.readable = (s.file f).readable)
    (hnew : ∀ p, x.type = .pipe p → x.type = (s.file f).type) (hunused : x.ref = 0 → x.type = .none)
    : (s.setFile f x).Counts fun g => extra g + unit f g * (x.ref - (s.file f).ref) := by
  have hself : (s.setFile f x).file f = x := Function.update_self ..
  have hother : ∀ g, g ≠ f → (s.setFile f x).file g = s.file g := fun g hg =>
    Function.update_of_ne hg ..
  -- pipe ends are the same files as before
  have hend : ∀ g p, ((s.setFile f x).file g).type = .pipe p ↔ (s.file g).type = .pipe p := by
    intro g p
    by_cases hg : g = f
    . rw [hg, hself]
      constructor
      . intro hx
        rw [← hnew p hx]
        exact hx
      . intro hs
        rcases hold p with hne | ⟨htype, _, _⟩
        . exact absurd hs hne
        . rw [htype]
          exact hs
    . rw [hother g hg]
  have hsame : ∀ g p, (s.file g).type = .pipe p
      → ((s.setFile f x).file g).writable = (s.file g).writable
        ∧ ((s.setFile f x).file g).readable = (s.file g).readable := by
    intro g p hp
    by_cases hg : g = f
    . rw [hg] at hp ⊢
      rw [hself]
      rcases hold p with hne | ⟨_, hsame⟩
      . exact absurd hp hne
      . exact hsame
    . rw [hother g hg]
      exact ⟨rfl, rfl⟩
  have hexists : ∀ p w, (∃ g, ((s.setFile f x).file g).type = .pipe p ∧ ((s.setFile f x).file g).writable = w)
      ↔ ∃ g, (s.file g).type = .pipe p ∧ (s.file g).writable = w := by
    intro p w
    apply exists_congr
    intro g
    rw [hend]
    apply and_congr_right
    intro hp
    rw [(hsame g p hp).1]
  constructor
  . intro g
    by_cases hg : g = f
    . have href := h.ref f
      rw [hg, hself, unit_self]
      change x.ref = s.slots f + _
      omega
    . rw [hother g hg, unit_of_ne (Ne.symm hg)]
      change _ = s.slots g + _
      rw [h.ref]
      omega
  . intro g hzero
    by_cases hg : g = f
    . rw [hg, hself] at hzero ⊢
      exact hunused hzero
    . rw [hother g hg] at hzero ⊢
      exact h.unused g hzero
  . intro g p hp
    exact h.known g p ((hend g p).mp hp)
  . intro g g' p hg hg' hw
    rw [hend] at hg hg'
    rw [(hsame g p hg).1, (hsame g' p hg').1] at hw
    exact h.single g g' p hg hg' hw
  . intro g p hp
    rw [hend] at hp
    rw [(hsame g p hp).1, (hsame g p hp).2]
    exact h.readable g p hp
  . intro p y hy
    rw [hexists]
    exact h.readopen p y hy
  . intro p y hy
    rw [hexists]
    exact h.writeopen p y hy
  . exact h.kfreed

theorem addRef {d : Int} (h : s.Counts extra)
    (hne : (s.file f).ref + d ≠ 0)
    : (s.addRef f d).Counts fun g => extra g + unit f g * d := by
  have hset := h.setFile (f := f) (x := { s.file f with ref := (s.file f).ref + d })
    (fun _ => .inr ⟨rfl, rfl, rfl⟩) (fun _ _ => rfl) (fun hzero => absurd hzero hne)
  apply hset.congr
  intro g
  dsimp only
  rw [add_sub_cancel_left]

theorem getElem?_close_eq_some {l : List Pipe} {p q : Nat} {w : Bool} {y : Pipe}
    (h : (l.modify p fun x => x.close w)[q]? = some y)
    : (q ≠ p ∧ l[q]? = some y) ∨ ∃ x, q = p ∧ l[q]? = some x ∧ y = x.close w := by
  rw [List.getElem?_modify] at h
  cases hx : l[q]? with
  | none =>
    rw [hx] at h
    cases h
  | some x =>
    rw [hx, Option.map_eq_map, Option.map_some, Option.some_inj] at h
    by_cases hqp : p = q
    . rw [if_pos hqp] at h
      exact .inr ⟨x, hqp.symm, rfl, h.symm⟩
    . rw [if_neg hqp] at h
      rw [h]
      exact .inl ⟨Ne.symm hqp, rfl⟩

section
variable (h : s.Counts extra)
include h

theorem kfreed_eq_zero {p : Nat} {x : Pipe}
    (htype : (s.file f).type = .pipe p) (hx : s.pipes[p]? = some x)
    : x.kfreed = 0 := by
  rw [h.kfreed p x hx]
  apply if_neg
  rintro ⟨hread, hwrite⟩
  cases hw : (s.file f).writable with
  | false =>
    rw [(h.readopen p x hx).mpr ⟨f, htype, hw⟩] at hread
    cases hread
  | true =>
    rw [(h.writeopen p x hx).mpr ⟨f, htype, hw⟩] at hwrite
    cases hwrite

theorem dropPipe {p : Nat} (htype : (s.file f).type = .pipe p)
    (hone : (s.file f).ref = 1)
    : ((s.setFile f { s.file f with ref := 0, type := .none }).pipeclose p (s.file f).writable).Counts
      fun g => extra g - unit f g := by
  generalize hs' : (s.setFile f { s.file f with ref := 0, type := .none }).pipeclose p (s.file f).writable = s'
  have hself : s'.file f = { s.file f with ref := 0, type := .none } := by
    rw [← hs']
    exact Function.update_self ..
  have hother : ∀ g, g ≠ f → s'.file g = s.file g := by
    intro g hg
    rw [← hs']
    exact Function.update_of_ne hg ..
  have hslots : ∀ g, s'.slots g = s.slots g := by
    intro g
    rw [← hs']
    rfl
  have hpipes : s'.pipes = s.pipes.modify p fun x => x.close (s.file f).writable := by
    rw [← hs']
    rfl
  have hend : ∀ g q, (s'.file g).type = .pipe q → g ≠ f ∧ (s.file g).type = .pipe q := by
    intro g q hq
    by_cases hg : g = f
    . rw [hg, hself] at hq
      cases hq
    . rw [hother g hg] at hq
      exact ⟨hg, hq⟩
  have hexists : ∀ q w, (∃ g, (s'.file g).type = .pipe q ∧ (s'.file g).writable = w)
      ↔ (q = p → (s.file f).writable ≠ w) ∧ ∃ g, (s.file g).type = .pipe q ∧ (s.file g).writable = w := by
    intro q w
    constructor
    . rintro ⟨g, hg, hw⟩
      rcases hend g q hg with ⟨hne, hq⟩
      rw [hother g hne] at hw
      refine ⟨?_, g, hq, hw⟩
      intro hqp hfw
      rw [hqp] at hq
      exact hne (h.single g f p hq htype (hw.trans hfw.symm))
    . rintro ⟨hneq, g, hg, hw⟩
      have hne : g ≠ f := by
        intro hgf
        rw [hgf] at hg hw
        rw [htype] at hg
        cases hg
        exact hneq rfl hw
      refine ⟨g, ?_, ?_⟩
      . rw [hother g hne]
        exact hg
      . rw [hother g hne]
        exact hw
  have hget : ∀ (q : Nat) (y : Pipe), s'.pipes[q]? = some y
      → (q ≠ p ∧ s.pipes[q]? = some y)
        ∨ ∃ x, q = p ∧ s.pipes[q]? = some x ∧ y = x.close (s.file f).writable := by
    intro q y hy
    rw [hpipes] at hy
    exact getElem?_close_eq_some hy
  constructor
  . intro g
    have href := h.ref g
    by_cases hg : g = f
    . rw [hg] at href ⊢
      rw [hself, hslots, unit_self]
      dsimp only
      omega
    . rw [hother g hg, hslots, unit_of_ne (Ne.symm hg)]
      omega
  . intro g hzero
    by_cases hg : g = f
    . rw [hg, hself]
    . rw [hother g hg] at hzero ⊢
      exact h.unused g hzero
  . intro g q hq
    rw [hpipes, List.length_modify]
    exact h.known g q (hend g q hq).2
  . intro g g' q hg hg' hw
    rcases hend g q hg with ⟨hne, hg⟩
    rcases hend g' q hg' with ⟨hne', hg'⟩
    rw [hother g hne, hother g' hne'] at hw
    exact h.single g g' q hg hg' hw
  . intro g q hq
    rcases hend g q hq with ⟨hne, hq⟩
    rw [hother g hne]
    exact h.readable g q hq
  . intro q y hy
    rw [hexists]
    rcases hget q y hy with ⟨hne, hx⟩ | ⟨x, hqp, hx, hclose⟩
    . rw [← h.readopen q y hx]
      exact ⟨fun hopen => ⟨fun hqp => absurd hqp hne, hopen⟩, And.right⟩
    . rw [← h.readopen q x hx, hclose, Pipe.readopen_close]
      exact and_congr_left fun _ => ⟨fun hw _ => hw, fun hw => hw hqp⟩
  . intro q y hy
    rw [hexists]
    rcases hget q y hy with ⟨hne, hx⟩ | ⟨x, hqp, hx, hclose⟩
    . rw [← h.writeopen q y hx]
      exact ⟨fun hopen => ⟨fun hqp => absurd hqp hne, hopen⟩, And.right⟩
    . rw [← h.writeopen q x hx, hclose, Pipe.writeopen_close]
      exact and_congr_left fun _ => ⟨fun hw _ => hw, fun hw => hw hqp⟩
  . intro q y hy
    rcases hget q y hy with ⟨_, hx⟩ | ⟨x, hqp, hx, hclose⟩
    . exact h.kfreed q y hx
    . rw [hqp] at hx
      rw [hclose, Pipe.kfreed_close, h.kfreed_eq_zero htype hx, Nat.zero_add]

theorem dropFile (htype : ∀ p, (s.file f).type ≠ .pipe p)
    (hone : (s.file f).ref = 1)
    : (s.setFile f { s.file f with ref := 0, type := .none }).Counts fun g => extra g - unit f g := by
  have hset := h.setFile (f := f) (x := { s.file f with ref := 0, type := .none })
    (fun p => .inl (htype p)) (by simp) (fun _ => rfl)
  apply hset.congr
  intro g
  rw [hone]
  dsimp only
  omega

theorem fileclose (hpos : 1 ≤ (s.file f).ref)
    : Sat Halt.Inner (fun s' => s'.Counts (fun g => extra g - unit f g) ∧ Frame s s') (s.fileclose f) := by
  unfold State.fileclose
  dsimp only
  rw [if_neg (Int.not_lt.mpr hpos)]
  split
  . next hmore =>
    refine ⟨(h.addRef (d := -1) (by omega)).congr ?_, rfl, rfl⟩
    intro g
    omega
  . next hmore =>
    have hone : (s.file f).ref = 1 := by omega
    unfold closeType
    split
    . next htype =>
      refine ⟨h.dropFile ?_ hone, rfl, rfl⟩
      intro p
      rw [htype]
      simp
    . next p htype => exact ⟨h.dropPipe htype hone, rfl, rfl⟩
    . next ip htype =>
      have hdrop := h.dropFile (f := f) (by simp [htype]) hone
      apply Sat.bind (Fs.State.beginOp_refs _)
      intro fs1 _
      apply Sat.bind (Fs.State.iput_refs fs1 ip)
      intro fs2 _
      exact ⟨hdrop.withFs _, rfl, rfl⟩

theorem filedup (hpos : 1 ≤ (s.file f).ref)
    : Sat Halt.Inner (fun s' => s'.Counts (fun g => extra g + unit f g) ∧ Frame s s') (s.filedup f) := by
  unfold State.filedup
  rw [if_neg (Int.not_lt.mpr hpos)]
  refine ⟨(h.addRef (d := 1) (by omega)).congr ?_, rfl, rfl⟩
  intro g
  omega

end

end Counts

theorem Counts.filealloc (h : s.Counts extra) (hzero : (s.file f).ref = 0)
    : (s.setFile f { s.file f with ref := 1 }).Counts fun g => extra g + unit f g := by
  have hset := h.setFile (f := f) (x := { s.file f with ref := 1 }) (fun _ => .inr ⟨rfl, rfl, rfl⟩)
    (fun _ _ => rfl) (by simp)
  apply hset.congr
  intro g
  rw [hzero]
  dsimp only
  omega

theorem Counts.openInode {x : File n} (h : s.Counts extra)
    (htype : (s.file f).type = .none) (href : x.ref = (s.file f).ref) (hne : x.ref ≠ 0) {i : Fin n}
    (hx : x.type = .inode i)
    : (s.setFile f x).Counts extra := by
  have hset := h.setFile (f := f) (x := x) (by simp [htype]) (by simp [hx]) (fun hzero => absurd hzero hne)
  apply hset.congr
  intro g
  rw [href, Int.sub_self, Int.mul_zero, Int.add_zero]

theorem getElem?_concat_eq_some {l : List Pipe} {q : Nat} {x y : Pipe} (h : (l ++ [x])[q]? = some y)
    : (q < l.length ∧ l[q]? = some y) ∨ q = l.length ∧ y = x := by
  by_cases hlt : q < l.length
  . rw [List.getElem?_append_left hlt] at h
    exact .inl ⟨hlt, h⟩
  obtain ⟨hlen, _⟩ := List.getElem?_eq_some_iff.mp h
  rw [List.length_append, List.length_singleton] at hlen
  have hq : q = l.length := by omega
  rw [hq, List.getElem?_concat_length] at h
  cases h
  exact .inr ⟨hq, rfl⟩

theorem Counts.newPipe {f0 f1 : Fin NFILE} {x0 x1 : File n} (h : s.Counts extra) (hne : f0 ≠ f1)
    (htype0 : (s.file f0).type = .none) (htype1 : (s.file f1).type = .none)
    (hx0 : x0 = { s.file f0 with type := .pipe s.pipes.length, readable := true, writable := false })
    (hx1 : x1 = { s.file f1 with type := .pipe s.pipes.length, readable := false, writable := true })
    (href0 : (s.file f0).ref ≠ 0) (href1 : (s.file f1).ref ≠ 0)
    : (({ s with pipes := s.pipes ++ [Pipe.mk true true 0] }.setFile f0 x0).setFile f1 x1).Counts extra := by
  generalize hs' : ({ s with pipes := s.pipes ++ [Pipe.mk true true 0] }.setFile f0 x0).setFile f1 x1 = s'
  have hfile1 : s'.file f1 = x1 := by
    rw [← hs']
    exact Function.update_self ..
  have hfile0 : s'.file f0 = x0 := by
    rw [← hs']
    change Function.update (Function.update s.file f0 x0) f1 x1 f0 = x0
    rw [Function.update_of_ne hne, Function.update_self]
  have hother : ∀ g, g ≠ f0 → g ≠ f1 → s'.file g = s.file g := by
    intro g hg0 hg1
    rw [← hs']
    change Function.update (Function.update s.file f0 x0) f1 x1 g = s.file g
    rw [Function.update_of_ne hg1, Function.update_of_ne hg0]
  have hpipes : s'.pipes = s.pipes ++ [Pipe.mk true true 0] := by
    rw [← hs']
    rfl
  have hslots : ∀ g, s'.slots g = s.slots g := by
    intro g
    rw [← hs']
    rfl
  have hcases : ∀ g, g = f0 ∨ g = f1 ∨ g ≠ f0 ∧ g ≠ f1 := by
    intro g
    by_cases hg0 : g = f0
    . exact .inl hg0
    . by_cases hg1 : g = f1
      . exact .inr (.inl hg1)
      . exact .inr (.inr ⟨hg0, hg1⟩)
  -- the ends of the old pipes are as before, and the new pipe has just the two
  have hend : ∀ g q, (s'.file g).type = .pipe q
      → (q < s.pipes.length ∧ (s.file g).type = .pipe q ∧ s'.file g = s.file g)
        ∨ q = s.pipes.length ∧ (g = f0 ∨ g = f1) := by
    intro g q hq
    rcases hcases g with hg | hg | ⟨hg0, hg1⟩
    . rw [hg, hfile0, hx0] at hq
      cases hq
      exact .inr ⟨rfl, .inl hg⟩
    . rw [hg, hfile1, hx1] at hq
      cases hq
      exact .inr ⟨rfl, .inr hg⟩
    . rw [hother g hg0 hg1] at hq
      exact .inl ⟨h.known g q hq, hq, hother g hg0 hg1⟩
  have hold : ∀ g q, (s.file g).type = .pipe q → s'.file g = s.file g := by
    intro g q hq
    apply hother
    . intro hg
      rw [hg, htype0] at hq
      cases hq
    . intro hg
      rw [hg, htype1] at hq
      cases hq
  have hexists : ∀ q w, q < s.pipes.length
      → ((∃ g, (s'.file g).type = .pipe q ∧ (s'.file g).writable = w)
        ↔ ∃ g, (s.file g).type = .pipe q ∧ (s.file g).writable = w) := by
    intro q w hlt
    apply exists_congr
    intro g
    constructor
    . rintro ⟨hq, hw⟩
      rcases hend g q hq with ⟨_, htype, hsame⟩ | ⟨hlen, _⟩
      . rw [hsame] at hw
        exact ⟨htype, hw⟩
      . omega
    . rintro ⟨hq, hw⟩
      rw [hold g q hq]
      exact ⟨hq, hw⟩
  have hget : ∀ (q : Nat) (y : Pipe), s'.pipes[q]? = some y
      → (q < s.pipes.length ∧ s.pipes[q]? = some y) ∨ q = s.pipes.length ∧ y = Pipe.mk true true 0 := by
    intro q y hy
    rw [hpipes] at hy
    exact getElem?_concat_eq_some hy
  constructor
  . intro g
    have href := h.ref g
    rw [hslots]
    rcases hcases g with hg | hg | ⟨hg0, hg1⟩
    . rw [hg, hfile0, hx0, ← hg]
      exact href
    . rw [hg, hfile1, hx1, ← hg]
      exact href
    . rw [hother g hg0 hg1]
      exact href
  . intro g hzero
    rcases hcases g with hg | hg | ⟨hg0, hg1⟩
    . rw [hg, hfile0, hx0] at hzero
      exact absurd hzero href0
    . rw [hg, hfile1, hx1] at hzero
      exact absurd hzero href1
    . rw [hother g hg0 hg1] at hzero ⊢
      exact h.unused g hzero
  . intro g q hq
    rw [hpipes, List.length_append, List.length_singleton]
    rcases hend g q hq with ⟨hlt, _⟩ | ⟨hlen, _⟩ <;> omega
  . intro g g' q hg hg' hw
    rcases hend g q hg with ⟨hlt, htype, hsame⟩ | ⟨hlen, hg0⟩
    . rcases hend g' q hg' with ⟨_, htype', hsame'⟩ | ⟨hlen', _⟩
      . rw [hsame, hsame'] at hw
        exact h.single g g' q htype htype' hw
      . omega
    . rcases hend g' q hg' with ⟨hlt', _⟩ | ⟨_, hg1⟩
      . omega
      . rcases hg0 with hg0 | hg0 <;> rcases hg1 with hg1 | hg1
        . rw [hg0, hg1]
        . rw [hg0, hg1, hfile0, hfile1, hx0, hx1] at hw
          cases hw
        . rw [hg0, hg1, hfile0, hfile1, hx0, hx1] at hw
          cases hw
        . rw [hg0, hg1]
  . intro g q hq
    rcases hend g q hq with ⟨_, htype, hsame⟩ | ⟨_, hg | hg⟩
    . rw [hsame]
      exact h.readable g q htype
    . rw [hg, hfile0, hx0]
      rfl
    . rw [hg, hfile1, hx1]
      rfl
  . intro q y hy
    rcases hget q y hy with ⟨hlt, hy⟩ | ⟨hlen, hy⟩
    . rw [hexists q false hlt]
      exact h.readopen q y hy
    . rw [hy]
      refine iff_of_true rfl ⟨f0, ?_, ?_⟩
      . rw [hfile0, hx0, hlen]
      . rw [hfile0, hx0]
  . intro q y hy
    rcases hget q y hy with ⟨hlt, hy⟩ | ⟨hlen, hy⟩
    . rw [hexists q true hlt]
      exact h.writeopen q y hy
    . rw [hy]
      refine iff_of_true rfl ⟨f1, ?_, ?_⟩
      . rw [hfile1, hx1, hlen]
      . rw [hfile1, hx1]
  . intro q y hy
    rcases hget q y hy with ⟨_, hy⟩ | ⟨_, hy⟩
    . exact h.kfreed q y hy
    . rw [hy]
      rfl

theorem slots_pos {k : P × Fin NOFILE} (h : s.ofile k = some f) : 1 ≤ s.slots f := by
  have hle := Count.le_total (w := refers f) (f := s.ofile) (fun _ => refers_nonneg f _) k
  rw [h, refers_some, unit_self] at hle
  exact hle

theorem Counts.pipealloc (h : s.Counts extra) (kalloc : Bool)
    (hextra : ∀ f, 0 ≤ extra f)
    : Sat Halt.Inner (fun r => (r.1 = none ∧ r.2.Counts extra ∨ ∃ f0 f1, r.1 = some (f0, f1)
        ∧ r.2.Counts (fun g => extra g + unit f0 g + unit f1 g)) ∧ Frame s r.2)
      (s.pipealloc kalloc) := by
  unfold State.pipealloc
  rcases s.filealloc_cases with hfull | ⟨f0, hzero0, halloc0⟩
  . rw [hfull]
    exact ⟨.inl ⟨rfl, h⟩, rfl, rfl⟩
  rw [halloc0]
  dsimp only
  have h1 := h.filealloc hzero0
  have hself : (s.setFile f0 { s.file f0 with ref := 1 }).file f0 = { s.file f0 with ref := 1 } :=
    Function.update_self ..
  have hone0 : ((s.setFile f0 { s.file f0 with ref := 1 }).file f0).ref = 1 := by
    rw [hself]
  have htype0 : ((s.setFile f0 { s.file f0 with ref := 1 }).file f0).type = .none := by
    rw [hself]
    exact h.unused f0 hzero0
  have hframe1 : Frame s (s.setFile f0 { s.file f0 with ref := 1 }) := ⟨rfl, rfl⟩
  generalize s.setFile f0 { s.file f0 with ref := 1 } = s1 at h1 hone0 htype0 hframe1 ⊢
  rcases s1.filealloc_cases with hfull | ⟨f1, hzero1, halloc1⟩
  . rw [hfull]
    apply Sat.bind (h1.fileclose (f := f0) (by omega))
    rintro s2 ⟨h2, hframe2⟩
    refine ⟨.inl ⟨rfl, ?_⟩, hframe2.1.trans hframe1.1, hframe2.2.trans hframe1.2⟩
    apply h2.congr
    intro g
    omega
  rw [halloc1]
  dsimp only
  have hne : f0 ≠ f1 := by
    intro heq
    rw [heq, hzero1] at hone0
    cases hone0
  have h2 := h1.filealloc hzero1
  have hself1 : (s1.setFile f1 { s1.file f1 with ref := 1 }).file f1 = { s1.file f1 with ref := 1 } :=
    Function.update_self ..
  have hother0 : (s1.setFile f1 { s1.file f1 with ref := 1 }).file f0 = s1.file f0 :=
    Function.update_of_ne hne ..
  have hone1 : ((s1.setFile f1 { s1.file f1 with ref := 1 }).file f1).ref = 1 := by
    rw [hself1]
  have htype1 : ((s1.setFile f1 { s1.file f1 with ref := 1 }).file f1).type = .none := by
    rw [hself1]
    exact h1.unused f1 hzero1
  rw [← hother0] at hone0 htype0
  have hframe2 : Frame s (s1.setFile f1 { s1.file f1 with ref := 1 }) := hframe1
  generalize s1.setFile f1 { s1.file f1 with ref := 1 } = s2
    at h2 hone0 htype0 hone1 htype1 hframe2 ⊢
  split
  . refine ⟨.inr ⟨f0, f1, rfl, ?_⟩, hframe2⟩
    have hfile1 : ({ s2 with pipes := s2.pipes ++ [Pipe.mk true true 0] }.setFile f0
        { s2.file f0 with type := .pipe s2.pipes.length, readable := true, writable := false }).file f1
          = s2.file f1 := Function.update_of_ne (Ne.symm hne) ..
    refine Counts.newPipe h2 hne htype0 htype1 rfl ?_ (by omega) (by omega)
    rw [hfile1]
  . have hpos1 := hextra f1
    apply Sat.bind (h2.fileclose (f := f0) (by omega))
    rintro s3 ⟨h3, hframe3⟩
    have href1 := h3.ref f1
    have hslots := s3.slots_nonneg f1
    rw [unit_of_ne hne, unit_self] at href1
    apply Sat.bind (h3.fileclose (f := f1) (by omega))
    rintro s4 ⟨h4, hframe4⟩
    refine ⟨.inl ⟨rfl, ?_⟩, hframe4.1.trans (hframe3.1.trans hframe2.1),
      hframe4.2.trans (hframe3.2.trans hframe2.2)⟩
    apply h4.congr
    intro g
    omega

section
variable [DecidableEq P]

theorem slots_setOfile (s : State n P) (p : P) (fd : Fin NOFILE) (v : Option (Fin NFILE)) (f : Fin NFILE)
    : (s.setOfile p fd v).slots f = s.slots f - refers f (s.ofile (p, fd)) + refers f v :=
  Count.total_update (refers f) s.ofile (p, fd) v

theorem Counts.setOfile (p : P) (fd : Fin NOFILE) (v : Option (Fin NFILE)) (h : s.Counts extra)
    : (s.setOfile p fd v).Counts fun f => extra f + refers f (s.ofile (p, fd)) - refers f v where
  ref := by
    intro f
    rw [slots_setOfile]
    change (s.file f).ref = _
    rw [h.ref]
    omega
  unused := h.unused
  known := h.known
  single := h.single
  readable := h.readable
  readopen := h.readopen
  writeopen := h.writeopen
  kfreed := h.kfreed

theorem Counts.setCwd (p : P) (cwd : Option (Fin n)) (h : s.Counts extra)
    : (s.setCwd p cwd).Counts extra :=
  ⟨h.ref, h.unused, h.known, h.single, h.readable, h.readopen, h.writeopen, h.kfreed⟩

theorem Counts.fdalloc {p : P} {fd : Fin NOFILE} (h : s.Counts extra)
    (hnone : s.ofile (p, fd) = none)
    : (s.setOfile p fd (some f)).Counts fun g => extra g - unit f g := by
  apply (h.setOfile p fd (some f)).congr
  intro g
  rw [hnone, refers_none, refers_some]
  omega

end
end
end State
end Xv6.Sysfile
