import Xv6.Vm.Resize

namespace Xv6
namespace Exec

open Vm

variable {L : Layout} {x : Owner} {i : Nat}

def State.caller (s : Sys) (x : Owner) (fails : List Bool) (io : Io) (eip esp : Nat)
    (name : List UInt8) : State where
  kmem := { s.kmem with plan := fails }
  io := io
  proc := { pgdir := x.pgdir, sz := x.sz, eip, esp, name }

theorem validPages_caller {s : Sys} (hinv : Inv L s) (hi : i < 64)
    (hx : s.slot i = some x) (fails : List Bool) (io : Io) (eip esp : Nat) (name : List UInt8)
    : ValidPages L (.caller s x fails io eip esp name) := by
  intro pg hpg
  have hacc := hinv.account_slot hi hx
  apply hacc.valid
  have := hacc.count pg
  simp only [State.caller, Owner.own] at hpg this
  omega

theorem count_add_own_le {s : Sys} (hinv : Inv L s) (hi : i < 64)
    (hx : s.slot i = some x) (pg : Nat)
    : s.kmem.freelist.count pg + x.pgdir.own pg ≤ 1 := by
  have hcount := (hinv.account_slot hi hx).count pg
  have hone := between_le_one (pgRoundUp L.kend) PHYSTOP pg
  rw [pool, Owner.own] at hcount
  omega

/--
`exec` never runs into a `panic`. If it returns `-1`, nothing has changed: the pages that it has
taken are free again, and the pages of the process have the same contents. If it returns `0`, the
pages of the old page directory are free, and those of the new one were free before. Either way
nothing is held of the file system.
-/
theorem exec_all_or_nothing (copyout : Copyout) {n : Nat} {plan : List Bool} {mem : Nat → Page}
    {init : Page} {s₀ s : Sys} (hboot : boot L n plan mem init = .ok (some s₀))
    (hreach : Reach.Reachable s₀ (Steps L copyout) s) (hi : i < 64) (hx : s.slot i = some x)
    (hcopy : CopyoutSpec copyout) (fails : List Bool) (io : Io) (eip esp : Nat) (name : List UInt8)
    (file : Option (List UInt8)) (path : List UInt8) (argv : List (List UInt8))
    : ∃ e r, exec L copyout file path argv (.caller s x fails io eip esp name) = .ok (e, r) ∧ e.io = io
      ∧ (r = -1 ∧ e.proc = ⟨x.pgdir, x.sz, eip, esp, name⟩ ∧ e.kmem.freelist.Perm s.kmem.freelist
          ∧ (∀ pg, 0 < x.pgdir.own pg → e.kmem.mem pg = s.kmem.mem pg)
        ∨ r = 0 ∧ (∀ pg, e.proc.pgdir.own pg ≤ s.kmem.freelist.count pg)
          ∧ ∀ pg, e.kmem.freelist.count pg + e.proc.pgdir.own pg = s.kmem.freelist.count pg + x.pgdir.own pg) := by
  have hinv := Inv.of_reachable hboot hreach
  have hvalid := validPages_caller hinv hi hx fails io eip esp name
  rcases exec_spec copyout (P := fun pg => pg ∉ s.kmem.freelist) (fun _ h => h) (fun _ _ => hcopy)
      (hinv.fits i x hx).closed hvalid file path argv
    with ⟨e, r, hexec, hio, hcases⟩
  refine ⟨e, r, hexec, hio, ?_⟩
  rcases hcases with ⟨hr, hundone⟩ | ⟨hr, hreplaced⟩
  . refine .inl ⟨hr, hundone.proc_eq, List.perm_iff_count.mpr hundone.pages, ?_⟩
    intro pg hpg
    apply hundone.mem_eq
    have := count_add_own_le hinv hi hx pg
    exact List.count_eq_zero.mp (by omega)
  . exact .inr ⟨hr, hreplaced.taken, hreplaced.freed⟩

def uva2ka (d : PageDir) (a : Nat) : Option (Nat × Nat) :=
  match d.pte (a / 4096) with
  | none => none
  | some e => if e.u then some (e.pa, a % 4096) else none

def load (mem : Nat → Page) (d : PageDir) (a : Nat) : Option UInt8 :=
  (uva2ka d a).map fun x => mem x.1 x.2

theorem uva2ka_of_top {d : PageDir} {t : Nat} {e : Pte} (he : d.pte t = some e) (hu : e.u = true)
    {a : Nat} (hlow : 4096 * t ≤ a) (hhigh : a < 4096 * (t + 1))
    : uva2ka d a = some (e.pa, a - 4096 * t) := by
  have hdiv : a / 4096 = t := by omega
  have hmod : a % 4096 = a - 4096 * t := by omega
  rw [uva2ka, hdiv, he, hmod]
  exact if_pos hu

structure CopyoutMeets (copyout : Copyout) : Prop where
  ok_iff : ∀ mem d va l, (copyout mem d va l).2 = true
    ↔ ∀ i, i < l.length → uva2ka d ((va + i) % 2 ^ 32) ≠ none
  copies : ∀ mem d va l, (copyout mem d va l).2 = true
    → (∀ i j, i < l.length → j < l.length
      → uva2ka d ((va + i) % 2 ^ 32) = uva2ka d ((va + j) % 2 ^ 32) → i = j)
    → ∀ i b, l[i]? = some b → load (copyout mem d va l).1 d ((va + i) % 2 ^ 32) = some b
  frame : ∀ mem d va l pg o, (∀ i, i < l.length → uva2ka d ((va + i) % 2 ^ 32) ≠ some (pg, o))
    → (copyout mem d va l).1 pg o = mem pg o

def copyBytes : Copyout := fun mem d va l =>
  (fun pg o =>
    match (List.range l.length).find? fun i => uva2ka d ((va + i) % 2 ^ 32) = some (pg, o) with
    | some i => l.getD i 0
    | none => mem pg o,
   (List.range l.length).all fun i => (uva2ka d ((va + i) % 2 ^ 32)).isSome)

theorem copyBytes_meets : CopyoutMeets copyBytes where
  ok_iff mem d va l := by
    simp only [copyBytes, List.all_eq_true, List.mem_range, Option.isSome_iff_ne_none]
  copies mem d va l hok hinj i b hb := by
    have hi : i < l.length := (List.getElem?_eq_some_iff.mp hb).1
    simp only [copyBytes, List.all_eq_true, List.mem_range, Option.isSome_iff_exists] at hok
    rcases hok i hi with ⟨⟨pg, o⟩, hplace⟩
    have hfind : (List.range l.length).find? (fun j => uva2ka d ((va + j) % 2 ^ 32) = some (pg, o))
        = some i := by
      cases hcase : (List.range l.length).find? (fun j => uva2ka d ((va + j) % 2 ^ 32) = some (pg, o)) with
      | none =>
        have := List.find?_eq_none.mp hcase i (List.mem_range.mpr hi)
        simp only [hplace, decide_true, not_true_eq_false] at this
      | some j =>
        have hj := List.mem_range.mp (List.mem_of_find?_eq_some hcase)
        have heq : uva2ka d ((va + j) % 2 ^ 32) = some (pg, o) := by
          have hfound := List.find?_some hcase
          exact of_decide_eq_true hfound
        rw [hinj j i hj hi (heq.trans hplace.symm)]
    rw [load, hplace, Option.map_some]
    simp only [copyBytes, hfind, List.getD_eq_getElem?_getD, hb, Option.getD_some]
  frame mem d va l pg o hout := by
    have hfind : (List.range l.length).find? (fun j => uva2ka d ((va + j) % 2 ^ 32) = some (pg, o))
        = none := by
      apply List.find?_eq_none.mpr
      intro i hi heq
      exact hout i (List.mem_range.mp hi) (of_decide_eq_true heq)
    simp only [copyBytes, hfind]

theorem copyBytes_spec : CopyoutSpec copyBytes := by
  intro mem d va l pg hout
  funext o
  apply copyBytes_meets.frame
  intro i _ hplace
  unfold uva2ka at hplace
  split at hplace
  next => cases hplace
  next e he =>
    split at hplace
    next hu =>
      cases hplace
      exact hout _ e he hu rfl
    next => cases hplace

/-- The header of a program without segments. -/
def nullProgram : List UInt8 :=
  [0x7F, 0x45, 0x4C, 0x46] ++ List.replicate 48 0

theorem buildStack_succeeds {k k' : Kmem} {d d' : PageDir} {r : Option (Nat × Nat)} (hnodup : k.freelist.Nodup)
    (hplenty : Plenty k 4) (h : buildStack L copyBytes k d 0 [[97]] = .ok (k', d', r))
    : r ≠ none := by
  unfold buildStack at h
  rcases Outcome.bind_eq_ok.mp h with ⟨⟨k₁, d₁, sz⟩, halloc, h⟩
  have hround : pgRoundUp 0 = 0 := by decide
  rw [hround, allocuvm, if_neg (by decide), if_neg (by decide), hround] at halloc
  have hsz := allocLoop_succeeds rfl hplenty halloc
  subst hsz
  rcases (allocLoop_zeroes rfl hnodup halloc (by decide)).2.2 1 (by decide) (by decide)
    with ⟨pg, -, -, hpte, -⟩
  dsimp only at h
  rw [if_neg (by decide)] at h
  rcases Outcome.bind_eq_ok.mp h with ⟨d₂, hclear, h⟩
  have hpte₂ : d₂.pte 1 = some ⟨pg, true, true, 0⟩ := by
    unfold clearpteu at hclear
    split at hclear
    next =>
      cases hclear
      exact (pte_setPte_of_ne (by decide) _).trans hpte
    next => cases hclear
  have hok : ∀ k va l, 4096 ≤ va → va + l.length ≤ 8192 → ∃ k', copyTo copyBytes k d₂ va l = (k', true) := by
    intro k va l hlow hhigh
    refine ⟨_, Prod.ext rfl ((copyBytes_meets.ok_iff k.mem ..).mpr ?_)⟩
    intro i hi
    rw [Nat.mod_eq_of_lt (by omega), uva2ka_of_top hpte₂ rfl (by omega) (by omega)]
    exact Option.some_ne_none _
  rcases hok k₁ 8188 [97, 0] (by decide) (by decide) with ⟨k₂, hstring⟩
  rcases hok k₂ 8168 ([2 ^ 32 - 1, 1, 8180, 8188, 0].flatMap word) (by decide) (by decide) with ⟨k₃, hvector⟩
  have hpush : pushArgs copyBytes k₁ d₂ (0 + 2 * 4096) [] [[97]] = (k₂, some (8188, [8188])) := by
    simp only [pushArgs, List.length_nil, Nat.reduceLeDiff, if_false, List.length_cons, Nat.reduceAdd,
      Nat.reduceMul, Nat.reducePow, Nat.reduceMod, Nat.reduceSub, Nat.reduceDiv, List.cons_append,
      List.nil_append, hstring]
  rw [hpush] at h
  simp only [List.length_cons, List.length_nil, Nat.reduceAdd, Nat.reduceMul, Nat.reducePow, Nat.reduceMod,
    Nat.reduceSub, List.cons_append, List.nil_append] at h hvector
  rw [hvector] at h
  cases h
  exact Option.some_ne_none _

theorem nodup_freelist {s : Sys} (hinv : Inv L s) (hi : i < 64) (hx : s.slot i = some x)
    : s.kmem.freelist.Nodup := by
  rw [List.nodup_iff_count_le_one]
  intro pg
  have := count_add_own_le hinv hi hx pg
  omega

theorem exec_succeeds {s e : State} {path : List UInt8} {r : Int} (hvalid : ValidPages L s)
    (hnodup : s.kmem.freelist.Nodup) (hplan : s.kmem.plan = []) (hlen : 600 ≤ s.kmem.freelist.length)
    (h : exec L copyBytes (some nullProgram) path [[97]] s = .ok (e, r))
    : r = 0 := by
  have helf : readElf nullProgram = some nullProgram := by decide +kernel
  have hacc : Account L s.kmem.freelist.count (fun _ => False) s.kmem.mem s.kmem (fun _ => 0) :=
    ⟨fun _ => rfl, fun _ h => h.elim, fun pg hpg => hvalid pg (by omega)⟩
  unfold exec at h
  simp only [helf] at h
  rcases Outcome.bind_eq_ok.mp h with ⟨⟨k₁, r₁⟩, hsetup, h⟩
  rcases setupkvm_ready (e := 4) hplan (by omega) hsetup with ⟨d, rfl, hplan₁, hlen₁⟩
  rcases setupkvm_spec hacc with ⟨k₁', r₁', hsetup', -, hsome⟩
  rw [hsetup] at hsetup'
  cases hsetup'
  have hcount := (hsome d rfl).2.1.count
  have hnodup₁ : k₁.freelist.Nodup := by
    rw [List.nodup_iff_count_le_one] at hnodup ⊢
    intro pg
    have := hcount pg
    have := hnodup pg
    omega
  have hsegs : loadSegs L k₁ d nullProgram 0 (field nullProgram 28 4) (field nullProgram 44 2)
      = .ok (k₁, d, some 0) := by
    have hzero : field nullProgram 44 2 = 0 := by decide +kernel
    rw [hzero]
    rfl
  rcases Outcome.bind_eq_ok.mp h with ⟨y, hload, h⟩
  rw [hsegs] at hload
  cases hload
  rcases Outcome.bind_eq_ok.mp h with ⟨⟨k₂, d₂, r₂⟩, hbuild, h⟩
  have hr := buildStack_succeeds hnodup₁ (.of_plan hplan₁ hlen₁) hbuild
  rcases Option.ne_none_iff_exists'.mp hr with ⟨x, rfl⟩
  rcases Outcome.bind_eq_ok.mp h with ⟨k₃, -, h⟩
  cases h
  rfl

theorem exec_all_or_nothing_of_null
    : ∃ s x, boot smallKernel 0 [] (fun _ _ => 0) (fun _ => 0) = .ok (some s) ∧ s.slot 0 = some x
      ∧ ∃ e, exec smallKernel copyBytes (some nullProgram) [] [[97]]
          (.caller s x [] ⟨0, 0, 0⟩ 0 4096 []) = .ok (e, 0)
        ∧ e.io = ⟨0, 0, 0⟩ ∧ ∀ pg, e.proc.pgdir.own pg ≤ s.kmem.freelist.count pg := by
  rcases boot_ok (L := smallKernel) (by decide) (fun _ _ => 0) (fun _ => 0) with ⟨s, x, hboot, hx, -, -, hlen⟩
  rcases exec_all_or_nothing copyBytes hboot .refl (by decide) hx copyBytes_spec [] ⟨0, 0, 0⟩ 0 4096 []
      (some nullProgram) [] [[97]]
    with ⟨e, r, hexec, hio, hcases⟩
  have hr := exec_succeeds (validPages_caller (.boot hboot) (by decide) hx [] ⟨0, 0, 0⟩ 0 4096 [])
    (nodup_freelist (.boot hboot) (by decide) hx) rfl hlen hexec
  rcases hcases with ⟨hminus, -⟩ | ⟨-, htaken, -⟩
  . rw [hr] at hminus
    cases hminus
  . rw [hr] at hexec
    exact ⟨s, x, hboot, hx, e, hexec, hio, htaken⟩

end Exec
end Xv6
