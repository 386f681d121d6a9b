import Xv6.Exec.AllOrNothing
import Xv6.Lib.Reach
import Xv6.Vm.Boot
import Xv6.Vm.Calls

namespace Xv6
namespace Vm

open Tally

variable {L : Layout} {c : Nat → Nat} {P : Nat → Prop} {m : Nat → Page} {k : Kmem} {X : Nat → Nat} {d : PageDir}
  {s s' : Sys} {i : Nat} {x : Owner} {copyout : Exec.Copyout} {mem : Nat → Page} {k' : Kmem} {plan : List Bool}
  {init : Page} {sz : Nat} {n : Nat}

structure Fits (d : PageDir) (sz : Nat) : Prop where
  closed : d.Closed
  sz_le : sz ≤ KERNBASE
  above : ∀ u, sz ≤ 4096 * u → u < userPages → d.pte u = none

theorem Fits.of_image (h : Exec.Image d sz) : Fits d sz where
  closed := h.closed
  sz_le := h.sz_le
  above u hu hlt := by
    apply Classical.byContradiction
    intro hne
    have := (h.mapped u hlt).mp hne
    omega

theorem growproc_spec (n : Int) (h : Account L c P m k (fun pg => d.own pg + X pg))
    (hfits : Fits d sz)
    : ∃ k' d' sz' r, growproc L k d sz n = .ok (k', d', sz', r) ∧ Fits d' sz'
      ∧ Account L c P m k' (fun pg => d'.own pg + X pg) := by
  have hbase : KERNBASE = 2 ^ 31 := rfl
  have hle := hfits.sz_le
  unfold growproc
  simp only
  generalize ((sz + n) % 2 ^ 32).toNat = newsz
  split
  next =>
    rcases allocuvm_spec newsz h hfits.closed hfits.above
      with ⟨k', d', r, halloc, hclosed, h', hcases⟩
    rw [halloc]
    by_cases hr : r = 0
    . refine ⟨k', d', sz, -1, by simp only [bind, Except.bind, hr]; rfl, ?_, h'⟩
      rcases hcases with ⟨-, hpte⟩ | ⟨-, -, rfl⟩ | ⟨hold, hnew, hr', -, hsame⟩
      . exact ⟨hclosed, hle, fun u hu hlt => by rw [hpte]; exact hfits.above u hu hlt⟩
      . exact hfits
      . exact ⟨hclosed, hle, fun u hu hlt => by rw [hsame u (by omega)]; exact hfits.above u hu hlt⟩
    . refine ⟨k', d', r, 0, by simp only [bind, Except.bind, hr, if_false]; rfl, ?_, h'⟩
      rcases hcases with ⟨hr', -⟩ | ⟨-, rfl, rfl⟩ | ⟨hold, hnew, rfl, -, hsame⟩
      . exact absurd hr' hr
      . exact hfits
      . refine ⟨hclosed, by omega, fun u hu hlt => ?_⟩
        rw [hsame u (by omega)]
        exact hfits.above u (by omega) hlt
  next =>
    split
    next =>
      rcases deallocuvm_spec newsz h hfits.closed hle
        with ⟨k', d', r, hdealloc, hclosed, -, -, h', hpte, hr⟩
      rw [hdealloc]
      have habove : ∀ u, sz ≤ 4096 * u → u < userPages → d'.pte u = none := by
        intro u hu hlt
        rw [hpte, if_neg (by omega)]
        exact hfits.above u hu hlt
      by_cases hzero : r = 0
      . exact ⟨k', d', sz, -1, by simp only [bind, Except.bind, hzero]; rfl, ⟨hclosed, hle, habove⟩, h'⟩
      refine ⟨k', d', r, 0, by simp only [bind, Except.bind, hzero, if_false]; rfl, ?_, h'⟩
      split at hr
      next => exact ⟨hclosed, hr ▸ hle, hr ▸ habove⟩
      next hlt =>
        refine ⟨hclosed, by omega, fun u hu hu' => ?_⟩
        rw [hpte]
        split
        next => rfl
        next hout =>
          apply hfits.above u _ hu'
          unfold pgRoundUp at hout
          omega
    next => exact ⟨k, d, sz, 0, rfl, hfits, h⟩

theorem copyLoop_spec {src : PageDir} {sz i : Nat} (h : Account L c P m k (fun pg => d.own pg + X pg))
    (hclosed : d.Closed) (hi : i % 4096 = 0) (hsz : sz ≤ KERNBASE)
    (hnone : ∀ u, i ≤ 4096 * u → u < userPages → d.pte u = none) {r : Option PageDir}
    (heq : copyLoop L k src d sz i = .ok (k', r))
    : (r = none → Account L c P m k' X)
      ∧ ∀ d', r = some d' → d'.Closed ∧ Account L c P m k' (fun pg => d'.own pg + X pg)
        ∧ ∀ u, i ≤ 4096 * u → sz ≤ 4096 * u → u < userPages → d'.pte u = none := by
  induction hn : sz - i using Nat.strongRecOn generalizing k d i with
  | ind n ih =>
  have hbase : KERNBASE = 2 ^ 31 := rfl
  rw [copyLoop] at heq
  split at heq
  next hlt =>
    split at heq
    next =>
      split at heq
      next => cases heq
      next e he =>
        rcases h.kalloc with ⟨k₁, hk, h₁⟩ | ⟨k₁, mem, hk, h₁⟩
        . rcases freevm_spec h₁ hclosed with ⟨k₂, hfree, h₂⟩
          rw [hk] at heq
          simp only [hfree, bind, Except.bind] at heq
          cases heq
          exact ⟨fun _ => h₂, by rintro _ ⟨⟩⟩
        . rw [hk] at heq
          have hwrite := h₁.write (r := mem) (by rw [holds, if_pos rfl]; omega) (k₁.mem e.pa)
          rcases mapUser_spec (e := { e with pa := mem }) hwrite hclosed hi (by omega)
              (hnone (i / 4096) (by omega) (by rw [userPages_eq]; omega))
            with ⟨k₂, d₂, ok, hmap, hclosed₂, hpte, h₂⟩
          simp only [hmap, bind, Except.bind] at heq
          cases ok with
          | false =>
            have h₃ : Account L c P m k₂ (fun pg => (d₂.own pg + X pg) + holds pg (some mem)) := h₂
            rcases h₃.kfree with ⟨k₃, hfree, h₄⟩
            rcases freevm_spec h₄ hclosed₂ with ⟨k₄, hfreevm, h₅⟩
            simp only [Bool.false_eq_true, if_false, hfree, hfreevm] at heq
            cases heq
            exact ⟨fun _ => h₅, by rintro _ ⟨⟩⟩
          | true =>
            simp only [if_true] at heq
            have hother : ∀ u, u ≠ i / 4096 → d₂.pte u = d.pte u := by
              intro u hu
              rw [hpte, if_pos rfl, Function.update_of_ne hu]
            have hrec := ih _ (by omega) (h₂.congr (fun pg => by simp only [if_true, Nat.add_zero])) hclosed₂
              (show (i + 4096) % 4096 = 0 by omega) (by
                intro u hu hlt
                rw [hother u (by omega)]
                exact hnone u (by omega) hlt) heq rfl
            refine ⟨hrec.1, ?_⟩
            intro d' hd'
            rcases hrec.2 d' hd' with ⟨hclosed', h', habove⟩
            refine ⟨hclosed', h', ?_⟩
            intro u hu hu' hlt
            exact habove u (by omega) hu' hlt
    next => cases heq
  next hge =>
    cases heq
    refine ⟨nofun, ?_⟩
    rintro d' ⟨⟩
    exact ⟨hclosed, h, fun u hu _ hlt => hnone u hu hlt⟩

theorem copyuvm_spec {src : PageDir} (h : Account L c P m k X) (hsz : sz ≤ KERNBASE) {r : Option PageDir}
    (heq : copyuvm L k src sz = .ok (k', r))
    : (r = none → Account L c P m k' X)
      ∧ ∀ d', r = some d' → Fits d' sz ∧ Account L c P m k' (fun pg => d'.own pg + X pg) := by
  rcases setupkvm_spec h with ⟨k₁, r₁, hsetup, hnone, hsome⟩
  rw [copyuvm, hsetup] at heq
  simp only [bind, Except.bind] at heq
  cases r₁ with
  | none =>
    cases heq
    exact ⟨hnone, nofun⟩
  | some d =>
    rcases hsome d rfl with ⟨hclosed, h₁, hempty, -⟩
    have hloop := copyLoop_spec h₁ hclosed (Nat.zero_mod 4096) hsz (fun u _ hlt => hempty u hlt) heq
    refine ⟨hloop.1, ?_⟩
    intro d' hd'
    rcases hloop.2 d' hd' with ⟨hclosed', h', habove⟩
    exact ⟨⟨hclosed', hsz, fun u hu hlt => habove u (Nat.zero_le _) hu hlt⟩, h'⟩

def Owner.own (x : Owner) (pg : Nat) : Nat :=
  holds pg (some x.kstack) + x.pgdir.own pg

def slotOwn (pg : Nat) (o : Option Owner) : Nat :=
  match o with
  | none => 0
  | some x => x.own pg

def Sys.others (s : Sys) (pg : Nat) : Nat :=
  s.kpgdir.own pg + s.cpuStacks.count pg + tally (slotOwn pg) s.slot 64
    + (s.pipes.map Pipe.page).count pg

def between (lo hi : Nat) (pg : Nat) : Nat :=
  if pg % 4096 = 0 ∧ lo ≤ pg ∧ pg + 4096 ≤ hi then 1 else 0

def pool (L : Layout) (pg : Nat) : Nat :=
  between (pgRoundUp L.kend) PHYSTOP pg

structure Inv (L : Layout) (s : Sys) : Prop where
  pages : ∀ pg, s.kmem.freelist.count pg + s.others pg = pool L pg
  fits : ∀ i x, s.slot i = some x → Fits x.pgdir x.sz

theorem between_pos {lo hi pg : Nat} (h : 0 < between lo hi pg)
    : pg % 4096 = 0 ∧ lo ≤ pg ∧ pg + 4096 ≤ hi := by
  unfold between at h
  split at h
  next hin => exact hin
  next => omega

theorem between_le_one (lo hi pg : Nat) : between lo hi pg ≤ 1 := by
  unfold between
  split <;> decide

theorem valid_of_pool {pg : Nat} (h : 0 < pool L pg)
    : pg % 4096 = 0 ∧ L.kend ≤ pg ∧ pg < PHYSTOP := by
  have := between_pos h
  have := le_pgRoundUp L.kend
  omega

theorem Inv.account (h : Inv L s) : Account L (pool L) (fun _ => False) s.kmem.mem s.kmem s.others where
  count := h.pages
  frame := nofun
  valid _ := valid_of_pool

theorem others_setSlot (hi : i < 64) (o : Option Owner) (pg : Nat)
    : (s.setSlot i o).others pg + slotOwn pg (s.slot i) = s.others pg + slotOwn pg o := by
  have := tally_update (w := slotOwn pg) (f := s.slot) hi o
  simp only [Sys.others, Sys.setSlot]
  omega

theorem slot_setSlot_self (s : Sys) (i : Nat) (o : Option Owner) : (s.setSlot i o).slot i = o := by
  exact Function.update_self i o s.slot

theorem slot_setSlot_of_ne (s : Sys) {i j : Nat} (h : i ≠ j) (o : Option Owner)
    : (s.setSlot j o).slot i = s.slot i := by
  exact Function.update_of_ne h o s.slot

theorem fits_setSlot {j : Nat} (hfits : ∀ i x, s.slot i = some x → Fits x.pgdir x.sz) (hx : Fits x.pgdir x.sz)
    : ∀ i y, (s.setSlot j (some x)).slot i = some y → Fits y.pgdir y.sz := by
  intro i y hy
  by_cases hij : i = j
  . rw [hij, slot_setSlot_self] at hy
    cases hy
    exact hx
  . rw [slot_setSlot_of_ne s hij] at hy
    exact hfits i y hy

theorem Inv.account_slot (h : Inv L s) (hi : i < 64) (hx : s.slot i = some x)
    : Account L (pool L) (fun _ => False) s.kmem.mem s.kmem
      (fun pg => x.own pg + (s.setSlot i none).others pg) := by
  apply h.account.congr
  intro pg
  have := others_setSlot (s := s) hi none pg
  rw [hx] at this
  simp only [slotOwn] at this
  omega

theorem Inv.of_account_slot (x' : Owner) (h : Inv L s) (hi : i < 64) (hx : s.slot i = some x)
    (hacc : Account L (pool L) P m k (fun pg => x'.own pg + (s.setSlot i none).others pg))
    (hfits : Fits x'.pgdir x'.sz)
    : Inv L (Sys.setSlot { s with kmem := k } i (some x')) where
  pages pg := by
    have := hacc.count pg
    have hnone := others_setSlot (s := s) hi none pg
    have hsome := others_setSlot (s := s) hi (some x') pg
    rw [hx] at hnone hsome
    simp only [slotOwn] at hnone hsome
    show k.freelist.count pg + (s.setSlot i (some x')).others pg = pool L pg
    omega
  fits := fits_setSlot (s := { s with kmem := k }) h.fits hfits

section
variable (h : Inv L s)
include h

theorem Inv.exit (hi : i < 64) (hx : s.slot i = some x)
    : Inv L (s.setSlot i (some { x with zombie := true })) := by
  exact h.of_account_slot { x with zombie := true } hi hx
    ((h.account_slot hi hx).congr (fun _ => rfl)) (h.fits i x hx)

theorem Inv.sbrk {n r : Int} (hi : i < 64) (hx : s.slot i = some x)
    (heq : growproc L s.kmem x.pgdir x.sz n = .ok (k, d, sz, r))
    : Inv L (Sys.setSlot { s with kmem := k } i (some { x with pgdir := d, sz })) := by
  have hacc : Account L (pool L) (fun _ => False) s.kmem.mem s.kmem (fun pg => x.pgdir.own pg
      + (holds pg (some x.kstack) + (s.setSlot i none).others pg)) := by
    apply (h.account_slot hi hx).congr
    intro pg
    rw [Owner.own]
    omega
  rcases growproc_spec n hacc (h.fits i x hx) with ⟨k', d', sz', r', heq', hfits, hacc'⟩
  rw [heq'] at heq
  cases heq
  refine h.of_account_slot { x with pgdir := d, sz } hi hx (hacc'.congr ?_) hfits
  intro pg
  simp only [Owner.own]
  omega

theorem Inv.exec {file : Option (List UInt8)} {path : List UInt8}
    {argv : List (List UInt8)} (hi : i < 64)
    (hx : s.slot i = some x) (heq : execCall L copyout s x i file path argv = .ok s')
    : Inv L s' := by
  have hacc := h.account_slot hi hx
  have hvalid : Exec.ValidPages L
      ⟨s.kmem, ⟨0, 0, 0⟩, ⟨x.pgdir, x.sz, 0, 0, []⟩⟩ := by
    intro pg hpg
    apply hacc.valid
    have := hacc.count pg
    rw [Owner.own] at this
    simp only at hpg
    omega
  rcases Exec.exec_spec copyout (P := fun _ => False) nofun nofun (h.fits i x hx).closed hvalid
      file path argv
    with ⟨e, r, hexec, -, hcases⟩
  unfold execCall at heq
  simp only [hexec, bind, Except.bind] at heq
  cases heq
  -- whether or not it has been replaced, the directory and the free list hold the same pages
  have hsum : ∀ pg, e.kmem.freelist.count pg + e.proc.pgdir.own pg
      = s.kmem.freelist.count pg + x.pgdir.own pg := by
    intro pg
    rcases hcases with ⟨-, hundone⟩ | ⟨-, hreplaced⟩
    . rw [hundone.pages, hundone.proc_eq]
    . exact hreplaced.freed pg
  have hfits : Fits e.proc.pgdir e.proc.sz := by
    rcases hcases with ⟨-, hundone⟩ | ⟨-, hreplaced⟩
    . rw [hundone.proc_eq]
      exact h.fits i x hx
    . exact .of_image hreplaced.image
  refine h.of_account_slot (P := fun _ => False) (m := e.kmem.mem)
    { x with pgdir := e.proc.pgdir, sz := e.proc.sz } hi hx
    ⟨?_, nofun, hacc.valid⟩ hfits
  intro pg
  have := hacc.count pg
  have := hsum pg
  simp only [Owner.own] at *
  omega

theorem Inv.kmem (hacc : Account L (pool L) P m k s.others) : Inv L { s with kmem := k } where
  pages := hacc.count
  fits := h.fits

theorem Inv.fork {j : Nat} (hx : s.slot i = some x) (hj : j < 64)
    (hfree : s.slot j = none) (heq : fork L s x j = .ok s')
    : Inv L s' := by
  unfold Vm.fork at heq
  rcases h.account.kalloc with ⟨k₁, hk, h₁⟩ | ⟨k₁, kstack, hk, h₁⟩
  . rw [hk] at heq
    cases heq
    exact h.kmem h₁
  . rw [hk] at heq
    simp only [bind, Except.bind] at heq
    cases hcopy : copyuvm L k₁ x.pgdir x.sz with
    | error e =>
      rw [hcopy] at heq
      cases heq
    | ok y =>
      rcases y with ⟨k₂, r⟩
      rw [hcopy] at heq
      have hspec := copyuvm_spec h₁ (h.fits i x hx).sz_le hcopy
      cases r with
      | none =>
        rcases (hspec.1 rfl).kfree with ⟨k₃, hkfree, h₃⟩
        simp only [hkfree] at heq
        cases heq
        exact h.kmem h₃
      | some d =>
        rcases hspec.2 d rfl with ⟨hfits, h₂⟩
        cases heq
        refine ⟨?_, fits_setSlot (s := { s with kmem := k₂ }) h.fits hfits⟩
        intro pg
        have := h₂.count pg
        have hset := others_setSlot (s := { s with kmem := k₂ }) hj (some ⟨kstack, d, x.sz, false⟩) pg
        simp only [hfree, slotOwn, Owner.own] at hset
        show k₂.freelist.count pg
          + (Sys.setSlot { s with kmem := k₂ } j (some ⟨kstack, d, x.sz, false⟩)).others pg = pool L pg
        have hothers : ({ s with kmem := k₂ } : Sys).others pg = s.others pg := rfl
        omega

theorem Inv.wait (hi : i < 64) (hx : s.slot i = some x) (heq : reap L s x i = .ok s')
    : Inv L s' := by
  have hacc : Account L (pool L) (fun _ => False) s.kmem.mem s.kmem (fun pg => (x.pgdir.own pg
      + (s.setSlot i none).others pg) + holds pg (some x.kstack)) := by
    apply (h.account_slot hi hx).congr
    intro pg
    rw [Owner.own]
    omega
  rcases hacc.kfree with ⟨k₁, hkfree, h₁⟩
  rcases freevm_spec h₁ (h.fits i x hx).closed with ⟨k₂, hfreevm, h₂⟩
  unfold reap at heq
  simp only [hkfree, hfreevm, bind, Except.bind] at heq
  cases heq
  refine ⟨h₂.count, ?_⟩
  intro j y hy
  by_cases hij : j = i
  . rw [hij, slot_setSlot_self] at hy
    cases hy
  . rw [slot_setSlot_of_ne _ hij] at hy
    exact h.fits j y hy

theorem Inv.pipe {files fds : Bool} (heq : pipealloc L s files fds = .ok s')
    : Inv L s' := by
  unfold pipealloc at heq
  split at heq
  next =>
    rcases h.account.kalloc with ⟨k₁, hk, h₁⟩ | ⟨k₁, page, hk, h₁⟩
    . rw [hk] at heq
      cases heq
      exact h.kmem h₁
    . rw [hk] at heq
      simp only at heq
      split at heq
      next =>
        cases heq
        refine ⟨?_, h.fits⟩
        intro pg
        have := h₁.count pg
        simp only [Sys.others, List.map_cons, List.count_cons, holds, Option.some.injEq, beq_iff_eq]
          at this ⊢
        omega
      next =>
        rcases h₁.kfree with ⟨k₂, hkfree, h₂⟩
        simp only [hkfree, bind, Except.bind] at heq
        cases heq
        exact h.kmem h₂
  next =>
    cases heq
    exact h

end

theorem count_eraseIdx {l : List Pipe} {p : Pipe} (hp : l[i]? = some p) (pg : Nat)
    : (l.map Pipe.page).count pg = ((l.eraseIdx i).map Pipe.page).count pg + holds pg (some p.page) := by
  induction l generalizing i with
  | nil => cases hp
  | cons q l ih =>
    cases i with
    | zero =>
      cases hp
      simp only [List.eraseIdx_cons_zero, List.map_cons, List.count_cons, holds, Option.some.injEq,
        beq_iff_eq]
    | succ i =>
      have := ih (i := i) hp
      simp only [List.eraseIdx_cons_succ, List.map_cons, List.count_cons, this]
      omega

theorem count_set {l : List Pipe} {p q : Pipe} (hp : l[i]? = some p) (hq : q.page = p.page)
    : (l.set i q).map Pipe.page = l.map Pipe.page := by
  induction l generalizing i with
  | nil => rfl
  | cons r l ih =>
    cases i with
    | zero =>
      cases hp
      simp only [List.set_cons_zero, List.map_cons, hq]
    | succ i =>
      simp only [List.set_cons_succ, List.map_cons, ih (i := i) hp]

theorem Inv.pipeclose {p : Pipe} {writable : Bool} (h : Inv L s) (hp : s.pipes[i]? = some p)
    (heq : pipeclose L s p i writable = .ok s')
    : Inv L s' := by
  unfold Vm.pipeclose at heq
  simp only at heq
  generalize hq : (if writable then { p with writeopen := false } else { p with readopen := false })
    = q at heq
  have hpage : q.page = p.page := by
    rw [← hq]
    split <;> rfl
  split at heq
  next =>
    have hacc : Account L (pool L) (fun _ => False) s.kmem.mem s.kmem
        (fun pg => Sys.others { s with pipes := s.pipes.eraseIdx i } pg + holds pg (some q.page)) := by
      apply h.account.congr
      intro pg
      have := count_eraseIdx hp pg
      rw [hpage]
      simp only [Sys.others]
      omega
    rcases hacc.kfree with ⟨k₁, hkfree, h₁⟩
    simp only [hkfree, bind, Except.bind] at heq
    cases heq
    exact ⟨h₁.count, h.fits⟩
  next =>
    cases heq
    refine ⟨?_, h.fits⟩
    intro pg
    have := h.pages pg
    simp only [Sys.others, count_set hp hpage] at this ⊢
    exact this

theorem Inv.step {op : Op} (h : Inv L s) (hstep : Steps L copyout s op s')
    : Inv L s' := by
  cases hstep with
  | fork hi hx halive hj hfree heq => exact h.fork hx hj hfree heq
  | exec hi hx halive heq => exact h.exec hi hx heq
  | exit hi hx => exact h.exit hi hx
  | wait hi hx hzombie heq => exact h.wait hi hx heq
  | sbrk hi hx halive heq => exact h.sbrk hi hx heq
  | pipe heq => exact h.pipe heq
  | pipeclose hp heq => exact h.pipeclose hp heq

theorem freerange_spec {p vend : Nat} (hp : p % 4096 = 0) (heq : freerange L k p vend = .ok k')
    : (p + 4096 ≤ vend → L.kend ≤ p) ∧ ∀ pg, k'.freelist.count pg = k.freelist.count pg + between p vend pg := by
  induction hn : vend - p using Nat.strongRecOn generalizing k p with
  | ind n ih =>
  rw [freerange] at heq
  split at heq
  next hle =>
    simp only [bind, Except.bind, kfree] at heq
    split at heq
    next => cases heq
    next k₁ hk =>
      split at hk
      next => cases hk
      next hvalid =>
        cases hk
        have hrec := (ih _ (by omega) (show (p + 4096) % 4096 = 0 by omega) heq rfl).2
        refine ⟨fun _ => by omega, ?_⟩
        intro pg
        have := hrec pg
        simp only [List.count_cons, beq_iff_eq] at this
        unfold between at this ⊢
        by_cases hpg : p = pg
        . rw [if_pos hpg, if_neg (by omega)] at this
          rw [if_pos (by omega)]
          exact this
        rw [if_neg hpg] at this
        by_cases hin : pg % 4096 = 0 ∧ p + 4096 ≤ pg ∧ pg + 4096 ≤ vend
        . rw [if_pos hin] at this
          rw [if_pos (by omega)]
          exact this
        . rw [if_neg hin] at this
          rw [if_neg (by omega)]
          exact this
  next hlt =>
    cases heq
    refine ⟨fun hle => absurd hle hlt, ?_⟩
    intro pg
    unfold between
    rw [if_neg (by omega)]
    rfl

theorem startothers_spec (h : Account L c P m k X) {cpuStacks : List Nat}
    (heq : startothers k n = some (k', cpuStacks))
    : Account L c P m k' (fun pg => cpuStacks.count pg + X pg) := by
  induction n generalizing k k' X cpuStacks with
  | zero =>
    cases heq
    exact h.congr (fun pg => Nat.zero_add _)
  | succ n ih =>
    unfold startothers at heq
    rcases h.kalloc with ⟨k₁, hk, h₁⟩ | ⟨k₁, stack, hk, h₁⟩
    . rw [hk] at heq
      cases heq
    . rw [hk] at heq
      rcases Option.map_eq_some_iff.mp heq with ⟨⟨k₂, rest⟩, hrest, hpair⟩
      cases hpair
      apply (ih h₁ hrest).congr
      intro pg
      simp only [List.count_cons, beq_iff_eq, holds, Option.some.injEq]
      omega

theorem inituvm_spec (h : Account L c P m k (fun pg => d.own pg + X pg))
    (hclosed : d.Closed) (hempty : ∀ u, u < userPages → d.pte u = none) {d' : PageDir}
    (heq : inituvm k d init = .ok (some (k', d')))
    : Fits d' 4096 ∧ d'.pte 0 ≠ none ∧ Account L c P m k' (fun pg => d'.own pg + X pg) := by
  have hbase : KERNBASE = 2 ^ 31 := rfl
  unfold inituvm at heq
  rcases h.kalloc with ⟨k₁, hk, h₁⟩ | ⟨k₁, mem, hk, h₁⟩
  . rw [hk] at heq
    cases heq
  . rw [hk] at heq
    rcases mapUser_spec (e := ⟨mem, true, true, 0⟩) h₁ hclosed (Nat.zero_mod 4096) (by omega)
        (hempty _ (by rw [userPages_eq]; omega))
      with ⟨k₂, d₂, ok, hmap, hclosed₂, hpte, h₂⟩
    simp only [hmap, bind, Except.bind] at heq
    cases ok with
    | false => cases heq
    | true =>
      cases heq
      have h₃ : Account L c P m k₂ (fun pg => d'.own pg + X pg) :=
        h₂.congr (fun pg => by simp only [if_true, Nat.add_zero])
      have hself : d'.pte 0 = some ⟨mem, true, true, 0⟩ := by
        rw [hpte, if_pos rfl]
        exact Function.update_self _ _ _
      refine ⟨⟨hclosed₂, by omega, ?_⟩, Option.ne_none_iff_exists'.mpr ⟨_, hself⟩, h₃.write ?_ init⟩
      . intro u hu hlt
        rw [hpte, if_pos rfl, Function.update_of_ne (by omega)]
        exact hempty u hlt
      . have := Exec.own_pos (v := 0) (by rw [userPages_eq]; omega) hself
        simp only at this
        omega

theorem userinit_spec (h : Account L c P m k X) {x : Owner}
    (heq : userinit L k init = .ok (some (k', x)))
    : Fits x.pgdir x.sz ∧ x.sz = 4096 ∧ x.pgdir.pte 0 ≠ none
      ∧ Account L c P m k' (fun pg => x.own pg + X pg) := by
  unfold userinit at heq
  rcases h.kalloc with ⟨k₁, hk, h₁⟩ | ⟨k₁, kstack, hk, h₁⟩
  . rw [hk] at heq
    cases heq
  . rw [hk] at heq
    rcases setupkvm_spec h₁ with ⟨k₂, r, hsetup, -, hsome⟩
    simp only [hsetup, bind, Except.bind] at heq
    cases r with
    | none => cases heq
    | some d =>
      rcases hsome d rfl with ⟨hclosed, h₂, hempty, -⟩
      simp only at heq
      cases hinit : inituvm k₂ d init with
      | error e =>
        rw [hinit] at heq
        cases heq
      | ok o =>
        rw [hinit] at heq
        cases o with
        | none => cases heq
        | some y =>
          rcases y with ⟨k₃, d₃⟩
          cases heq
          rcases inituvm_spec h₂ hclosed hempty hinit with ⟨hfits, hfirst, h₃⟩
          refine ⟨hfits, rfl, hfirst, h₃.congr ?_⟩
          intro pg
          simp only [Owner.own]
          omega

theorem between_add {lo mid hi : Nat} (hlo : lo ≤ mid) (hmid : mid ≤ hi) (hlo' : lo % 4096 = 0)
    (hmid' : mid % 4096 = 0) (pg : Nat)
    : between lo mid pg + between mid hi pg = between lo hi pg := by
  unfold between
  by_cases h₁ : pg % 4096 = 0 ∧ lo ≤ pg ∧ pg + 4096 ≤ mid
  . rw [if_pos h₁, if_neg (by omega), if_pos (by omega)]
  rw [if_neg h₁]
  by_cases h₂ : pg % 4096 = 0 ∧ mid ≤ pg ∧ pg + 4096 ≤ hi
  . rw [if_pos h₂, if_pos (by omega)]
  . rw [if_neg h₂, if_neg (by omega)]

theorem account_kinit1 {k₁ : Kmem}
    (heq : freerange L ⟨[], plan, mem⟩ (pgRoundUp L.kend) (4 * 1024 * 1024) = .ok k₁)
    : Account L (between (pgRoundUp L.kend) (4 * 1024 * 1024)) (fun _ => False) mem k₁ (fun _ => 0) := by
  have hround := pgRoundUp_mod L.kend
  have hrange := (freerange_spec hround heq).2
  have hstop : PHYSTOP = 234881024 := rfl
  refine ⟨?_, nofun, ?_⟩
  . intro pg
    rw [hrange]
    exact Nat.zero_add _
  . intro pg hpg
    have := between_pos hpg
    have := le_pgRoundUp L.kend
    omega

theorem account_kinit2 {k₄ : Kmem}
    (h : Account L (between (pgRoundUp L.kend) (4 * 1024 * 1024)) (fun _ => False) m k X)
    (heq : freerange L k (4 * 1024 * 1024) PHYSTOP = .ok k₄)
    : Account L (pool L) (fun _ => False) m k₄ X := by
  have hstop : PHYSTOP = 234881024 := rfl
  have hrange := freerange_spec (by decide) heq
  have hkend : L.kend ≤ 4 * 1024 * 1024 := hrange.1 (by omega)
  refine ⟨?_, nofun, fun _ => valid_of_pool⟩
  intro pg
  have hle : pgRoundUp L.kend ≤ 4 * 1024 * 1024 := by
    unfold pgRoundUp
    omega
  have hround := pgRoundUp_mod L.kend
  have hadd := between_add hle (show 4 * 1024 * 1024 ≤ PHYSTOP by omega) hround (by decide) pg
  have := h.count pg
  rw [hrange.2, pool]
  omega

theorem Inv.boot
    (heq : boot L n plan mem init = .ok (some s))
    : Inv L s := by
  unfold Vm.boot at heq
  simp only [bind, Except.bind] at heq
  split at heq
  next => cases heq
  next k₁ hk₁ =>
    rcases setupkvm_spec (account_kinit1 hk₁) with ⟨k₂, r, hsetup, -, hsome⟩
    rw [hsetup] at heq
    cases r with
    | none => cases heq
    | some kpgdir =>
      simp only at heq
      have hacc₂ := (hsome kpgdir rfl).2.1
      split at heq
      next => cases heq
      next k₃ cpuStacks hstart =>
        have hacc₃ := startothers_spec hacc₂ hstart
        split at heq
        next => cases heq
        next k₄ hk₄ =>
          have hacc₄ := account_kinit2 hacc₃ hk₄
          cases huser : userinit L k₄ init with
          | error e =>
            rw [huser] at heq
            cases heq
          | ok o =>
            rw [huser] at heq
            cases o with
            | none => cases heq
            | some y =>
              rcases y with ⟨k₅, x⟩
              rcases userinit_spec hacc₄ huser with ⟨hfits, -, -, hacc₅⟩
              cases heq
              constructor
              . intro pg
                have := hacc₅.count pg
                have htally := tally_update (w := slotOwn pg) (f := fun _ => none)
                  (show 0 < 64 by decide) (some x)
                have hzero : tally (slotOwn pg) (fun _ => none) 64 = 0 := tally_eq_zero (fun _ _ => rfl)
                simp only [slotOwn] at htally
                simp only [Sys.others, List.map_nil, List.count_nil]
                omega
              . intro i y hy
                by_cases hi : i = 0
                . rw [hi] at hy
                  cases hy
                  exact hfits
                . simp only [Function.update_of_ne hi] at hy
                  cases hy

theorem boot_ok (hkend : L.kend ≤ 0x150000) (mem : Nat → Page) (init : Page)
    : ∃ s x, boot L 0 [] mem init = .ok (some s) ∧ s.slot 0 = some x ∧ x.sz = 4096
      ∧ x.pgdir.pte 0 ≠ none ∧ 600 ≤ s.kmem.freelist.length := by
  have hstop : PHYSTOP = 234881024 := rfl
  have hround : pgRoundUp L.kend % 4096 = 0 ∧ pgRoundUp L.kend ≤ 0x150000 := by
    unfold pgRoundUp
    omega
  rcases freerange_ok (k := ⟨[], [], mem⟩) (pgRoundUp L.kend) (4 * 1024 * 1024) hround.1
      (le_pgRoundUp L.kend) (by omega)
    with ⟨k₁, hk₁, hplan₁, hlen₁⟩
  rcases setupkvm_spec (account_kinit1 hk₁) with ⟨k₂, r, hsetup, -, hsome⟩
  rcases setupkvm_ready (e := 0) hplan₁ (by have := hlen₁ 513 (by omega); omega) hsetup
    with ⟨d, rfl, hplan₂, -⟩
  rcases freerange_ok (L := L) (k := k₂) (4 * 1024 * 1024) PHYSTOP (by decide) (by omega) (Nat.le_refl _)
    with ⟨k₄, hk₄, hplan₄, hlen₄⟩
  have hacc₄ := account_kinit2 (hsome d rfl).2.1 hk₄
  rcases userinit_ok (e := 600) init hacc₄ (hplan₄.trans hplan₂)
      (by have := hlen₄ 1116 (by omega); omega)
    with ⟨k₅, x, huser, hlen₅⟩
  have hspec := userinit_spec hacc₄ huser
  refine ⟨⟨k₅, d, [], Function.update (fun _ => none) 0 (some x), []⟩, x, ?_, rfl, hspec.2.1,
    hspec.2.2.1, hlen₅⟩
  unfold boot
  simp only [hk₁, hsetup, startothers, hk₄, huser, bind, Except.bind]
  rfl

theorem Inv.of_reachable {s₀ : Sys} (hboot : Vm.boot L n plan mem init = .ok (some s₀))
    (h : Reach.Reachable s₀ (Steps L copyout) s)
    : Inv L s := by
  exact h.induct (Inv L) (.boot hboot) (fun _ _ _ _ hinv hstep => hinv.step hstep)

/--
Whatever the processes do, each page that `freerange` has given to the allocator is in one place at any
time: in the free list, in a page directory as the directory itself, as a table or as a user page, or it
is a kernel stack or a pipe. No other page is in any of these places.
-/
theorem pages_in_one_place {s₀ : Sys} (hboot : boot L n plan mem init = .ok (some s₀))
    (h : Reach.Reachable s₀ (Steps L copyout) s) (pg : Nat)
    : s.kmem.freelist.count pg + s.others pg
      = if pg % 4096 = 0 ∧ pgRoundUp L.kend ≤ pg ∧ pg + 4096 ≤ PHYSTOP then 1 else 0 := by
  exact (Inv.of_reachable hboot h).pages pg

def smallKernel : Layout where
  data := 0x80108000
  kend := 0x115000
  data_align := by decide
  data_above := by decide
  data_below := by decide
  kend_pos := by decide

theorem pages_in_one_place_of_pipe
    : ∃ s₀ s, boot smallKernel 0 [] (fun _ _ => 0) (fun _ => 0) = .ok (some s₀)
      ∧ Reach.Reachable s₀ (Steps smallKernel fun mem _ _ _ => (mem, false)) s
      ∧ s.kmem.freelist.count 0x200000 + s.others 0x200000 = 1 := by
  rcases boot_ok (L := smallKernel) (by decide) (fun _ _ => 0) (fun _ => 0) with ⟨s₀, -, hboot, -⟩
  have hpipe : ∃ s, pipealloc smallKernel s₀ true true = .ok s := by
    unfold pipealloc
    rcases kalloc s₀.kmem with ⟨k, _ | page⟩
    . exact ⟨_, rfl⟩
    . exact ⟨_, rfl⟩
  rcases hpipe with ⟨s, hs⟩
  have hreach : Reach.Reachable s₀ (Steps smallKernel fun mem _ _ _ => (mem, false)) s :=
    Reach.Reachable.refl.tail (.pipe hs)
  refine ⟨s₀, s, hboot, hreach, ?_⟩
  rw [pages_in_one_place hboot hreach]
  decide

end Vm
end Xv6
