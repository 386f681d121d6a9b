import Xv6.Exec.Impl
import Xv6.Vm.Pages

namespace Xv6
namespace Exec

open Vm Tally

variable {L : Layout} {c : Nat → Nat} {P : Nat → Prop} {m : Nat → Page} {k : Kmem} {X : Nat → Nat} {d : PageDir}
  {copyout : Copyout}

def CopyoutSpec (copyout : Copyout) : Prop :=
  ∀ mem d va l pg, (∀ v e, d.pte v = some e → e.u = true → e.pa ≠ pg)
    → (copyout mem d va l).1 pg = mem pg

def Shielded (d : PageDir) : Prop :=
  ∀ v e, userPages ≤ v → d.pte v = some e → e.u = false

structure Image (d : PageDir) (sz : Nat) : Prop where
  closed : d.Closed
  shielded : Shielded d
  mapped : ∀ v, v < userPages → (d.pte v ≠ none ↔ 4096 * v < sz)
  sz_le : sz ≤ KERNBASE

theorem own_pos {v : Nat} {e : Pte} (hv : v < userPages) (he : d.pte v = some e) : 0 < d.own e.pa := by
  have hle : holds e.pa ((d.pte v).map Pte.pa) ≤ d.users e.pa := by
    unfold PageDir.users
    exact le_tally (w := fun x => holds e.pa (x.map Pte.pa)) (f := d.pte) hv
  rw [he, Option.map_some, holds, if_pos rfl] at hle
  rw [PageDir.own]
  omega

theorem account_copyout (h : Account L c P m k (fun pg => d.own pg + X pg))
    (hcopy : ∀ pg, P pg → CopyoutSpec copyout) (hshield : Shielded d) (va : Nat) (l : List UInt8)
    : Account L c P m (copyTo copyout k d va l).1 (fun pg => d.own pg + X pg) where
  count := h.count
  frame pg hpg := by
    have hframe := h.frame pg hpg
    refine ⟨hframe.1, ?_⟩
    have hsame : (copyout k.mem d va l).1 pg = k.mem pg := by
      apply hcopy pg hpg
      intro v e he hu heq
      have hv : v < userPages := by
        apply Nat.lt_of_not_le
        intro hle
        rw [hshield v e hle he] at hu
        cases hu
      have := own_pos hv he
      have := h.count pg
      rw [heq] at *
      omega
    exact hsame.trans hframe.2
  valid := h.valid

theorem loadLoop_spec (data : List UInt8) (addr offset sz i : Nat) {size : Nat}
    (h : Account L c P m k (fun pg => d.own pg + X pg)) (himage : Image d size)
    (hsize : addr + sz ≤ size)
    : ∃ k' ok, loadLoop k d addr data offset sz i = .ok (k', ok)
      ∧ Account L c P m k' (fun pg => d.own pg + X pg) := by
  induction hn : sz - i using Nat.strongRecOn generalizing k i with
  | ind n ih =>
  have hbase : KERNBASE = 2 ^ 31 := rfl
  have hle := himage.sz_le
  rw [loadLoop]
  split
  next hi =>
    have hv : (addr + i) / 4096 < userPages := by
      rw [userPages_eq]
      omega
    have hpte : d.pte ((addr + i) / 4096) ≠ none := (himage.mapped _ hv).mpr (by omega)
    have hwalks : d.walks ((addr + i) / 4096) = true := by
      rw [PageDir.walks, Option.isSome_iff_ne_none]
      intro hnone
      exact hpte (himage.closed _ hnone)
    rcases Option.ne_none_iff_exists'.mp hpte with ⟨e, he⟩
    simp only [hwalks, if_true, he, Option.map_some, Option.getD_some]
    generalize (if sz - i < 4096 then sz - i else 4096) = n'
    split
    next => exact ⟨k, false, rfl, h⟩
    next l hl =>
      have h₁ := h.write (r := e.pa) (Nat.lt_of_lt_of_le (own_pos hv he) (Nat.le_add_right _ _))
        (overwrite (k.mem e.pa) l)
      split
      next => exact ih _ (by omega) _ h₁ rfl
      next => exact ⟨_, false, rfl, h₁⟩
  next => exact ⟨k, true, rfl, h⟩

theorem field_lt (l : List UInt8) (off n : Nat) : field l off n < 256 ^ n := by
  have hfold : ∀ l : List UInt8, l.foldr (fun b acc => b.toNat + 256 * acc) 0 < 256 ^ l.length := by
    intro l
    induction l with
    | nil => exact Nat.one_pos
    | cons b l ih =>
      have := b.toNat_lt
      rw [List.foldr_cons, List.length_cons, Nat.pow_succ]
      omega
  apply Nat.lt_of_lt_of_le (hfold _)
  apply Nat.pow_le_pow_right (by decide)
  exact List.length_take_le n _

theorem readPh_lt {data : List UInt8} {off : Nat} {ph : ProgHdr} (h : readPh data off = some ph)
    : ph.vaddr < 2 ^ 32 ∧ ph.memsz < 2 ^ 32 := by
  unfold readPh at h
  split at h
  next => cases h
  next l _ =>
    split at h
    next =>
      cases h
      exact ⟨field_lt l 8 4, field_lt l 20 4⟩
    next => cases h

theorem allocuvm_image (newsz : Nat) {sz : Nat} (h : Account L c P m k (fun pg => d.own pg + X pg))
    (himage : Image d sz)
    : ∃ k' d' r, allocuvm L k d sz newsz = .ok (k', d', r) ∧ d'.Closed
      ∧ Account L c P m k' (fun pg => d'.own pg + X pg) ∧ (r = 0 ∨ newsz ≤ r ∧ Image d' r) := by
  have hbase : KERNBASE = 2 ^ 31 := rfl
  have hnone : ∀ u, sz ≤ 4096 * u → u < userPages → d.pte u = none := by
    intro u hu hlt
    apply Classical.byContradiction
    intro hne
    have := (himage.mapped u hlt).mp hne
    omega
  rcases allocuvm_spec newsz h himage.closed hnone
    with ⟨k', d', r, halloc, hclosed, h', hcases⟩
  refine ⟨k', d', r, halloc, hclosed, h', ?_⟩
  rcases hcases with ⟨hr, -⟩ | ⟨hlt, hr, rfl⟩ | ⟨hle, hlt, hr, hsome, hsame⟩
  . exact .inl hr
  . exact .inr ⟨by omega, hr ▸ himage⟩
  . refine .inr ⟨by omega, hclosed, ?_, ?_, by omega⟩
    . intro v e hv he
      rw [userPages_eq] at hv
      rw [hsame v (by omega)] at he
      exact himage.shielded v e (by rw [userPages_eq]; exact hv) he
    . intro v hv
      by_cases hin : sz ≤ 4096 * v ∧ 4096 * v < newsz
      . exact iff_of_true (hsome v hin.1 hin.2) (by omega)
      . rw [hsame v hin, himage.mapped v hv]
        omega

theorem loadSeg_spec (data : List UInt8) {sz : Nat} {ph : ProgHdr}
    (h : Account L c P m k (fun pg => d.own pg + X pg)) (himage : Image d sz)
    (hph : ph.vaddr < 2 ^ 32 ∧ ph.memsz < 2 ^ 32)
    : ∃ k' d' r, loadSeg L k d data sz ph = .ok (k', d', r) ∧ d'.Closed
      ∧ Account L c P m k' (fun pg => d'.own pg + X pg) ∧ ∀ sz', r = some sz' → Image d' sz' := by
  unfold loadSeg
  split
  next => exact ⟨k, d, none, rfl, himage.closed, h, nofun⟩
  next hfile =>
    split
    next => exact ⟨k, d, none, rfl, himage.closed, h, nofun⟩
    next hwrap =>
      rcases allocuvm_image ((ph.vaddr + ph.memsz) % 2 ^ 32) h himage
        with ⟨k₁, d₁, size, halloc, hclosed₁, h₁, hsize⟩
      rw [halloc]
      simp only [bind, Except.bind]
      split
      next => exact ⟨k₁, d₁, none, rfl, hclosed₁, h₁, nofun⟩
      next hne =>
        rcases hsize with hzero | ⟨hle, himage₁⟩
        . exact absurd hzero hne
        . split
          next => exact ⟨k₁, d₁, none, rfl, hclosed₁, h₁, nofun⟩
          next halign =>
            rcases loadLoop_spec data ph.vaddr ph.off ph.filesz 0 h₁ himage₁ (by omega)
              with ⟨k₂, ok, hload, h₂⟩
            rw [loaduvm, if_neg halign, hload]
            refine ⟨k₂, d₁, if ok then some size else none, rfl, hclosed₁, h₂, ?_⟩
            intro sz' hsz'
            split at hsz'
            next =>
              cases hsz'
              exact himage₁
            next => cases hsz'

theorem loadSegs_spec {sz off n : Nat} {data : List UInt8}
    (h : Account L c P m k (fun pg => d.own pg + X pg)) (himage : Image d sz)
    : ∃ k' d' r, loadSegs L k d data sz off n = .ok (k', d', r) ∧ d'.Closed
      ∧ Account L c P m k' (fun pg => d'.own pg + X pg) ∧ ∀ sz', r = some sz' → Image d' sz' := by
  induction n generalizing k d sz off with
  | zero =>
    refine ⟨k, d, some sz, rfl, himage.closed, h, ?_⟩
    rintro sz' ⟨⟩
    exact himage
  | succ n ih =>
    unfold loadSegs
    split
    next => exact ⟨k, d, none, rfl, himage.closed, h, nofun⟩
    next ph hph =>
      split
      next => exact ih h himage
      next =>
        rcases loadSeg_spec data h himage (readPh_lt hph)
          with ⟨k₁, d₁, r, hseg, hclosed₁, h₁, himage₁⟩
        rw [hseg]
        simp only [bind, Except.bind]
        cases r with
        | none => exact ⟨k₁, d₁, none, rfl, hclosed₁, h₁, nofun⟩
        | some sz' => exact ih h₁ (himage₁ sz' rfl)

theorem pushArgs_spec (sp : Nat) (ustack : List Nat) (argv : List (List UInt8))
    (h : Account L c P m k (fun pg => d.own pg + X pg)) (hcopy : ∀ pg, P pg → CopyoutSpec copyout)
    (hshield : Shielded d)
    : Account L c P m (pushArgs copyout k d sp ustack argv).1 (fun pg => d.own pg + X pg) := by
  induction argv generalizing k sp ustack with
  | nil => exact h
  | cons s argv ih =>
    unfold pushArgs
    split
    next => exact h
    next =>
      simp only
      generalize (sp + 2 ^ 32 - (s.length + 1) % 2 ^ 32) % 2 ^ 32 / 4 * 4 = sp'
      have h₁ := account_copyout h hcopy hshield sp' (s ++ [0])
      cases hcase : copyTo copyout k d sp' (s ++ [0]) with
      | mk k₁ ok =>
        rw [hcase] at h₁
        cases ok with
        | false => exact h₁
        | true => exact ih _ _ h₁

theorem clearpteu_spec {uva size : Nat} (himage : Image d size) (huva : uva < size)
    : ∃ d', clearpteu d uva = .ok d' ∧ Image d' size ∧ ∀ pg, d'.own pg = d.own pg := by
  have hbase : KERNBASE = 2 ^ 31 := rfl
  have hle := himage.sz_le
  have hv : uva / 4096 < userPages := by
    rw [userPages_eq]
    omega
  have hpte : d.pte (uva / 4096) ≠ none := (himage.mapped _ hv).mpr (by omega)
  rcases Option.ne_none_iff_exists'.mp hpte with ⟨e, he⟩
  have htable : d.table (uva / 4096 / 1024) ≠ none := fun hnone => hpte (himage.closed _ hnone)
  refine ⟨d.setPte (uva / 4096) (some { e with u := false }), ?_, ⟨?_, ?_, ?_, hle⟩, ?_⟩
  . rw [clearpteu, if_pos (by rw [PageDir.walks, Option.isSome_iff_ne_none]; exact htable), he]
    rfl
  . intro v hnone
    by_cases heq : v = uva / 4096
    . rw [heq] at hnone
      exact absurd hnone htable
    . rw [pte_setPte_of_ne heq]
      exact himage.closed v hnone
  . intro v x hle hx
    rw [pte_setPte_of_ne (by omega)] at hx
    exact himage.shielded v x hle hx
  . intro v hlt
    by_cases heq : v = uva / 4096
    . rw [heq, pte_setPte_self]
      exact iff_of_true (by nofun) (by omega)
    . rw [pte_setPte_of_ne heq]
      exact himage.mapped v hlt
  . intro pg
    have := users_setPte (d := d) (some { e with u := false }) hv pg
    rw [he] at this
    simp only [Option.map_some] at this
    have hframes : (d.setPte (uva / 4096) (some { e with u := false })).frames pg = d.frames pg := rfl
    rw [PageDir.own, PageDir.own, hframes]
    omega

theorem Image.roundUp {sz : Nat} (himage : Image d sz) : Image d (pgRoundUp sz) where
  closed := himage.closed
  shielded := himage.shielded
  mapped v hv := by
    rw [himage.mapped v hv]
    unfold pgRoundUp
    omega
  sz_le := by
    have hbase : KERNBASE = 2 ^ 31 := rfl
    have := himage.sz_le
    unfold pgRoundUp
    omega

theorem buildStack_spec (argv : List (List UInt8)) {sz : Nat}
    (h : Account L c P m k (fun pg => d.own pg + X pg)) (himage : Image d sz)
    (hcopy : ∀ pg, P pg → CopyoutSpec copyout)
    : ∃ k' d' r, buildStack L copyout k d sz argv = .ok (k', d', r) ∧ d'.Closed
      ∧ Account L c P m k' (fun pg => d'.own pg + X pg) ∧ ∀ x, r = some x → Image d' x.1 := by
  rcases allocuvm_image (pgRoundUp sz + 2 * 4096) h himage.roundUp
    with ⟨k₁, d₁, size, halloc, hclosed₁, h₁, hsize⟩
  unfold buildStack
  rw [halloc]
  simp only [bind, Except.bind]
  split
  next => exact ⟨k₁, d₁, none, rfl, hclosed₁, h₁, nofun⟩
  next hne =>
    rcases hsize with hzero | ⟨hle, himage₁⟩
    . exact absurd hzero hne
    . rcases clearpteu_spec himage₁ (show size - 2 * 4096 < size by omega)
        with ⟨d₂, hclear, himage₂, hown⟩
      have h₂ : Account L c P m k₁ (fun pg => d₂.own pg + X pg) :=
        h₁.congr (fun pg => by rw [hown])
      have h₃ := pushArgs_spec size [] argv h₂ hcopy himage₂.shielded
      rw [hclear]
      simp only
      generalize pushArgs copyout k₁ d₂ size [] argv = r at h₃
      rcases r with ⟨k₃, _ | ⟨sp, ustack⟩⟩
      . exact ⟨k₃, d₂, none, rfl, himage₂.closed, h₃, nofun⟩
      . simp only
        generalize (sp + 2 ^ 32 - (3 + ustack.length + 1) * 4) % 2 ^ 32 = sp'
        generalize List.flatMap word _ = l
        have h₄ := account_copyout h₃ hcopy himage₂.shielded sp' l
        generalize copyTo copyout k₃ d₂ sp' l = r at h₄
        rcases r with ⟨k₄, _ | _⟩
        . exact ⟨k₄, d₂, none, rfl, himage₂.closed, h₄, nofun⟩
        . refine ⟨k₄, d₂, some (size, sp'), rfl, himage₂.closed, h₄, ?_⟩
          rintro x ⟨⟩
          exact himage₂

theorem image_of_setupkvm (hclosed : d.Closed) (hnone : ∀ u, u < userPages → d.pte u = none)
    (huser : ∀ u x, d.pte u = some x → x.u = false)
    : Image d 0 where
  closed := hclosed
  shielded v e _ he := huser v e he
  mapped v hv := by
    rw [hnone v hv]
    exact iff_of_false (fun h => h rfl) (Nat.not_lt_zero _)
  sz_le := Nat.zero_le _

theorem io_balance (io : Io) : io.beginOp.namei.ilock.iunlockput.endOp = io := by
  simp only [Io.beginOp, Io.namei, Io.ilock, Io.iunlockput, Io.endOp, Int.add_sub_cancel]

def ValidPages (L : Layout) (s : State) : Prop :=
  ∀ pg, 0 < s.kmem.freelist.count pg + s.proc.pgdir.own pg → pg % 4096 = 0 ∧ L.kend ≤ pg ∧ pg < PHYSTOP

structure Undone (P : Nat → Prop) (s s' : State) : Prop where
  proc_eq : s'.proc = s.proc
  pages : ∀ pg, s'.kmem.freelist.count pg = s.kmem.freelist.count pg
  mem_eq : ∀ pg, P pg → s'.kmem.mem pg = s.kmem.mem pg

structure Replaced (s s' : State) : Prop where
  image : Image s'.proc.pgdir s'.proc.sz
  taken : ∀ pg, s'.proc.pgdir.own pg ≤ s.kmem.freelist.count pg
  freed : ∀ pg, s'.kmem.freelist.count pg + s'.proc.pgdir.own pg
    = s.kmem.freelist.count pg + s.proc.pgdir.own pg

theorem undone_of_account {s : State} {k : Kmem} {io : Io}
    (h : Account L s.kmem.freelist.count P s.kmem.mem k (fun _ => 0))
    : Undone P s { s with kmem := k, io } where
  proc_eq := rfl
  pages pg := h.count pg
  mem_eq pg hpg := (h.frame pg hpg).2

structure Built (L : Layout) (copyout : Copyout) (argv : List (List UInt8)) (s s' : State) : Prop where
  stack : ∃ k d sz k',
    Account L s.kmem.freelist.count (fun _ => False) s.kmem.mem k (fun pg => d.own pg + 0)
    ∧ Image d sz
    ∧ buildStack L copyout k d sz argv = .ok (k', s'.proc.pgdir, some (s'.proc.sz, s'.proc.esp))
    ∧ (∀ pg, k'.freelist.count pg + s'.proc.pgdir.own pg = s.kmem.freelist.count pg)
    ∧ freevm L k' s.proc.pgdir = .ok s'.kmem

theorem exec_cases (copyout : Copyout) {s : State} (hP : ∀ pg, P pg → pg ∉ s.kmem.freelist)
    (hcopy : ∀ pg, P pg → CopyoutSpec copyout) (hold : s.proc.pgdir.Closed)
    (hvalid : ValidPages L s) (file : Option (List UInt8)) (path : List UInt8) (argv : List (List UInt8))
    : ∃ s' r, exec L copyout file path argv s = .ok (s', r) ∧ s'.io = s.io
      ∧ (r = -1 ∧ Undone P s s' ∨ r = 0 ∧ Replaced s s' ∧ Built L copyout argv s s') := by
  have h : Account L s.kmem.freelist.count P s.kmem.mem s.kmem (fun _ => 0) :=
    ⟨fun _ => rfl, fun pg hpg => ⟨List.count_eq_zero.mpr (hP pg hpg), rfl⟩,
      fun pg hpg => hvalid pg (by omega)⟩
  unfold exec
  cases file with
  | none =>
    refine ⟨_, _, rfl, ?_, .inl ⟨rfl, undone_of_account h⟩⟩
    simp only [Io.beginOp, Io.endOp, Int.add_sub_cancel]
  | some data =>
    simp only
    cases readElf data with
    | none => exact ⟨_, _, rfl, io_balance s.io, .inl ⟨rfl, undone_of_account h⟩⟩
    | some elf =>
      rcases setupkvm_spec h with ⟨k₁, r, hsetup, hnone, hsome⟩
      simp only
      rw [hsetup]
      simp only [bind, Except.bind]
      cases r with
      | none => exact ⟨_, _, rfl, io_balance s.io, .inl ⟨rfl, undone_of_account (hnone rfl)⟩⟩
      | some d =>
        rcases hsome d rfl with ⟨hclosed, h₁, hempty, huser⟩
        rcases loadSegs_spec h₁ (image_of_setupkvm hclosed hempty huser)
          with ⟨k₂, d₂, r, hload, hclosed₂, h₂, himage₂⟩
        simp only
        rw [hload]
        cases r with
        | none =>
          rcases freevm_spec h₂ hclosed₂ with ⟨k₃, hfree, h₃⟩
          simp only
          rw [hfree]
          exact ⟨_, _, rfl, io_balance s.io, .inl ⟨rfl, undone_of_account h₃⟩⟩
        | some sz =>
          rcases buildStack_spec argv h₂ (himage₂ sz rfl) hcopy
            with ⟨k₃, d₃, r, hbuild, hclosed₃, h₃, himage₃⟩
          simp only
          rw [hbuild]
          cases r with
          | none =>
            rcases freevm_spec h₃ hclosed₃ with ⟨k₄, hfree, h₄⟩
            simp only
            rw [hfree]
            exact ⟨_, _, rfl, io_balance s.io, .inl ⟨rfl, undone_of_account h₄⟩⟩
          | some x =>
            -- the old directory joins the account, to be freed
            have hboth : Account L (fun pg => s.kmem.freelist.count pg + s.proc.pgdir.own pg)
                (fun _ => False) k₃.mem k₃ (fun pg => s.proc.pgdir.own pg + d₃.own pg) := by
              refine ⟨?_, fun _ h => h.elim, hvalid⟩
              intro pg
              have := h₃.count pg
              omega
            rcases freevm_spec hboth hold with ⟨k₄, hfree, h₄⟩
            simp only
            rw [hfree]
            have hcount : ∀ pg, k₃.freelist.count pg + d₃.own pg = s.kmem.freelist.count pg := by
              intro pg
              have hpg := h₃.count pg
              rw [Nat.add_zero] at hpg
              exact hpg
            refine ⟨_, _, rfl, io_balance s.io, .inr ⟨rfl, ⟨himage₃ x rfl, ?_, h₄.count⟩, ?_⟩⟩
            . intro pg
              change d₃.own pg ≤ s.kmem.freelist.count pg
              have := hcount pg
              omega
            . have hfresh : Account L s.kmem.freelist.count (fun _ => False) s.kmem.mem k₂
                  (fun pg => d₂.own pg + 0) :=
                ⟨h₂.count, fun _ h => h.elim, h₂.valid⟩
              exact ⟨k₂, d₂, sz, k₃, hfresh, himage₂ sz rfl, hbuild, hcount, hfree⟩

theorem exec_spec (copyout : Copyout) {s : State} (hP : ∀ pg, P pg → pg ∉ s.kmem.freelist)
    (hcopy : ∀ pg, P pg → CopyoutSpec copyout) (hold : s.proc.pgdir.Closed)
    (hvalid : ValidPages L s) (file : Option (List UInt8)) (path : List UInt8) (argv : List (List UInt8))
    : ∃ s' r, exec L copyout file path argv s = .ok (s', r) ∧ s'.io = s.io
      ∧ (r = -1 ∧ Undone P s s' ∨ r = 0 ∧ Replaced s s') := by
  rcases exec_cases copyout hP hcopy hold hvalid file path argv with ⟨s', r, hexec, hio, hcases⟩
  refine ⟨s', r, hexec, hio, ?_⟩
  rcases hcases with hundone | ⟨hr, hreplaced, -⟩
  . exact .inl hundone
  . exact .inr ⟨hr, hreplaced⟩

end Exec
end Xv6
