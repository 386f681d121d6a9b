import Xv6.Exec.Atomic

namespace Xv6
namespace Exec

open Vm

variable {argv : List (List UInt8)} {ptrs : List Nat} {mem' : Nat → Page}

def Holds (mem : Nat → Page) (d : PageDir) (a : Nat) (l : List UInt8) : Prop :=
  ∀ i b, l[i]? = some b → load mem d (a + i) = some b

variable {L : Layout} {k k' : Kmem} {d : PageDir} {copyout : Copyout} {t sp : Nat} {mem : Nat → Page}

def pad (s : List UInt8) : Nat :=
  (s.length + 1 + 3) / 4 * 4

def stackSize (argv : List (List UInt8)) : Nat :=
  (argv.map pad).sum + 4 * (4 + argv.length)

structure Guarded (d : PageDir) (t : Nat) : Prop where
  pos : 0 < t
  lt : 4096 * (t + 1) < 2 ^ 32
  guard : ∀ a, a / 4096 + 1 = t → uva2ka d a = none

theorem Guarded.fits (h : Guarded d t) {len q : Nat} (hlow : 4096 * t ≤ sp) (hhigh : sp ≤ 4096 * (t + 1))
    (hsp : sp % 4 = 0) (hq : q = (sp + 2 ^ 32 - len % 2 ^ 32) % 2 ^ 32)
    (hok : ∀ i, i < len → uva2ka d ((q / 4 * 4 + i) % 2 ^ 32) ≠ none)
    : len ≤ sp - 4096 * t := by
  have hpos := h.pos
  have hlt := h.lt
  apply Nat.le_of_not_lt
  intro hlong
  -- the number of bytes of the copy that lie in the page
  let up := sp - q % 4 - 4096 * t
  have hup : up = sp - q % 4 - 4096 * t := rfl
  refine hok (len - 1 - up) (by omega) (h.guard _ ?_)
  omega

theorem CopyoutMeets.top (h : CopyoutMeets copyout) {va : Nat} {l : List UInt8} (hlt : 4096 * (t + 1) < 2 ^ 32)
    (hlow : 4096 * t ≤ va) (hhigh : va + l.length ≤ 4096 * (t + 1)) (hne : 0 < l.length)
    (hok : (copyout mem d va l).2 = true)
    : Holds (copyout mem d va l).1 d va l ∧ ∀ a, 4096 * t ≤ a → a < 4096 * (t + 1) → ¬(va ≤ a ∧ a < va + l.length)
        → load (copyout mem d va l).1 d a = load mem d a := by
  have hrange : ∀ i, i < l.length → (va + i) % 2 ^ 32 = va + i := by
    intro i hi
    exact Nat.mod_eq_of_lt (by omega)
  have htop : ∃ e, d.pte t = some e ∧ e.u = true := by
    have hfst := (h.ok_iff mem d va l).mp hok 0 hne
    have hdiv : (va + 0) / 4096 = t := by omega
    rw [hrange 0 hne, uva2ka, hdiv] at hfst
    split at hfst
    next => exact absurd rfl hfst
    next e he =>
      refine ⟨e, he, ?_⟩
      split at hfst
      next hu => exact hu
      next => exact absurd rfl hfst
  rcases htop with ⟨e, he, hu⟩
  have hplace : ∀ i, i < l.length → uva2ka d ((va + i) % 2 ^ 32) = some (e.pa, va + i - 4096 * t) := by
    intro i hi
    rw [hrange i hi]
    exact uva2ka_of_top he hu (by omega) (by omega)
  constructor
  . intro i b hb
    have hi : i < l.length := (List.getElem?_eq_some_iff.mp hb).1
    have hcopied := h.copies mem d va l hok ?_ i b hb
    . rw [hrange i hi] at hcopied
      exact hcopied
    . intro i j hi hj heq
      rw [hplace i hi, hplace j hj] at heq
      have := (Prod.mk.inj (Option.some.inj heq)).2
      omega
  . intro a hlow' hhigh' hout
    rw [load, load, uva2ka_of_top he hu hlow' hhigh', Option.map_some, Option.map_some]
    congr 1
    apply h.frame
    intro i hi heq
    rw [hplace i hi] at heq
    have := (Prod.mk.inj (Option.some.inj heq)).2
    omega

theorem Holds.congr {a : Nat} {l : List UInt8} (h : Holds mem d a l)
    (heq : ∀ b, a ≤ b → b < a + l.length → load mem' d b = load mem d b)
    : Holds mem' d a l := by
  intro i b hb
  have hi : i < l.length := (List.getElem?_eq_some_iff.mp hb).1
  rw [heq (a + i) (by omega) (by omega)]
  exact h i b hb

structure Strings (mem : Nat → Page) (d : PageDir) (sp sp' : Nat) (argv : List (List UInt8))
    (ptrs : List Nat) : Prop where
  length_eq : ptrs.length = argv.length
  size : sp' + (argv.map pad).sum = sp
  copies : ∀ x ∈ argv.zip ptrs, Holds mem d x.2 (x.1 ++ [0]) ∧ sp' ≤ x.2
    ∧ x.2 + x.1.length + 1 ≤ sp
  disjoint : (argv.zip ptrs).Pairwise fun x y => y.2 + y.1.length + 1 ≤ x.2

theorem Strings.congr {sp' : Nat}
    (h : Strings mem d sp sp' argv ptrs) (heq : ∀ b, sp' ≤ b → b < sp → load mem' d b = load mem d b)
    : Strings mem' d sp sp' argv ptrs where
  length_eq := h.length_eq
  size := h.size
  copies x hx := by
    rcases h.copies x hx with ⟨hholds, hlow, hhigh⟩
    refine ⟨hholds.congr ?_, hlow, hhigh⟩
    intro b hb hlt
    rw [List.length_append, List.length_singleton] at hlt
    exact heq b (by omega) (by omega)
  disjoint := h.disjoint

theorem Strings.cons {sp' sp'' : Nat} {s : List UInt8}
    (h : Strings mem d sp' sp'' argv ptrs) (hholds : Holds mem d sp' (s ++ [0])) (hsp : sp' + pad s = sp)
    : Strings mem d sp sp'' (s :: argv) (sp' :: ptrs) where
  length_eq := by rw [List.length_cons, List.length_cons, h.length_eq]
  size := by
    rw [List.map_cons, List.sum_cons, ← hsp, ← h.size]
    omega
  copies x hx := by
    rw [pad] at hsp
    have hsize := h.size
    rcases List.mem_cons.mp hx with rfl | hx
    . exact ⟨hholds, by dsimp only; omega, by dsimp only; omega⟩
    . rcases h.copies x hx with ⟨hx, hlow, hhigh⟩
      exact ⟨hx, hlow, by omega⟩
  disjoint := by
    apply List.pairwise_cons.mpr
    refine ⟨?_, h.disjoint⟩
    intro y hy
    exact (h.copies y hy).2.2

theorem pushArgs_stack (hcopy : CopyoutMeets copyout) (hguard : Guarded d t) {sp' : Nat}
    {ustack ustack' : List Nat} (hlow : 4096 * t ≤ sp)
    (hhigh : sp ≤ 4096 * (t + 1)) (hsp : sp % 4 = 0)
    (h : pushArgs copyout k d sp ustack argv = (k', some (sp', ustack')))
    : ∃ ptrs, ustack' = ustack ++ ptrs ∧ Strings k'.mem d sp sp' argv ptrs ∧ 4096 * t ≤ sp'
      ∧ sp' % 4 = 0 ∧ (ustack.length ≤ 32 → ustack'.length ≤ 32)
      ∧ ∀ a, sp ≤ a → a < 4096 * (t + 1) → load k'.mem d a = load k.mem d a := by
  induction argv generalizing k sp ustack with
  | nil =>
    cases h
    refine ⟨[], (List.append_nil _).symm, ⟨rfl, rfl, ?_, .nil⟩, hlow, hsp, fun h => h, fun _ _ _ => rfl⟩
    rintro _ ⟨⟩
  | cons s argv ih =>
    unfold pushArgs at h
    split at h
    next => cases h
    next hcount =>
      simp only at h
      cases hcase : copyTo copyout k d
          ((sp + 2 ^ 32 - (s.length + 1) % 2 ^ 32) % 2 ^ 32 / 4 * 4) (s ++ [0]) with
      | mk k₁ ok =>
      rw [hcase] at h
      cases ok with
      | false => cases h
      | true =>
        have hmem := congrArg Prod.fst hcase
        have hok := congrArg Prod.snd hcase
        have hlen : (s ++ [0]).length = s.length + 1 := by
          rw [List.length_append, List.length_singleton]
        have hall : ∀ i, i < s.length + 1 → uva2ka d
            (((sp + 2 ^ 32 - (s.length + 1) % 2 ^ 32) % 2 ^ 32 / 4 * 4 + i) % 2 ^ 32) ≠ none := by
          intro i hi
          exact (hcopy.ok_iff ..).mp hok i (by rw [hlen]; exact hi)
        have hfits := hguard.fits hlow hhigh hsp rfl hall
        have hpos := hguard.lt
        have hnew : (sp + 2 ^ 32 - (s.length + 1) % 2 ^ 32) % 2 ^ 32 / 4 * 4 + pad s = sp := by
          rw [pad]
          omega
        generalize (sp + 2 ^ 32 - (s.length + 1) % 2 ^ 32) % 2 ^ 32 / 4 * 4 = p at *
        have hpad : s.length + 1 ≤ pad s ∧ pad s % 4 = 0 ∧ pad s < s.length + 1 + 4 := by
          rw [pad]
          omega
        rcases hcopy.top hguard.lt (show 4096 * t ≤ p by omega) (by rw [hlen]; omega)
          (by rw [hlen]; omega) hok with ⟨hholds, hsame⟩
        rcases ih (by omega) (by omega) (by omega) h with ⟨ptrs, hustack, hstrings, hlow', hsp', hle, hframe⟩
        subst hmem
        refine ⟨p :: ptrs, ?_, ?_, hlow', hsp', ?_, ?_⟩
        . rw [hustack, List.append_assoc]
          rfl
        . apply hstrings.cons _ hnew
          apply hholds.congr
          intro b hb hlt
          rw [hlen] at hlt
          exact hframe b hb (by omega)
        . intro _
          apply hle
          rw [List.length_append, List.length_singleton]
          omega
        . intro a ha hlt
          rw [hframe a (by omega) hlt]
          exact hsame a (by omega) hlt (by rw [hlen]; omega)

structure ArgStack (mem : Nat → Page) (d : PageDir) (sz esp : Nat) (argv : List (List UInt8))
    (ptrs : List Nat) : Prop where
  aligned : esp % 4 = 0
  inPage : sz ≤ esp + 4096
  vector : Holds mem d esp (([2 ^ 32 - 1, argv.length, esp + 12] ++ ptrs ++ [0]).flatMap word)
  strings : Strings mem d sz (esp + 4 * (4 + argv.length)) argv ptrs

theorem ArgStack.size_le {sz esp : Nat}
    (h : ArgStack mem d sz esp argv ptrs)
    : stackSize argv ≤ 4096 := by
  have := h.inPage
  have := h.strings.size
  rw [stackSize]
  omega

theorem length_words (l : List Nat) : (l.flatMap word).length = 4 * l.length := by
  induction l with
  | nil => rfl
  | cons n l ih =>
    rw [List.flatMap_cons, List.length_append, ih, List.length_cons]
    change 4 + 4 * l.length = _
    omega

theorem guarded_of_clearpteu {d' : PageDir} {sz : Nat} (hsz : sz % 4096 = 0) (hlow : 2 * 4096 ≤ sz)
    (hhigh : sz < KERNBASE) (h : clearpteu d (sz - 2 * 4096) = .ok d')
    : Guarded d' (sz / 4096 - 1) := by
  have hbase : KERNBASE = 2 ^ 31 := rfl
  refine ⟨by omega, by omega, ?_⟩
  intro a ha
  unfold clearpteu at h
  split at h
  next =>
    cases h
    have hpage : a / 4096 = (sz - 2 * 4096) / 4096 := by omega
    rw [uva2ka, hpage, pte_setPte_self]
    cases d.pte ((sz - 2 * 4096) / 4096) with
    | none => rfl
    | some e => rfl
  next => cases h

theorem buildStack_stack {c X : Nat → Nat} {P : Nat → Prop} {m : Nat → Page} {d' : PageDir} {sz size esp : Nat}
    (hcopy : CopyoutMeets copyout)
    (hacc : Account L c P m k (fun pg => d.own pg + X pg)) (himage : Image d sz)
    (h : buildStack L copyout k d sz argv = .ok (k', d', some (size, esp)))
    : ∃ ptrs, ArgStack k'.mem d' size esp argv ptrs := by
  have hbase : KERNBASE = 2 ^ 31 := rfl
  have hmod := pgRoundUp_mod sz
  have hnone : ∀ u, pgRoundUp sz ≤ 4096 * u → u < userPages → d.pte u = none := by
    intro u hu hlt
    apply Classical.byContradiction
    intro hne
    have := (himage.roundUp.mapped u hlt).mp hne
    omega
  rcases allocuvm_spec (pgRoundUp sz + 2 * 4096) hacc himage.closed hnone
    with ⟨k₁, d₁, size₁, halloc, -, -, hcases⟩
  unfold buildStack at h
  rw [halloc] at h
  simp only [bind, Except.bind] at h
  split at h
  next => cases h
  next hne =>
    rcases hcases with ⟨hzero, -⟩ | ⟨hlt, -⟩ | ⟨-, hlt, rfl, -⟩
    . exact absurd hzero hne
    . omega
    . cases hclear : clearpteu d₁ (pgRoundUp sz + 2 * 4096 - 2 * 4096) with
      | error e =>
        rw [hclear] at h
        cases h
      | ok d₂ =>
      have hguard := guarded_of_clearpteu (by omega) (by omega) hlt hclear
      rw [hclear] at h
      simp only at h
      generalize hsize : pgRoundUp sz + 2 * 4096 = sz₁ at *
      cases hpush : pushArgs copyout k₁ d₂ sz₁ [] argv with
      | mk k₂ r =>
      rw [hpush] at h
      cases r with
      | none => cases h
      | some r =>
      rcases r with ⟨sp, ustack⟩
      simp only at h
      rcases pushArgs_stack hcopy hguard (by omega) (by omega) (by omega) hpush
        with ⟨ptrs, hustack, hstrings, hlow, hsp, hcount, -⟩
      rw [List.nil_append] at hustack
      subst hustack
      have hcount := hcount (Nat.zero_le 32)
      have hsum := hstrings.size
      have hlen : (([2 ^ 32 - 1, ustack.length, (sp + 2 ^ 32 - (ustack.length + 1) * 4) % 2 ^ 32]
          ++ ustack ++ [0]).flatMap word).length = (3 + ustack.length + 1) * 4 := by
        rw [length_words]
        simp only [List.length_append, List.length_cons, List.length_nil]
        omega
      generalize hframe : ([2 ^ 32 - 1, ustack.length, (sp + 2 ^ 32 - (ustack.length + 1) * 4) % 2 ^ 32]
          ++ ustack ++ [0]).flatMap word = frame at *
      cases hcase : copyTo copyout k₂ d₂ ((sp + 2 ^ 32 - (3 + ustack.length + 1) * 4) % 2 ^ 32) frame with
      | mk k₃ ok =>
      rw [hcase] at h
      cases ok with
      | false => cases h
      | true =>
        cases h
        have hok := congrArg Prod.snd hcase
        have hmem := congrArg Prod.fst hcase
        subst hmem
        have hall : ∀ i, i < (3 + ustack.length + 1) * 4 → uva2ka d'
            (((sp + 2 ^ 32 - (3 + ustack.length + 1) * 4 % 2 ^ 32) % 2 ^ 32 / 4 * 4 + i) % 2 ^ 32) ≠ none := by
          intro i hi
          have haligned : (sp + 2 ^ 32 - (3 + ustack.length + 1) * 4 % 2 ^ 32) % 2 ^ 32 / 4 * 4
              = (sp + 2 ^ 32 - (3 + ustack.length + 1) * 4) % 2 ^ 32 := by
            omega
          rw [haligned]
          exact (hcopy.ok_iff ..).mp hok i (by rw [hlen]; exact hi)
        have hfits := hguard.fits hlow (by omega) hsp rfl hall
        have hesp : (sp + 2 ^ 32 - (3 + ustack.length + 1) * 4) % 2 ^ 32
            = sp - (3 + ustack.length + 1) * 4 := by
          omega
        rw [hesp] at hok ⊢
        rcases hcopy.top hguard.lt (by omega) (by rw [hlen]; omega) (by rw [hlen]; omega) hok
          with ⟨hholds, hsame⟩
        have hlength := hstrings.length_eq
        refine ⟨ustack, ?_, ?_, ?_, ?_⟩
        . omega
        . omega
        . have hptr : sp - (3 + ustack.length + 1) * 4 + 12
              = (sp + 2 ^ 32 - (ustack.length + 1) * 4) % 2 ^ 32 := by
            omega
          rw [← hlength, hptr, hframe]
          exact hholds
        . have hbottom : sp - (3 + ustack.length + 1) * 4 + 4 * (4 + argv.length) = sp := by omega
          rw [hbottom]
          apply hstrings.congr
          intro b hb hlt
          exact hsame b (by omega) (by omega) (by rw [hlen]; omega)

theorem ArgStack.congr {sz esp : Nat}
    (h : ArgStack mem d sz esp argv ptrs) (heq : ∀ a, load mem' d a = load mem d a)
    : ArgStack mem' d sz esp argv ptrs where
  aligned := h.aligned
  inPage := h.inPage
  vector := h.vector.congr fun a _ _ => heq a
  strings := h.strings.congr fun a _ _ => heq a

theorem freevm_frame {old : PageDir} (hclosed : old.Closed)
    (hvalid : ∀ pg, 0 < k.freelist.count pg + old.own pg → pg % 4096 = 0 ∧ L.kend ≤ pg ∧ pg < PHYSTOP)
    (hfree : freevm L k old = .ok k') {pg : Nat} (hpg : k.freelist.count pg + old.own pg = 0)
    : k'.mem pg = k.mem pg := by
  have hacc : Account L (fun pg => k.freelist.count pg + old.own pg) (fun x => x = pg) k.mem k
      (fun pg => old.own pg + 0) := by
    refine ⟨fun _ => by rw [Nat.add_zero], ?_, hvalid⟩
    rintro x rfl
    exact ⟨hpg, rfl⟩
  rcases freevm_spec hacc hclosed with ⟨k₁, hk₁, h₁⟩
  rw [hfree] at hk₁
  cases hk₁
  exact (h₁.frame pg rfl).2

theorem own_pos_of_uva2ka {sz a : Nat} {x : Nat × Nat} (himage : Image d sz) (h : uva2ka d a = some x)
    : 0 < d.own x.1 := by
  unfold uva2ka at h
  split at h
  next => cases h
  next e he =>
    split at h
    next hu =>
      cases h
      apply own_pos _ he
      apply Nat.lt_of_not_le
      intro hle
      rw [himage.shielded _ e hle he] at hu
      cases hu
    next => cases h

/--
When `exec` succeeds, the stack of the new program is in its last page: the vector on top of which `esp`
points, and the strings above it. If they do not fit, it fails.
-/
theorem exec_builds_stack {n : Nat} {plan : List Bool} {init : Page} {s₀ s : Sys} {i : Nat} {x : Owner}
    (hcopy : CopyoutMeets copyout) (hboot : boot L n plan mem init = .ok (some s₀))
    (hreach : Reach.Reachable s₀ (Steps L copyout) s) (hi : i < 64) (hx : s.slot i = some x)
    (fails : List Bool) (io : Io) (eip esp : Nat) (name : List UInt8) (file : Option (List UInt8))
    (path : List UInt8) (argv : List (List UInt8))
    : ∃ e r, exec L copyout file path argv (.caller s x fails io eip esp name) = .ok (e, r) ∧ (r = 0 ∨ r = -1)
      ∧ (r = 0 → ∃ ptrs, ArgStack e.kmem.mem e.proc.pgdir e.proc.sz e.proc.esp argv ptrs)
      ∧ (4096 < stackSize argv → r = -1) := by
  have hinv := Inv.of_reachable hboot hreach
  have hvalid := validPages_caller hinv hi hx fails io eip esp name
  rcases exec_cases copyout (P := fun _ => False) (fun _ h => h.elim) (fun _ h => h.elim)
      (hinv.fits i x hx).closed hvalid file path argv
    with ⟨e, r, hexec, -, hcases⟩
  refine ⟨e, r, hexec, ?_⟩
  rcases hcases with ⟨hr, -⟩ | ⟨hr, hreplaced, hbuilt⟩
  . refine ⟨.inr hr, ?_, fun _ => hr⟩
    rw [hr]
    rintro ⟨⟩
  . rcases hbuilt.stack with ⟨k, d, sz, k', hfresh, himage, hbuild, hcount, hfree⟩
    rcases buildStack_stack hcopy hfresh himage hbuild with ⟨ptrs, hstack⟩
    have hkept : ∀ a, load e.kmem.mem e.proc.pgdir a = load k'.mem e.proc.pgdir a := by
      intro a
      unfold load
      cases hplace : uva2ka e.proc.pgdir a with
      | none => rfl
      | some y =>
        have hown := own_pos_of_uva2ka hreplaced.image hplace
        have hsum := hcount y.1
        have hle := count_add_own_le hinv hi hx y.1
        have hpages : ∀ pg, 0 < k'.freelist.count pg + x.pgdir.own pg
            → pg % 4096 = 0 ∧ L.kend ≤ pg ∧ pg < PHYSTOP := by
          intro pg hpg
          have := hcount pg
          exact hvalid pg (by simp only [State.caller] at *; omega)
        rw [Option.map_some, Option.map_some,
          freevm_frame (hinv.fits i x hx).closed hpages hfree (by simp only [State.caller] at *; omega)]
    refine ⟨.inl hr, fun _ => ⟨ptrs, hstack.congr hkept⟩, ?_⟩
    intro hlong
    have := hstack.size_le
    omega

theorem exec_builds_stack_of_one
    : ∃ s x, boot smallKernel 0 [] (fun _ _ => 0) (fun _ => 0) = .ok (some s) ∧ s.slot 0 = some x
      ∧ ∃ e ptrs, exec smallKernel copyBytes (some nullProgram) [] [[97]]
          (.caller s x [] ⟨0, 0, 0⟩ 0 4096 []) = .ok (e, 0)
        ∧ ArgStack e.kmem.mem e.proc.pgdir e.proc.sz e.proc.esp [[97]] ptrs := by
  rcases boot_ok (L := smallKernel) (by decide) (fun _ _ => 0) (fun _ => 0) with ⟨s, x, hboot, hx, -, -, hlen⟩
  rcases exec_builds_stack copyBytes_meets hboot .refl (by decide) hx [] ⟨0, 0, 0⟩ 0 4096 [] (some nullProgram) []
      [[97]]
    with ⟨e, r, hexec, -, hstack, -⟩
  have hr := exec_succeeds (validPages_caller (.boot hboot) (by decide) hx [] ⟨0, 0, 0⟩ 0 4096 [])
    (nodup_freelist (.boot hboot) (by decide) hx) rfl hlen hexec
  rcases hstack hr with ⟨ptrs, hstack⟩
  rw [hr] at hexec
  exact ⟨s, x, hboot, hx, e, ptrs, hexec, hstack⟩

end Exec
end Xv6
