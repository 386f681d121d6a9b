import Xv6.Fs.Icache
import Xv6.Sysfile.OpenFiles

namespace Xv6.Sysfile

open Outcome Xv6.Fs
open Fs.State (hold)

variable {n : Nat} {P : Type} {extra : Fin NFILE → Int} {cwd : Fin n}

def FdType.inode? (t : FdType n) : Option (Fin n) :=
  match t with
  | .inode ip => some ip
  | _ => Option.none

theorem inode?_eq_some {t : FdType n} {i : Fin n} : t.inode? = some i ↔ t = .inode i := by
  cases t <;> simp [FdType.inode?]

theorem hold_apply (r : Option (Fin n)) (i : Fin n) : hold r i = if r = some i then 1 else 0 := by
  cases r with
  | none => rfl
  | some j =>
    rw [Fs.State.hold_some, Pi.single_apply]
    simp only [Option.some_inj, eq_comm]

namespace State

variable {s : State n P}

section
variable [Fintype P]

def handles (s : State n P) : Fin n → Int :=
  fun i => Count.total (fun x => hold x.type.inode? i) s.file + Count.total (fun c => hold c i) s.cwd

def excess (s : State n P) : Fin n → Int :=
  s.fs.refs - s.handles

theorem handles_setFile (s : State n P) (f : Fin NFILE) (x : File n)
    : (s.setFile f x).handles = s.handles - hold (s.file f).type.inode? + hold x.type.inode? := by
  funext i
  have hupdate := Count.total_update (fun x : File n => hold x.type.inode? i) s.file f x
  rw [Pi.add_apply, Pi.sub_apply]
  change Count.total (fun x => hold x.type.inode? i) (Function.update s.file f x)
    + Count.total (fun c => hold c i) s.cwd = _
  rw [hupdate]
  unfold handles
  omega

theorem excess_setFile (s : State n P) (f : Fin NFILE) (x : File n)
    : (s.setFile f x).excess = s.excess + hold (s.file f).type.inode? - hold x.type.inode? := by
  unfold excess
  rw [handles_setFile]
  change s.fs.refs - _ = _
  abel

theorem excess_setFile_same {f : Fin NFILE} {x : File n} (h : x.type.inode? = (s.file f).type.inode?)
    : (s.setFile f x).excess = s.excess := by
  rw [excess_setFile, h]
  abel

theorem handles_setCwd [DecidableEq P] (s : State n P) (p : P) (cwd : Option (Fin n))
    : (s.setCwd p cwd).handles = s.handles - hold (s.cwd p) + hold cwd := by
  funext i
  have hupdate := Count.total_update (fun c : Option (Fin n) => hold c i) s.cwd p cwd
  rw [Pi.add_apply, Pi.sub_apply]
  change Count.total (fun x => hold x.type.inode? i) s.file
    + Count.total (fun c => hold c i) (Function.update s.cwd p cwd) = _
  rw [hupdate]
  unfold handles
  omega

theorem excess_setCwd [DecidableEq P] (s : State n P) (p : P) (cwd : Option (Fin n))
    : (s.setCwd p cwd).excess = s.excess + hold (s.cwd p) - hold cwd := by
  unfold excess
  rw [handles_setCwd]
  change s.fs.refs - _ = _
  abel

theorem excess_withFs (s : State n P) (fs : Fs.State n)
    : excess { s with fs := fs } = s.excess + (fs.refs - s.fs.refs) := by
  unfold excess
  change fs.refs - s.handles = _
  abel

abbrev Any (_ : Fs.Halt) : Prop :=
  True

theorem fileclose_excess (s : State n P) (f : Fin NFILE)
    : Sat Any (fun s' => s'.excess = s.excess) (s.fileclose f) := by
  unfold State.fileclose
  dsimp only
  split
  . trivial
  split
  . exact excess_setFile_same rfl
  have hset := excess_setFile s f { s.file f with ref := 0, type := .none }
  unfold closeType
  split
  . next htype =>
    change (s.setFile f _).excess = _
    rw [hset, htype]
    exact (sub_zero _).trans (add_zero _)
  . next p htype =>
    change (s.setFile f _).excess = _
    rw [hset, htype]
    exact (sub_zero _).trans (add_zero _)
  . next ip htype =>
    apply Sat.bind ((Fs.State.beginOp_refs _).mono (fun _ _ => trivial) (fun _ h => h))
    intro fs1 h1
    apply Sat.bind ((Fs.State.iput_refs fs1 ip).mono (fun _ _ => trivial) (fun _ h => h))
    intro fs2 h2
    change excess { s.setFile f _ with fs := fs2.endOp } = _
    rw [excess_withFs, Fs.State.refs_endOp, h2, h1, hset, htype]
    change s.excess + Pi.single ip 1 - 0 + _ = _
    abel

theorem filedup_excess (s : State n P) (f : Fin NFILE)
    : Sat Any (fun s' => s'.excess = s.excess) (s.filedup f) := by
  unfold State.filedup
  split
  . trivial
  . exact excess_setFile_same rfl

theorem excess_setOfile [DecidableEq P] (s : State n P) (p : P) (fd : Fin NOFILE) (f : Option (Fin NFILE))
    : (s.setOfile p fd f).excess = s.excess := by
  rfl

theorem pipealloc_excess (h : s.Counts extra) (kalloc : Bool)
    : Sat Any (fun r => r.2.excess = s.excess) (s.pipealloc kalloc) := by
  unfold State.pipealloc
  rcases s.filealloc_cases with hfull | ⟨f0, hzero0, halloc0⟩
  . rw [hfull]
    rfl
  rw [halloc0]
  dsimp only
  have h1 := h.filealloc hzero0
  have hexcess1 : (s.setFile f0 { s.file f0 with ref := 1 }).excess = s.excess := excess_setFile_same rfl
  have htype0 : ((s.setFile f0 { s.file f0 with ref := 1 }).file f0).type = .none := by
    change (Function.update s.file f0 _ f0).type = _
    rw [Function.update_self]
    exact h.unused f0 hzero0
  rw [← hexcess1]
  generalize s.setFile f0 { s.file f0 with ref := 1 } = s1 at h1 htype0 ⊢
  rcases s1.filealloc_cases with hfull | ⟨f1, hzero1, halloc1⟩
  . rw [hfull]
    apply Sat.bind (fileclose_excess s1 f0)
    intro s2 h2
    exact h2
  rw [halloc1]
  dsimp only
  have hexcess2 : (s1.setFile f1 { s1.file f1 with ref := 1 }).excess = s1.excess := excess_setFile_same rfl
  have htype1 : ((s1.setFile f1 { s1.file f1 with ref := 1 }).file f1).type = .none := by
    change (Function.update s1.file f1 _ f1).type = _
    rw [Function.update_self]
    exact h1.unused f1 hzero1
  have htype0 : ((s1.setFile f1 { s1.file f1 with ref := 1 }).file f0).type = .none := by
    by_cases hf : f0 = f1
    . rw [hf]
      exact htype1
    . change (Function.update s1.file f1 _ f0).type = _
      rw [Function.update_of_ne hf]
      exact htype0
  rw [← hexcess2]
  generalize s1.setFile f1 { s1.file f1 with ref := 1 } = s2 at htype0 htype1 ⊢
  split
  . refine (excess_setFile_same ?_).trans (excess_setFile_same ?_)
    . by_cases hf : f1 = f0
      . rw [hf]
        change _ = (Function.update s2.file f0 _ f0).type.inode?
        rw [Function.update_self]
      . change _ = (Function.update s2.file f0 _ f1).type.inode?
        rw [Function.update_of_ne hf, htype1]
        rfl
    . change _ = (s2.file f0).type.inode?
      rw [htype0]
      rfl
  . apply Sat.bind (fileclose_excess s2 f0)
    intro s3 h3
    apply Sat.bind (fileclose_excess s3 f1)
    intro s4 h4
    exact h4.trans h3

variable [DecidableEq P]

theorem dup_excess (s : State n P) (p : P) (fd : Int)
    : Sat Any (fun r => r.2.excess = s.excess) (s.dup p fd) := by
  unfold State.dup
  split
  . rfl
  . next k f _ =>
    rcases s.fdalloc_cases p f with hfull | ⟨fd', _, halloc⟩
    . rw [hfull]
      rfl
    . rw [halloc]
      apply Sat.bind (filedup_excess _ f)
      intro s1 h1
      exact h1

theorem close_excess (s : State n P) (p : P) (fd : Int)
    : Sat Any (fun r => r.2.excess = s.excess) (s.close p fd) := by
  unfold State.close
  split
  . rfl
  . apply Sat.bind (fileclose_excess _ _)
    intro s1 h1
    exact h1

theorem pipe_excess (h : s.Counts extra) (p : P) (kalloc : Bool)
    : Sat Any (fun r => r.2.excess = s.excess) (s.pipe p kalloc) := by
  have hclose : ∀ (s1 : State n P) (rf wf : Fin NFILE), s1.excess = s.excess
      → Sat Any (fun r => r.2.excess = s.excess) (do
        let s ← s1.fileclose rf
        let s ← s.fileclose wf
        return ((-1 : Int), s)) := by
    intro s1 rf wf h1
    apply Sat.bind (fileclose_excess s1 rf)
    intro s2 h2
    apply Sat.bind (fileclose_excess s2 wf)
    intro s3 h3
    exact h3.trans (h2.trans h1)
  apply Sat.bind (pipealloc_excess h kalloc)
  rintro ⟨r, s1⟩ h1
  cases r with
  | none => exact h1
  | some r =>
    rcases r with ⟨rf, wf⟩
    dsimp only
    rcases s1.fdalloc_cases p rf with hfull | ⟨fd0, _, halloc0⟩
    . rw [hfull]
      exact hclose s1 rf wf h1
    rw [halloc0]
    dsimp only
    rcases (s1.setOfile p fd0 (some rf)).fdalloc_cases p wf with hfull | ⟨fd1, _, halloc1⟩
    . rw [hfull]
      exact hclose _ rf wf h1
    . rw [halloc1]
      exact h1

theorem openFile_excess (h : s.Counts extra) (p : P) (ip : Fin n) (omode : Nat)
    : Sat Any (fun r => r.2.excess = s.excess - Pi.single ip 1) (s.openFile p ip omode) := by
  have hput : ∀ s1 : State n P, s1.excess = s.excess
      → Sat Any (fun r => r.2.excess = s.excess - Pi.single ip 1) (do
        let fs ← s1.fs.iunlockput ip
        return ((-1 : Int), { s1 with fs := fs.endOp })) := by
    intro s1 h1
    apply Sat.bind ((Fs.State.iunlockput_refs s1.fs ip).mono (fun _ _ => trivial) (fun _ h => h))
    intro fs hfs
    change excess { s1 with fs := fs.endOp } = _
    rw [excess_withFs, Fs.State.refs_endOp, hfs, h1]
    abel
  unfold State.openFile
  rcases s.filealloc_cases with hfull | ⟨f, hzero, halloc⟩
  . rw [hfull]
    exact hput s rfl
  rw [halloc]
  have hexcess1 : (s.setFile f { s.file f with ref := 1 }).excess = s.excess := excess_setFile_same rfl
  have htype : ((s.setFile f { s.file f with ref := 1 }).file f).type = .none := by
    change (Function.update s.file f _ f).type = _
    rw [Function.update_self]
    exact h.unused f hzero
  generalize s.setFile f { s.file f with ref := 1 } = s1 at hexcess1 htype ⊢
  dsimp only
  rcases s1.fdalloc_cases p f with hfull | ⟨fd, _, halloc1⟩
  . rw [hfull]
    apply Sat.bind (fileclose_excess s1 f)
    intro s2 h2
    exact hput s2 (h2.trans hexcess1)
  . rw [halloc1]
    apply Sat.bind ((Fs.State.iunlock_refs _ ip).mono (fun _ _ => trivial) (fun _ h => h))
    intro fs hfs
    refine (excess_setFile _ f _).trans ?_
    rw [excess_withFs, Fs.State.refs_endOp, hfs, excess_setOfile, hexcess1]
    change s.excess + (s1.fs.refs - s1.fs.refs) + hold (s1.file f).type.inode? - Pi.single ip 1 = _
    rw [htype]
    change s.excess + (s1.fs.refs - s1.fs.refs) + 0 - Pi.single ip 1 = _
    abel

theorem sysOpen_excess (h : s.Quiet) (p : P) (cwd : Fin n) (path : List UInt8) (omode : Nat)
    : Sat Any (fun r => r.2.excess = s.excess) (s.sysOpen p cwd path omode) := by
  apply Sat.bind ((Fs.State.beginOp_refs s.fs).mono (fun _ _ => trivial) (fun _ h => h))
  intro fs1 h1
  apply Sat.bind ((openInode_inner fs1 cwd path omode).mono (fun _ _ => trivial) (fun _ h => h))
  rintro ⟨r, fs2⟩ h2
  dsimp only at h2
  cases r with
  | none =>
    change excess { s with fs := fs2.endOp } = _
    rw [excess_withFs, Fs.State.refs_endOp, h2, h1]
    change s.excess + (s.fs.refs + 0 - s.fs.refs) = _
    abel
  | some ip =>
    apply (openFile_excess (h.counts.withFs fs2) p ip omode).mono (fun _ _ => trivial)
    intro r hr
    rw [hr, excess_withFs, h2, h1]
    change s.excess + (s.fs.refs + Pi.single ip 1 - s.fs.refs) - _ = _
    abel

omit [DecidableEq P] in
theorem transact_excess {α : Type} (s : State n P) {op : Fs.State n → Except Fs.Halt (α × Fs.State n)}
    (d : α → Fin n → Int) (hop : ∀ fs, Sat Halt.Inner (fun r => r.2.refs = fs.refs + d r.1) (op fs))
    : Sat Any (fun r => r.2.excess = s.excess + d r.1 ∧ r.2.cwd = s.cwd) (s.transact op) := by
  apply Sat.bind ((Fs.State.beginOp_refs s.fs).mono (fun _ _ => trivial) (fun _ h => h))
  intro fs1 h1
  apply Sat.bind ((hop fs1).mono (fun _ _ => trivial) (fun _ h => h))
  rintro ⟨r, fs2⟩ h2
  dsimp only at h2
  refine ⟨?_, rfl⟩
  change excess { s with fs := fs2.endOp } = _
  rw [excess_withFs, Fs.State.refs_endOp, h2, h1]
  abel

theorem chdir_excess (s : State n P) (p : P) (hcwd : s.cwd p = some cwd) (path : List UInt8)
    : Sat Any (fun r => r.2.excess = s.excess) (s.chdir p cwd path) := by
  apply Sat.bind (transact_excess s (fun r => hold r - hold (r.map fun _ => cwd)) fun fs =>
    (chdirInode_inner fs cwd path).mono (fun _ h => h) (fun r hr => by rw [hr, add_sub_assoc]))
  rintro ⟨r, s1⟩ ⟨h1, hsame⟩
  dsimp only at h1 hsame
  cases r with
  | none =>
    change s1.excess = _
    rw [h1]
    change s.excess + (0 - 0) = _
    abel
  | some ip =>
    change (s1.setCwd p (some ip)).excess = _
    rw [excess_setCwd, h1, hsame, hcwd]
    change s.excess + (Pi.single ip 1 - Pi.single cwd 1) + Pi.single cwd 1 - Pi.single ip 1 = _
    abel

omit [DecidableEq P] in
theorem exec_excess (s : State n P) (cwd : Fin n) (path : List UInt8) (mem : Fs.State.ExecMem)
    : Sat Any (fun r => r.2.excess = s.excess) (s.exec cwd path mem) := by
  apply Sat.bind (transact_excess s (fun _ => 0) fun fs =>
    (fs.exec_refs cwd path mem).mono (fun _ h => h) (fun r hr => hr.trans (add_zero _).symm))
  rintro ⟨r, s1⟩ ⟨h1, _⟩
  have hexcess : s1.excess = s.excess := h1.trans (add_zero _)
  cases r with
  | none => exact hexcess
  | some sz => exact hexcess

theorem fork_excess (s : State n P) (p : P) (cwd : Fin n) {np : Option P}
    (hnp : ∀ q, np = some q → s.cwd q = none)
    : Sat Any (fun r => r.2.excess = s.excess) (s.fork p cwd np) := by
  unfold State.fork
  cases np with
  | none => rfl
  | some np =>
    dsimp only
    refine Sat.bind (P := fun s' => s'.excess = s.excess ∧ s'.cwd = s.cwd) ?_ ?_
    . refine Sat.foldlM_const (I := fun s' : State n P => s'.excess = s.excess ∧ s'.cwd = s.cwd)
        ⟨rfl, rfl⟩ ?_
      rintro fd s1 - ⟨h1, hcwd⟩
      split
      . exact ⟨h1, hcwd⟩
      . next f _ =>
        unfold State.filedup
        split
        . trivial
        refine ⟨?_, hcwd⟩
        change (s1.addRef f 1).excess = _
        rw [← h1]
        exact excess_setFile_same rfl
    . rintro s1 ⟨h1, hcwd⟩
      have hnew : s1.cwd np = none := by
        rw [hcwd]
        exact hnp np rfl
      change (State.setCwd { s1 with fs := s1.fs.idup cwd } np (some cwd)).excess = _
      rw [excess_setCwd, excess_withFs, Fs.State.refs_idup, h1]
      change s.excess + (s1.fs.refs + Pi.single cwd 1 - s1.fs.refs) + hold (s1.cwd np) - Pi.single cwd 1 = _
      rw [hnew]
      change s.excess + (s1.fs.refs + Pi.single cwd 1 - s1.fs.refs) + 0 - Pi.single cwd 1 = _
      abel

omit [Fintype P] [DecidableEq P] in
theorem fileclose_cwd (s : State n P) (f : Fin NFILE)
    : Sat Any (fun s' => s'.cwd = s.cwd) (s.fileclose f) := by
  unfold State.fileclose
  dsimp only
  split
  . trivial
  split
  . rfl
  unfold closeType
  split
  . rfl
  . rfl
  . apply Sat.bind ((Fs.State.beginOp_refs _).mono (fun _ _ => trivial) (fun _ h => h))
    intro fs1 _
    apply Sat.bind ((Fs.State.iput_refs fs1 _).mono (fun _ _ => trivial) (fun _ h => h))
    intro fs2 _
    rfl

theorem exit_excess (s : State n P) (p : P) (hcwd : s.cwd p = some cwd)
    : Sat Any (fun s' => s'.excess = s.excess) (s.exit p cwd) := by
  refine Sat.bind (P := fun s' => s'.excess = s.excess ∧ s'.cwd = s.cwd) ?_ ?_
  . refine Sat.foldlM_const (I := fun s' : State n P => s'.excess = s.excess ∧ s'.cwd = s.cwd)
      ⟨rfl, rfl⟩ ?_
    rintro fd s1 - ⟨h1, hcwd1⟩
    split
    . exact ⟨h1, hcwd1⟩
    . next f _ =>
      have hexcess := fileclose_excess s1 f
      have hsame := fileclose_cwd s1 f
      cases hclose : s1.fileclose f with
      | error e => trivial
      | ok s2 => exact ⟨(hexcess.of_ok hclose).trans h1, (hsame.of_ok hclose).trans hcwd1⟩
  . rintro s1 ⟨h1, hcwd1⟩
    apply Sat.bind ((Fs.State.beginOp_refs s1.fs).mono (fun _ _ => trivial) (fun _ h => h))
    intro fs1 hfs1
    apply Sat.bind ((Fs.State.iput_refs fs1 cwd).mono (fun _ _ => trivial) (fun _ h => h))
    intro fs2 hfs2
    change (State.setCwd { s1 with fs := fs2.endOp } p none).excess = _
    rw [excess_setCwd, excess_withFs, Fs.State.refs_endOp, hfs2, hfs1, h1]
    change s.excess + (s1.fs.refs - Pi.single cwd 1 - s1.fs.refs) + hold (s1.cwd p) - 0 = _
    rw [hcwd1, hcwd]
    change s.excess + (s1.fs.refs - Pi.single cwd 1 - s1.fs.refs) + Pi.single cwd 1 - 0 = _
    abel

theorem syscall_excess (h : s.Quiet) {p : P} {c : Call P} (henabled : s.Enabled p cwd c)
    : Sat Any (fun r => r.2.excess = s.excess) (s.syscall p cwd c) := by
  have hinodes : ∀ op : Fs.State n → Except Fs.Halt (Int × Fs.State n),
      (∀ fs, Sat Halt.Inner (fun r => r.2.refs = fs.refs) (op fs))
        → Sat Any (fun r => r.2.excess = s.excess) (s.transact op) := by
    intro op hop
    apply (transact_excess s (fun _ => 0) fun fs =>
      (hop fs).mono (fun _ h => h) (fun r hr => hr.trans (add_zero _).symm)).mono (fun _ h => h)
    intro r hr
    exact hr.1.trans (add_zero _)
  cases c with
  | «open» path omode => exact sysOpen_excess h p cwd path omode
  | mkdir path => exact hinodes _ fun fs => make_inner fs cwd path _ _ _
  | mknod path major minor => exact hinodes _ fun fs => make_inner fs cwd path _ _ _
  | link old new => exact hinodes _ fun fs => fs.link_refs cwd old new
  | unlink path => exact hinodes _ fun fs => fs.unlink_refs cwd path
  | chdir path => exact chdir_excess s p henabled.1 path
  | exec path mem => exact exec_excess s cwd path mem
  | dup fd => exact dup_excess s p fd
  | close fd => exact close_excess s p fd
  | pipe kalloc => exact pipe_excess h.counts p kalloc
  | fork np =>
    apply fork_excess s p cwd
    intro q hq
    apply henabled.2 q
    rw [hq]
  | exit =>
    apply Sat.bind (exit_excess s p henabled.1)
    intro s1 h1
    exact h1

theorem excess_of_reachable {s0 : State n P} (h0 : s0.Start) (h : Reach.Reachable s0 Steps s)
    : s.excess = s0.excess := by
  apply Reach.Reachable.induct (fun s => s.excess = s0.excess) rfl _ h
  rintro s a s' hs hexcess ⟨cwd, r, henabled, hcall⟩
  rw [← hexcess]
  exact (syscall_excess (quiet_of_reachable h0 hs) henabled).of_ok hcall

omit [DecidableEq P] in
theorem total_cwd (s : State n P) (i : Fin n)
    : Count.total (fun c => hold c i) s.cwd = (Finset.univ.filter fun p => s.cwd p = some i).card := by
  have hcard := Count.card_eq_total (fun c : Option (Fin n) => (c = some i : Bool)) s.cwd
  simp only [decide_eq_true_eq] at hcard
  rw [hcard]
  simp only [hold_apply]

omit [DecidableEq P] in
theorem total_file (h : s.Quiet) (i : Fin n)
    : Count.total (fun x => hold x.type.inode? i) s.file
      = (Finset.univ.filter fun f => 0 < (s.file f).ref ∧ (s.file f).type = .inode i).card := by
  have hcard := Count.card_eq_total (fun x : File n => (x.type = .inode i : Bool)) s.file
  simp only [decide_eq_true_eq] at hcard
  have hfilter : (Finset.univ.filter fun f => 0 < (s.file f).ref ∧ (s.file f).type = .inode i)
      = Finset.univ.filter fun f => (s.file f).type = .inode i := by
    apply Finset.filter_congr
    intro f _
    constructor
    . exact And.right
    . intro htype
      refine ⟨h.counts.ref_pos ?_, htype⟩
      rw [htype]
      simp
  rw [hfilter, hcard]
  simp only [hold_apply, inode?_eq_some]

/--
Whenever no system call is in progress, the count of an entry of the inode cache is the number of open
files and of working directories that refer to it. Under any interleaving of the functions of the cache
no two entries in use are for the same inode, and an entry in use stays with its inode.
-/
theorem inode_refs_balance
    : (∀ s0 s : State n P, s0.Start
        → (∀ i, (s0.fs.inode i).ref = (Finset.univ.filter fun p => s0.cwd p = some i).card)
        → Reach.Reachable s0 Steps s
        → ∀ i, (s.fs.inode i).ref
          = (Finset.univ.filter fun f => 0 < (s.file f).ref ∧ (s.file f).type = .inode i).card
            + (Finset.univ.filter fun p => s.cwd p = some i).card)
      ∧ ∀ t0 t : Icache.State n P, t0.Start → Reach.Reachable t0 Icache.State.Steps t
        → (∀ i j, 0 < (t.fs.inode i).ref → 0 < (t.fs.inode j).ref
            → (t.fs.inode i).dev = (t.fs.inode j).dev → (t.fs.inode i).inum = (t.fs.inode j).inum → i = j)
          ∧ ∀ a t', t.Steps a t' → ∀ i, 0 < (t.fs.inode i).ref
            → (t'.fs.inode i).dev = (t.fs.inode i).dev ∧ (t'.fs.inode i).inum = (t.fs.inode i).inum := by
  constructor
  . intro s0 s h0 hrefs h i
    have hquiet := quiet_of_reachable h0 h
    have hstart : s0.excess = 0 := by
      funext i
      have hfile : Count.total (fun x : File n => hold x.type.inode? i) s0.file = 0 := by
        apply Finset.sum_eq_zero
        intro f _
        dsimp only
        rw [(h0.file f).2]
        rfl
      change (s0.fs.inode i).ref - (_ + _) = 0
      rw [hfile, total_cwd, hrefs]
      omega
    have hexcess := congrFun ((excess_of_reachable h0 h).trans hstart) i
    change (s.fs.inode i).ref - (_ + _) = 0 at hexcess
    rw [total_file hquiet, total_cwd] at hexcess
    omega
  . intro t0 t h0 h
    have hinv := Icache.State.inv_of_reachable h0 h
    constructor
    . intro i j hi hj hdev hinum
      exact hinv.single i j hi hj (Prod.ext hdev hinum)
    . intro a t' hstep i hi
      have hkey := (hinv.step hstep).2 i hi
      exact ⟨congrArg Prod.fst hkey, congrArg Prod.snd hkey⟩

end

theorem inode_refs_balance_of_open
    : ∃ s : State 1 Bool, Reach.Reachable boot Steps s ∧ ∀ i, (s.fs.inode i).ref = 3
      ∧ (s.fs.inode i).ref
        = (Finset.univ.filter fun f => 0 < (s.file f).ref ∧ (s.file f).type = .inode i).card
          + (Finset.univ.filter fun p => s.cwd p = some i).card := by
  rcases Reach.exists_of_exec (b := boot) (f := step) (fun _ _ _ => steps_of_step)
      [(false, .open [slash] 0), (false, .fork (some true))]
      (P := fun s => ∀ i, (s.fs.inode i).ref = 3) (by decide +kernel)
    with ⟨s, hs, hp⟩
  rw [decide_eq_true_iff] at hp
  refine ⟨s, hs, ?_⟩
  intro i
  exact ⟨hp i, inode_refs_balance.1 boot s start_boot (by decide +kernel) hs i⟩

end State
end Xv6.Sysfile
