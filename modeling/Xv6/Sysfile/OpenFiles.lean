import Xv6.Sysfile.Counts

namespace Xv6.Sysfile
namespace State

open Outcome Xv6.Fs

variable {n : Nat} {P : Type} [Fintype P] [DecidableEq P] {s : State n P} {p : P}

def Dead (s : State n P) : Prop :=
  ∀ p fd, s.cwd p = none → s.ofile (p, fd) = none

structure Quiet (s : State n P) : Prop where
  counts : s.Counts fun _ => 0
  dead : s.Dead

omit [Fintype P] in
theorem Dead.setOfile {fd : Fin NOFILE} {v : Option (Fin NFILE)} (h : s.Dead)
    (hlive : s.cwd p ≠ none ∨ v = none)
    : (s.setOfile p fd v).Dead := by
  intro q fd' hdead
  change Function.update s.ofile (p, fd) v (q, fd') = none
  by_cases hq : (q, fd') = (p, fd)
  . rw [hq, Function.update_self]
    rcases hlive with hlive | hnone
    . cases hq
      exact absurd hdead hlive
    . exact hnone
  . rw [Function.update_of_ne hq]
    exact h q fd' hdead

omit [Fintype P] [DecidableEq P] in
theorem Dead.frame {s' : State n P} (h : s.Dead) (hframe : Frame s s') : s'.Dead := by
  intro p fd
  rw [hframe.1, hframe.2]
  exact h p fd

omit [DecidableEq P] in
theorem Quiet.ref_pos (h : s.Quiet) {k : P × Fin NOFILE} {f : Fin NFILE} (hslot : s.ofile k = some f)
    : 1 ≤ (s.file f).ref := by
  rw [h.counts.ref, Int.add_zero]
  exact slots_pos hslot

omit [DecidableEq P] in
theorem Quiet.withFs (h : s.Quiet) (fs : Fs.State n) : Quiet { s with fs := fs } :=
  ⟨h.counts.withFs fs, h.dead⟩

theorem Quiet.dup (h : s.Quiet) (hlive : s.cwd p ≠ none) (fd : Int)
    : Sat Halt.Inner (fun r => r.2.Quiet) (s.dup p fd) := by
  unfold State.dup
  split
  . exact h
  . next k f hfd =>
    rcases s.fdalloc_cases p f with hfull | ⟨fd', hnone, halloc⟩
    . rw [hfull]
      exact h
    . rw [halloc]
      apply Sat.bind ((h.counts.fdalloc (f := f) hnone).filedup (h.ref_pos (argfd_eq_some hfd)))
      rintro s2 ⟨h2, hframe⟩
      refine ⟨h2.congr ?_, (h.dead.setOfile (.inl hlive)).frame hframe⟩
      intro g
      omega

theorem Quiet.close (h : s.Quiet) (fd : Int)
    : Sat Halt.Inner (fun r => r.2.Quiet) (s.close p fd) := by
  unfold State.close
  split
  . exact h
  . next k f hfd =>
    have hslot := argfd_eq_some hfd
    apply Sat.bind ((h.counts.setOfile p k none).fileclose (h.ref_pos hslot))
    rintro s2 ⟨h2, hframe⟩
    refine ⟨h2.congr ?_, (h.dead.setOfile (.inr rfl)).frame hframe⟩
    intro g
    rw [hslot, refers_none, refers_some]
    omega

omit [DecidableEq P] in
theorem close_both {rf wf : Fin NFILE} (h : s.Counts fun g => 0 + unit rf g + unit wf g) (hdead : s.Dead)
    : Sat Halt.Inner (fun r => r.2.Quiet) (do
      let s ← s.fileclose rf
      let s ← s.fileclose wf
      return ((-1 : Int), s)) := by
  have href := h.ref rf
  have hslots := s.slots_nonneg rf
  have hwf := unit_nonneg wf rf
  rw [unit_self] at href
  apply Sat.bind (h.fileclose (f := rf) (by omega))
  rintro s1 ⟨h1, hframe1⟩
  have href := h1.ref wf
  have hslots := s1.slots_nonneg wf
  rw [unit_self] at href
  apply Sat.bind (h1.fileclose (f := wf) (by omega))
  rintro s2 ⟨h2, hframe2⟩
  refine ⟨h2.congr ?_, (hdead.frame hframe1).frame hframe2⟩
  intro g
  omega

theorem Quiet.pipe (h : s.Quiet) (hlive : s.cwd p ≠ none) (kalloc : Bool)
    : Sat Halt.Inner (fun r => r.2.Quiet) (s.pipe p kalloc) := by
  apply Sat.bind (h.counts.pipealloc kalloc fun _ => Int.le_refl 0)
  rintro ⟨r, s1⟩ ⟨hr, hframe⟩
  dsimp only at hr hframe
  have hdead1 := h.dead.frame hframe
  rcases hr with ⟨hnone, h1⟩ | ⟨rf, wf, hsome, h1⟩
  . rw [hnone]
    exact ⟨h1, hdead1⟩
  rw [hsome]
  have hlive1 : s1.cwd p ≠ none := by
    rw [hframe.2]
    exact hlive
  dsimp only
  rcases s1.fdalloc_cases p rf with hfull | ⟨fd0, hnone0, halloc0⟩
  . rw [hfull]
    exact close_both h1 hdead1
  rw [halloc0]
  have h2 := h1.fdalloc (f := rf) hnone0
  have hdead2 : (s1.setOfile p fd0 (some rf)).Dead := hdead1.setOfile (.inl hlive1)
  have hslot : (s1.setOfile p fd0 (some rf)).ofile (p, fd0) = some rf := Function.update_self ..
  have hlive2 : (s1.setOfile p fd0 (some rf)).cwd p ≠ none := hlive1
  generalize s1.setOfile p fd0 (some rf) = s2 at h2 hdead2 hslot hlive2 ⊢
  dsimp only
  rcases s2.fdalloc_cases p wf with hfull | ⟨fd1, hnone1, halloc1⟩
  . rw [hfull]
    refine close_both ((h2.setOfile p fd0 none).congr ?_) (hdead2.setOfile (.inr rfl))
    intro g
    rw [hslot, refers_none, refers_some]
    omega
  . rw [halloc1]
    refine ⟨(h2.fdalloc (f := wf) hnone1).congr ?_, hdead2.setOfile (.inl hlive2)⟩
    intro g
    omega

theorem Quiet.openFile (h : s.Quiet) (hlive : s.cwd p ≠ none) (ip : Fin n) (omode : Nat)
    : Sat Halt.Inner (fun r => r.2.Quiet) (s.openFile p ip omode) := by
  unfold State.openFile
  rcases s.filealloc_cases with hfull | ⟨f, hzero, halloc⟩
  . rw [hfull]
    apply Sat.bind (Fs.State.iunlockput_refs s.fs ip)
    intro fs _
    exact h.withFs _
  rw [halloc]
  have h1 := h.counts.filealloc hzero
  have hself : (s.setFile f { s.file f with ref := 1 }).file f = { s.file f with ref := 1 } :=
    Function.update_self ..
  have hone : ((s.setFile f { s.file f with ref := 1 }).file f).ref = 1 := by
    rw [hself]
  have htype : ((s.setFile f { s.file f with ref := 1 }).file f).type = .none := by
    rw [hself]
    exact h.counts.unused f hzero
  have hdead1 : (s.setFile f { s.file f with ref := 1 }).Dead := h.dead
  have hlive1 : (s.setFile f { s.file f with ref := 1 }).cwd p ≠ none := hlive
  generalize s.setFile f { s.file f with ref := 1 } = s1 at h1 hone htype hdead1 hlive1 ⊢
  dsimp only
  rcases s1.fdalloc_cases p f with hfull | ⟨fd, hnone, halloc1⟩
  . rw [hfull]
    apply Sat.bind (h1.fileclose (f := f) (by omega))
    rintro s2 ⟨h2, hframe⟩
    apply Sat.bind (Fs.State.iunlockput_refs s2.fs ip)
    intro fs _
    refine ⟨(h2.withFs _).congr ?_, hdead1.frame hframe⟩
    intro g
    omega
  . rw [halloc1]
    have h2 := h1.fdalloc (f := f) hnone
    apply Sat.bind (Fs.State.iunlock_refs _ ip)
    intro fs _
    refine ⟨Counts.congr (Counts.openInode (i := ip) (h2.withFs fs.endOp) htype ?_ ?_ ?_) ?_,
      hdead1.setOfile (.inl hlive1)⟩
    . rfl
    . change (s1.file f).ref ≠ 0
      omega
    . rfl
    . intro g
      omega

theorem openInode_inner (fs : Fs.State n) (cwd : Fin n) (path : List UInt8) (omode : Nat)
    : Sat Halt.Inner (fun r => r.2.refs = fs.refs + Fs.State.hold r.1) (openInode fs cwd path omode) := by
  unfold openInode
  split
  . apply Fs.State.create_refs
  apply Sat.bind (Fs.State.namei_refs fs cwd path)
  rintro ⟨r, fs1⟩ h1
  cases r with
  | none => exact h1
  | some ip =>
    have h1 : fs1.refs = fs.refs + Pi.single ip 1 := h1
    apply Sat.bind (Fs.State.ilock_refs fs1 ip)
    intro fs2 h2
    split
    . apply Sat.bind (Fs.State.iunlockput_refs fs2 ip)
      intro fs3 h3
      change fs3.refs = fs.refs + 0
      rw [h3, h2, h1]
      abel
    . exact h2.trans h1

theorem Quiet.sysOpen (h : s.Quiet) (hlive : s.cwd p ≠ none) (cwd : Fin n) (path : List UInt8)
    (omode : Nat)
    : Sat Halt.Inner (fun r => r.2.Quiet) (s.sysOpen p cwd path omode) := by
  apply Sat.bind (Fs.State.beginOp_refs s.fs)
  intro fs1 _
  apply Sat.bind (openInode_inner fs1 cwd path omode)
  rintro ⟨r, fs2⟩ _
  cases r with
  | none => exact h.withFs _
  | some ip => exact Quiet.openFile (h.withFs fs2) hlive ip omode

omit [DecidableEq P] in
theorem Quiet.transact {α : Type} (h : s.Quiet) {op : Fs.State n → Except Fs.Halt (α × Fs.State n)}
    (hop : ∀ fs, Sat Halt.Inner (fun _ => True) (op fs))
    : Sat Halt.Inner (fun r => r.2.Quiet) (s.transact op) := by
  apply Sat.bind (Fs.State.beginOp_refs s.fs)
  intro fs1 _
  apply Sat.bind (hop fs1)
  rintro ⟨r, fs2⟩ _
  exact h.withFs _

theorem make_inner (fs : Fs.State n) (cwd : Fin n) (path : List UInt8) (type major minor : Int16)
    : Sat Halt.Inner (fun r => r.2.refs = fs.refs) (do
      let (r, fs) ← fs.create cwd path type major minor
      match r with
      | none => return ((-1 : Int), fs)
      | some ip => do
        let fs ← fs.iunlockput ip
        return (0, fs)) := by
  apply Sat.bind (Fs.State.create_refs fs cwd path type major minor)
  rintro ⟨r, fs1⟩ h1
  cases r with
  | none => exact h1.trans (add_zero _)
  | some ip =>
    have h1 : fs1.refs = fs.refs + Pi.single ip 1 := h1
    apply Sat.bind (Fs.State.iunlockput_refs fs1 ip)
    intro fs2 h2
    change fs2.refs = fs.refs
    rw [h2, h1]
    abel

theorem chdirInode_inner (fs : Fs.State n) (cwd : Fin n) (path : List UInt8)
    : Sat Halt.Inner (fun r => r.2.refs = fs.refs + Fs.State.hold r.1 - Fs.State.hold (r.1.map fun _ => cwd))
      (chdirInode fs cwd path) := by
  apply Sat.bind (Fs.State.namei_refs fs cwd path)
  rintro ⟨r, fs1⟩ h1
  cases r with
  | none => exact h1.trans (sub_zero _).symm
  | some ip =>
    have h1 : fs1.refs = fs.refs + Pi.single ip 1 := h1
    apply Sat.bind (Fs.State.ilock_refs fs1 ip)
    intro fs2 h2
    split
    . apply Sat.bind (Fs.State.iunlockput_refs fs2 ip)
      intro fs3 h3
      change fs3.refs = fs.refs + 0 - 0
      rw [h3, h2, h1]
      abel
    . apply Sat.bind (Fs.State.iunlock_refs fs2 ip)
      intro fs3 h3
      apply Sat.bind (Fs.State.iput_refs fs3 cwd)
      intro fs4 h4
      change fs4.refs = fs.refs + Pi.single ip 1 - Pi.single cwd 1
      rw [h4, h3, h2, h1]

theorem Quiet.setCwd {cwd : Fin n} (h : s.Quiet)
    : (s.setCwd p (some cwd)).Quiet where
  counts := h.counts.setCwd _ _
  dead := by
    intro q fd hq
    change Function.update s.cwd p (some cwd) q = none at hq
    by_cases hqp : q = p
    . rw [hqp, Function.update_self] at hq
      cases hq
    . rw [Function.update_of_ne hqp] at hq
      exact h.dead q fd hq

theorem Quiet.chdir (h : s.Quiet) (cwd : Fin n) (path : List UInt8)
    : Sat Halt.Inner (fun r => r.2.Quiet) (s.chdir p cwd path) := by
  apply Sat.bind (h.transact fun fs => (chdirInode_inner fs cwd path).mono (fun _ h => h) (fun _ _ => trivial))
  rintro ⟨r, s1⟩ h1
  cases r with
  | none => exact h1
  | some ip => exact h1.setCwd

omit [DecidableEq P] in
theorem Quiet.exec (h : s.Quiet) (cwd : Fin n) (path : List UInt8) (mem : Fs.State.ExecMem)
    : Sat Halt.Inner (fun r => r.2.Quiet) (s.exec cwd path mem) := by
  apply Sat.bind (h.transact fun fs => (fs.exec_refs cwd path mem).mono (fun _ h => h) (fun _ _ => trivial))
  rintro ⟨r, s1⟩ h1
  cases r with
  | none => exact h1
  | some sz => exact h1

structure Forked (s : State n P) (np : P) (done : List (Fin NOFILE)) (s' : State n P) : Prop where
  counts : s'.Counts fun _ => 0
  cwd : s'.cwd = s.cwd
  others : ∀ q fd, q ≠ np → s'.ofile (q, fd) = s.ofile (q, fd)
  todo : ∀ fd, fd ∉ done → s'.ofile (np, fd) = none

theorem Quiet.fork (h : s.Quiet) (hlive : s.cwd p ≠ none) (cwd : Fin n) {np : Option P}
    (hnp : ∀ q, np = some q → s.cwd q = none)
    : Sat Halt.Inner (fun r => r.2.Quiet) (s.fork p cwd np) := by
  unfold State.fork
  cases np with
  | none => exact h
  | some np =>
    have hnew := hnp np rfl
    have hne : p ≠ np := by
      intro heq
      rw [heq] at hlive
      exact hlive hnew
    dsimp only
    refine Sat.bind (P := Forked s np (List.finRange NOFILE)) ?_ ?_
    . refine Sat.foldlM (Forked s np) (List.finRange NOFILE) [] s ?_ ?_
      . exact ⟨h.counts, rfl, fun _ _ _ => rfl, fun fd _ => h.dead np fd hnew⟩
      . intro pre fd post s1 hsplit h1
        have hfresh : fd ∉ pre := by
          have hnodup := List.nodup_finRange NOFILE
          rw [List.nil_append] at hsplit
          rw [hsplit] at hnodup
          intro hmem
          exact (List.nodup_append.mp hnodup).2.2 fd hmem fd (List.mem_cons_self ..) rfl
        split
        . exact ⟨h1.counts, h1.cwd, h1.others, fun fd' hfd' =>
            h1.todo fd' fun hmem => hfd' (List.mem_append_left _ hmem)⟩
        . next f hf =>
          have hpos : 1 ≤ (s1.file f).ref := by
            rw [h1.counts.ref, Int.add_zero]
            exact slots_pos hf
          apply Sat.bind (h1.counts.filedup hpos)
          rintro s2 ⟨h2, hframe⟩
          refine ⟨(h2.fdalloc ?_).congr ?_, hframe.2.trans h1.cwd, ?_, ?_⟩
          . rw [hframe.1]
            exact h1.todo fd hfresh
          . intro g
            omega
          . intro q fd' hq
            rw [← h1.others q fd' hq, ← hframe.1]
            apply Function.update_of_ne
            intro heq
            cases heq
            exact hq rfl
          . intro fd' hfd'
            rw [List.mem_append, List.mem_singleton, not_or] at hfd'
            rw [← h1.todo fd' hfd'.1, ← hframe.1]
            apply Function.update_of_ne
            intro heq
            cases heq
            exact hfd'.2 rfl
    . intro s1 h1
      refine ⟨(h1.counts.withFs _).setCwd _ _, ?_⟩
      intro q fd hq
      change Function.update s1.cwd np (some cwd) q = none at hq
      have hqnp : q ≠ np := by
        intro heq
        rw [heq, Function.update_self] at hq
        cases hq
      rw [Function.update_of_ne hqnp, h1.cwd] at hq
      exact (h1.others q fd hqnp).trans (h.dead q fd hq)

structure Exited (s : State n P) (p : P) (done : List (Fin NOFILE)) (s' : State n P) : Prop where
  counts : s'.Counts fun _ => 0
  cwd : s'.cwd = s.cwd
  others : ∀ q fd, q ≠ p → s'.ofile (q, fd) = s.ofile (q, fd)
  closed : ∀ fd, fd ∈ done → s'.ofile (p, fd) = none

theorem Quiet.exit (h : s.Quiet) (p : P) (cwd : Fin n)
    : Sat Halt.Inner Quiet (s.exit p cwd) := by
  refine Sat.bind (P := Exited s p (List.finRange NOFILE)) ?_ ?_
  . refine Sat.foldlM (Exited s p) (List.finRange NOFILE) [] s ?_ ?_
    . exact ⟨h.counts, rfl, fun _ _ _ => rfl, by simp⟩
    . intro pre fd post s1 hsplit h1
      split
      . next hnone =>
        refine ⟨h1.counts, h1.cwd, h1.others, ?_⟩
        intro fd' hfd'
        rw [List.mem_append, List.mem_singleton] at hfd'
        rcases hfd' with hfd' | hfd'
        . exact h1.closed fd' hfd'
        . rw [hfd']
          exact hnone
      . next f hf =>
        have hpos : 1 ≤ (s1.file f).ref := by
          rw [h1.counts.ref, Int.add_zero]
          exact slots_pos hf
        apply Sat.bind (h1.counts.fileclose hpos)
        rintro s2 ⟨h2, hframe⟩
        refine ⟨(h2.setOfile p fd none).congr ?_, hframe.2.trans h1.cwd, ?_, ?_⟩
        . intro g
          rw [hframe.1, hf, refers_none, refers_some]
          omega
        . intro q fd' hq
          rw [← h1.others q fd' hq, ← hframe.1]
          apply Function.update_of_ne
          intro heq
          cases heq
          exact hq rfl
        . intro fd' hfd'
          change Function.update s2.ofile (p, fd) none (p, fd') = none
          by_cases heq : fd' = fd
          . rw [heq, Function.update_self]
          . rw [Function.update_of_ne (by simp [heq]), hframe.1]
            rw [List.mem_append, List.mem_singleton] at hfd'
            exact h1.closed fd' (hfd'.resolve_right heq)
  . intro s1 h1
    apply Sat.bind (Fs.State.beginOp_refs s1.fs)
    intro fs1 _
    apply Sat.bind (Fs.State.iput_refs fs1 cwd)
    intro fs2 _
    refine ⟨(h1.counts.withFs _).setCwd _ _, ?_⟩
    intro q fd hq
    by_cases hqp : q = p
    . rw [hqp]
      exact h1.closed fd (List.mem_finRange fd)
    . change Function.update s1.cwd p none q = none at hq
      rw [Function.update_of_ne hqp, h1.cwd] at hq
      exact (h1.others q fd hqp).trans (h.dead q fd hq)

theorem Quiet.syscall (h : s.Quiet) {cwd : Fin n} {c : Call P} (henabled : s.Enabled p cwd c)
    : Sat Halt.Inner (fun r => r.2.Quiet) (s.syscall p cwd c) := by
  have hlive : s.cwd p ≠ none := by
    rw [henabled.1]
    simp
  have hinodes : ∀ op : Fs.State n → Except Fs.Halt (Int × Fs.State n),
      (∀ fs, Sat Halt.Inner (fun r => r.2.refs = fs.refs) (op fs))
        → Sat Halt.Inner (fun r => r.2.Quiet) (s.transact op) := by
    intro op hop
    apply h.transact
    intro fs
    exact (hop fs).mono (fun _ h => h) (fun _ _ => trivial)
  cases c with
  | «open» path omode => exact h.sysOpen hlive cwd path omode
  | mkdir path => exact hinodes _ fun fs => make_inner fs cwd path _ _ _
  | mknod path major minor => exact hinodes _ fun fs => make_inner fs cwd path _ _ _
  | link old new => exact hinodes _ fun fs => fs.link_refs cwd old new
  | unlink path => exact hinodes _ fun fs => fs.unlink_refs cwd path
  | chdir path => exact h.chdir cwd path
  | exec path mem => exact h.exec cwd path mem
  | dup fd => exact h.dup hlive fd
  | close fd => exact h.close fd
  | pipe kalloc => exact h.pipe hlive kalloc
  | fork np =>
    apply h.fork hlive cwd
    intro q hq
    apply henabled.2 q
    rw [hq]
  | exit =>
    apply Sat.bind (h.exit p cwd)
    intro s1 h1
    exact h1

structure Start (s : State n P) : Prop where
  file : ∀ f, (s.file f).ref = 0 ∧ (s.file f).type = .none
  pipes : s.pipes = []
  ofile : ∀ k, s.ofile k = none

omit [DecidableEq P] in
theorem Start.quiet (h : s.Start) : s.Quiet := by
  refine ⟨⟨?_, ?_, ?_, ?_, ?_, ?_, ?_, ?_⟩, fun p fd _ => h.ofile (p, fd)⟩
  . intro f
    have hslots : s.slots f = 0 := by
      apply Finset.sum_eq_zero
      intro k _
      rw [h.ofile k]
      rfl
    rw [(h.file f).1, hslots]
    rfl
  . intro f _
    exact (h.file f).2
  . intro f p hp
    rw [(h.file f).2] at hp
    cases hp
  . intro f g p hp
    rw [(h.file f).2] at hp
    cases hp
  . intro f p hp
    rw [(h.file f).2] at hp
    cases hp
  all_goals
    intro p x hx
    rw [h.pipes] at hx
    cases hx

theorem quiet_of_reachable {s0 : State n P} (h0 : s0.Start) (h : Reach.Reachable s0 Steps s) : s.Quiet := by
  apply Reach.Reachable.induct Quiet h0.quiet _ h
  rintro s a s' - hquiet ⟨cwd, r, henabled, hcall⟩
  exact (hquiet.syscall henabled).of_ok hcall

/--
Whenever no call is in progress, the count of a file is the number of descriptors that refer to it, a file
with count 0 has no type, an end of a pipe is open as long as there is a file for it, and the page of
the pipe is freed once, when both ends have gone. `filedup` and `fileclose` do not panic.
-/
theorem open_file_counts {s0 : State n P} (h0 : s0.Start) (h : Reach.Reachable s0 Steps s)
    : (∀ f, (s.file f).ref = (Finset.univ.filter fun k : P × Fin NOFILE => s.ofile k = some f).card)
      ∧ (∀ f, (s.file f).ref = 0 → (s.file f).type = .none)
      ∧ (∀ (p : Nat) (x : Pipe), s.pipes[p]? = some x →
          (x.readopen = true ↔ ∃ f, 0 < (s.file f).ref ∧ (s.file f).type = .pipe p ∧ (s.file f).readable = true)
          ∧ (x.writeopen = true
            ↔ ∃ f, 0 < (s.file f).ref ∧ (s.file f).type = .pipe p ∧ (s.file f).writable = true)
          ∧ x.kfreed = if x.readopen = false ∧ x.writeopen = false then 1 else 0)
      ∧ ∀ p cwd c, s.Enabled p cwd c
        → s.syscall p cwd c ≠ .error .filedup ∧ s.syscall p cwd c ≠ .error .fileclose := by
  have hquiet := quiet_of_reachable h0 h
  have hcounts := hquiet.counts
  have hpos : ∀ f p, (s.file f).type = .pipe p → 0 < (s.file f).ref := by
    intro f p hp
    apply hcounts.ref_pos
    rw [hp]
    simp
  refine ⟨?_, hcounts.unused, ?_, ?_⟩
  . intro f
    have hcard := Count.card_eq_total (fun x : Option (Fin NFILE) => (x = some f : Bool)) s.ofile
    simp only [decide_eq_true_eq] at hcard
    rw [hcounts.ref, Int.add_zero, hcard]
    unfold slots refers
    simp only [decide_eq_true_eq]
  . intro p x hx
    refine ⟨(hcounts.readopen p x hx).trans ?_, (hcounts.writeopen p x hx).trans ?_, hcounts.kfreed p x hx⟩
    . apply exists_congr
      intro f
      constructor
      . rintro ⟨htype, hw⟩
        refine ⟨hpos f p htype, htype, ?_⟩
        rw [hcounts.readable f p htype, hw]
        rfl
      . rintro ⟨_, htype, hr⟩
        refine ⟨htype, ?_⟩
        rw [hcounts.readable f p htype] at hr
        simpa using hr
    . apply exists_congr
      intro f
      exact ⟨fun hf => ⟨hpos f p hf.1, hf⟩, And.right⟩
  . intro p cwd c henabled
    have hsat := hquiet.syscall henabled
    constructor
    . intro herror
      exact (hsat.of_error herror).1 rfl
    . intro herror
      exact (hsat.of_error herror).2 rfl

theorem boot_size_lt : 1000 < 4294967296 := by
  decide

def boot : State 1 Bool where
  fs := {
    sb := ⟨1000, 941, 200, 30, 2, 32, 58, boot_size_lt⟩
    disk := fun _ => .zero
    lh := []
    outstanding := 0
    inode := fun _ => ⟨ROOTDEV, ROOTINO, 1, false, true, Dinode.fresh T_DIR⟩
    devsw := fun _ => ⟨none, none⟩ }
  file := fun _ => ⟨.none, 0, false, false, .ofNat 0⟩
  pipes := []
  ofile := fun _ => none
  cwd := fun p => cond p none (some (Fin.last 0))

theorem start_boot : boot.Start :=
  ⟨fun _ => ⟨rfl, rfl⟩, rfl, fun _ => rfl⟩

theorem open_file_counts_of_pipe
    : ∃ s : State 1 Bool, Reach.Reachable boot Steps s ∧ s.pipes.length = 1
      ∧ (∃ f, (s.file f).ref = 1 ∧ (s.file f).type = .pipe 0)
      ∧ (∃ f, (s.file f).ref = 2 ∧ (s.file f).type = .pipe 0)
      ∧ ∀ f, (s.file f).ref = (Finset.univ.filter fun k : Bool × Fin NOFILE => s.ofile k = some f).card := by
  rcases Reach.exists_of_exec (b := boot) (f := step) (fun _ _ _ => steps_of_step)
      [(false, .pipe true), (false, .fork (some true)), (true, .close 0)]
      (P := fun s => s.pipes.length = 1 ∧ (∃ f, (s.file f).ref = 1 ∧ (s.file f).type = .pipe 0)
        ∧ ∃ f, (s.file f).ref = 2 ∧ (s.file f).type = .pipe 0) (by decide +kernel)
    with ⟨s, hs, hp⟩
  rw [decide_eq_true_iff] at hp
  exact ⟨s, hs, hp.1, hp.2.1, hp.2.2, (open_file_counts start_boot hs).1⟩

end State
end Xv6.Sysfile
