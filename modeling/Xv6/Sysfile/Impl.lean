import Xv6.Fs.Impl.Calls

/-!
The file table (`file.c`), the allocation of pipes (`pipe.c`), and the system calls of
`sysfile.c` and `proc.c` with the descriptor tables and working directories of the processes.
-/

namespace Xv6.Sysfile

abbrev NFILE : Nat := 100

abbrev NOFILE : Nat := 16

inductive FdType (n : Nat)
  | none
  | pipe (p : Nat)
  | inode (ip : Fin n)
  deriving DecidableEq, Repr

structure File (n : Nat) where
  type : FdType n
  ref : Int
  readable : Bool
  writable : Bool
  off : UInt32

structure Pipe where
  readopen : Bool
  writeopen : Bool
  kfreed : Nat
  deriving DecidableEq, Repr

def Pipe.close (x : Pipe) (writable : Bool) : Pipe :=
  let x := if writable then { x with writeopen := false } else { x with readopen := false }
  if ¬x.readopen ∧ ¬x.writeopen then { x with kfreed := x.kfreed + 1 } else x

/--
The file system, the file table, the pipes in the order of their allocation, and of each process its
descriptors and its working directory, which is 0 for a process that has not been forked or has exited.
-/
structure State (n : Nat) (P : Type) where
  fs : Fs.State n
  file : Fin NFILE → File n
  pipes : List Pipe
  ofile : P × Fin NOFILE → Option (Fin NFILE)
  cwd : P → Option (Fin n)

namespace State

variable {n : Nat} {P : Type}

def setFile (s : State n P) (f : Fin NFILE) (x : File n) : State n P :=
  { s with file := Function.update s.file f x }

def addRef (s : State n P) (f : Fin NFILE) (d : Int) : State n P :=
  s.setFile f { s.file f with ref := (s.file f).ref + d }

def filealloc (s : State n P) : Option (Fin NFILE) × State n P :=
  match (List.finRange NFILE).find? fun f => (s.file f).ref = 0 with
  | some f => (some f, s.setFile f { s.file f with ref := 1 })
  | none => (none, s)

def filedup (s : State n P) (f : Fin NFILE) : Except Fs.Halt (State n P) :=
  if (s.file f).ref < 1 then .error .filedup else .ok (s.addRef f 1)

def pipeclose (s : State n P) (p : Nat) (writable : Bool) : State n P :=
  { s with pipes := s.pipes.modify p fun x => Pipe.close x writable }

def closeType (s : State n P) (ff : File n) : Except Fs.Halt (State n P) :=
  match ff.type with
  | .none => .ok s
  | .pipe p => .ok (s.pipeclose p ff.writable)
  | .inode ip => do
    let fs ← s.fs.beginOp
    let fs ← fs.iput ip
    return { s with fs := fs.endOp }

def fileclose (s : State n P) (f : Fin NFILE) : Except Fs.Halt (State n P) :=
  let ff := s.file f
  if ff.ref < 1 then
    .error .fileclose
  else if ff.ref - 1 > 0 then
    .ok (s.addRef f (-1))
  else
    (s.setFile f { ff with ref := 0, type := .none }).closeType ff

def pipealloc (s : State n P) (kalloc : Bool)
    : Except Fs.Halt (Option (Fin NFILE × Fin NFILE) × State n P) :=
  match s.filealloc with
  | (none, s) => .ok (none, s)
  | (some f0, s) =>
    match s.filealloc with
    | (none, s) => do
      let s ← s.fileclose f0
      return (none, s)
    | (some f1, s) =>
      if kalloc then
        let p := s.pipes.length
        let s := { s with pipes := s.pipes ++ [Pipe.mk true true 0] }
        let s := s.setFile f0 { s.file f0 with type := .pipe p, readable := true, writable := false }
        let s := s.setFile f1 { s.file f1 with type := .pipe p, readable := false, writable := true }
        .ok (some (f0, f1), s)
      else do
        let s ← s.fileclose f0
        let s ← s.fileclose f1
        return (none, s)

section
variable [DecidableEq P]

def setOfile (s : State n P) (p : P) (fd : Fin NOFILE) (f : Option (Fin NFILE)) : State n P :=
  { s with ofile := Function.update s.ofile (p, fd) f }

def setCwd (s : State n P) (p : P) (cwd : Option (Fin n)) : State n P :=
  { s with cwd := Function.update s.cwd p cwd }

def argfd (s : State n P) (p : P) (fd : Int) : Option (Fin NOFILE × Fin NFILE) :=
  (List.finRange NOFILE).findSome? fun k =>
    if (k.val : Int) = fd then (s.ofile (p, k)).map (Prod.mk k) else none

def fdalloc (s : State n P) (p : P) (f : Fin NFILE) : Option (Fin NOFILE) × State n P :=
  match (List.finRange NOFILE).find? fun fd => (s.ofile (p, fd)).isNone with
  | some fd => (some fd, s.setOfile p fd (some f))
  | none => (none, s)

def dup (s : State n P) (p : P) (fd : Int) : Except Fs.Halt (Int × State n P) :=
  match s.argfd p fd with
  | none => .ok (-1, s)
  | some (_, f) =>
    match s.fdalloc p f with
    | (none, s) => .ok (-1, s)
    | (some fd, s) => do
      let s ← s.filedup f
      return (fd.val, s)

def close (s : State n P) (p : P) (fd : Int) : Except Fs.Halt (Int × State n P) :=
  match s.argfd p fd with
  | none => .ok (-1, s)
  | some (fd, f) => do
    let s ← (s.setOfile p fd none).fileclose f
    return (0, s)

def pipe (s : State n P) (p : P) (kalloc : Bool) : Except Fs.Halt (Int × State n P) := do
  let (r, s) ← s.pipealloc kalloc
  match r with
  | none => return (-1, s)
  | some (rf, wf) =>
    match s.fdalloc p rf with
    | (none, s) => do
      let s ← s.fileclose rf
      let s ← s.fileclose wf
      return (-1, s)
    | (some fd0, s) =>
      match s.fdalloc p wf with
      | (none, s) => do
        let s := s.setOfile p fd0 none
        let s ← s.fileclose rf
        let s ← s.fileclose wf
        return (-1, s)
      | (some _, s) => return (0, s)

def transact {α : Type} (s : State n P) (op : Fs.State n → Except Fs.Halt (α × Fs.State n))
    : Except Fs.Halt (α × State n P) := do
  let fs ← s.fs.beginOp
  let (r, fs) ← op fs
  return (r, { s with fs := fs.endOp })

def wronly (omode : Nat) : Bool := omode.testBit 0

def rdwr (omode : Nat) : Bool := omode.testBit 1

def ocreate (omode : Nat) : Bool := omode.testBit 9

def openInode (fs : Fs.State n) (cwd : Fin n) (path : List UInt8) (omode : Nat)
    : Except Fs.Halt (Option (Fin n) × Fs.State n) :=
  if ocreate omode then
    fs.create cwd path T_FILE 0 0
  else do
    let (r, fs) ← fs.namei cwd path
    match r with
    | none => return (none, fs)
    | some ip => do
      let fs ← fs.ilock ip
      if (fs.inode ip).din.type = T_DIR ∧ omode ≠ 0 then do
        let fs ← fs.iunlockput ip
        return (none, fs)
      else
        return (some ip, fs)

def openFile (s : State n P) (p : P) (ip : Fin n) (omode : Nat) : Except Fs.Halt (Int × State n P) :=
  match s.filealloc with
  | (none, s) => do
    let fs ← s.fs.iunlockput ip
    return (-1, { s with fs := fs.endOp })
  | (some f, s) =>
    match s.fdalloc p f with
    | (none, s) => do
      let s ← s.fileclose f
      let fs ← s.fs.iunlockput ip
      return (-1, { s with fs := fs.endOp })
    | (some fd, s) => do
      let fs ← s.fs.iunlock ip
      let s := { s with fs := fs.endOp }
      let ff := s.file f
      return (fd.val, s.setFile f { ff with
        type := .inode ip
        off := 0
        readable := !wronly omode
        writable := wronly omode || rdwr omode })

def sysOpen (s : State n P) (p : P) (cwd : Fin n) (path : List UInt8) (omode : Nat)
    : Except Fs.Halt (Int × State n P) := do
  let fs ← s.fs.beginOp
  let (r, fs) ← openInode fs cwd path omode
  match r with
  | none => return (-1, { s with fs := fs.endOp })
  | some ip => State.openFile { s with fs := fs } p ip omode

def make (s : State n P) (cwd : Fin n) (path : List UInt8) (type major minor : Int16)
    : Except Fs.Halt (Int × State n P) :=
  s.transact fun fs => do
    let (r, fs) ← fs.create cwd path type major minor
    match r with
    | none => return (-1, fs)
    | some ip => do
      let fs ← fs.iunlockput ip
      return (0, fs)

def mkdir (s : State n P) (cwd : Fin n) (path : List UInt8) : Except Fs.Halt (Int × State n P) :=
  s.make cwd path T_DIR 0 0

def mknod (s : State n P) (cwd : Fin n) (path : List UInt8) (major minor : Int16)
    : Except Fs.Halt (Int × State n P) :=
  s.make cwd path T_DEV major minor

def chdirInode (fs : Fs.State n) (cwd : Fin n) (path : List UInt8)
    : Except Fs.Halt (Option (Fin n) × Fs.State n) := do
  let (r, fs) ← fs.namei cwd path
  match r with
  | none => return (none, fs)
  | some ip => do
    let fs ← fs.ilock ip
    if (fs.inode ip).din.type ≠ T_DIR then do
      let fs ← fs.iunlockput ip
      return (none, fs)
    else do
      let fs ← fs.iunlock ip
      let fs ← fs.iput cwd
      return (some ip, fs)

def chdir (s : State n P) (p : P) (cwd : Fin n) (path : List UInt8) : Except Fs.Halt (Int × State n P) := do
  let (r, s) ← s.transact fun fs => chdirInode fs cwd path
  match r with
  | none => return (-1, s)
  | some ip => return (0, s.setCwd p (some ip))

def exec (s : State n P) (cwd : Fin n) (path : List UInt8) (mem : Fs.State.ExecMem)
    : Except Fs.Halt (Int × State n P) := do
  let (sz, s) ← s.transact fun fs => fs.exec cwd path mem
  match sz with
  | none => return (-1, s)
  | some sz => return (if mem.stack sz then 0 else -1, s)

def fork (s : State n P) (p : P) (cwd : Fin n) (np : Option P) : Except Fs.Halt (Int × State n P) :=
  match np with
  | none => .ok (-1, s)
  | some np => do
    let s ← (List.finRange NOFILE).foldlM (fun s fd =>
      match s.ofile (p, fd) with
      | none => .ok s
      | some f => do
        let s ← s.filedup f
        return s.setOfile np fd (some f)) s
    return (0, { s with fs := s.fs.idup cwd }.setCwd np (some cwd))

def exit (s : State n P) (p : P) (cwd : Fin n) : Except Fs.Halt (State n P) := do
  let s ← (List.finRange NOFILE).foldlM (fun s fd =>
    match s.ofile (p, fd) with
    | none => .ok s
    | some f => do
      let s ← s.fileclose f
      return s.setOfile p fd none) s
  let fs ← s.fs.beginOp
  let fs ← fs.iput cwd
  return { s with fs := fs.endOp }.setCwd p none

end
end State

inductive Call (P : Type)
  | «open» (path : List UInt8) (omode : Nat)
  | mkdir (path : List UInt8)
  | mknod (path : List UInt8) (major minor : Int16)
  | link (old new : List UInt8)
  | unlink (path : List UInt8)
  | chdir (path : List UInt8)
  | exec (path : List UInt8) (mem : Fs.State.ExecMem)
  | dup (fd : Int)
  | close (fd : Int)
  | pipe (kalloc : Bool)
  | fork (np : Option P)
  | exit

def Call.forked? {P : Type} (c : Call P) : Option P :=
  match c with
  | .fork np => np
  | _ => none

namespace State

variable {n : Nat} {P : Type} [DecidableEq P]

def syscall (s : State n P) (p : P) (cwd : Fin n) (c : Call P) : Except Fs.Halt (Int × State n P) :=
  match c with
  | .open path omode => s.sysOpen p cwd path omode
  | .mkdir path => s.mkdir cwd path
  | .mknod path major minor => s.mknod cwd path major minor
  | .link old new => s.transact fun fs => fs.link cwd old new
  | .unlink path => s.transact fun fs => fs.unlink cwd path
  | .chdir path => s.chdir p cwd path
  | .exec path mem => s.exec cwd path mem
  | .dup fd => s.dup p fd
  | .close fd => s.close p fd
  | .pipe kalloc => s.pipe p kalloc
  | .fork np => s.fork p cwd np
  | .exit => do
    let s ← s.exit p cwd
    return (0, s)

def Enabled (s : State n P) (p : P) (cwd : Fin n) (c : Call P) : Prop :=
  s.cwd p = some cwd ∧ ∀ np, c = .fork (some np) → s.cwd np = none

def step (s : State n P) (a : P × Call P) : Option (State n P) :=
  match s.cwd a.1 with
  | none => none
  | some cwd =>
    if a.2.forked?.all fun np => (s.cwd np).isNone then
      (s.syscall a.1 cwd a.2).toOption.map Prod.snd
    else
      none

def Steps (s : State n P) (a : P × Call P) (s' : State n P) : Prop :=
  ∃ cwd r, s.Enabled a.1 cwd a.2 ∧ s.syscall a.1 cwd a.2 = .ok (r, s')

theorem steps_of_step {s : State n P} {a : P × Call P} {s' : State n P} (h : s.step a = some s')
    : s.Steps a s' := by
  unfold step at h
  split at h
  . cases h
  . next cwd hcwd =>
    split at h
    . next hfork =>
      cases hcall : s.syscall a.1 cwd a.2 with
      | error e =>
        rw [hcall] at h
        cases h
      | ok r =>
        rw [hcall] at h
        cases h
        refine ⟨cwd, r.1, ⟨hcwd, ?_⟩, hcall⟩
        intro np hnp
        rw [hnp] at hfork
        exact Option.isNone_iff_eq_none.mp hfork
    . cases h

end State
end Xv6.Sysfile
