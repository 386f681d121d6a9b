import Xv6.Fs.Impl.Dir

/-!
The system calls of `sysfile.c` that work on inodes alone, and the part of `exec`
that reads the program. They run between `begin_op` and `end_op`.
-/

namespace Xv6.Fs
namespace State

variable {n : Nat}

def addNlink (s : State n) (i : Fin n) (d : Int16) : Except Halt (State n) :=
  (s.setDin i { (s.inode i).din with nlink := (s.inode i).din.nlink + d }).iupdate i

def createNew (s : State n) (dp i : Fin n) (name : List UInt8) (type major minor : Int16)
    : Except Halt (State n) := do
  let s ← (s.setDin i { (s.inode i).din with major, minor, nlink := 1 }).iupdate i
  let s ←
    if type = T_DIR then do
      -- Create . and .. entries.
      let s ← s.addNlink dp 1
      let (r, s) ← s.dirlink i [dot] (s.inode i).inum
      if r < 0 then
        .error .createDots
      else do
        let (r, s) ← s.dirlink i [dot, dot] (s.inode dp).inum
        if r < 0 then .error .createDots else pure s
    else
      pure s
  let (r, s) ← s.dirlink dp name (s.inode i).inum
  if r < 0 then
    .error .createDirlink
  else
    s.iunlockput dp

def create (s : State n) (cwd : Fin n) (path : List UInt8) (type major minor : Int16)
    : Except Halt (Option (Fin n) × State n) := do
  let (r, s) ← s.nameiparent cwd path
  match r with
  | none => return (none, s)
  | some (dp, name) => do
    let s ← s.ilock dp
    let (found, s) ← s.dirlookup dp name
    match found with
    | some (i, _) => do
      let s ← s.iunlockput dp
      let s ← s.ilock i
      if type = T_FILE ∧ (s.inode i).din.type = T_FILE then
        return (some i, s)
      else do
        let s ← s.iunlockput i
        return (none, s)
    | none => do
      let (i, s) ← s.ialloc (s.inode dp).dev type
      let s ← s.ilock i
      let s ← s.createNew dp i name type major minor
      return (some i, s)

def linkNew (s : State n) (cwd i : Fin n) (new : List UInt8) : Except Halt (Int × State n) := do
  let (r, s) ← s.nameiparent cwd new
  let (r, s) ←
    match r with
    | none => pure (-1, s)
    | some (dp, name) => do
      let s ← s.ilock dp
      if (s.inode dp).dev ≠ (s.inode i).dev then do
        let s ← s.iunlockput dp
        pure (-1, s)
      else do
        let (r, s) ← s.dirlink dp name (s.inode i).inum
        let s ← s.iunlockput dp
        pure (if r < 0 then -1 else 0, s)
  if r = 0 then do
    let s ← s.iput i
    return (0, s)
  else do
    let s ← s.ilock i
    let s ← s.addNlink i (-1)
    let s ← s.iunlockput i
    return (-1, s)

def link (s : State n) (cwd : Fin n) (old new : List UInt8) : Except Halt (Int × State n) := do
  let (r, s) ← s.namei cwd old
  match r with
  | none => return (-1, s)
  | some i => do
    let s ← s.ilock i
    if (s.inode i).din.type = T_DIR then do
      let s ← s.iunlockput i
      return (-1, s)
    else do
      let s ← s.addNlink i 1
      let s ← s.iunlock i
      s.linkNew cwd i new

def isdiremptyBody (i : Fin n)
    : UInt32 × State n → Except Halt ((UInt32 × State n) ⊕ (Bool × State n))
  | (off, s) =>
    if off < (s.inode i).din.size then do
      let (r, de, s) ← s.readi i off DIRENT
      if r ≠ DIRENTSIZE then
        .error .isdirempty
      else if (Dirent.get de).inum ≠ 0 then
        return .inr (false, s)
      else
        return .inl (off + DIRENT, s)
    else
      return .inr (true, s)

def isdirempty (s : State n) (i : Fin n) : Except Halt (Bool × State n) :=
  Outcome.loop .stuck (isdiremptyBody i) (s.entries i) (2 * DIRENT, s)

def unlinkEntry (s : State n) (dp i : Fin n) (off : UInt32) : Except Halt (Int × State n) := do
  let (r, s) ← s.writei dp (fun _ => 0) off DIRENT
  if r ≠ DIRENTSIZE then
    .error .unlinkWritei
  else do
    let s ← if (s.inode i).din.type = T_DIR then s.addNlink dp (-1) else pure s
    let s ← s.iunlockput dp
    let s ← s.addNlink i (-1)
    let s ← s.iunlockput i
    return (0, s)

def unlink (s : State n) (cwd : Fin n) (path : List UInt8) : Except Halt (Int × State n) := do
  let (r, s) ← s.nameiparent cwd path
  match r with
  | none => return (-1, s)
  | some (dp, name) => do
    let s ← s.ilock dp
    -- Cannot unlink "." or "..".
    if name = [dot] ∨ name = [dot, dot] then do
      let s ← s.iunlockput dp
      return (-1, s)
    else do
      let (found, s) ← s.dirlookup dp name
      match found with
      | none => do
        let s ← s.iunlockput dp
        return (-1, s)
      | some (i, off) => do
        let s ← s.ilock i
        if (s.inode i).din.nlink.toInt < 1 then
          .error .unlinkNlink
        else do
          let (empty, s) ← if (s.inode i).din.type = T_DIR then s.isdirempty i else pure (true, s)
          if empty then
            s.unlinkEntry dp i off
          else do
            let s ← s.iunlockput i
            let s ← s.iunlockput dp
            return (-1, s)

def uintAt (l : List UInt8) (off : Nat) : UInt32 :=
  (l.getD off 0).toUInt32 + (l.getD (off + 1) 0).toUInt32 * 256 + (l.getD (off + 2) 0).toUInt32 * 65536
    + (l.getD (off + 3) 0).toUInt32 * 16777216

abbrev PAGE : UInt32 := 4096

def loaduvmBody (i : Fin n) (offset sz : UInt32)
    : UInt32 × State n → Except Halt ((UInt32 × State n) ⊕ (Bool × State n))
  | (k, s) =>
    if k < sz then do
      let m := if sz - k < PAGE then sz - k else PAGE
      let (r, _, s) ← s.readi i (offset + k) m
      if r ≠ m.toNat then
        return .inr (false, s)
      else
        return .inl (k + PAGE, s)
    else
      return .inr (true, s)

def loaduvm (s : State n) (i : Fin n) (offset sz : UInt32) : Except Halt (Bool × State n) :=
  Outcome.loop .stuck (loaduvmBody i offset sz) (sz.toNat / 4096 + 2) (0, s)

structure ExecMem where
  setupkvm : Bool
  allocuvm : UInt32 → UInt32 → UInt32
  stack : UInt32 → Bool

def execBody (i : Fin n) (mem : ExecMem) (phnum : Nat)
    : Nat × UInt32 × UInt32 × State n
      → Except Halt ((Nat × UInt32 × UInt32 × State n) ⊕ (Option UInt32 × State n))
  | (k, off, sz, s) =>
    if k < phnum then do
      let (r, ph, s) ← s.readi i off 32
      let vaddr := uintAt ph 8
      let filesz := uintAt ph 16
      let memsz := uintAt ph 20
      if r ≠ 32 then
        return .inr (none, s)
      else if uintAt ph 0 ≠ 1 then
        return .inl (k + 1, off + 32, sz, s)
      else if memsz < filesz ∨ vaddr + memsz < vaddr then
        return .inr (none, s)
      else
        let sz := mem.allocuvm sz (vaddr + memsz)
        if sz = 0 ∨ vaddr % PAGE ≠ 0 then
          return .inr (none, s)
        else do
          let (ok, s) ← s.loaduvm i (uintAt ph 4) filesz
          if ok then return .inl (k + 1, off + 32, sz, s) else return .inr (none, s)
    else
      return .inr (some sz, s)

def execLoad (s : State n) (i : Fin n) (mem : ExecMem) : Except Halt (Option UInt32 × State n) := do
  let (r, elf, s) ← s.readi i 0 52
  if r ≠ 52 ∨ uintAt elf 0 ≠ 0x464C457F ∨ ¬mem.setupkvm then
    return (none, s)
  else
    let phnum := (elf.getD 44 0).toNat + 256 * (elf.getD 45 0).toNat
    Outcome.loop .stuck (execBody i mem phnum) (phnum + 1) (0, uintAt elf 28, 0, s)

def exec (s : State n) (cwd : Fin n) (path : List UInt8) (mem : ExecMem)
    : Except Halt (Option UInt32 × State n) := do
  let (r, s) ← s.namei cwd path
  match r with
  | none => return (none, s)
  | some i => do
    let s ← s.ilock i
    let (sz, s) ← s.execLoad i mem
    let s ← s.iunlockput i
    return (sz, s)

end State
end Xv6.Fs
