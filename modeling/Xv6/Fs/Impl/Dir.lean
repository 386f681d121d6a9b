import Xv6.Fs.Impl.Inode

namespace Xv6.Fs

structure Dirent where
  inum : Nat
  name : List UInt8
  deriving DecidableEq, Repr

namespace Dirent

def get (de : List UInt8) : Dirent where
  inum := (de.getD 0 0).toNat + 256 * (de.getD 1 0).toNat
  name := ((de.drop 2).take DIRSIZ).takeWhile (· ≠ 0)

def byte (de : Dirent) (k : Nat) : UInt8 :=
  match k with
  | 0 => UInt8.ofNat de.inum
  | 1 => UInt8.ofNat (de.inum / 256)
  | k + 2 => (de.name.take DIRSIZ).getD k 0

end Dirent

abbrev DIRENT : UInt32 := UInt32.ofNat DIRENTSIZE

abbrev slash : UInt8 := 47

abbrev dot : UInt8 := 46

def skipelem (path : List UInt8) : Option (List UInt8 × List UInt8) :=
  let path := path.dropWhile (· = slash)
  if path = [] then
    none
  else
    some ((path.takeWhile (· ≠ slash)).take DIRSIZ,
      (path.dropWhile (· ≠ slash)).dropWhile (· = slash))

theorem length_dropWhile_le (p : UInt8 → Bool) (l : List UInt8)
    : (l.dropWhile p).length ≤ l.length :=
  (List.dropWhile_sublist p).length_le

theorem skipelem_lt {path name rest : List UInt8} (h : skipelem path = some (name, rest))
    : rest.length < path.length := by
  unfold skipelem at h
  dsimp only at h
  split at h
  . cases h
  . next hne =>
    cases h
    have hslash := length_dropWhile_le (· = slash) path
    cases hpath : path.dropWhile (· = slash) with
    | nil => exact absurd hpath hne
    | cons c l =>
      have hc : ¬(c = slash) := by
        have hhead := List.head?_dropWhile_not (· = slash) path
        rw [hpath] at hhead
        simpa using hhead
      rw [hpath, List.length_cons] at hslash
      rw [List.dropWhile_cons_of_pos (by simpa using hc)]
      have hl := length_dropWhile_le (· ≠ slash) l
      have hrest := length_dropWhile_le (· = slash) (l.dropWhile (· ≠ slash))
      omega

namespace State

variable {n : Nat}

def dirlookupBody (i : Fin n) (name : List UInt8)
    : UInt32 × State n → Except Halt ((UInt32 × State n) ⊕ (Option (Fin n × UInt32) × State n))
  | (off, s) =>
    if off < (s.inode i).din.size then do
      let (r, de, s) ← s.readi i off DIRENT
      if r ≠ DIRENTSIZE then
        .error .dirlookupRead
      else if (Dirent.get de).inum = 0 then
        return .inl (off + DIRENT, s)
      else if name.take DIRSIZ = (Dirent.get de).name then do
        let (ip, s) ← s.iget (s.inode i).dev (Dirent.get de).inum
        return .inr (some (ip, off), s)
      else
        return .inl (off + DIRENT, s)
    else
      return .inr (none, s)

def entries (s : State n) (i : Fin n) : Nat :=
  (s.inode i).din.size.toNat / DIRENTSIZE + 2

def dirlookup (s : State n) (i : Fin n) (name : List UInt8)
    : Except Halt (Option (Fin n × UInt32) × State n) :=
  if (s.inode i).din.type ≠ T_DIR then
    .error .dirlookupNotDir
  else
    Outcome.loop .stuck (dirlookupBody i name) (s.entries i) (0, s)

def dirlinkBody (i : Fin n)
    : UInt32 × State n → Except Halt ((UInt32 × State n) ⊕ (UInt32 × State n))
  | (off, s) =>
    if off < (s.inode i).din.size then do
      let (r, de, s) ← s.readi i off DIRENT
      if r ≠ DIRENTSIZE then
        .error .dirlinkRead
      else if (Dirent.get de).inum = 0 then
        return .inr (off, s)
      else
        return .inl (off + DIRENT, s)
    else
      return .inr (off, s)

def dirlink (s : State n) (i : Fin n) (name : List UInt8) (inum : Nat) : Except Halt (Int × State n) := do
  let (found, s) ← s.dirlookup i name
  match found with
  | some (ip, _) => do
    let s ← s.iput ip
    return (-1, s)
  | none => do
    let (off, s) ← Outcome.loop .stuck (dirlinkBody i) (s.entries i) (0, s)
    let (r, s) ← s.writei i (Dirent.byte ⟨inum, name⟩) off DIRENT
    if r ≠ DIRENTSIZE then
      .error .dirlink
    else
      return (0, s)

def namexBody (nameiparent : Bool)
    : List UInt8 × List UInt8 × Fin n × State n
      → Except Halt ((List UInt8 × List UInt8 × Fin n × State n) ⊕
        (Option (Fin n × List UInt8) × State n))
  | (path, name, i, s) =>
    match skipelem path with
    | some (name, path) => do
      let s ← s.ilock i
      if (s.inode i).din.type ≠ T_DIR then do
        let s ← s.iunlockput i
        return .inr (none, s)
      else if nameiparent ∧ path = [] then do
        -- Stop one level early.
        let s ← s.iunlock i
        return .inr (some (i, name), s)
      else do
        let (next, s) ← s.dirlookup i name
        let s ← s.iunlockput i
        match next with
        | none => return .inr (none, s)
        | some (next, _) => return .inl (path, name, next, s)
    | none =>
      if nameiparent then do
        let s ← s.iput i
        return .inr (none, s)
      else
        return .inr (some (i, name), s)

def namex (s : State n) (cwd : Fin n) (path : List UInt8) (nameiparent : Bool)
    : Except Halt (Option (Fin n × List UInt8) × State n) := do
  let (i, s) ←
    if path.head? = some slash then
      s.iget ROOTDEV ROOTINO
    else
      pure (cwd, s.idup cwd)
  Outcome.loop .stuck (namexBody nameiparent) (path.length + 1) (path, [], i, s)

def namei (s : State n) (cwd : Fin n) (path : List UInt8) : Except Halt (Option (Fin n) × State n) := do
  let (r, s) ← s.namex cwd path false
  return (r.map Prod.fst, s)

def nameiparent (s : State n) (cwd : Fin n) (path : List UInt8)
    : Except Halt (Option (Fin n × List UInt8) × State n) :=
  s.namex cwd path true

end State
end Xv6.Fs
