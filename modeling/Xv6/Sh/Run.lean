import Mathlib.Algebra.Order.BigOperators.Group.List
import Mathlib.Algebra.Order.Ring.Nat
import Mathlib.Logic.Function.Basic
import Xv6.Lib.Reach
import Xv6.Sh.Parser

/-!
`runcmd` of `sh.c`, where the processes that it forks take their steps in any order, and the
proof that it starts the programs of a command with the descriptors that the command says, and with no others.
-/

namespace Xv6
namespace Sh

variable {oks : List Bool} {fd : Nat} {behind mem : Mem} {str : List Char} {f : File}

abbrev NOFILE : Nat := 16

/-- The way to a node of a command, the last branch first. -/
abbrev Node : Type := List Bool

/-- What a descriptor refers to. Files and pipes are named after the node that opens them. -/
inductive File
  | given (name : Nat)
  | opened (n : Node)
  | readEnd (n : Node)
  | writeEnd (n : Node)
  deriving DecidableEq, Repr

abbrev Fds : Type := Nat → Option File

namespace Fds

def close (fds : Fds) (fd : Nat) : Fds :=
  Function.update fds fd none

def fdalloc (fds : Fds) (f : File) : Option (Nat × Fds) :=
  ((List.range NOFILE).find? fun fd => (fds fd).isNone).map fun fd => (fd, Function.update fds fd (some f))

/-- `open`, where `ok` says whether the kernel finds or makes the file. -/
def openFile (fds : Fds) (f : File) (ok : Bool) : Option Fds :=
  if ok then (fds.fdalloc f).map Prod.snd else none

def dup (fds : Fds) (fd : Nat) : Fds :=
  match fds fd with
  | none => fds
  | some f => ((fds.fdalloc f).map Prod.snd).getD fds

/-- `pipe`, with `p[0]` and `p[1]`. -/
def pipe (fds : Fds) (n : Node) (ok : Bool) : Option (Nat × Nat × Fds) :=
  if ok then do
    let p0 ← fds.fdalloc (.readEnd n)
    let p1 ← p0.2.fdalloc (.writeEnd n)
    return (p0.1, p1.1, p1.2)
  else
    none

end Fds

inductive FdCall
  | close (fd : Nat)
  | dup (fd : Nat)
  deriving DecidableEq, Repr

def FdCall.run (fds : Fds) (c : FdCall) : Fds :=
  match c with
  | .close fd => fds.close fd
  | .dup fd => fds.dup fd

abbrev Argv : Type := List (Ptr × Ptr)

/-- Where a process is: `run` calls `runcmd`, `program` is after `exec`, `plug` is behind a `fork1` of a pipe. -/
inductive Pc
  | run (c : Cmd)
  | program (argv : Argv) (running : Bool)
  | fork1 (left right : Cmd) (p0 p1 : Nat)
  | fork2 (right : Cmd) (p0 p1 : Nat)
  | wait (children : List Node) (next : Option Cmd)
  | plug (calls : List FdCall) (pc : Pc)

/-- A process is named after the node that it was forked for, and is now at the node `n`. -/
structure Process where
  born : Node
  n : Node
  fds : Fds
  pc : Pc

namespace Process

def exited (p : Process) : Bool :=
  match p.pc with
  | .program _ running => !running
  | _ => false

def child (p : Process) (b : Bool) (pc : Pc) : Process :=
  ⟨b :: p.n, b :: p.n, p.fds, pc⟩

/-- `runcmd` up to a `fork1` or `wait` behind its first system call, which fails unless `ok`. -/
def runcmd (p : Process) (c : Cmd) (ok : Bool) : List Process :=
  match c with
  | .exec argv => if argv ≠ [] ∧ ok then [{ p with pc := .program argv true }] else []
  | .redir c r =>
    match (p.fds.close r.fd).openFile (.opened p.n) ok with
    | none => []
    | some fds => [{ p with n := false :: p.n, fds := fds, pc := .run c }]
  | .list left right =>
    if ok then [p.child false (.run left), { p with pc := .wait [false :: p.n] (some right) }] else []
  | .pipe left right =>
    match p.fds.pipe p.n ok with
    | none => []
    | some (p0, p1, fds) => [{ p with fds := fds, pc := .fork1 left right p0 p1 }]
  | .back c => if ok then [p.child false (.run c)] else []

/-- A step of a process, with the child that it forks. Those that exit are gone, apart from programs. -/
def step (p : Process) (ok : Bool) : List Process :=
  match p.pc with
  | .run c => p.runcmd c ok
  | .program argv _ => [{ p with pc := .program argv false }]
  | .fork1 left right p0 p1 =>
    if ok then
      [p.child false (.plug [.close 1, .dup p1, .close p0, .close p1] (.run left)),
        { p with pc := .fork2 right p0 p1 }]
    else
      []
  | .fork2 right p0 p1 =>
    if ok then
      [p.child true (.plug [.close 0, .dup p0, .close p0, .close p1] (.run right)),
        { p with pc := .plug [.close p0, .close p1] (.wait [false :: p.n, true :: p.n] none) }]
    else
      []
  | .wait _ (some c) => [{ p with n := true :: p.n, pc := .run c }]
  | .wait _ none => []
  | .plug (c :: calls) pc => [{ p with fds := c.run p.fds, pc := .plug calls pc }]
  | .plug [] pc => [{ p with pc := pc }]

/-- A process waits until all of `children` have exited. -/
def Ready (p : Process) (others : List Process) : Prop :=
  match p.pc with
  | .program _ running => running = true
  | .wait children _ => ∀ q ∈ others, q.born ∈ children → q.exited = true
  | _ => True

instance (p : Process) (others : List Process) : Decidable (p.Ready others) := by
  unfold Ready
  split <;> infer_instance

end Process

def Step (ps : List Process) (ok : Bool) (ps' : List Process) : Prop :=
  ∃ l p l', ps = l ++ p :: l' ∧ p.Ready (l ++ l') ∧ ps' = l ++ p.step ok ++ l'

/-- What a command means: its programs, with their descriptors. -/
def plumb (n : Node) (c : Cmd) (fds : Fds) : List (Node × Argv × Fds) :=
  match c with
  | .exec argv => if argv ≠ [] then [(n, argv, fds)] else []
  | .redir c r => plumb (false :: n) c (Function.update fds r.fd (some (.opened n)))
  | .pipe left right =>
    plumb (false :: n) left (Function.update fds 1 (some (.writeEnd n)))
      ++ plumb (true :: n) right (Function.update fds 0 (some (.readEnd n)))
  | .list left right => plumb (false :: n) left fds ++ plumb (true :: n) right fds
  | .back c => plumb (false :: n) c fds

/-- The redirections are of the first three descriptors. -/
def Tree.Standard (t : Tree) : Prop :=
  match t with
  | .exec _ => True
  | .redir t _ _ fd => fd < 3 ∧ t.Standard
  | .pipe left right => left.Standard ∧ right.Standard
  | .list left right => left.Standard ∧ right.Standard
  | .back t => t.Standard

namespace Tree.Standard

variable {t : Tree} {l : List Tok} {rs : List (List Char × Nat × Nat)}

theorem wrap (h : t.Standard) (hrs : ∀ r ∈ rs, r.2.2 < 3) : (t.wrap rs).Standard := by
  induction rs generalizing t with
  | nil => exact h
  | cons r rs ih => exact ih ⟨hrs r (.head _), h⟩ fun q hq => hrs q (.tail _ hq)

theorem backs (h : t.Standard) (n : Nat) : (t.backs n).Standard := by
  induction n generalizing t with
  | zero => exact h
  | succ n ih => exact ih h

theorem of_redirs (h : Redirs l rs) : ∀ r ∈ rs, r.2.2 < 3 := by
  induction h with
  | nil => nofun
  | cons ht _ ih =>
    rintro r (_ | ⟨_, hr⟩)
    . unfold Tok.redir? at ht
      split at ht <;> cases ht <;> simp
    . exact ih r hr

theorem of_words {ws : List (List Char)} (h : Words l ws rs) : ∀ r ∈ rs, r.2.2 < 3 := by
  induction h with
  | nil => nofun
  | cons hr _ ih =>
    intro r hmem
    rcases List.mem_append.mp hmem with hmem | hmem
    . exact of_redirs hr r hmem
    . exact ih r hmem

theorem of_line (h : Line l t) : t.Standard :=
  @Line.rec (fun _ t _ => t.Standard) (fun _ t _ => t.Standard) (fun _ t _ => t.Standard)
    (fun n _ ih => ih.backs n) (fun n _ _ ih ihr => ⟨ih.backs n, ihr⟩)
    (fun _ ih => ih) (fun _ _ ih ihr => ⟨ih, ihr⟩)
    (fun _ hr ih => ih.wrap (of_redirs hr))
    (fun hr h _ => wrap trivial fun r hmem => (List.mem_append.mp hmem).elim (of_redirs hr r) (of_words h r))
    l t h

end Tree.Standard

theorem standard_of_parsecmd (hnul : NoNul str) {c : Cmd}
    (h : parsecmd str behind = .ok (c, mem))
    : c.read.Standard := by
  have hlen := length_lex_le str
  have hsat := (parse_sat (4 * str.length + 4)).1 str hnul (by omega)
  unfold parsecmd at h
  obtain ⟨r, hr, h⟩ := Outcome.bind_eq_ok.mp h
  dsimp only at h
  split at h
  . cases h
  . cases h
    obtain ⟨l, _, hline, _⟩ := hsat.of_ok hr
    exact .of_line hline

/-- A process at the node `n` has the first three descriptors, and ends of those pipes only that it is a side of. -/
structure Tidy (n : Node) (fds : Fds) : Prop where
  std : ∀ fd, fds fd = none ↔ 3 ≤ fd
  read : ∀ fd m, fds fd = some (.readEnd m) → true :: m <:+ n
  write : ∀ fd m, fds fd = some (.writeEnd m) → false :: m <:+ n

variable {n : Node} {fds : Fds} {c : Cmd} {ok : Bool}

theorem fdalloc_eq (hfree : fds fd = none) (hlow : ∀ k, k < fd → fds k ≠ none) (hfd : fd < NOFILE)
    (f : File)
    : fds.fdalloc f = some (fd, Function.update fds fd (some f)) := by
  have hfind : ((List.range NOFILE).find? fun fd => (fds fd).isNone) = some fd := by
    rw [List.find?_range_eq_some]
    refine ⟨by rw [hfree]; rfl, List.mem_range.mpr hfd, ?_⟩
    intro k hk
    rw [Option.isNone_eq_false_iff.mpr (Option.isSome_iff_ne_none.mpr (hlow k hk))]
    rfl
  unfold Fds.fdalloc
  rw [hfind]
  rfl

/-- The lowest descriptor that is free is the one that was closed. -/
theorem fdalloc_close (hlow : ∀ k, k < fd → fds k ≠ none) (hfd : fd < 3) (f : File)
    : (fds.close fd).fdalloc f = some (fd, Function.update fds fd (some f)) := by
  have hfree : fds.close fd fd = none := Function.update_self ..
  have hlow' : ∀ k, k < fd → fds.close fd k ≠ none := by
    intro k hk
    unfold Fds.close
    rw [Function.update_of_ne (by omega)]
    exact hlow k hk
  rw [fdalloc_eq hfree hlow' (Nat.lt_trans hfd (by decide))]
  unfold Fds.close
  rw [Function.update_idem]

namespace Tidy

theorem child (h : Tidy n fds) (b : Bool) : Tidy (b :: n) fds :=
  ⟨h.std, fun fd m hm => (h.read fd m hm).trans (List.suffix_cons b n),
    fun fd m hm => (h.write fd m hm).trans (List.suffix_cons b n)⟩

theorem update (h : Tidy n fds) (hfd : fd < 3) (hread : ∀ m, f = .readEnd m → true :: m <:+ n)
    (hwrite : ∀ m, f = .writeEnd m → false :: m <:+ n)
    : Tidy n (Function.update fds fd (some f)) := by
  refine ⟨?_, ?_, ?_⟩
  all_goals
    intro k
    by_cases hk : k = fd
  . rw [hk, Function.update_self]
    simp [hfd]
  . rw [Function.update_of_ne hk]
    exact h.std k
  . rw [hk, Function.update_self]
    exact fun m hm => hread m (Option.some.inj hm)
  . rw [Function.update_of_ne hk]
    exact h.read k
  . rw [hk, Function.update_self]
    exact fun m hm => hwrite m (Option.some.inj hm)
  . rw [Function.update_of_ne hk]
    exact h.write k

theorem used (h : Tidy n fds) {k : Nat} (hk : k < 3) : fds k ≠ none :=
  fun hnone => absurd ((h.std k).mp hnone) (by omega)

end Tidy

/-- The descriptors between `pipe` and the two calls of `close`. -/
def Fds.piped (fds : Fds) (n : Node) : Fds :=
  Function.update (Function.update fds 3 (some (.readEnd n))) 4 (some (.writeEnd n))

namespace Tidy

theorem pipe_eq (h : Tidy n fds) (m : Node) : fds.pipe m true = some (3, 4, fds.piped m) := by
  have h3 := fdalloc_eq ((h.std 3).mpr (by decide)) (fun k hk => h.used hk) (by decide) (.readEnd m)
  have h4 : Fds.fdalloc (Function.update fds 3 (some (.readEnd m))) (.writeEnd m) = some (4, fds.piped m) := by
    apply fdalloc_eq
    . rw [Function.update_of_ne (by decide)]
      exact (h.std 4).mpr (by decide)
    . intro k hk
      by_cases hk3 : k = 3
      . rw [hk3, Function.update_self]
        exact Option.some_ne_none _
      . rw [Function.update_of_ne hk3]
        exact h.used (by omega)
    . decide
  unfold Fds.pipe
  rw [if_pos rfl, h3]
  change (Fds.fdalloc (Function.update fds 3 (some (.readEnd m))) (.writeEnd m)).bind _ = _
  rw [h4]
  rfl

theorem close_piped (h : Tidy n fds) (m : Node) : ((fds.piped m).close 3).close 4 = fds := by
  funext k
  unfold Fds.close Fds.piped
  by_cases h4 : k = 4
  . rw [h4, Function.update_self, (h.std 4).mpr (by decide)]
  rw [Function.update_of_ne h4]
  by_cases h3 : k = 3
  . rw [h3, Function.update_self, (h.std 3).mpr (by decide)]
  . rw [Function.update_of_ne h3, Function.update_of_ne h4, Function.update_of_ne h3]

/-- A side of the pipe after it has connected `fd` to its end `q`. -/
theorem connect (h : Tidy n fds) {fd q : Nat} (hfd : fd < 3) (hq : 3 ≤ q) (m : Node)
    (hf : fds.piped m q = some f)
    : (((((fds.piped m).close fd).dup q).close 3).close 4) = Function.update fds fd (some f) := by
  have hend : (fds.piped m).close fd q = some f := by
    unfold Fds.close
    rw [Function.update_of_ne (by omega), hf]
  have hlow : ∀ k, k < fd → fds.piped m k ≠ none := by
    intro k hk
    unfold Fds.piped
    rw [Function.update_of_ne (by omega), Function.update_of_ne (by omega)]
    exact h.used (by omega)
  unfold Fds.dup
  rw [hend]
  dsimp only
  rw [fdalloc_close hlow hfd, Option.map_some, Option.getD_some]
  unfold Fds.close
  dsimp only
  rw [Function.update_comm (show fd ≠ 3 by omega), Function.update_comm (show fd ≠ 4 by omega)]
  exact congrArg (Function.update · fd (some f)) (h.close_piped m)

end Tidy

namespace Process

variable {p : Process}

def started (p : Process) : List (Node × Argv × Fds) :=
  match p.pc with
  | .program argv _ => [(p.n, argv, p.fds)]
  | _ => []

end Process

/-- The programs that a process is or will be, or fork. -/
def Pc.todo (n : Node) (fds : Fds) (pc : Pc) : List (Node × Argv × Fds) :=
  match pc with
  | .run c => plumb n c fds
  | .program argv _ => [(n, argv, fds)]
  | .fork1 left right p0 p1 => plumb n (.pipe left right) ((fds.close p0).close p1)
  | .fork2 right p0 p1 => plumb (true :: n) right (Function.update ((fds.close p0).close p1) 0 (some (.readEnd n)))
  | .wait _ (some c) => plumb (true :: n) c fds
  | .wait _ none => []
  | .plug calls pc => pc.todo n (calls.foldl FdCall.run fds)

def Piped (n : Node) (fds : Fds) (p0 p1 : Nat) : Prop :=
  p0 = 3 ∧ p1 = 4 ∧ ∃ fds', Tidy n fds' ∧ fds = fds'.piped n

/-- The process has ends of its own pipe and of the pipe that it is forked for, apart from those of `Tidy`. -/
structure PipeEnds (n : Node) (fds : Fds) : Prop where
  read : ∀ fd m, fds fd = some (.readEnd m) → true :: m <:+ n ∨ m = n ∨ ∃ b, n = b :: m
  write : ∀ fd m, fds fd = some (.writeEnd m) → false :: m <:+ n ∨ m = n ∨ ∃ b, n = b :: m

def Pc.Ok (n : Node) (fds : Fds) (pc : Pc) : Prop :=
  match pc with
  | .run c => Tidy n fds ∧ c.read.Standard
  | .program _ _ => Tidy n fds
  | .fork1 left right p0 p1 => Piped n fds p0 p1 ∧ left.read.Standard ∧ right.read.Standard
  | .fork2 right p0 p1 => Piped n fds p0 p1 ∧ right.read.Standard
  | .wait children next => Tidy n fds ∧ (∀ c ∈ next, c.read.Standard) ∧ ∀ m ∈ children, ∃ b, m = b :: n
  | .plug calls pc => pc.Ok n (calls.foldl FdCall.run fds) ∧ PipeEnds n fds

theorem FdCall.run_eq_some {c : FdCall} (h : c.run fds fd = some f)
    : ∃ fd', fds fd' = some f := by
  cases c with
  | close k =>
    have hk : fd ≠ k := by
      rintro rfl
      rw [run, Fds.close, Function.update_self] at h
      cases h
    rw [run, Fds.close, Function.update_of_ne hk] at h
    exact ⟨fd, h⟩
  | dup k =>
    unfold run Fds.dup Fds.fdalloc at h
    dsimp only at h
    cases hf' : fds k with
    | none =>
      rw [hf'] at h
      exact ⟨fd, h⟩
    | some f' =>
      rw [hf'] at h
      cases hfind : (List.range NOFILE).find? fun fd => (fds fd).isNone with
      | none =>
        rw [hfind] at h
        exact ⟨fd, h⟩
      | some fd' =>
        rw [hfind] at h
        change Function.update fds fd' (some f') fd = some f at h
        by_cases hfd : fd = fd'
        . rw [hfd, Function.update_self] at h
          exact ⟨k, hf'.trans h⟩
        . rw [Function.update_of_ne hfd] at h
          exact ⟨fd, h⟩

theorem PipeEnds.run (h : PipeEnds n fds) (c : FdCall) : PipeEnds n (c.run fds) where
  read fd m hm := by
    obtain ⟨fd', hfd'⟩ := FdCall.run_eq_some hm
    exact h.read fd' m hfd'
  write fd m hm := by
    obtain ⟨fd', hfd'⟩ := FdCall.run_eq_some hm
    exact h.write fd' m hfd'

theorem Fds.piped_cases (fds : Fds) (h : fds.piped n fd = some f)
    : f = .writeEnd n ∨ f = .readEnd n ∨ fds fd = some f := by
  unfold Fds.piped at h
  by_cases h4 : fd = 4
  . rw [h4, Function.update_self] at h
    exact .inl (Option.some.inj h).symm
  rw [Function.update_of_ne h4] at h
  by_cases h3 : fd = 3
  . rw [h3, Function.update_self] at h
    exact .inr (.inl (Option.some.inj h).symm)
  . rw [Function.update_of_ne h3] at h
    exact .inr (.inr h)

theorem Tidy.ends {n' : Node} (h : Tidy n fds) (hn : n = n' ∨ ∃ b, n' = b :: n) : PipeEnds n' (fds.piped n) := by
  have hsuffix : n <:+ n' := by
    rcases hn with rfl | ⟨b, rfl⟩
    . exact List.suffix_rfl
    . exact List.suffix_cons b n
  refine ⟨?_, ?_⟩
  . intro fd m hm
    rcases fds.piped_cases hm with heq | heq | heq
    . cases heq
    . cases heq
      exact .inr hn
    . exact .inl ((h.read fd m heq).trans hsuffix)
  . intro fd m hm
    rcases fds.piped_cases hm with heq | heq | heq
    . cases heq
      exact .inr hn
    . cases heq
    . exact .inl ((h.write fd m heq).trans hsuffix)

namespace Process

def todo (p : Process) : List (Node × Argv × Fds) :=
  p.pc.todo p.n p.fds

structure Wf (p : Process) : Prop where
  born : p.born <:+ p.n
  pcOk : p.pc.Ok p.n p.fds

end Process

/-- What a step does to `l`, the programs that are started sooner or later. If a call fails, some
of them are not. -/
structure Keeps (l : List (Node × Argv × Fds)) (ok : Bool) (ps : List Process) : Prop where
  wf : ∀ p ∈ ps, p.Wf
  sublist : (ps.flatMap Process.todo).Sublist l
  todo : ok = true → ps.flatMap Process.todo = l

namespace Keeps

variable {l : List (Node × Argv × Fds)} {p q : Process}

theorem fail (l : List (Node × Argv × Fds)) : Keeps l false [] :=
  ⟨nofun, List.nil_sublist l, nofun⟩

theorem one (hp : p.Wf) (h : p.todo = l) : Keeps l ok [p] := by
  have heq : [p].flatMap Process.todo = l := by rw [List.flatMap_singleton, h]
  exact ⟨by simpa using hp, by rw [heq], fun _ => heq⟩

theorem two (hp : p.Wf) (hq : q.Wf) (h : p.todo ++ q.todo = l) : Keeps l ok [p, q] := by
  have heq : [p, q].flatMap Process.todo = l := by
    rw [List.flatMap_cons, List.flatMap_singleton, h]
  refine ⟨?_, by rw [heq], fun _ => heq⟩
  rintro x (_ | ⟨_, _ | ⟨_, ⟨⟩⟩⟩)
  . exact hp
  . exact hq

end Keeps

namespace Process

variable {p : Process}

theorem runcmd_keeps (hborn : p.born <:+ p.n) (h : Tidy p.n p.fds) (hc : c.read.Standard)
    : Keeps (plumb p.n c p.fds) ok (p.runcmd c ok) := by
  cases ok with
  | false =>
    cases c with
    | exec argv =>
      have hexit : p.runcmd (.exec argv) false = [] := if_neg (fun h => Bool.false_ne_true h.2)
      rw [hexit]
      exact .fail _
    | redir c r => exact .fail _
    | pipe left right => exact .fail _
    | list left right => exact .fail _
    | back c => exact .fail _
  | true =>
    have hchild : p.born <:+ false :: p.n := hborn.trans (List.suffix_cons ..)
    unfold runcmd plumb
    cases c with
    | exec argv =>
      by_cases hargv : argv = []
      . rw [hargv]
        exact ⟨nofun, .refl _, fun _ => rfl⟩
      have hboth : argv ≠ [] ∧ true = true := ⟨hargv, rfl⟩
      dsimp only
      rw [if_pos hboth, if_pos hboth.1]
      exact .one ⟨hborn, h⟩ rfl
    | redir c r =>
      have hfd : r.fd < 3 := hc.1
      unfold Fds.openFile
      dsimp only
      rw [if_pos rfl, fdalloc_close (fun k hk => h.used (Nat.lt_trans hk hfd)) hfd]
      exact .one ⟨hchild, (h.child false).update hfd nofun nofun, hc.2⟩ rfl
    | pipe left right =>
      dsimp only
      rw [h.pipe_eq]
      refine .one ⟨hborn, ⟨rfl, rfl, p.fds, h, rfl⟩, hc⟩ ?_
      unfold todo Pc.todo
      dsimp only
      rw [h.close_piped]
      rfl
    | list left right =>
      refine .two ⟨List.suffix_rfl, h.child false, hc.1⟩ ⟨hborn, h, ?_, ?_⟩ rfl
      . rintro c ⟨⟩
        exact hc.2
      . rintro m (_ | ⟨_, ⟨⟩⟩)
        exact ⟨false, rfl⟩
    | back c => exact .one ⟨List.suffix_rfl, h.child false, hc⟩ rfl

theorem step_keeps (h : p.Wf) : Keeps p.todo ok (p.step ok) := by
  obtain ⟨born, n, fds, pc⟩ := p
  obtain ⟨hborn, hpc⟩ := h
  cases pc with
  | run c => exact runcmd_keeps hborn hpc.1 hpc.2
  | program argv running => exact .one ⟨hborn, hpc⟩ rfl
  | fork1 left right p0 p1 =>
    obtain ⟨⟨rfl, rfl, fds0, htidy, hfds⟩, hc⟩ := hpc
    obtain rfl : fds = fds0.piped n := hfds
    cases ok with
    | false => exact .fail _
    | true =>
      have hside := htidy.connect (show 1 < 3 by decide) (show 3 ≤ 4 by decide) n (Function.update_self ..)
      have hchild : (Pc.plug [.close 1, .dup 4, .close 3, .close 4] (.run left)).Ok (false :: n)
          (fds0.piped n) := by
        refine ⟨⟨?_, hc.1⟩, htidy.ends (.inr ⟨false, rfl⟩)⟩
        simp only [List.foldl_cons, List.foldl_nil, FdCall.run]
        rw [hside]
        refine (htidy.child false).update (by decide) nofun ?_
        rintro m ⟨⟩
        exact List.suffix_rfl
      refine .two ⟨List.suffix_rfl, hchild⟩ ⟨hborn, ⟨rfl, rfl, fds0, htidy, rfl⟩, hc.2⟩ ?_
      simp only [todo, child, Pc.todo, List.foldl_cons, List.foldl_nil, FdCall.run]
      rw [hside, htidy.close_piped]
      rfl
  | fork2 right p0 p1 =>
    obtain ⟨⟨rfl, rfl, fds0, htidy, hfds⟩, hc⟩ := hpc
    obtain rfl : fds = fds0.piped n := hfds
    cases ok with
    | false => exact .fail _
    | true =>
      have hside := htidy.connect (show 0 < 3 by decide) (Nat.le_refl 3) n
        ((Function.update_of_ne (by decide) ..).trans (Function.update_self ..))
      have hchild : (Pc.plug [.close 0, .dup 3, .close 3, .close 4] (.run right)).Ok (true :: n)
          (fds0.piped n) := by
        refine ⟨⟨?_, hc⟩, htidy.ends (.inr ⟨true, rfl⟩)⟩
        simp only [List.foldl_cons, List.foldl_nil, FdCall.run]
        rw [hside]
        refine (htidy.child true).update (by decide) ?_ nofun
        rintro m ⟨⟩
        exact List.suffix_rfl
      have hself : (Pc.plug [.close 3, .close 4] (.wait [false :: n, true :: n] none)).Ok n (fds0.piped n) := by
        refine ⟨⟨?_, nofun, ?_⟩, htidy.ends (.inl rfl)⟩
        . simp only [List.foldl_cons, List.foldl_nil, FdCall.run]
          rw [htidy.close_piped]
          exact htidy
        . rintro m (_ | ⟨_, _ | ⟨_, ⟨⟩⟩⟩)
          . exact ⟨false, rfl⟩
          . exact ⟨true, rfl⟩
      refine .two ⟨List.suffix_rfl, hchild⟩ ⟨hborn, hself⟩ ?_
      simp only [todo, child, Pc.todo, List.foldl_cons, List.foldl_nil, FdCall.run, List.append_nil]
      rw [hside, htidy.close_piped]
  | wait children next =>
    cases next with
    | none => exact ⟨nofun, .refl _, fun _ => rfl⟩
    | some c => exact .one ⟨hborn.trans (List.suffix_cons ..), hpc.1.child true, hpc.2.1 c rfl⟩ rfl
  | plug calls pc =>
    cases calls with
    | nil => exact .one ⟨hborn, hpc.1⟩ rfl
    | cons c calls => exact .one ⟨hborn, hpc.1, hpc.2.run c⟩ rfl

end Process

variable {ps ps' : List Process}

theorem keeps_of_step (h : Step ps ok ps') (hwf : ∀ p ∈ ps, p.Wf) : Keeps (ps.flatMap Process.todo) ok ps' := by
  obtain ⟨l, p, l', rfl, -, rfl⟩ := h
  have hkeeps : Keeps p.todo ok (p.step ok) := Process.step_keeps (hwf p (by simp))
  simp only [List.flatMap_append, List.flatMap_cons, ← List.append_assoc]
  refine ⟨?_, ?_, ?_⟩
  . intro q hq
    rw [List.mem_append, List.mem_append] at hq
    rcases hq with (hq | hq) | hq
    . exact hwf q (by simp [hq])
    . exact hkeeps.wf q hq
    . exact hwf q (by simp [hq])
  . rw [List.flatMap_append, List.flatMap_append]
    exact (hkeeps.sublist.append_left _).append_right _
  . intro hok
    rw [List.flatMap_append, List.flatMap_append, hkeeps.todo hok]

/-- The steps that a command takes, those of all its processes together. -/
def Cmd.steps (c : Cmd) : Nat :=
  match c with
  | .exec _ => 2
  | .redir c _ => c.steps + 1
  | .pipe left right => left.steps + right.steps + 17
  | .list left right => left.steps + right.steps + 2
  | .back c => c.steps + 1

def Pc.steps (pc : Pc) : Nat :=
  match pc with
  | .run c => c.steps
  | .program _ running => running.toNat
  | .fork1 left right _ _ => left.steps + right.steps + 16
  | .fork2 right _ _ => right.steps + 10
  | .wait _ next => (next.map Cmd.steps).getD 0 + 1
  | .plug calls pc => calls.length + 1 + pc.steps

def Process.steps (p : Process) : Nat :=
  p.pc.steps

theorem Process.steps_step {p : Process} {others : List Process} (h : p.Ready others) (ok : Bool)
    : ((p.step ok).map steps).sum < p.steps := by
  obtain ⟨born, n, fds, pc⟩ := p
  cases pc with
  | run c =>
    cases c
    all_goals
      dsimp only [step, runcmd]
      split
    all_goals
      simp [steps, Pc.steps, Cmd.steps, child]
      try omega
  | program argv running =>
    obtain rfl : running = true := h
    simp [step, steps, Pc.steps]
  | fork1 left right p0 p1 =>
    cases ok
    . simp [step, steps, Pc.steps]
    . simp [step, steps, Pc.steps, child]
      omega
  | fork2 right p0 p1 =>
    cases ok
    . simp [step, steps, Pc.steps]
    . simp [step, steps, Pc.steps, child]
      omega
  | wait children next => cases next <;> simp [step, steps, Pc.steps]
  | plug calls pc => cases calls <;> simp [step, steps, Pc.steps]

theorem steps_lt_of_step (h : Step ps ok ps') : (ps'.map Process.steps).sum < (ps.map Process.steps).sum := by
  obtain ⟨l, p, l', rfl, hready, rfl⟩ := h
  have hlt := Process.steps_step hready ok
  simp only [List.map_append, List.map_cons, List.sum_append, List.sum_cons]
  omega

theorem length_le_of_run (h : Reach.Run Step ps oks ps')
    : (ps'.map Process.steps).sum + oks.length ≤ (ps.map Process.steps).sum := by
  induction h with
  | nil => exact Nat.le_refl _
  | snoc _ hstep ih =>
    have hlt := steps_lt_of_step hstep
    rw [List.length_append, List.length_singleton]
    omega

theorem keeps_of_run (h : Reach.Run Step ps oks ps') (hwf : ∀ p ∈ ps, p.Wf)
    : Keeps (ps.flatMap Process.todo) (oks.all id) ps' := by
  induction h with
  | nil => exact ⟨hwf, .refl _, fun _ => rfl⟩
  | snoc h hstep ih =>
    have hlast := keeps_of_step hstep ih.wf
    refine ⟨hlast.wf, hlast.sublist.trans ih.sublist, ?_⟩
    intro hall
    rw [List.all_append, List.all_cons, List.all_nil, Bool.and_true, Bool.and_eq_true] at hall
    rw [hlast.todo hall.2, ih.todo hall.1]

/-- A process that cannot go on waits for one that is at a deeper node. -/
theorem exists_deeper (hwf : ∀ p ∈ ps, p.Wf) (hstuck : ∀ ok ps', ¬Step ps ok ps') {p : Process} (hp : p ∈ ps)
    (hlive : p.exited = false)
    : ∃ q ∈ ps, q.exited = false ∧ p.n.length < q.n.length := by
  obtain ⟨l, l', rfl⟩ := List.append_of_mem hp
  have hready : ¬p.Ready (l ++ l') := fun h => hstuck true _ ⟨l, p, l', rfl, h, rfl⟩
  have hpc := (hwf p hp).pcOk
  unfold Process.Ready at hready
  unfold Process.exited at hlive
  split at hready
  next heq =>
    rw [heq] at hlive
    simp_all
  next children next heq =>
    rw [heq] at hpc
    push Not at hready
    obtain ⟨q, hq, hborn, hexit⟩ := hready
    have hmem : q ∈ l ++ p :: l' := by
      rw [List.mem_append] at hq
      rcases hq with hq | hq
      . simp [hq]
      . simp [hq]
    obtain ⟨b, hb⟩ := hpc.2.2 _ hborn
    have hlen := (hwf q hmem).born.length_le
    rw [hb] at hlen
    exact ⟨q, hmem, Bool.not_eq_true _ ▸ hexit, hlen⟩
  next => exact absurd trivial hready

theorem exists_step (hwf : ∀ p ∈ ps, p.Wf) {p : Process} (hp : p ∈ ps) (hlive : p.exited = false)
    : ∃ ok ps', Step ps ok ps' := by
  by_contra hstuck
  push Not at hstuck
  have hdeep : ∀ k, ∃ q ∈ ps, q.exited = false ∧ k ≤ q.n.length := by
    intro k
    induction k with
    | zero => exact ⟨p, hp, hlive, Nat.zero_le _⟩
    | succ k ih =>
      obtain ⟨q, hq, hlive, hk⟩ := ih
      obtain ⟨q', hq', hlive', hlt⟩ := exists_deeper hwf hstuck hq hlive
      exact ⟨q', hq', hlive', by omega⟩
  obtain ⟨q, hq, -, hlen⟩ := hdeep ((ps.map fun p => p.n.length).sum + 1)
  have hle := List.le_sum_of_mem (List.mem_map.mpr ⟨q, hq, rfl⟩ : q.n.length ∈ ps.map fun p => p.n.length)
  omega

/-- The descriptors of the shell, and the process that it forks for a command. -/
def console : Fds :=
  fun fd => if fd < 3 then some (.given fd) else none

def command (c : Cmd) : List Process :=
  [⟨[], [], console, .run c⟩]

theorem command_wf (hc : c.read.Standard) : ∀ p ∈ command c, p.Wf := by
  have hgiven : ∀ fd f, console fd = some f → f = .given fd := by
    intro fd f h
    unfold console at h
    split at h
    . exact (Option.some.inj h).symm
    . cases h
  have htidy : Tidy [] console := by
    refine ⟨?_, ?_, ?_⟩
    . intro fd
      unfold console
      split
      . simp
        omega
      . simp
        omega
    . intro fd m h
      cases hgiven fd _ h
    . intro fd m h
      cases hgiven fd _ h
  rintro p (_ | ⟨_, ⟨⟩⟩)
  exact ⟨List.suffix_rfl, htidy, hc⟩

theorem flatMap_started_sublist (ps : List Process)
    : (ps.flatMap Process.started).Sublist (ps.flatMap Process.todo) := by
  induction ps with
  | nil => exact .refl _
  | cons p ps ih =>
    rw [List.flatMap_cons, List.flatMap_cons]
    refine .append ?_ ih
    unfold Process.started Process.todo
    cases p.pc with
    | program argv running => exact .refl _
    | _ => exact List.nil_sublist _

theorem flatMap_started_of_exited (h : ∀ p ∈ ps, p.exited = true)
    : ps.flatMap Process.started = ps.flatMap Process.todo := by
  apply List.flatMap_congr
  intro p hp
  have hexit := h p hp
  unfold Process.exited at hexit
  unfold Process.started Process.todo
  cases hpc : p.pc with
  | program argv running => rfl
  | _ =>
    rw [hpc] at hexit
    cases hexit

/-- The command `a|b`. -/
def twoSides : Cmd :=
  .pipe (.exec [(['a', '|', 'b'], ['|', 'b'])]) (.exec [(['b'], [])])

theorem noNul_twoSides : NoNul ['a', '|', 'b'] := by
  unfold NoNul
  decide

/-- The first of the processes that can go on takes a step. -/
def turn (before behind : List Process) (ok : Bool) : Option (List Process) :=
  match behind with
  | [] => none
  | p :: behind =>
    if p.Ready (before ++ behind) then some (before ++ p.step ok ++ behind) else turn (before ++ [p]) behind ok

theorem step_of_turn {before behind : List Process} (h : turn before behind ok = some ps)
    : Step (before ++ behind) ok ps := by
  induction behind generalizing before with
  | nil => cases h
  | cons p behind ih =>
    unfold turn at h
    split at h
    next hready =>
      cases h
      exact ⟨before, p, behind, rfl, hready, rfl⟩
    next =>
      have hstep := ih h
      rwa [List.append_assoc] at hstep

theorem exists_run (oks : List Bool) {P : List Process → Bool}
    (h : (Reach.exec (turn []) (command twoSides) oks).any P = true)
    : ∃ ps, Reach.Run Step (command twoSides) oks ps ∧ P ps = true := by
  cases hexec : Reach.exec (turn []) (command twoSides) oks with
  | none =>
    rw [hexec] at h
    cases h
  | some ps =>
    rw [hexec] at h
    exact ⟨ps, .of_exec (fun _ _ _ => step_of_turn) hexec, h⟩

/--
In any order of steps, the processes of a command line start its programs with the descriptors that it says, each of
them at most once. One of them can go on until they have all exited, after so many steps, and then no program is
missing unless a system call has failed.
-/
theorem runcmd_starts_programs (hnul : NoNul str)
    (hcmd : parsecmd str behind = .ok (c, mem)) (hrun : Reach.Run Step (command c) oks ps)
    : (ps.flatMap Process.started).Sublist (plumb [] c console)
      ∧ (∀ p ∈ ps, p.exited = false → ∃ ok ps', Step ps ok ps') ∧ oks.length ≤ c.steps
      ∧ ((∀ p ∈ ps, p.exited = true) → oks.all id = true → ps.flatMap Process.started = plumb [] c console) := by
  have hkeeps := keeps_of_run hrun (command_wf (standard_of_parsecmd hnul hcmd))
  have hcommand : (command c).flatMap Process.todo = plumb [] c console := List.append_nil _
  rw [hcommand] at hkeeps
  refine ⟨(flatMap_started_sublist ps).trans hkeeps.sublist, ?_, ?_, ?_⟩
  . intro p hp hlive
    exact exists_step hkeeps.wf hp hlive
  . exact Nat.le_trans (Nat.le_add_left ..) (length_le_of_run hrun)
  . intro hexit hoks
    rw [flatMap_started_of_exited hexit, hkeeps.todo hoks]

theorem runcmd_starts_programs_of_twoSides
    : ∃ ps, Reach.Run Step (command twoSides) (List.replicate 21 true) ps ∧ (∀ p ∈ ps, p.exited = true)
      ∧ ps.flatMap Process.started = plumb [] twoSides console ∧ (plumb [] twoSides console).length = 2 := by
  obtain ⟨ps, hrun, hps⟩ := exists_run (List.replicate 21 true)
    (P := fun ps => ps.all Process.exited) (by decide +kernel)
  have hexit := List.all_eq_true.mp hps
  have hcmd : parsecmd ['a', '|', 'b'] (fun _ => ' ') = .ok (twoSides, _) := rfl
  exact ⟨ps, hrun, hexit, (runcmd_starts_programs noNul_twoSides hcmd hrun).2.2.2 hexit (by decide), rfl⟩

/-- Where a process may have both ends of a pipe. -/
def Pc.forks (pc : Pc) : Bool :=
  match pc with
  | .fork1 .. | .fork2 .. | .plug .. => true
  | _ => false

end Sh
end Xv6
