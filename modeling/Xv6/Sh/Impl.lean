import Mathlib.Data.List.Basic

/-!
The parser of `sh.c`. A pointer into the input string is given by the rest of the
string from there on, so that the end `es` is the empty list and `*s` is the head, or 0 at the end. The
loops and the recursion take fuel.
-/

namespace Xv6
namespace Sh

abbrev Ptr : Type := List Char

abbrev MAXARGS : Nat := 10

abbrev O_RDONLY : Nat := 0x000
abbrev O_WRONLY : Nat := 0x001
abbrev O_CREATE : Nat := 0x200

def deref (s : Ptr) : Char :=
  s.headD '\x00'

def whitespace : List Char :=
  [' ', '\t', '\r', '\n', '\x0b']

def symbols : List Char :=
  ['<', '|', '>', '&', ';', '(', ')']

inductive Error
  | panic (msg : String)
  | wild
  | fuel
  deriving DecidableEq, Repr

def isWord (c : Char) : Bool :=
  !whitespace.contains c && !symbols.contains c

def skip (s : Ptr) : Ptr :=
  s.dropWhile (whitespace.contains ·)

structure Token where
  ret : Char
  q : Ptr
  eq : Ptr
  deriving DecidableEq, Repr

def scan (s : Ptr) : Char × Ptr :=
  let c := deref s
  if c = '\x00' then
    (c, s)
  else if ['|', '(', ')', ';', '&', '<'].contains c then
    (c, s.tail)
  else if c = '>' then
    if deref s.tail = '>' then ('+', s.tail.tail) else (c, s.tail)
  else
    ('a', s.dropWhile isWord)

def gettoken (s : Ptr) : Token × Ptr :=
  let q := skip s
  let r := scan q
  ({ ret := r.1, q := q, eq := r.2 }, skip r.2)

def peek (s : Ptr) (toks : List Char) : Bool × Ptr :=
  let s := skip s
  (deref s ≠ '\x00' && toks.contains (deref s), s)

structure Redir where
  file : Ptr
  efile : Ptr
  mode : Nat
  fd : Nat
  deriving DecidableEq, Repr

inductive Cmd
  | exec (argv : List (Ptr × Ptr))
  | redir (cmd : Cmd) (r : Redir)
  | pipe (left right : Cmd)
  | list (left right : Cmd)
  | back (cmd : Cmd)
  deriving DecidableEq, Repr

def redircmd? (tok : Char) (t : Token) : Option Redir :=
  if tok = '<' then
    some { file := t.q, efile := t.eq, mode := O_RDONLY, fd := 0 }
  else if tok = '>' then
    some { file := t.q, efile := t.eq, mode := O_WRONLY ||| O_CREATE, fd := 1 }
  else if tok = '+' then
    some { file := t.q, efile := t.eq, mode := O_WRONLY ||| O_CREATE, fd := 1 }
  else
    none

def parseredirs (fuel : Nat) (s : Ptr) : Except Error (List Redir × Ptr) :=
  match fuel with
  | 0 => .error .fuel
  | fuel + 1 =>
    let more := peek s ['<', '>']
    if more.1 then do
      let tok := gettoken more.2
      let file := gettoken tok.2
      if file.1.ret ≠ 'a' then
        .error (.panic "missing file for redirection")
      else
        let r ← parseredirs fuel file.2
        return ((redircmd? tok.1.ret file.1).toList ++ r.1, r.2)
    else
      .ok ([], more.2)

def wrap (cmd : Cmd) (rs : List Redir) : Cmd :=
  rs.foldl .redir cmd

def storeArg (argv : List (Ptr × Ptr)) (arg : Ptr × Ptr) : Except Error (List (Ptr × Ptr)) :=
  if argv.length < MAXARGS then .ok (argv ++ [arg]) else .error .wild

def finishExec (argv : List (Ptr × Ptr)) (rs : List Redir) (s : Ptr) : Except Error (Cmd × Ptr) :=
  if argv.length < MAXARGS then .ok (wrap (.exec argv) rs, s) else .error .wild

def parseargs (fuel : Nat) (argv : List (Ptr × Ptr)) (rs : List Redir) (s : Ptr)
    : Except Error (Cmd × Ptr) :=
  match fuel with
  | 0 => .error .fuel
  | fuel + 1 =>
    let stop := peek s ['|', ')', '&', ';']
    if stop.1 then
      finishExec argv rs stop.2
    else
      let tok := gettoken stop.2
      if tok.1.ret = '\x00' then
        finishExec argv rs tok.2
      else if tok.1.ret ≠ 'a' then
        .error (.panic "syntax")
      else do
        let argv ← storeArg argv (tok.1.q, tok.1.eq)
        if MAXARGS ≤ argv.length then
          .error (.panic "too many args")
        else
          let r ← parseredirs fuel tok.2
          parseargs fuel argv (rs ++ r.1) r.2

def parseback (fuel : Nat) (cmd : Cmd) (s : Ptr) : Except Error (Cmd × Ptr) :=
  match fuel with
  | 0 => .error .fuel
  | fuel + 1 =>
    let more := peek s ['&']
    if more.1 then
      parseback fuel (.back cmd) (gettoken more.2).2
    else
      .ok (cmd, more.2)

mutual

def parseline (fuel : Nat) (s : Ptr) : Except Error (Cmd × Ptr) :=
  match fuel with
  | 0 => .error .fuel
  | fuel + 1 => do
    let r ← parsepipe fuel s
    let r ← parseback fuel r.1 r.2
    let more := peek r.2 [';']
    if more.1 then
      let next ← parseline fuel (gettoken more.2).2
      return (.list r.1 next.1, next.2)
    else
      return (r.1, more.2)

def parsepipe (fuel : Nat) (s : Ptr) : Except Error (Cmd × Ptr) :=
  match fuel with
  | 0 => .error .fuel
  | fuel + 1 => do
    let r ← parseexec fuel s
    let more := peek r.2 ['|']
    if more.1 then
      let next ← parsepipe fuel (gettoken more.2).2
      return (.pipe r.1 next.1, next.2)
    else
      return (r.1, more.2)

def parseexec (fuel : Nat) (s : Ptr) : Except Error (Cmd × Ptr) :=
  match fuel with
  | 0 => .error .fuel
  | fuel + 1 =>
    let block := peek s ['(']
    if block.1 then
      parseblock fuel block.2
    else do
      let r ← parseredirs fuel block.2
      parseargs fuel [] r.1 r.2

def parseblock (fuel : Nat) (s : Ptr) : Except Error (Cmd × Ptr) :=
  match fuel with
  | 0 => .error .fuel
  | fuel + 1 =>
    let opening := peek s ['(']
    if !opening.1 then
      .error (.panic "parseblock")
    else do
      let r ← parseline fuel (gettoken opening.2).2
      let closing := peek r.2 [')']
      if !closing.1 then
        .error (.panic "syntax - missing )")
      else
        let rs ← parseredirs fuel (gettoken closing.2).2
        return (wrap r.1 rs.1, rs.2)

end

abbrev Mem : Type := Nat → Char

def load (s : List Char) (behind : Mem) : Mem :=
  fun i => if i < s.length then s.getD i '\x00' else if i = s.length then '\x00' else behind i

def offset (s : List Char) (p : Ptr) : Nat :=
  s.length - p.length

def clear (s : List Char) (mem : Mem) (p : Ptr) : Mem :=
  fun i => if i = offset s p then '\x00' else mem i

def nulterminate (s : List Char) (cmd : Cmd) (mem : Mem) : Mem :=
  match cmd with
  | .exec argv => argv.foldl (fun mem arg => clear s mem arg.2) mem
  | .redir cmd r => clear s (nulterminate s cmd mem) r.efile
  | .pipe left right => nulterminate s right (nulterminate s left mem)
  | .list left right => nulterminate s right (nulterminate s left mem)
  | .back cmd => nulterminate s cmd mem

def parsecmd (s : List Char) (behind : Mem) : Except Error (Cmd × Mem) := do
  let r ← parseline (4 * s.length + 4) s
  let s' := (peek r.2 []).2
  if s' ≠ [] then
    .error (.panic "syntax")
  else
    return (r.1, nulterminate s r.1 (load s behind))

end Sh
end Xv6
