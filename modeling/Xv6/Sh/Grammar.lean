import Xv6.Sh.Impl

/-!
What the shell's parser is for: the tokens of a string, and the grammar that says
which sequences of tokens are a command line, and which tree they stand for.
-/

namespace Xv6
namespace Sh

inductive Tok
  | word (w : List Char)
  | lt
  | gt
  | app
  | bar
  | amp
  | semi
  | lpar
  | rpar
  deriving DecidableEq, Repr

namespace Tok

def first : Tok → Option Char
  | .word _ => none
  | .lt => some '<'
  | .gt => some '>'
  | .app => some '>'
  | .bar => some '|'
  | .amp => some '&'
  | .semi => some ';'
  | .lpar => some '('
  | .rpar => some ')'

def code : Tok → Char
  | .word _ => 'a'
  | .lt => '<'
  | .gt => '>'
  | .app => '+'
  | .bar => '|'
  | .amp => '&'
  | .semi => ';'
  | .lpar => '('
  | .rpar => ')'

def ofChar? (c : Char) : Option Tok :=
  if c = '<' then some .lt
  else if c = '|' then some .bar
  else if c = '&' then some .amp
  else if c = ';' then some .semi
  else if c = '(' then some .lpar
  else if c = ')' then some .rpar
  else none

end Tok

def lex (s : List Char) : List Tok :=
  match s with
  | [] => []
  | c :: s =>
    if whitespace.contains c then
      lex s
    else if c = '>' then
      if s.head? = some '>' then .app :: lex s.tail else .gt :: lex s
    else
      match Tok.ofChar? c with
      | some t => t :: lex s
      | none => .word (c :: s.takeWhile isWord) :: lex (s.dropWhile isWord)
termination_by s.length
decreasing_by
  all_goals simp only [List.length_cons, List.length_tail]
  . omega
  . omega
  . omega
  . omega
  . have := (List.dropWhile_suffix isWord (l := s)).length_le
    omega

inductive Tree
  | exec (argv : List (List Char))
  | redir (cmd : Tree) (file : List Char) (mode fd : Nat)
  | pipe (left right : Tree)
  | list (left right : Tree)
  | back (cmd : Tree)
  deriving DecidableEq, Repr

namespace Tree

def wrap (t : Tree) (rs : List (List Char × Nat × Nat)) : Tree :=
  rs.foldl (fun t r => .redir t r.1 r.2.1 r.2.2) t

def backs (t : Tree) (n : Nat) : Tree :=
  match n with
  | 0 => t
  | n + 1 => backs (.back t) n

end Tree

def Tok.redir? : Tok → Option (Nat × Nat)
  | .lt => some (O_RDONLY, 0)
  | .gt => some (O_WRONLY ||| O_CREATE, 1)
  | .app => some (O_WRONLY ||| O_CREATE, 1)
  | _ => none

inductive Redirs : List Tok → List (List Char × Nat × Nat) → Prop
  | nil : Redirs [] []
  | cons {t : Tok} {m : Nat × Nat} {w : List Char} {l : List Tok} {rs : List (List Char × Nat × Nat)}
      (ht : t.redir? = some m) (h : Redirs l rs)
    : Redirs (t :: .word w :: l) ((w, m) :: rs)

inductive Words : List Tok → List (List Char) → List (List Char × Nat × Nat) → Prop
  | nil : Words [] [] []
  | cons {w : List Char} {r l : List Tok} {rs rs' : List (List Char × Nat × Nat)}
      {ws : List (List Char)} (hr : Redirs r rs) (h : Words l ws rs')
    : Words (.word w :: r ++ l) (w :: ws) (rs ++ rs')

mutual

inductive Line : List Tok → Tree → Prop
  | last {l : List Tok} {t : Tree} (n : Nat) (h : Pipe l t)
    : Line (l ++ List.replicate n .amp) (t.backs n)
  | seq {l r : List Tok} {t u : Tree} (n : Nat) (h : Pipe l t) (hr : Line r u)
    : Line (l ++ List.replicate n .amp ++ .semi :: r) (.list (t.backs n) u)

inductive Pipe : List Tok → Tree → Prop
  | last {l : List Tok} {t : Tree} (h : Exec l t) : Pipe l t
  | seq {l r : List Tok} {t u : Tree} (h : Exec l t) (hr : Pipe r u)
    : Pipe (l ++ .bar :: r) (.pipe t u)

inductive Exec : List Tok → Tree → Prop
  | block {l r : List Tok} {t : Tree} {rs : List (List Char × Nat × Nat)} (h : Line l t)
      (hr : Redirs r rs)
    : Exec (.lpar :: l ++ .rpar :: r) (t.wrap rs)
  | simple {r l : List Tok} {rs rs' : List (List Char × Nat × Nat)} {ws : List (List Char)}
      (hr : Redirs r rs) (h : Words l ws rs') (hlen : ws.length ≤ MAXARGS - 1)
    : Exec (r ++ l) ((Tree.exec ws).wrap (rs ++ rs'))

end

def text (q eq : Ptr) : List Char :=
  q.take (q.length - eq.length)

def Redir.read (r : Redir) : List Char × Nat × Nat :=
  (text r.file r.efile, r.mode, r.fd)

def Cmd.read : Cmd → Tree
  | .exec argv => .exec (argv.map fun a => text a.1 a.2)
  | .redir cmd r => .redir cmd.read r.read.1 r.read.2.1 r.read.2.2
  | .pipe left right => .pipe left.read right.read
  | .list left right => .list left.read right.read
  | .back cmd => .back cmd.read

def Cmd.strings : Cmd → List (Ptr × Ptr)
  | .exec argv => argv
  | .redir cmd r => cmd.strings ++ [(r.file, r.efile)]
  | .pipe left right => left.strings ++ right.strings
  | .list left right => left.strings ++ right.strings
  | .back cmd => cmd.strings

def Reads (mem : Mem) (i : Nat) (w : List Char) : Prop :=
  (∀ j (h : j < w.length), mem (i + j) = w[j] ∧ w[j] ≠ '\x00') ∧ mem (i + w.length) = '\x00'

end Sh
end Xv6
