import Mathlib.Data.List.DropRight
import Xv6.Lib.Outcome
import Xv6.Sh.Grammar

namespace Xv6
namespace Sh

variable {s s' : Ptr} {t : Tok} {ts l l' : List Tok} {w : List Char}

def NoNul (s : List Char) : Prop :=
  '\x00' ∉ s

theorem NoNul.of_suffix (h : NoNul s) (hs : s' <:+ s) : NoNul s' :=
  fun hmem => h (hs.subset hmem)

theorem NoNul.deref_eq_iff (h : NoNul s) : deref s = '\x00' ↔ s = [] := by
  cases s with
  | nil => simp [deref]
  | cons c s =>
    have hne : c ≠ '\x00' := by
      rintro rfl
      exact h List.mem_cons_self
    simp [deref, hne]

theorem skip_suffix (s : Ptr) : skip s <:+ s :=
  List.dropWhile_suffix _

theorem not_whitespace_of_skip {c : Char} (h : skip s = c :: s') : whitespace.contains c = false := by
  have hhead := List.head?_dropWhile_not (fun c => whitespace.contains c) s
  unfold skip at h
  rw [h] at hhead
  simpa using hhead

theorem lex_skip (s : Ptr) : lex (skip s) = lex s := by
  induction s with
  | nil => rfl
  | cons c s ih =>
    by_cases hc : whitespace.contains c = true
    . conv => rhs; unfold lex
      rw [if_pos hc, ← ih]
      unfold skip
      rw [List.dropWhile_cons_of_pos hc]
    . unfold skip
      rw [List.dropWhile_cons_of_neg hc]

theorem skip_skip (s : Ptr) : skip (skip s) = skip s := by
  unfold skip
  exact List.dropWhile_idempotent _ _

def IsString (s q eq : Ptr) : Prop :=
  ∃ w, w ≠ [] ∧ (∀ c ∈ w, isWord c = true) ∧ q = w ++ eq ∧ q <:+ s
    ∧ ∀ c, eq.head? = some c → isWord c = false

theorem IsString.mono {q eq : Ptr} (h : IsString s' q eq) (hs : s' <:+ s) : IsString s q eq := by
  rcases h with ⟨w, hne, hw, hq, hsuffix, hend⟩
  exact ⟨w, hne, hw, hq, hsuffix.trans hs, hend⟩

theorem text_append (w eq : List Char) : text (w ++ eq) eq = w := by
  simp [text]

theorem ofChar?_eq_none_iff {c : Char} (hgt : c ≠ '>') (hws : whitespace.contains c = false)
    : Tok.ofChar? c = none ↔ isWord c = true := by
  unfold Tok.ofChar? isWord symbols
  rw [hws]
  grind

theorem ofChar?_spec {c : Char} (h : Tok.ofChar? c = some t)
    : ['|', '(', ')', ';', '&', '<'].contains c = true ∧ t.first = some c ∧ t.code = c := by
  unfold Tok.ofChar? at h
  grind [Tok.first, Tok.code]

theorem ofChar?_none {c : Char} (h : Tok.ofChar? c = none)
    : ['|', '(', ')', ';', '&', '<'].contains c = false := by
  unfold Tok.ofChar? at h
  grind

theorem scan_spec (hnul : NoNul s) (hlex : lex s = t :: ts) (hs : skip s = s)
    : (scan s).1 = t.code ∧ lex (scan s).2 = ts ∧ (scan s).2 <:+ s
        ∧ (t.first = none → isWord (deref s) = true) ∧ (∀ c, t.first = some c → deref s = c)
        ∧ ∀ w, t = .word w → text s (scan s).2 = w ∧ IsString s s (scan s).2 := by
  cases s with
  | nil => simp [lex] at hlex
  | cons c s =>
    have hws := not_whitespace_of_skip hs
    have hc : c ≠ '\x00' := by
      rintro rfl
      exact hnul List.mem_cons_self
    unfold lex at hlex
    rw [if_neg (by rw [hws]; decide)] at hlex
    have hderef : deref (c :: s) = c := rfl
    have htail : (c :: s).tail = s := rfl
    unfold scan
    simp only [hderef, htail, if_neg hc]
    by_cases hgt : c = '>'
    . subst hgt
      rw [if_pos rfl] at hlex
      rw [if_neg (by decide), if_pos rfl]
      by_cases hnext : s.head? = some '>'
      . rw [if_pos hnext] at hlex
        cases hlex
        have hd : deref s = '>' := by
          simp [deref, List.headD_eq_head?_getD, hnext]
        rw [if_pos hd]
        refine ⟨rfl, rfl, (List.tail_suffix s).trans (List.suffix_cons _ s), ?_, ?_, ?_⟩
        . rintro ⟨⟩
        . rintro c ⟨⟩
          rfl
        . rintro w ⟨⟩
      . rw [if_neg hnext] at hlex
        cases hlex
        have hd : deref s ≠ '>' := by
          cases s with
          | nil => decide
          | cons d s => simpa [deref] using hnext
        rw [if_neg hd]
        refine ⟨rfl, rfl, List.suffix_cons _ s, ?_, ?_, ?_⟩
        . rintro ⟨⟩
        . rintro c ⟨⟩
          rfl
        . rintro w ⟨⟩
    . rw [if_neg hgt] at hlex
      cases hof : Tok.ofChar? c with
      | some u =>
        rw [hof] at hlex
        cases hlex
        rcases ofChar?_spec hof with ⟨hmem, hfirst, hcode⟩
        rw [if_pos hmem]
        refine ⟨hcode.symm, rfl, List.suffix_cons _ s, ?_, ?_, ?_⟩
        . intro hnone
          rw [hfirst] at hnone
          cases hnone
        . intro d hd
          rw [hfirst] at hd
          cases hd
          rfl
        . rintro w rfl
          cases hfirst
      | none =>
        rw [hof] at hlex
        cases hlex
        have hword := (ofChar?_eq_none_iff hgt hws).mp hof
        rw [if_neg (by simp only [ofChar?_none hof]; decide), if_neg hgt,
          List.dropWhile_cons_of_pos hword]
        have hsplit : c :: s = (c :: s.takeWhile isWord) ++ s.dropWhile isWord := by
          simp
        refine ⟨rfl, rfl, (List.dropWhile_suffix _).trans (List.suffix_cons _ s), fun _ => hword, ?_, ?_⟩
        . rintro d ⟨⟩
        . rintro w ⟨⟩
          refine ⟨?_, c :: s.takeWhile isWord, by simp, ?_, hsplit, List.suffix_refl _, ?_⟩
          . conv => lhs; rw [hsplit]
            exact text_append _ _
          . intro d hd
            rcases List.mem_cons.mp hd with rfl | hd
            . exact hword
            . exact List.mem_takeWhile_imp hd
          . intro d hd
            have hhead := List.head?_dropWhile_not isWord s
            rw [hd] at hhead
            simpa using hhead

theorem lex_eq_nil_iff : lex s = [] ↔ skip s = [] := by
  rw [← lex_skip]
  cases hs : skip s with
  | nil => simp [lex]
  | cons c s' =>
    simp only [reduceCtorEq, iff_false]
    unfold lex
    rw [if_neg (by rw [not_whitespace_of_skip hs]; decide)]
    split
    . split
      all_goals simp
    . split
      all_goals simp

def codeOf (ts : List Tok) : Char :=
  match ts with
  | [] => '\x00'
  | t :: _ => t.code

def peekTok (ts : List Tok) (toks : List Char) : Bool :=
  match ts with
  | [] => false
  | t :: _ => t.first.any toks.contains

theorem peek_snd (s : Ptr) (toks : List Char) : (peek s toks).2 = skip s := by
  rfl

theorem peek_fst (hnul : NoNul s) {u : List Char} (htoks : (u.any isWord) = false)
    : (peek s u).1 = peekTok (lex s) u := by
  have hskip := hnul.of_suffix (skip_suffix s)
  rw [← lex_skip]
  unfold peek
  cases hlex : lex (skip s) with
  | nil =>
    rw [lex_eq_nil_iff, skip_skip] at hlex
    simp [hlex, deref, peekTok]
  | cons t ts =>
    have hne : deref (skip s) ≠ '\x00' := by
      rw [ne_eq, hskip.deref_eq_iff]
      intro hnil
      simp [hnil, lex] at hlex
    rcases scan_spec hskip hlex (skip_skip s) with ⟨_, _, _, hword, hsym, _⟩
    simp only [peekTok, hne, ne_eq, not_false_eq_true, decide_true, Bool.true_and]
    cases hfirst : t.first with
    | none =>
      simp only [Option.any_none]
      rw [← Bool.not_eq_true, List.contains_iff_mem]
      intro hmem
      exact Bool.false_ne_true (htoks.symm.trans (List.any_eq_true.mpr ⟨_, hmem, hword hfirst⟩))
    | some c => rw [hsym c hfirst, Option.any_some]

theorem gettoken_suffix (hnul : NoNul s) : (gettoken s).2 <:+ s := by
  have hskip := hnul.of_suffix (skip_suffix s)
  unfold gettoken
  refine (skip_suffix _).trans (List.IsSuffix.trans ?_ (skip_suffix s))
  cases hlex : lex (skip s) with
  | nil =>
    rw [lex_eq_nil_iff, skip_skip] at hlex
    simp [hlex, scan, deref]
  | cons t ts => exact (scan_spec hskip hlex (skip_skip s)).2.2.1

theorem gettoken_spec (hnul : NoNul s)
    : (gettoken s).1.ret = codeOf (lex s) ∧ lex (gettoken s).2 = (lex s).tail := by
  have hskip := hnul.of_suffix (skip_suffix s)
  unfold gettoken
  dsimp only
  rw [lex_skip, ← lex_skip s]
  cases hlex : lex (skip s) with
  | nil =>
    rw [lex_eq_nil_iff, skip_skip] at hlex
    simp [hlex, scan, deref, lex, codeOf]
  | cons t ts =>
    rcases scan_spec hskip hlex (skip_skip s) with ⟨hret, htail, _⟩
    exact ⟨hret, htail⟩

theorem gettoken_word (hnul : NoNul s) (hlex : lex s = .word w :: ts)
    : text (gettoken s).1.q (gettoken s).1.eq = w ∧ IsString s (gettoken s).1.q (gettoken s).1.eq := by
  have hskip := hnul.of_suffix (skip_suffix s)
  rw [← lex_skip] at hlex
  rcases scan_spec hskip hlex (skip_skip s) with ⟨_, _, _, _, _, hword⟩
  rcases hword w rfl with ⟨htext, hstring⟩
  exact ⟨htext, hstring.mono (skip_suffix s)⟩

theorem gettoken_skip (s : Ptr) : gettoken (skip s) = gettoken s := by
  unfold gettoken
  rw [skip_skip]

theorem codeOf_eq_a : codeOf ts = 'a' ↔ ∃ w ts', ts = .word w :: ts' := by
  cases ts with
  | nil => simp [codeOf]
  | cons t ts =>
    cases t
    all_goals simp [codeOf, Tok.code]

theorem codeOf_eq_nul : codeOf ts = '\x00' ↔ ts = [] := by
  cases ts with
  | nil => simp [codeOf]
  | cons t ts =>
    cases t
    all_goals simp [codeOf, Tok.code]

theorem peekTok_singleton {c : Char} {u : Tok} (hu : Tok.ofChar? c = some u)
    : peekTok ts [c] = true ↔ ∃ ts', ts = u :: ts' := by
  have hc := (ofChar?_spec hu).2.1
  cases ts with
  | nil => simp [peekTok]
  | cons t ts =>
    have hiff : t.first = some c ↔ t = u := by
      constructor
      . intro ht
        cases t with
        | word w => cases ht
        | _ =>
          cases ht
          simp_all [Tok.ofChar?]
      . rintro rfl
        exact hc
    simp only [peekTok, Option.any_eq_true, List.contains_iff_mem, List.mem_singleton,
      exists_eq_right, hiff, List.cons.injEq, exists_eq_right']

theorem peekTok_redir
    : peekTok ts ['<', '>'] = true ↔ ∃ t m ts', ts = t :: ts' ∧ t.redir? = some m := by
  cases ts with
  | nil => simp [peekTok]
  | cons t ts =>
    cases t
    all_goals simp [peekTok, Tok.first, Tok.redir?]

theorem redircmd?_code {m : Nat × Nat} (ht : t.redir? = some m) (f : Token)
    : redircmd? t.code f = some { file := f.q, efile := f.eq, mode := m.1, fd := m.2 } := by
  cases t with
  | lt | gt | app =>
    cases ht
    rfl
  | _ => cases ht

theorem wrap_read (cmd : Cmd) (rs : List Redir)
    : (wrap cmd rs).read = cmd.read.wrap (rs.map Redir.read) := by
  induction rs generalizing cmd with
  | nil => rfl
  | cons r rs ih => exact ih (.redir cmd r)

theorem wrap_strings (cmd : Cmd) (rs : List Redir)
    : (wrap cmd rs).strings = cmd.strings ++ rs.map fun r => (r.file, r.efile) := by
  induction rs generalizing cmd with
  | nil => simp [wrap]
  | cons r rs ih =>
    have := ih (.redir cmd r)
    simp only [wrap, List.foldl_cons, Cmd.strings, List.map_cons] at this ⊢
    simpa using this

end Sh
end Xv6
