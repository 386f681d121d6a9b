import Xv6.Sh.Lemmas

namespace Xv6
namespace Sh

open Outcome

variable {s s' : Ptr} {l l' rest : List Tok}

def IsPanic (e : Error) : Prop :=
  ∃ m, e = .panic m

theorem isPanic (m : String) : IsPanic (.panic m) :=
  ⟨m, rfl⟩

structure Consumes (s : Ptr) (l : List Tok) (s' : Ptr) : Prop where
  lex : lex s = l ++ lex s'
  suffix : s' <:+ s

namespace Consumes

theorem trans {s'' : Ptr} (h : Consumes s l s') (h' : Consumes s' l' s'') : Consumes s (l ++ l') s'' where
  lex := by
    rw [h.lex, h'.lex, List.append_assoc]
  suffix := h'.suffix.trans h.suffix

theorem skip (s : Ptr) : Consumes s [] (skip s) where
  lex := (lex_skip s).symm
  suffix := skip_suffix s

theorem token (hnul : NoNul s) {t : Tok} {ts : List Tok} (hlex : Sh.lex s = t :: ts)
    : Consumes s [t] (gettoken s).2 where
  lex := by
    rw [(gettoken_spec hnul).2, hlex]
    rfl
  suffix := gettoken_suffix hnul

theorem noNul (h : Consumes s l s') (hnul : NoNul s) : NoNul s' :=
  hnul.of_suffix h.suffix

theorem length_le (h : Consumes s l s') : l.length + (Sh.lex s').length = (Sh.lex s).length := by
  rw [h.lex, List.length_append]

end Consumes

def Cmd.Wf (s : Ptr) (cmd : Cmd) : Prop :=
  ∀ x ∈ cmd.strings, IsString s x.1 x.2

theorem Cmd.Wf.mono {cmd : Cmd} (h : cmd.Wf s') (hs : s' <:+ s) : cmd.Wf s :=
  fun x hx => (h x hx).mono hs

theorem parseredirs_sat (hnul : NoNul s) {fuel : Nat} (hfuel : (lex s).length < fuel)
    : Sat IsPanic
        (fun r => ∃ l, Consumes s l r.2 ∧ Redirs l (r.1.map Redir.read)
          ∧ ∀ x ∈ r.1, IsString s x.file x.efile)
        (parseredirs fuel s) := by
  induction fuel generalizing s with
  | zero => omega
  | succ fuel ih =>
    unfold parseredirs
    simp only [peek_snd, gettoken_skip, peek_fst hnul (u := ['<', '>']) (by decide)]
    split
    . next hpeek =>
      rcases peekTok_redir.mp hpeek with ⟨t, m, ts, hlex, ht⟩
      have htok := Consumes.token hnul hlex
      have hnul1 := htok.noNul hnul
      split
      . exact isPanic _
      . next hfile =>
        rw [not_not, (gettoken_spec hnul1).1, codeOf_eq_a] at hfile
        rcases hfile with ⟨w, ts', hlex1⟩
        have hword := Consumes.token hnul1 hlex1
        have hboth := htok.trans hword
        have hlen := hboth.length_le
        simp only [List.length_append, List.length_singleton] at hlen
        apply Sat.bind (ih (hboth.noNul hnul) (by omega))
        rintro r ⟨l, hl, hredirs, hstrings⟩
        rcases gettoken_word hnul1 hlex1 with ⟨htext, hstring⟩
        rw [(gettoken_spec hnul).1, hlex]
        simp only [codeOf, redircmd?_code ht, sat_pure, Option.toList_some, List.singleton_append]
        refine ⟨_, hboth.trans hl, ?_, ?_⟩
        . simp only [List.map_cons, Redir.read, htext]
          exact .cons ht hredirs
        . intro x hx
          rcases List.mem_cons.mp hx with rfl | hx
          . exact hstring.mono htok.suffix
          . exact (hstrings x hx).mono hboth.suffix
    . exact ⟨[], .skip s, .nil, by simp⟩

theorem wrap_wf {cmd : Cmd} {rs : List Redir} (h : cmd.Wf s) (hrs : ∀ x ∈ rs, IsString s x.file x.efile)
    : (wrap cmd rs).Wf s := by
  intro x hx
  rw [wrap_strings, List.mem_append, List.mem_map] at hx
  rcases hx with hx | ⟨r, hr, rfl⟩
  . exact h x hx
  . exact hrs r hr

structure ArgsResult (s0 s : Ptr) (argv : List (Ptr × Ptr)) (rs : List Redir) (r : Cmd × Ptr)
    (l : List Tok) (ws : List (List Char)) (rs' : List (List Char × Nat × Nat)) : Prop where
  consumes : Consumes s l r.2
  words : Words l ws rs'
  read : r.1.read
    = (Tree.exec (argv.map (fun a => text a.1 a.2) ++ ws)).wrap (rs.map Redir.read ++ rs')
  length : argv.length + ws.length ≤ MAXARGS - 1
  wf : r.1.Wf s0

theorem finishExec_sat {s0 : Ptr} {argv : List (Ptr × Ptr)} {rs : List Redir}
    (hlen : argv.length < MAXARGS) (hwf : (wrap (.exec argv) rs).Wf s0) (hs : Consumes s [] s')
    : Sat IsPanic (fun r => ∃ l ws rs', ArgsResult s0 s argv rs r l ws rs')
        (finishExec argv rs s') := by
  unfold finishExec
  rw [if_pos hlen, sat_ok]
  refine ⟨[], [], [], hs, .nil, ?_, ?_, hwf⟩
  . simp [wrap_read, Cmd.read]
  . simp only [List.length_nil]
    omega

theorem parseargs_sat {s0 : Ptr} (hnul : NoNul s) {fuel : Nat} (hfuel : (lex s).length < fuel)
    (hs0 : s <:+ s0) {argv : List (Ptr × Ptr)} {rs : List Redir} (hlen : argv.length < MAXARGS)
    (hwf : (wrap (.exec argv) rs).Wf s0)
    : Sat IsPanic (fun r => ∃ l ws rs', ArgsResult s0 s argv rs r l ws rs')
        (parseargs fuel argv rs s) := by
  induction fuel generalizing s argv rs with
  | zero => omega
  | succ fuel ih =>
    unfold parseargs
    simp only [peek_snd, gettoken_skip]
    split
    . exact finishExec_sat hlen hwf (.skip s)
    split
    . next hret =>
      rw [(gettoken_spec hnul).1, codeOf_eq_nul] at hret
      refine finishExec_sat hlen hwf ⟨?_, gettoken_suffix hnul⟩
      rw [(gettoken_spec hnul).2, hret]
      rfl
    . split
      . exact isPanic _
      . next hret =>
        rw [not_not, (gettoken_spec hnul).1, codeOf_eq_a] at hret
        rcases hret with ⟨w, ts, hlex⟩
        have htok := Consumes.token hnul hlex
        have hnul1 := htok.noNul hnul
        have hcount := htok.length_le
        rw [List.length_singleton] at hcount
        rcases gettoken_word hnul hlex with ⟨htext, hstring⟩
        unfold storeArg
        rw [if_pos hlen]
        simp only [bind, Except.bind]
        split
        . exact isPanic _
        . next hargs =>
          rw [not_le] at hargs
          refine Sat.bind (parseredirs_sat hnul1 (by omega)) ?_
          rintro r ⟨l, hl, hredirs, hstrings⟩
          have hcount' := hl.length_le
          have hwf' : (wrap (.exec (argv ++ [((gettoken s).1.q, (gettoken s).1.eq)]))
              (rs ++ r.1)).Wf s0 := by
            intro x hx
            simp only [wrap_strings, Cmd.strings, List.map_append, List.mem_append,
              List.mem_singleton] at hx
            rcases hx with (hx | rfl) | hx | hx
            . exact hwf x (by simp [wrap_strings, Cmd.strings, hx])
            . exact hstring.mono hs0
            . exact hwf x (by simp only [wrap_strings, List.mem_append]; exact .inr hx)
            . rcases List.mem_map.mp hx with ⟨y, hy, rfl⟩
              exact (hstrings y hy).mono (htok.suffix.trans hs0)
          refine (ih (hl.noNul hnul1) (by omega) (hl.suffix.trans (htok.suffix.trans hs0)) hargs
            hwf').mono (fun _ h => h) ?_
          rintro r' ⟨l', ws, rs', hr'⟩
          have hlength := hr'.length
          rw [List.length_append, List.length_singleton] at hlength
          refine ⟨[.word w] ++ (l ++ l'), w :: ws, r.1.map Redir.read ++ rs',
            htok.trans (hl.trans hr'.consumes), .cons hredirs hr'.words, ?_, ?_, hr'.wf⟩
          . rw [hr'.read]
            simp [htext]
          . simp only [List.length_cons]
            omega

theorem parseback_sat (hnul : NoNul s) {fuel : Nat} (hfuel : (lex s).length < fuel) (cmd : Cmd)
    : Sat IsPanic
        (fun r => ∃ n, Consumes s (List.replicate n .amp) r.2 ∧ r.1.read = cmd.read.backs n
          ∧ r.1.strings = cmd.strings)
        (parseback fuel cmd s) := by
  induction fuel generalizing s cmd with
  | zero => omega
  | succ fuel ih =>
    unfold parseback
    simp only [peek_snd, gettoken_skip, peek_fst hnul (u := ['&']) (by decide)]
    split
    . next hpeek =>
      rcases (peekTok_singleton (u := .amp) rfl).mp hpeek with ⟨ts, hlex⟩
      have htok := Consumes.token hnul hlex
      have hcount := htok.length_le
      rw [List.length_singleton] at hcount
      refine (ih (htok.noNul hnul) (by omega) (.back cmd)).mono (fun _ h => h) ?_
      rintro r ⟨n, hn, hread, hstrings⟩
      exact ⟨n + 1, htok.trans hn, hread, hstrings⟩
    . exact ⟨0, .skip s, rfl, rfl⟩

def Sound (R : List Tok → Tree → Prop) (s : Ptr) (r : Cmd × Ptr) : Prop :=
  ∃ l, Consumes s l r.2 ∧ R l r.1.read ∧ r.1.Wf s

theorem list_wf {a b : Cmd} (ha : a.Wf s) (hb : b.Wf s) : (Cmd.list a b).Wf s := by
  intro x hx
  rcases List.mem_append.mp hx with hx | hx
  . exact ha x hx
  . exact hb x hx

theorem pipe_wf {a b : Cmd} (ha : a.Wf s) (hb : b.Wf s) : (Cmd.pipe a b).Wf s :=
  list_wf ha hb

theorem parse_sat (fuel : Nat)
    : (∀ s, NoNul s → 4 * (lex s).length + 4 ≤ fuel → Sat IsPanic (Sound Line s) (parseline fuel s))
      ∧ (∀ s, NoNul s → 4 * (lex s).length + 3 ≤ fuel → Sat IsPanic (Sound Pipe s) (parsepipe fuel s))
      ∧ (∀ s, NoNul s → 4 * (lex s).length + 2 ≤ fuel → Sat IsPanic (Sound Exec s) (parseexec fuel s))
      ∧ ∀ s, NoNul s → 4 * (lex s).length + 1 ≤ fuel → peekTok (lex s) ['('] = true →
        Sat IsPanic (Sound Exec s) (parseblock fuel s) := by
  induction fuel with
  | zero => exact ⟨by omega, by omega, by omega, by omega⟩
  | succ fuel ih =>
    rcases ih with ⟨ihline, ihpipe, ihexec, ihblock⟩
    refine ⟨?_, ?_, ?_, ?_⟩
    . intro s hnul hfuel
      unfold parseline
      apply Sat.bind (ihpipe s hnul (by omega))
      rintro r ⟨l, hl, hpipe, hwf⟩
      have hcount := hl.length_le
      apply Sat.bind (parseback_sat (hl.noNul hnul) (by omega) r.1)
      rintro r' ⟨n, hn, hread, hstrings⟩
      have hln := hl.trans hn
      have hcount' := hln.length_le
      have hwf' : r'.1.Wf s := by
        intro x hx
        rw [hstrings] at hx
        exact hwf x hx
      simp only [peek_snd, gettoken_skip, peek_fst (hln.noNul hnul) (u := [';']) (by decide)]
      split
      . next hpeek =>
        rcases (peekTok_singleton (u := .semi) rfl).mp hpeek with ⟨ts, hlex⟩
        have htok := hln.trans (.token (hln.noNul hnul) hlex)
        have hcount'' := htok.length_le
        rw [List.length_append, List.length_singleton] at hcount''
        apply Sat.bind (ihline _ (htok.noNul hnul) (by omega))
        rintro next ⟨l', hl', hline, hwf''⟩
        refine ⟨_, htok.trans hl', ?_, list_wf hwf' (hwf''.mono htok.suffix)⟩
        simp only [Cmd.read, hread, List.append_assoc, List.singleton_append]
        rw [← List.append_assoc]
        exact .seq n hpipe hline
      . refine ⟨_, hln.trans (.skip _), ?_, hwf'⟩
        rw [List.append_nil, hread]
        exact .last n hpipe
    . intro s hnul hfuel
      unfold parsepipe
      apply Sat.bind (ihexec s hnul (by omega))
      rintro r ⟨l, hl, hexec, hwf⟩
      have hcount := hl.length_le
      simp only [peek_snd, gettoken_skip, peek_fst (hl.noNul hnul) (u := ['|']) (by decide)]
      split
      . next hpeek =>
        rcases (peekTok_singleton (u := .bar) rfl).mp hpeek with ⟨ts, hlex⟩
        have htok := hl.trans (.token (hl.noNul hnul) hlex)
        have hcount' := htok.length_le
        rw [List.length_append, List.length_singleton] at hcount'
        apply Sat.bind (ihpipe _ (htok.noNul hnul) (by omega))
        rintro next ⟨l', hl', hpipe, hwf'⟩
        refine ⟨_, htok.trans hl', ?_, pipe_wf hwf (hwf'.mono htok.suffix)⟩
        simp only [Cmd.read, List.append_assoc, List.singleton_append]
        exact .seq hexec hpipe
      . refine ⟨_, hl.trans (.skip _), ?_, hwf⟩
        rw [List.append_nil]
        exact .last hexec
    . intro s hnul hfuel
      unfold parseexec
      simp only [peek_snd, peek_fst hnul (u := ['(']) (by decide)]
      have hskip := Consumes.skip s
      have hnul1 := hskip.noNul hnul
      have hlex1 := lex_skip s
      split
      . next hpeek =>
        refine (ihblock (skip s) hnul1 (by rw [hlex1]; omega) (by rw [hlex1]; exact hpeek)).mono
          (fun _ h => h) ?_
        rintro r ⟨l, hl, hexec, hwf⟩
        exact ⟨_, hskip.trans hl, hexec, hwf.mono hskip.suffix⟩
      . apply Sat.bind (parseredirs_sat hnul1 (by rw [hlex1]; omega))
        rintro r ⟨l, hl, hredirs, hstrings⟩
        have hcount := hl.length_le
        rw [hlex1] at hcount
        have hwf : (wrap (.exec []) r.1).Wf s :=
          wrap_wf (by simp [Cmd.Wf, Cmd.strings]) fun x hx => (hstrings x hx).mono hskip.suffix
        refine (parseargs_sat (hl.noNul hnul1) (by omega) (hl.suffix.trans hskip.suffix)
          (by decide) hwf).mono (fun _ h => h) ?_
        rintro r' ⟨l', ws, rs', hr'⟩
        have hlength := hr'.length
        simp only [List.length_nil, Nat.zero_add] at hlength
        refine ⟨_, hskip.trans (hl.trans hr'.consumes), ?_, hr'.wf⟩
        rw [hr'.read, List.nil_append]
        exact .simple hredirs hr'.words hlength
    . intro s hnul hfuel hpeek
      unfold parseblock
      simp only [peek_snd, gettoken_skip, peek_fst hnul (u := ['(']) (by decide), hpeek,
        Bool.not_true, Bool.false_eq_true, if_false]
      rcases (peekTok_singleton (u := .lpar) rfl).mp hpeek with ⟨ts, hlex⟩
      have htok := Consumes.token hnul hlex
      have hcount := htok.length_le
      rw [List.length_singleton] at hcount
      apply Sat.bind (ihline _ (htok.noNul hnul) (by omega))
      rintro r ⟨l, hl, hline, hwf⟩
      have hln := htok.trans hl
      simp only [peek_fst (hln.noNul hnul) (u := [')']) (by decide)]
      split
      . exact isPanic _
      . next hclose =>
        rw [Bool.not_eq_true', Bool.not_eq_false] at hclose
        rcases (peekTok_singleton (u := .rpar) rfl).mp hclose with ⟨ts', hlex'⟩
        have hall := hln.trans (.token (hln.noNul hnul) hlex')
        have hcount' := hall.length_le
        simp only [List.length_append, List.length_singleton] at hcount'
        apply Sat.bind (parseredirs_sat (hall.noNul hnul) (by omega))
        rintro rs ⟨l', hl', hredirs, hstrings⟩
        refine ⟨_, hall.trans hl', ?_, wrap_wf (hwf.mono htok.suffix) fun x hx =>
          (hstrings x hx).mono hall.suffix⟩
        rw [wrap_read]
        simp only [List.append_assoc, List.singleton_append]
        exact .block hline hredirs

def Ends (cs : List Char) (rest : List Tok) : Prop :=
  rest = [] ∨ peekTok rest cs = true

theorem Ends.not_peek {cs u : List Char} (h : Ends cs rest) (hcs : cs.any u.contains = false)
    : peekTok rest u = false := by
  rcases h with rfl | h
  . rfl
  . cases rest with
    | nil => rfl
    | cons t ts =>
      simp only [peekTok, Option.any_eq_true, List.contains_iff_mem] at h
      rcases h with ⟨c, hc, hmem⟩
      rw [List.any_eq_false] at hcs
      simpa [peekTok, hc] using hcs c hmem

theorem Ends.mono {cs cs' : List Char} (h : Ends cs rest) (hcs : cs.all cs'.contains = true)
    : Ends cs' rest := by
  rcases h with rfl | h
  . exact .inl rfl
  . cases rest with
    | nil => exact .inl rfl
    | cons t ts =>
      simp only [peekTok, Option.any_eq_true, List.contains_iff_mem] at h
      rcases h with ⟨c, hc, hmem⟩
      rw [List.all_eq_true] at hcs
      exact .inr (by simpa [peekTok, hc] using hcs c hmem)

structure Finds (s : Ptr) (t : Tree) (rest : List Tok) (r : Cmd × Ptr) : Prop where
  read : r.1.read = t
  lex : lex r.2 = rest
  suffix : r.2 <:+ s

theorem parseredirs_complete {rs : List (List Char × Nat × Nat)} (h : Redirs l rs) (hnul : NoNul s)
    (hlex : lex s = l ++ rest) (hrest : peekTok rest ['<', '>'] = false) (fuel : Nat) (hfuel : l.length < fuel)
    : ∃ r, parseredirs fuel s = .ok r ∧ r.1.map Redir.read = rs ∧ lex r.2 = rest ∧ r.2 <:+ s := by
  induction h generalizing s fuel with
  | nil =>
    rcases Nat.exists_eq_succ_of_ne_zero (by omega : fuel ≠ 0) with ⟨fuel, rfl⟩
    unfold parseredirs
    simp only [peek_snd, peek_fst hnul (u := ['<', '>']) (by decide), hlex, List.nil_append,
      hrest, Bool.false_eq_true, if_false]
    exact ⟨_, rfl, rfl, by rw [lex_skip, hlex, List.nil_append], skip_suffix s⟩
  | cons ht h ih =>
    next t m w l rs =>
    simp only [List.length_cons] at hfuel
    rcases Nat.exists_eq_succ_of_ne_zero (by omega : fuel ≠ 0) with ⟨fuel, rfl⟩
    have hpeek : peekTok (lex s) ['<', '>'] = true := peekTok_redir.mpr ⟨t, m, _, hlex, ht⟩
    have htok := Consumes.token hnul hlex
    have hnul1 := htok.noNul hnul
    have hlex1 : lex (gettoken s).2 = .word w :: (l ++ rest) := by
      rw [(gettoken_spec hnul).2, hlex]
      rfl
    have hword := Consumes.token hnul1 hlex1
    have hlex2 : lex (gettoken (gettoken s).2).2 = l ++ rest := by
      rw [(gettoken_spec hnul1).2, hlex1]
      rfl
    rcases ih (hword.noNul hnul1) hlex2 fuel (by omega) with ⟨r, hr, hread, hrlex, hsuffix⟩
    unfold parseredirs
    simp only [peek_snd, gettoken_skip, peek_fst hnul (u := ['<', '>']) (by decide), hpeek,
      if_true]
    rw [if_neg (by
      rw [not_not, (gettoken_spec hnul1).1, codeOf_eq_a]
      exact ⟨w, _, hlex1⟩), hr]
    refine ⟨_, rfl, ?_, hrlex, hsuffix.trans (hword.suffix.trans htok.suffix)⟩
    rw [(gettoken_spec hnul).1, hlex]
    simp [codeOf, redircmd?_code ht, Redir.read, (gettoken_word hnul1 hlex1).1, hread]

theorem Words.not_redir {ws : List (List Char)} {rs : List (List Char × Nat × Nat)}
    (h : Words l ws rs) (hrest : Ends ['|', ')', '&', ';'] rest)
    : peekTok (l ++ rest) ['<', '>'] = false := by
  cases h with
  | nil => exact hrest.not_peek (by decide)
  | cons _ _ => rfl

theorem parseargs_complete {ws : List (List Char)} {rs' : List (List Char × Nat × Nat)}
    (h : Words l ws rs') (hnul : NoNul s) (hlex : lex s = l ++ rest)
    (hrest : Ends ['|', ')', '&', ';'] rest) (fuel : Nat) (hfuel : l.length < fuel)
    (argv : List (Ptr × Ptr)) (rs : List Redir) (hlen : argv.length + ws.length ≤ MAXARGS - 1)
    : ∃ r, parseargs fuel argv rs s = .ok r ∧ Finds s
        ((Tree.exec (argv.map (fun a => text a.1 a.2) ++ ws)).wrap (rs.map Redir.read ++ rs')) rest
        r := by
  induction h generalizing s fuel argv rs with
  | nil =>
    rcases Nat.exists_eq_succ_of_ne_zero (by omega : fuel ≠ 0) with ⟨fuel, rfl⟩
    have hmax : argv.length < MAXARGS := by
      have : MAXARGS = 10 := rfl
      simp only [List.length_nil] at hlen
      omega
    rw [List.nil_append] at hlex
    unfold parseargs
    simp only [peek_snd, gettoken_skip, peek_fst hnul (u := ['|', ')', '&', ';']) (by decide),
      finishExec, if_pos hmax]
    have hread : (wrap (.exec argv) rs).read
        = (Tree.exec (argv.map (fun a => text a.1 a.2) ++ [])).wrap (rs.map Redir.read ++ []) := by
      simp [wrap_read, Cmd.read]
    rcases hrest with rfl | hpeek
    . have hret : (gettoken s).1.ret = '\x00' := by
        rw [(gettoken_spec hnul).1, hlex]
        rfl
      simp only [hlex, peekTok, Bool.false_eq_true, if_false, hret, if_true]
      refine ⟨_, rfl, hread, ?_, gettoken_suffix hnul⟩
      rw [(gettoken_spec hnul).2, hlex]
      rfl
    . rw [hlex, if_pos hpeek]
      exact ⟨_, rfl, hread, by rw [lex_skip, hlex], skip_suffix s⟩
  | cons hr h ih =>
    next w r l rs0 rs1 ws =>
    simp only [List.cons_append, List.length_cons, List.length_append] at hfuel
    simp only [List.length_cons] at hlen
    rcases Nat.exists_eq_succ_of_ne_zero (by omega : fuel ≠ 0) with ⟨fuel, rfl⟩
    rw [List.cons_append, List.cons_append, List.append_assoc] at hlex
    have htok := Consumes.token hnul hlex
    have hnul1 := htok.noNul hnul
    have hlex1 : lex (gettoken s).2 = r ++ (l ++ rest) := by
      rw [(gettoken_spec hnul).2, hlex]
      rfl
    rcases parseredirs_complete hr hnul1 hlex1 (h.not_redir hrest) fuel (by omega)
      with ⟨r1, hr1, hread1, hlex2, hsuffix⟩
    have hret : (gettoken s).1.ret = 'a' := by
      rw [(gettoken_spec hnul).1, hlex]
      rfl
    have hmax : argv.length < MAXARGS := by omega
    rcases ih (hnul1.of_suffix hsuffix) hlex2 fuel (by omega)
      (argv ++ [((gettoken s).1.q, (gettoken s).1.eq)]) (rs ++ r1.1)
      (by rw [List.length_append, List.length_singleton]; omega) with ⟨r2, hr2, hfinds⟩
    unfold parseargs
    simp only [peek_snd, gettoken_skip, peek_fst hnul (u := ['|', ')', '&', ';']) (by decide),
      hret, storeArg, if_pos hmax, bind, Except.bind]
    rw [if_neg (by rw [hlex]; exact Bool.false_ne_true), if_neg (by decide), if_neg (by decide), if_neg (by
      rw [List.length_append, List.length_singleton]
      omega), hr1]
    refine ⟨r2, hr2, ?_, hfinds.lex, hfinds.suffix.trans (hsuffix.trans htok.suffix)⟩
    rw [hfinds.read]
    simp [(gettoken_word hnul hlex).1, hread1]

theorem parseback_complete (n : Nat) (hnul : NoNul s) (hlex : lex s = List.replicate n .amp ++ rest)
    (hrest : peekTok rest ['&'] = false) (fuel : Nat) (hfuel : n < fuel) (cmd : Cmd)
    : ∃ r, parseback fuel cmd s = .ok r ∧ Finds s (cmd.read.backs n) rest r := by
  induction n generalizing s fuel cmd with
  | zero =>
    rcases Nat.exists_eq_succ_of_ne_zero (by omega : fuel ≠ 0) with ⟨fuel, rfl⟩
    rw [List.replicate_zero, List.nil_append] at hlex
    unfold parseback
    simp only [peek_snd, peek_fst hnul (u := ['&']) (by decide), hlex, hrest,
      Bool.false_eq_true, if_false]
    exact ⟨_, rfl, rfl, by rw [lex_skip, hlex], skip_suffix s⟩
  | succ n ih =>
    rcases Nat.exists_eq_succ_of_ne_zero (by omega : fuel ≠ 0) with ⟨fuel, rfl⟩
    rw [List.replicate_succ, List.cons_append] at hlex
    have htok := Consumes.token hnul hlex
    have hlex1 : lex (gettoken s).2 = List.replicate n .amp ++ rest := by
      rw [(gettoken_spec hnul).2, hlex]
      rfl
    rcases ih (htok.noNul hnul) hlex1 fuel (by omega) (.back cmd) with ⟨r, hr, hfinds⟩
    unfold parseback
    simp only [peek_snd, gettoken_skip, peek_fst hnul (u := ['&']) (by decide)]
    rw [if_pos (by rw [hlex]; rfl)]
    exact ⟨r, hr, hfinds.read, hfinds.lex, hfinds.suffix.trans htok.suffix⟩

theorem peekTok_of_redir {t : Tok} {m : Nat × Nat} (ht : t.redir? = some m) (ts : List Tok)
    : peekTok (t :: ts) ['('] = false := by
  cases t with
  | lt | gt | app => rfl
  | _ => cases ht

theorem ends_amps {cs : List Char} (hcs : '&' ∈ cs) (n : Nat) (hrest : Ends cs rest)
    : Ends cs (List.replicate n .amp ++ rest) := by
  cases n with
  | zero => exact hrest
  | succ n => exact .inr (by simpa [List.replicate_succ, peekTok, Tok.first] using hcs)

theorem parse_complete (fuel : Nat)
    : (∀ l t rest s, Line l t → NoNul s → lex s = l ++ rest → Ends [')'] rest →
        4 * l.length + 4 ≤ fuel → ∃ r, parseline fuel s = .ok r ∧ Finds s t rest r)
      ∧ (∀ l t rest s, Pipe l t → NoNul s → lex s = l ++ rest → Ends [')', '&', ';'] rest →
        4 * l.length + 3 ≤ fuel → ∃ r, parsepipe fuel s = .ok r ∧ Finds s t rest r)
      ∧ (∀ l t rest s, Exec l t → NoNul s → lex s = l ++ rest → Ends ['|', ')', '&', ';'] rest →
        4 * l.length + 2 ≤ fuel → ∃ r, parseexec fuel s = .ok r ∧ Finds s t rest r)
      ∧ ∀ l t r rs rest s, Line l t → Redirs r rs → NoNul s →
        lex s = .lpar :: (l ++ .rpar :: (r ++ rest)) → Ends ['|', ')', '&', ';'] rest →
        4 * (l.length + r.length) + 9 ≤ fuel → ∃ r, parseblock fuel s = .ok r ∧ Finds s (t.wrap rs) rest r := by
  induction fuel with
  | zero => exact ⟨by omega, by omega, by omega, by omega⟩
  | succ fuel ih =>
    rcases ih with ⟨ihline, ihpipe, ihexec, ihblock⟩
    refine ⟨?_, ?_, ?_, ?_⟩
    . intro l t rest s hline hnul hlex hrest hfuel
      cases hline with
      | last n h =>
        next l t =>
        rw [List.length_append, List.length_replicate] at hfuel
        rw [List.append_assoc] at hlex
        have hends : Ends [')', '&', ';'] (List.replicate n .amp ++ rest) :=
          ends_amps (by decide) n (hrest.mono (by decide))
        rcases ihpipe l t _ s h hnul hlex hends (by omega) with ⟨r, hr, hfinds⟩
        have hnul1 := hnul.of_suffix hfinds.suffix
        rcases parseback_complete n hnul1 hfinds.lex (hrest.not_peek (by decide)) fuel
          (by omega) r.1 with ⟨r', hr', hfinds'⟩
        have hnul2 := hnul1.of_suffix hfinds'.suffix
        unfold parseline
        rw [hr]
        simp only [bind, Except.bind, hr', peek_snd,
          peek_fst hnul2 (u := [';']) (by decide), hfinds'.lex,
          hrest.not_peek (u := [';']) (by decide), Bool.false_eq_true, if_false]
        refine ⟨_, rfl, ?_, ?_, (skip_suffix _).trans (hfinds'.suffix.trans hfinds.suffix)⟩
        . rw [hfinds'.read, hfinds.read]
        . rw [lex_skip, hfinds'.lex]
      | seq n h hr =>
        next l r t u =>
        simp only [List.length_append, List.length_replicate, List.length_cons] at hfuel
        rw [List.append_assoc, List.append_assoc, List.cons_append] at hlex
        have hsemi : Ends [')', '&', ';'] (.semi :: (r ++ rest)) := .inr rfl
        rcases ihpipe l t _ s h hnul hlex (ends_amps (by decide) n hsemi) (by omega)
          with ⟨r1, hr1, hfinds⟩
        have hnul1 := hnul.of_suffix hfinds.suffix
        rcases parseback_complete n hnul1 hfinds.lex rfl fuel (by omega) r1.1
          with ⟨r2, hr2, hfinds2⟩
        have hnul2 := hnul1.of_suffix hfinds2.suffix
        have htok := Consumes.token hnul2 hfinds2.lex
        have hlex3 : lex (gettoken r2.2).2 = r ++ rest := by
          rw [(gettoken_spec hnul2).2, hfinds2.lex]
          rfl
        rcases ihline r u rest _ hr (htok.noNul hnul2) hlex3 hrest (by omega)
          with ⟨r3, hr3, hfinds3⟩
        unfold parseline
        rw [hr1]
        simp only [bind, Except.bind, hr2, peek_snd, gettoken_skip,
          peek_fst hnul2 (u := [';']) (by decide), hfinds2.lex]
        rw [if_pos (show peekTok (.semi :: (r ++ rest)) [';'] = true from rfl), hr3]
        refine ⟨_, rfl, ?_, hfinds3.lex, hfinds3.suffix.trans
          (htok.suffix.trans (hfinds2.suffix.trans hfinds.suffix))⟩
        simp only [Cmd.read, hfinds2.read, hfinds.read, hfinds3.read]
    . intro l t rest s hpipe hnul hlex hrest hfuel
      cases hpipe with
      | last h =>
        rcases ihexec l t rest s h hnul hlex (hrest.mono (by decide)) (by omega)
          with ⟨r, hr, hfinds⟩
        have hnul1 := hnul.of_suffix hfinds.suffix
        unfold parsepipe
        rw [hr]
        simp only [bind, Except.bind, peek_snd, peek_fst hnul1 (u := ['|']) (by decide),
          hfinds.lex, hrest.not_peek (u := ['|']) (by decide), Bool.false_eq_true, if_false]
        refine ⟨_, rfl, hfinds.read, ?_, (skip_suffix _).trans hfinds.suffix⟩
        rw [lex_skip, hfinds.lex]
      | seq h hr =>
        next l r t u =>
        simp only [List.length_append, List.length_cons] at hfuel
        rw [List.append_assoc, List.cons_append] at hlex
        rcases ihexec l t _ s h hnul hlex (.inr rfl) (by omega) with ⟨r1, hr1, hfinds⟩
        have hnul1 := hnul.of_suffix hfinds.suffix
        have htok := Consumes.token hnul1 hfinds.lex
        have hlex2 : lex (gettoken r1.2).2 = r ++ rest := by
          rw [(gettoken_spec hnul1).2, hfinds.lex]
          rfl
        rcases ihpipe r u rest _ hr (htok.noNul hnul1) hlex2 hrest (by omega)
          with ⟨r2, hr2, hfinds2⟩
        unfold parsepipe
        rw [hr1]
        simp only [bind, Except.bind, peek_snd, gettoken_skip,
          peek_fst hnul1 (u := ['|']) (by decide), hfinds.lex]
        rw [if_pos (show peekTok (.bar :: (r ++ rest)) ['|'] = true from rfl), hr2]
        refine ⟨_, rfl, ?_, hfinds2.lex, hfinds2.suffix.trans (htok.suffix.trans hfinds.suffix)⟩
        simp only [Cmd.read, hfinds.read, hfinds2.read]
    . intro l t rest s hexec hnul hlex hrest hfuel
      have hnul1 := hnul.of_suffix (skip_suffix s)
      cases hexec with
      | block h hr =>
        next l r t rs =>
        simp only [List.cons_append, List.length_cons, List.length_append] at hfuel
        rw [List.cons_append, List.cons_append, List.append_assoc, List.cons_append] at hlex
        rcases ihblock l t r rs rest (skip s) h hr hnul1 (by rw [lex_skip, hlex]) hrest (by omega)
          with ⟨r', hr', hfinds⟩
        unfold parseexec
        simp only [peek_snd, peek_fst hnul (u := ['(']) (by decide)]
        rw [if_pos (by rw [hlex]; rfl), hr']
        exact ⟨r', rfl, hfinds.read, hfinds.lex, hfinds.suffix.trans (skip_suffix s)⟩
      | simple hr h hlen =>
        next r l rs rs' ws =>
        rw [List.length_append] at hfuel
        rw [List.append_assoc] at hlex
        have hblock : peekTok (lex s) ['('] = false := by
          rw [hlex]
          cases hr with
          | nil =>
            cases h with
            | nil => exact hrest.not_peek (by decide)
            | cons _ _ => rfl
          | cons ht _ => exact peekTok_of_redir ht _
        rcases parseredirs_complete hr hnul1 (by rw [lex_skip, hlex]) (h.not_redir hrest)
          fuel (by omega) with ⟨r1, hr1, hread1, hlex1, hsuffix⟩
        rcases parseargs_complete h (hnul1.of_suffix hsuffix) hlex1 hrest fuel (by omega)
          [] r1.1 (by simpa using hlen) with ⟨r2, hr2, hfinds⟩
        unfold parseexec
        simp only [peek_snd, peek_fst hnul (u := ['(']) (by decide), hblock, Bool.false_eq_true,
          if_false, hr1, bind, Except.bind]
        refine ⟨r2, hr2, ?_, hfinds.lex, hfinds.suffix.trans (hsuffix.trans (skip_suffix s))⟩
        rw [hfinds.read, hread1]
        rfl
    . intro l t r rs rest s hline hr hnul hlex hrest hfuel
      have htok := Consumes.token hnul hlex
      have hnul1 := htok.noNul hnul
      have hlex1 : lex (gettoken s).2 = l ++ .rpar :: (r ++ rest) := by
        rw [(gettoken_spec hnul).2, hlex]
        rfl
      rcases ihline l t _ _ hline hnul1 hlex1 (.inr rfl) (by omega) with ⟨r1, hr1, hfinds⟩
      have hnul2 := hnul1.of_suffix hfinds.suffix
      have htok2 := Consumes.token hnul2 hfinds.lex
      have hlex3 : lex (gettoken r1.2).2 = r ++ rest := by
        rw [(gettoken_spec hnul2).2, hfinds.lex]
        rfl
      rcases parseredirs_complete hr (htok2.noNul hnul2) hlex3 (hrest.not_peek (by decide))
        fuel (by omega) with ⟨r2, hr2, hread2, hlex4, hsuffix⟩
      unfold parseblock
      simp only [peek_snd, gettoken_skip, peek_fst hnul (u := ['(']) (by decide)]
      rw [if_neg (by rw [hlex]; exact Bool.false_ne_true), hr1]
      simp only [bind, Except.bind, peek_fst hnul2 (u := [')']) (by decide)]
      rw [if_neg (by rw [hfinds.lex]; exact Bool.false_ne_true), hr2]
      refine ⟨_, rfl, ?_, hlex4, hsuffix.trans
        (htok2.suffix.trans (hfinds.suffix.trans htok.suffix))⟩
      rw [wrap_read, hfinds.read, hread2]

theorem length_lex_le (s : List Char) : (lex s).length ≤ s.length := by
  induction s using lex.induct with
  | case1 => simp [lex]
  | case2 c s hws ih =>
    unfold lex
    rw [if_pos hws, List.length_cons]
    omega
  | case3 s hnext hws ih =>
    unfold lex
    rw [if_neg hws, if_pos rfl, if_pos hnext]
    rw [List.length_tail] at ih
    simp only [List.length_cons]
    omega
  | case4 s hnext hws ih =>
    unfold lex
    rw [if_neg hws, if_pos rfl, if_neg hnext]
    simp only [List.length_cons]
    omega
  | case5 c s hws hgt t ht ih =>
    unfold lex
    rw [if_neg hws, if_neg hgt, ht]
    simp only [List.length_cons]
    omega
  | case6 c s hws hgt ht ih =>
    have hle := (List.dropWhile_suffix isWord (l := s)).length_le
    unfold lex
    rw [if_neg hws, if_neg hgt, ht]
    simp only [List.length_cons]
    omega

theorem getElem?_offset {str p : List Char} (h : p <:+ str) (j : Nat)
    : str[offset str p + j]? = p[j]? := by
  rcases h with ⟨pre, rfl⟩
  have hoff : offset (pre ++ p) p = pre.length := by
    simp [offset]
  rw [hoff, List.getElem?_append_right (by omega)]
  congr 1
  omega

theorem nulterminate_apply (str : List Char) (cmd : Cmd) (mem : Mem) (i : Nat)
    : nulterminate str cmd mem i
        = if (cmd.strings.any fun x => i = offset str x.2) = true then '\x00' else mem i := by
  induction cmd generalizing mem with
  | exec argv =>
    unfold nulterminate Cmd.strings
    induction argv generalizing mem with
    | nil => simp
    | cons a argv ih =>
      rw [List.foldl_cons, ih]
      simp only [clear, List.any_cons, Bool.or_eq_true, decide_eq_true_eq]
      grind
  | redir cmd r ih =>
    simp only [nulterminate, clear, ih, Cmd.strings, List.any_append, List.any_cons, List.any_nil,
      Bool.or_false, Bool.or_eq_true, decide_eq_true_eq]
    grind
  | pipe a b iha ihb | list a b iha ihb =>
    simp only [nulterminate, iha, ihb, Cmd.strings, List.any_append, Bool.or_eq_true]
    grind
  | back cmd ih => exact ih mem

theorem reads_of_wf {str : List Char} (hnul : NoNul str) {cmd : Cmd} (hwf : cmd.Wf str)
    (behind : Mem) {x : Ptr × Ptr} (hx : x ∈ cmd.strings)
    : Reads (nulterminate str cmd (load str behind)) (offset str x.1) (text x.1 x.2) := by
  rcases hwf x hx with ⟨w, hne, hw, hq, hsuffix, _⟩
  have htext : text x.1 x.2 = w := by
    rw [hq, text_append]
  have hlen : x.1.length ≤ str.length := hsuffix.length_le
  have hlenq : x.1.length = w.length + x.2.length := by
    rw [hq, List.length_append]
  rw [htext]
  constructor
  . intro j hj
    have hchar : str[offset str x.1 + j]? = some w[j] := by
      rw [getElem?_offset hsuffix, hq, List.getElem?_append_left hj, List.getElem?_eq_getElem hj]
    have hlt := (List.getElem?_eq_some_iff.mp hchar).1
    -- A character of a word is not at the end of another one.
    have hnot : ¬(cmd.strings.any fun y => offset str x.1 + j = offset str y.2) = true := by
      simp only [List.any_eq_true, decide_eq_true_eq, not_exists, not_and]
      intro y hy heq
      rcases hwf y hy with ⟨w', _, _, hq', hsuffix', hend⟩
      have hsuffix2 : y.2 <:+ str := (hq' ▸ List.suffix_append w' y.2).trans hsuffix'
      have hget := getElem?_offset hsuffix2 0
      rw [Nat.add_zero, ← heq, hchar, ← List.head?_eq_getElem?] at hget
      have hfalse := hend w[j] hget.symm
      rw [hw _ (List.getElem_mem hj)] at hfalse
      cases hfalse
    constructor
    . rw [nulterminate_apply, if_neg hnot, load, if_pos hlt, List.getD_eq_getElem?_getD, hchar]
      rfl
    . intro heq
      exact hnul (heq ▸ List.mem_of_getElem? hchar)
  . have hoff : offset str x.1 + w.length = offset str x.2 := by
      unfold offset
      omega
    rw [nulterminate_apply, if_pos]
    simp only [List.any_eq_true, decide_eq_true_eq]
    exact ⟨x, hx, hoff⟩

/--
`parsecmd` returns the tree of the derivation when the tokens of its input are a command line of the
grammar, and reports an error otherwise. The strings of the tree are the words of the input.
-/
theorem parsecmd_exact {str : List Char} (hnul : NoNul str) (behind : Mem)
    : (∀ t, Line (lex str) t ↔ ∃ cmd mem, parsecmd str behind = .ok (cmd, mem) ∧ cmd.read = t)
        ∧ ((∀ t, ¬Line (lex str) t) → ∃ m, parsecmd str behind = .error (.panic m))
        ∧ ∀ cmd mem, parsecmd str behind = .ok (cmd, mem) → ∀ x ∈ cmd.strings,
            Reads mem (offset str x.1) (text x.1 x.2) := by
  have hlen := length_lex_le str
  have hsat := (parse_sat (4 * str.length + 4)).1 str hnul (by omega)
  -- What is known of a result.
  have hsound : ∀ cmd mem, parsecmd str behind = .ok (cmd, mem) →
      Line (lex str) cmd.read ∧ cmd.Wf str ∧ mem = nulterminate str cmd (load str behind) := by
    intro cmd mem h
    unfold parsecmd at h
    rcases bind_eq_ok.mp h with ⟨r, hr, h⟩
    dsimp only at h
    split at h
    . cases h
    . next hend =>
      cases h
      rcases Sat.of_ok hsat hr with ⟨l, hl, hline, hwf⟩
      rw [not_not, peek_snd, ← lex_eq_nil_iff] at hend
      rw [hl.lex, hend, List.append_nil]
      exact ⟨hline, hwf, rfl⟩
  refine ⟨?_, ?_, ?_⟩
  . intro t
    constructor
    . intro hline
      rcases (parse_complete (4 * str.length + 4)).1 (lex str) t [] str hline hnul (by simp)
        (.inl rfl) (by omega) with ⟨r, hr, hfinds⟩
      refine ⟨r.1, nulterminate str r.1 (load str behind), ?_, hfinds.read⟩
      unfold parsecmd
      rw [hr]
      simp [bind, Except.bind, peek_snd, lex_eq_nil_iff.mp hfinds.lex, pure, Except.pure]
    . rintro ⟨cmd, mem, hcmd, rfl⟩
      exact (hsound cmd mem hcmd).1
  . intro hnone
    cases hcmd : parsecmd str behind with
    | ok r => exact absurd (hsound r.1 r.2 hcmd).1 (hnone _)
    | error e =>
      unfold parsecmd at hcmd
      cases hr : parseline (4 * str.length + 4) str with
      | error e' =>
        rw [hr] at hcmd
        cases hcmd
        rcases Sat.of_error hsat hr with ⟨m, rfl⟩
        exact ⟨m, rfl⟩
      | ok r =>
        rw [hr] at hcmd
        simp only [bind, Except.bind] at hcmd
        split at hcmd
        . cases hcmd
          exact ⟨_, rfl⟩
        . cases hcmd
  . intro cmd mem hcmd x hx
    rcases hsound cmd mem hcmd with ⟨_, hwf, rfl⟩
    exact reads_of_wf hnul hwf behind hx

theorem parsecmd_of_redirection
    : Line (lex ['a', '>', 'b', '&']) (.back (.redir (.exec [['a']]) ['b'] (O_WRONLY ||| O_CREATE) 1)) := by
  have hnul : NoNul ['a', '>', 'b', '&'] := by
    unfold NoNul
    decide
  have hrun : ((parsecmd ['a', '>', 'b', '&'] fun _ => ' ').toOption.map fun r => r.1.read)
      = some (.back (.redir (.exec [['a']]) ['b'] (O_WRONLY ||| O_CREATE) 1)) := by
    decide +kernel
  rw [(parsecmd_exact hnul fun _ => ' ').1]
  cases hcmd : parsecmd ['a', '>', 'b', '&'] fun _ => ' ' with
  | error e =>
    rw [hcmd] at hrun
    cases hrun
  | ok r =>
    rw [hcmd] at hrun
    exact ⟨r.1, r.2, rfl, Option.some.inj hrun⟩

end Sh
end Xv6
