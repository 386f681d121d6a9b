import Xv6.Grep.Match

/-!
The loop of `grep` over its input, and what it writes when the input comes in chunks.
Of the buffer the model keeps the first `m` bytes; the byte behind them is 0.
-/

namespace Xv6
namespace Grep

variable {chunks : List (List UInt8)}

abbrev newline : UInt8 := 10

abbrev BUFSIZE : Nat := 1024

def strchr (s : List UInt8) (c : UInt8) : Option Nat :=
  match s with
  | [] => none
  | b :: s => if b = 0 then none else if b = c then some 0 else (strchr s c).map (· + 1)

theorem strchr_eq_some {s : List UInt8} {c : UInt8} {q : Nat} (h : strchr s c = some q)
    : ∃ line rest, s = line ++ c :: rest ∧ line.length = q ∧ c ∉ line := by
  induction s generalizing q with
  | nil => cases h
  | cons b s ih =>
    unfold strchr at h
    split at h
    . cases h
    split at h
    . next hb =>
      cases h
      exact ⟨[], s, by rw [hb]; rfl, rfl, List.not_mem_nil⟩
    . next hb =>
      rcases Option.map_eq_some_iff.mp h with ⟨q', hq', rfl⟩
      rcases ih hq' with ⟨line, rest, rfl, hlen, hnot⟩
      refine ⟨b :: line, rest, rfl, by rw [List.length_cons, hlen], ?_⟩
      rw [List.mem_cons, not_or]
      exact ⟨Ne.symm hb, hnot⟩

theorem strchr_eq_none {s : List UInt8} {c : UInt8} (h : strchr s c = none) (hnul : 0 ∉ s) : c ∉ s := by
  induction s with
  | nil => exact List.not_mem_nil
  | cons b s ih =>
    rw [List.mem_cons, not_or] at hnul ⊢
    unfold strchr at h
    rw [if_neg (Ne.symm hnul.1)] at h
    split at h
    . cases h
    . next hb => exact ⟨Ne.symm hb, ih (Option.map_eq_none_iff.mp h) hnul.2⟩

def scanLoop (pattern : List UInt8) (fuel : Nat) (p : List UInt8) : List UInt8 × List UInt8 :=
  match fuel with
  | 0 => ([], p)
  | fuel + 1 =>
    match strchr p newline with
    | none => ([], p)
    | some q =>
      let r := scanLoop pattern fuel (p.drop (q + 1))
      (if matchRe pattern (p.take q) then p.take (q + 1) ++ r.1 else r.1, r.2)

def scan (pattern p : List UInt8) : List UInt8 × List UInt8 :=
  scanLoop pattern p.length p

/--
`grep`, when `read` gives the chunks one after the other and then 0, with `buf` as the last round has left
it. There is no result if `read` cannot give a chunk, which is empty or longer than what is asked for.
-/
def grepLoop (pattern buf : List UInt8) (chunks : List (List UInt8)) : Option (List UInt8) :=
  match chunks with
  | [] => some []
  | chunk :: chunks =>
    if chunk = [] ∨ BUFSIZE - buf.length - 1 < chunk.length then
      none
    else
      let buf := buf ++ chunk
      let (out, p) := scan pattern buf
      -- if(p == buf) m = 0;
      let buf := if p.length = buf.length then [] else p
      (grepLoop pattern buf chunks).map (out ++ ·)

def grep (pattern : List UInt8) (chunks : List (List UInt8)) : Option (List UInt8) :=
  grepLoop pattern [] chunks

def wanted (pattern stream : List UInt8) : List UInt8 :=
  (((stream.splitOnP (· = newline)).dropLast).filter (matchRe pattern)).flatMap (· ++ [newline])

variable {pattern buf line rest p : List UInt8}

theorem wanted_cons (h : newline ∉ line) (pattern rest : List UInt8)
    : wanted pattern (line ++ newline :: rest)
      = (if matchRe pattern line then line ++ [newline] else []) ++ wanted pattern rest := by
  have hline : ∀ b ∈ line, decide (b = newline) = false := by
    intro b hb
    rw [decide_eq_false_iff_not]
    rintro rfl
    exact h hb
  unfold wanted
  rw [List.splitOnP_append_cons_of_forall_mem hline newline (by simp),
    List.dropLast_cons_of_ne_nil (List.splitOnP_ne_nil _ _), List.filter_cons]
  split
  . rw [List.flatMap_cons]
  . rw [List.nil_append]

theorem wanted_of_not_mem (h : newline ∉ rest) (pattern : List UInt8) : wanted pattern rest = [] := by
  have hrest : ∀ b ∈ rest, decide (b = newline) = false := by
    intro b hb
    rw [decide_eq_false_iff_not]
    rintro rfl
    exact h hb
  unfold wanted
  rw [List.splitOnP_eq_singleton hrest]
  rfl

theorem scanLoop_spec {fuel : Nat} (hfuel : p.length ≤ fuel) (hnul : 0 ∉ p) (pattern more : List UInt8)
    : wanted pattern (p ++ more)
        = (scanLoop pattern fuel p).1 ++ wanted pattern ((scanLoop pattern fuel p).2 ++ more)
      ∧ newline ∉ (scanLoop pattern fuel p).2 ∧ 0 ∉ (scanLoop pattern fuel p).2
      ∧ (scanLoop pattern fuel p).2.length ≤ p.length
      ∧ ((scanLoop pattern fuel p).2.length = p.length ↔ newline ∉ p) := by
  induction fuel generalizing p with
  | zero =>
    rw [List.length_eq_zero_iff.mp (Nat.le_zero.mp hfuel)]
    exact ⟨rfl, List.not_mem_nil, List.not_mem_nil, Nat.le_refl _, iff_of_true rfl List.not_mem_nil⟩
  | succ fuel ih =>
    unfold scanLoop
    cases hfind : strchr p newline with
    | none =>
      have hnot := strchr_eq_none hfind hnul
      exact ⟨rfl, hnot, hnul, Nat.le_refl _, iff_of_true rfl hnot⟩
    | some q =>
      rcases strchr_eq_some hfind with ⟨line, rest, rfl, rfl, hline⟩
      have hrest : 0 ∉ rest := fun h => hnul (List.mem_append_right _ (List.mem_cons_of_mem _ h))
      have htake : (line ++ newline :: rest).take (line.length + 1) = line ++ [newline] := by
        rw [List.take_length_add_append]
        rfl
      have hdrop : (line ++ newline :: rest).drop (line.length + 1) = rest := by
        rw [List.drop_length_add_append]
        rfl
      rw [List.length_append, List.length_cons] at hfuel
      rcases ih (by omega) hrest with ⟨hwanted, hnewline, hzero, hle, -⟩
      dsimp only
      rw [htake, hdrop, List.take_left, List.length_append, List.length_cons]
      refine ⟨?_, hnewline, hzero, by omega, ?_⟩
      . rw [List.append_assoc, List.cons_append, wanted_cons hline, hwanted]
        split
        . exact (List.append_assoc ..).symm
        . rfl
      . refine iff_of_false (by omega) ?_
        intro h
        exact h (List.mem_append_right _ List.mem_cons_self)

theorem scan_spec (hnul : 0 ∉ p) (pattern more : List UInt8)
    : wanted pattern (p ++ more) = (scan pattern p).1 ++ wanted pattern ((scan pattern p).2 ++ more)
      ∧ newline ∉ (scan pattern p).2 ∧ 0 ∉ (scan pattern p).2 ∧ (scan pattern p).2.length ≤ p.length
      ∧ ((scan pattern p).2.length = p.length ↔ newline ∉ p) :=
  scanLoop_spec (Nat.le_refl _) hnul pattern more

def Whole (chunks : List (List UInt8)) : Prop :=
  ∀ pre chunk post, chunks = pre ++ chunk :: post → newline ∈ chunk ∨ newline ∉ post.flatten

theorem grepLoop_eq {out : List UInt8} (hnul : 0 ∉ buf ++ chunks.flatten)
    (hbuf : newline ∉ buf) (hwhole : Whole chunks) (h : grepLoop pattern buf chunks = some out)
    : out = wanted pattern (buf ++ chunks.flatten) := by
  induction chunks generalizing buf out with
  | nil =>
    cases h
    rw [List.flatten_nil, List.append_nil, wanted_of_not_mem hbuf]
  | cons chunk chunks ih =>
    rw [List.flatten_cons, ← List.append_assoc] at hnul ⊢
    have hnul1 : 0 ∉ buf ++ chunk := fun h => hnul (List.mem_append_left _ h)
    have hnul2 : 0 ∉ chunks.flatten := fun h => hnul (List.mem_append_right _ h)
    have htail : Whole chunks := by
      intro pre c post heq
      exact hwhole (chunk :: pre) c post (by rw [heq]; rfl)
    rcases scan_spec hnul1 pattern chunks.flatten with ⟨hwanted, hnewline, hzero, -, hlen⟩
    unfold grepLoop at h
    split at h
    . cases h
    dsimp only at h
    rcases Option.map_eq_some_iff.mp h with ⟨out', hloop, rfl⟩
    by_cases hsame : (scan pattern (buf ++ chunk)).2.length = (buf ++ chunk).length
    . -- No newline came: what is in the buffer is thrown away, and it was not needed.
      have hnot := hlen.mp hsame
      have hchunk : newline ∉ chunk := fun h => hnot (List.mem_append_right _ h)
      have hnone := (hwhole [] chunk chunks rfl).resolve_left hchunk
      rw [if_pos hsame] at hloop
      have hout' := ih (by rw [List.nil_append]; exact hnul2) List.not_mem_nil htail hloop
      rw [List.nil_append, wanted_of_not_mem hnone] at hout'
      rw [hout', hwanted, wanted_of_not_mem]
      rw [List.mem_append, not_or]
      exact ⟨hnewline, hnone⟩
    . rw [if_neg hsame] at hloop
      have hnul' : 0 ∉ (scan pattern (buf ++ chunk)).2 ++ chunks.flatten := by
        rw [List.mem_append, not_or]
        exact ⟨hzero, hnul2⟩
      rw [hwanted, ih hnul' hnewline htail hloop]

theorem matchRe_nil (text : List UInt8) : matchRe [] text = true := by
  unfold matchRe matchAny
  simp [matchhere]

theorem wanted_nil_append (h : newline ∉ buf) (hrest : newline ∈ rest)
    : wanted [] (buf ++ rest) = buf ++ wanted [] rest := by
  obtain ⟨line, rest, rfl, hline⟩ := List.eq_append_cons_of_mem hrest
  have hnot : newline ∉ buf ++ line := by
    rw [List.mem_append, not_or]
    exact ⟨h, hline⟩
  rw [← List.append_assoc, wanted_cons hnot, wanted_cons hline, matchRe_nil, matchRe_nil]
  simp only [if_true, List.append_assoc]

theorem whole_cons {chunk : List UInt8}
    (h : newline ∈ chunk ∨ newline ∉ chunks.flatten) (hwhole : Whole chunks)
    : Whole (chunk :: chunks) := by
  rintro (_ | ⟨c, pre⟩) chunk' post heq
  . cases heq
    exact h
  . cases heq
    exact hwhole pre chunk' post rfl

/-- With a pattern that takes all lines, a chunk that is thrown away is missing in the output. -/
theorem whole_of_grepLoop {out : List UInt8} (hnul : 0 ∉ buf ++ chunks.flatten)
    (hbuf : newline ∉ buf) (h : grepLoop [] buf chunks = some out)
    : out.length ≤ (wanted [] (buf ++ chunks.flatten)).length
      ∧ (out.length = (wanted [] (buf ++ chunks.flatten)).length → Whole chunks) := by
  induction chunks generalizing buf out with
  | nil =>
    cases h
    refine ⟨Nat.zero_le _, fun _ pre chunk post heq => ?_⟩
    simp at heq
  | cons chunk chunks ih =>
    rw [List.flatten_cons, ← List.append_assoc] at hnul ⊢
    have hnul1 : 0 ∉ buf ++ chunk := fun h => hnul (List.mem_append_left _ h)
    have hnul2 : 0 ∉ chunks.flatten := fun h => hnul (List.mem_append_right _ h)
    rcases scan_spec hnul1 [] chunks.flatten with ⟨hwanted, hnewline, hzero, -, hlen⟩
    rw [hwanted]
    unfold grepLoop at h
    split at h
    . cases h
    . next hread =>
      dsimp only at h
      rcases Option.map_eq_some_iff.mp h with ⟨out', hloop, rfl⟩
      rw [List.length_append, List.length_append]
      by_cases hsame : (scan [] (buf ++ chunk)).2.length = (buf ++ chunk).length
      . rw [if_pos hsame] at hloop
        rcases ih (by rw [List.nil_append]; exact hnul2) List.not_mem_nil hloop with ⟨hle, hwhole⟩
        rw [List.nil_append] at hle hwhole
        by_cases hrest : newline ∈ chunks.flatten
        . have hpos := List.length_pos_iff.mpr (not_or.mp hread).1
          rw [wanted_nil_append hnewline hrest, List.length_append, hsame, List.length_append]
          exact ⟨by omega, fun heq => by omega⟩
        have hnone : newline ∉ (scan [] (buf ++ chunk)).2 ++ chunks.flatten := by
          rw [List.mem_append, not_or]
          exact ⟨hnewline, hrest⟩
        rw [wanted_of_not_mem hrest] at hle hwhole
        rw [wanted_of_not_mem hnone]
        exact ⟨by omega, fun heq => whole_cons (.inr hrest) (hwhole (by omega))⟩
      . rw [if_neg hsame] at hloop
        have hnul' : 0 ∉ (scan [] (buf ++ chunk)).2 ++ chunks.flatten := by
          rw [List.mem_append, not_or]
          exact ⟨hzero, hnul2⟩
        rcases ih hnul' hnewline hloop with ⟨hle, hwhole⟩
        have hmem : newline ∈ buf ++ chunk := by
          by_contra hnot
          exact hsame (hlen.mpr hnot)
        have hchunk := (List.mem_append.mp hmem).resolve_left hbuf
        exact ⟨by omega, fun heq => whole_cons (.inl hchunk) (hwhole (by omega))⟩

/--
What `grep` writes are the lines that match, for all patterns, just if every read brings a newline as long
as there are any. Then it does not depend on how `read` cuts the stream.
-/
theorem grep_independent_of_reads (chunks : List (List UInt8)) (hnul : 0 ∉ chunks.flatten)
    (hread : (grep [] chunks).isSome)
    : ((∀ pattern out, grep pattern chunks = some out → out = wanted pattern chunks.flatten) ↔ Whole chunks)
      ∧ ∀ pattern chunks' out out', chunks'.flatten = chunks.flatten → Whole chunks → Whole chunks'
        → grep pattern chunks = some out → grep pattern chunks' = some out' → out = out' := by
  have hwanted : ∀ {pattern chunks' out}, chunks'.flatten = chunks.flatten → Whole chunks'
      → grep pattern chunks' = some out → out = wanted pattern chunks.flatten := by
    intro pattern chunks' out hstream hwhole h
    rw [← hstream] at hnul ⊢
    exact grepLoop_eq hnul List.not_mem_nil hwhole h
  refine ⟨⟨?_, fun hwhole pattern out h => hwanted rfl hwhole h⟩, ?_⟩
  . intro hall
    obtain ⟨out, hout⟩ := Option.isSome_iff_exists.mp hread
    exact (whole_of_grepLoop hnul List.not_mem_nil hout).2 (congrArg List.length (hall [] out hout))
  . intro pattern chunks' out out' hstream hwhole hwhole' h h'
    rw [hwanted rfl hwhole h, hwanted hstream hwhole' h']

theorem whole_of_forall (h : ∀ chunk ∈ chunks, newline ∈ chunk)
    : Whole chunks := by
  intro pre chunk post heq
  exact .inl (h chunk (by rw [heq]; exact List.mem_append_right _ List.mem_cons_self))

theorem grep_independent_of_reads_of_two
    : grep [97] [[97, newline, 98, newline]] = some [97, newline]
      ∧ wanted [97] [97, newline, 98, newline] = [97, newline] := by
  have hone : grep [97] [[97, newline, 98, newline]] = some [97, newline] := by decide +kernel
  have hspec := grep_independent_of_reads [[97, newline, 98, newline]] (by decide) (by decide +kernel)
  exact ⟨hone, (hspec.1.mpr (whole_of_forall (by decide)) [97] _ hone).symm⟩

/-- The same stream in two chunks: the first one is lost. -/
theorem grep_loses_chunk
    : [[97, 98, newline]].flatten = [[97], [98, newline]].flatten
      ∧ grep [97] [[97, 98, newline]] = some [97, 98, newline] ∧ grep [97] [[97], [98, newline]] = some [] := by
  decide +kernel

end Grep
end Xv6
