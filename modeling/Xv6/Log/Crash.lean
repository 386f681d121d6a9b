import Xv6.Log.Impl.Commit

namespace Xv6.Log

open Writes

variable {s : Machine}

def LogArea (start size b : Nat) : Prop :=
  start ≤ b ∧ b < start + size

instance (start size b : Nat) : Decidable (LogArea start size b) :=
  inferInstanceAs (Decidable (_ ∧ _))

structure Fits (start size : Nat) (lh : LogHeader) : Prop where
  lt : lh.n < size
  home : ∀ b ∈ lh.block, ¬LogArea start size b

namespace Machine

variable {start size : Nat} {lh : LogHeader}

theorem mem_entries {p : Nat × Nat} (h : p ∈ entries start lh)
    : p.1 ∈ lh.block ∧ ∃ i, i < lh.n ∧ p.2 = start + i + 1 := by
  rcases List.mem_map.mp h with ⟨⟨b, i⟩, hmem, rfl⟩
  rcases List.mem_zipIdx' hmem with ⟨hi, hb⟩
  refine ⟨?_, i, hi, rfl⟩
  dsimp only
  rw [hb]
  apply List.getElem_mem

theorem map_fst_entries (start : Nat) (lh : LogHeader)
    : (entries start lh).map Prod.fst = lh.block := by
  unfold entries
  rw [List.map_map]
  exact List.zipIdx_map_fst 0 lh.block

theorem entries_apart (hfits : Fits start size lh) {p q : Nat × Nat} (hp : p ∈ entries start lh)
    (hq : q ∈ entries start lh)
    : p.1 ≠ q.2 := by
  intro heq
  rcases mem_entries hp with ⟨hhome, _⟩
  rcases mem_entries hq with ⟨_, i, hi, hq⟩
  have hlt := hfits.lt
  apply hfits.home p.1 hhome
  unfold LogArea
  omega

structure Extends (s s' : Machine) (ws : List (Nat × Block)) : Prop where
  start : s'.start = s.start
  lh : s'.lh = s.lh
  written : s'.written = s.written ++ ws
  disk : s'.disk = apply ws s.disk
  bread : s'.bread = apply ws s.bread

theorem Extends.refl (s : Machine) : s.Extends s [] where
  start := rfl
  lh := rfl
  written := (List.append_nil _).symm
  disk := rfl
  bread := rfl

theorem Extends.trans {s s' s'' : Machine} {ws ws' : List (Nat × Block)} (h : s.Extends s' ws)
    (h' : s'.Extends s'' ws')
    : s.Extends s'' (ws ++ ws') where
  start := h'.start.trans h.start
  lh := h'.lh.trans h.lh
  written := by rw [h'.written, h.written, List.append_assoc]
  disk := by rw [h'.disk, h.disk, apply_append]
  bread := by rw [h'.bread, h.bread, apply_append]

theorem extends_bwrite (s : Machine) (b : Nat) (data : Block)
    : s.Extends (s.bwrite b data) [(b, data)] where
  start := rfl
  lh := rfl
  written := rfl
  disk := rfl
  bread := by
    funext b'
    simp only [apply_cons, apply_nil]
    unfold Machine.bread bwrite
    by_cases h : b' = b
    . rw [h]
      simp only [Function.update_self, Option.getD_some]
    . simp only [Function.update_of_ne h]

theorem extends_copyBlocks (s : Machine) {pairs : List (Nat × Nat)}
    (h : ∀ p ∈ pairs, ∀ q ∈ pairs, p.1 ≠ q.2)
    : s.Extends (s.copyBlocks pairs) (pairs.map fun p => (p.2, s.bread p.1)) := by
  induction pairs generalizing s with
  | nil => exact .refl s
  | cons p pairs ih =>
    have hfirst := extends_bwrite s p.2 (s.bread p.1)
    have hrest := ih (s.bwrite p.2 (s.bread p.1)) fun q hq r hr =>
      h q (List.mem_cons_of_mem p hq) r (List.mem_cons_of_mem p hr)
    have hsame : pairs.map (fun q => (q.2, (s.bwrite p.2 (s.bread p.1)).bread q.1))
        = pairs.map (fun q => (q.2, s.bread q.1)) := by
      apply List.map_congr_left
      intro q hq
      have hne := h q (List.mem_cons_of_mem p hq) p List.mem_cons_self
      rw [hfirst.bread, apply_cons, apply_nil, Function.update_of_ne hne]
    rw [hsame] at hrest
    exact hfirst.trans hrest

def installs (start : Nat) (lh : LogHeader) (d : Disk) : List (Nat × Block) :=
  (entries start lh).map fun p => (p.1, d p.2)

theorem map_fst_installs (start : Nat) (lh : LogHeader) (d : Disk)
    : (installs start lh d).map Prod.fst = lh.block := by
  rw [← map_fst_entries start lh]
  unfold installs
  rw [List.map_map]
  rfl

theorem extends_installTrans (hfits : Fits s.start size s.lh)
    : s.Extends s.installTrans (installs s.start s.lh s.bread) := by
  have h : ∀ p ∈ (entries s.start s.lh).map Prod.swap, ∀ q ∈ (entries s.start s.lh).map Prod.swap,
      p.1 ≠ q.2 := by
    intro p hp q hq
    rcases List.mem_map.mp hp with ⟨p', hp', rfl⟩
    rcases List.mem_map.mp hq with ⟨q', hq', rfl⟩
    exact (entries_apart hfits hq' hp').symm
  have hext := extends_copyBlocks s h
  rw [List.map_map] at hext
  exact hext

end Machine

structure Holds (start size : Nat) (d : Disk) (lh : LogHeader) : Prop where
  head : LogHeader.decode (d start) = some lh
  fits : Fits start size lh

def logical (start : Nat) (d : Disk) : Disk :=
  ((LogHeader.decode (d start)).map fun lh => apply (Machine.installs start lh d) d).getD d

open Xv6.Log.Machine

variable {start size : Nat} {lh : LogHeader} {d : Disk}

theorem logical_eq (h : LogHeader.decode (d start) = some lh)
    : logical start d = apply (installs start lh d) d := by
  unfold logical
  rw [h]
  rfl

theorem fits_empty (h : 0 < size) : Fits start size .empty where
  lt := h
  home := nofun

theorem not_mem_of_logArea (hfits : Fits start size lh) {b : Nat} (hb : LogArea start size b)
    {ws : List (Nat × Block)} (hws : ∀ a ∈ ws.map Prod.fst, a ∈ lh.block)
    : b ∉ ws.map Prod.fst :=
  fun hmem => hfits.home b (hws b hmem) hb

theorem logArea_start (hfits : Fits start size lh) : LogArea start size start :=
  ⟨Nat.le_refl _, Nat.lt_add_of_pos_right (Nat.zero_lt_of_lt hfits.lt)⟩

theorem installs_take (hfits : Fits start size lh) (k : Nat)
    : installs start lh (apply ((installs start lh d).take k) d) = installs start lh d := by
  apply List.map_congr_left
  intro p hp
  rcases mem_entries hp with ⟨_, i, hi, hp2⟩
  have hlt := hfits.lt
  rw [apply_of_not_mem]
  apply not_mem_of_logArea hfits
  . rw [hp2]
    unfold LogArea
    omega
  . intro a ha
    rw [List.map_take] at ha
    rw [← map_fst_installs start lh d]
    exact List.mem_of_mem_take ha

theorem Holds.cut (h : Holds start size d lh) {head : Block} (hhead : LogHeader.decode head = some .empty) (k : Nat)
    : ∃ lh', Holds start size (apply ((installs start lh d ++ [(start, head)]).take k) d) lh'
      ∧ ∀ b, ¬LogArea start size b → logical start (apply ((installs start lh d ++ [(start, head)]).take k) d) b
          = logical start d b := by
  have hstart := logArea_start h.fits
  have hsub : ∀ j, ∀ a ∈ ((installs start lh d).take j).map Prod.fst, a ∈ lh.block := by
    intro j a ha
    rw [List.map_take] at ha
    rw [← map_fst_installs start lh d]
    exact List.mem_of_mem_take ha
  by_cases hk : k ≤ (installs start lh d).length
  . -- The header is still there.
    rw [List.take_append_of_le_length hk]
    have hsame : apply ((installs start lh d).take k) d start = d start := by
      rw [apply_of_not_mem]
      exact not_mem_of_logArea h.fits hstart (hsub k)
    have hhead' : LogHeader.decode (apply ((installs start lh d).take k) d start) = some lh := by
      rw [hsame]
      exact h.head
    refine ⟨lh, ⟨hhead', h.fits⟩, ?_⟩
    intro b _
    rw [logical_eq hhead', logical_eq h.head, installs_take h.fits, apply_apply_take]
  . -- All blocks are at home and the header is cleared.
    rw [List.take_of_length_le (by rw [List.length_append, List.length_singleton]; omega),
      apply_append, apply_cons, apply_nil]
    have hhead' : LogHeader.decode
        (Function.update (apply (installs start lh d) d) start head start) = some .empty := by
      rw [Function.update_self]
      exact hhead
    refine ⟨.empty, ⟨hhead', fits_empty (Nat.zero_lt_of_lt h.fits.lt)⟩, ?_⟩
    intro b hb
    have hne : b ≠ start := by
      intro heq
      rw [heq] at hb
      exact hb hstart
    rw [logical_eq hhead', logical_eq h.head]
    exact Function.update_of_ne hne _ _

theorem extends_clear (hfits : Fits s.start size s.lh)
    : ∃ head, LogHeader.decode head = some .empty ∧ LogHeader.diskN head = 0
      ∧ s.installTrans.clearN.writeHead.written = s.written ++ (installs s.start s.lh s.bread ++ [(s.start, head)])
      ∧ s.installTrans.clearN.writeHead.disk
        = apply (installs s.start s.lh s.bread ++ [(s.start, head)]) s.disk := by
  have hext := extends_installTrans hfits
  have hlast := extends_bwrite s.installTrans.clearN s.start
    (LogHeader.empty.encode (s.installTrans.clearN.bread s.start))
  have hhead : s.installTrans.clearN.writeHead = s.installTrans.clearN.bwrite s.start
      (LogHeader.empty.encode (s.installTrans.clearN.bread s.start)) := by
    unfold writeHead
    rw [show s.installTrans.clearN.start = s.start from hext.start]
    rfl
  refine ⟨LogHeader.empty.encode (s.installTrans.clearN.bread s.start),
    LogHeader.decode_encode _ _, LogHeader.diskN_encode _ _, ?_, ?_⟩
  . rw [hhead, ← List.append_assoc, ← hext.written]
    exact hlast.written
  . rw [hhead, apply_append, ← hext.disk]
    exact hlast.disk

theorem Holds.recover (h : Holds start size d lh)
    : ∃ s head, (boot start d).recoverFromLog = some s ∧ LogHeader.decode head = some .empty
      ∧ LogHeader.diskN head = 0 ∧ s.written = installs start lh d ++ [(start, head)]
      ∧ s.disk = apply s.written d := by
  have hread : (boot start d).readHead = some { boot start d with lh := lh } := by
    unfold readHead
    rw [show (boot start d).bread (boot start d).start = d start from rfl, h.head]
    rfl
  have hfits : Fits ({ boot start d with lh := lh } : Machine).start size
      ({ boot start d with lh := lh } : Machine).lh := h.fits
  rcases extends_clear hfits with ⟨head, hdecode, hn, hwritten, hdisk⟩
  refine ⟨_, head, ?_, hdecode, hn, hwritten, ?_⟩
  . unfold recoverFromLog
    rw [hread]
    rfl
  . rw [hwritten]
    exact hdisk

theorem Holds.recover_complete (h : Holds start size d lh)
    : ∃ s, (boot start d).recoverFromLog = some s ∧ LogHeader.diskN (s.disk start) = 0
      ∧ ∀ b, ¬LogArea start size b → s.disk b = logical start d b := by
  rcases h.recover with ⟨s, head, hrun, _, hn, hwritten, hdisk⟩
  rw [hwritten, apply_append, apply_cons, apply_nil] at hdisk
  refine ⟨s, hrun, ?_, ?_⟩
  . rw [hdisk, Function.update_self]
    exact hn
  . intro b hb
    have hne : b ≠ start := by
      intro heq
      rw [heq] at hb
      exact hb (logArea_start h.fits)
    rw [hdisk, Function.update_of_ne hne, logical_eq h.head]

theorem Holds.recoverCuts (h : Holds start size d lh) (ks : List Nat)
    : ∃ d' lh', recoverCuts start ks d = some d' ∧ Holds start size d' lh'
      ∧ ∀ b, ¬LogArea start size b → logical start d' b = logical start d b := by
  induction ks generalizing d lh with
  | nil => exact ⟨d, lh, rfl, h, fun _ _ => rfl⟩
  | cons k ks ih =>
    rcases h.recover with ⟨s, head, hrun, hhead, _, hwritten, _⟩
    rcases h.cut hhead k with ⟨lh1, h1, hlogical1⟩
    rcases ih h1 with ⟨d', lh', hrest, h', hlogical⟩
    refine ⟨d', lh', ?_, h', ?_⟩
    . unfold Machine.recoverCuts recoverCut
      rw [hrun, ← hrest, ← hwritten]
      rfl
    . intro b hb
      rw [hlogical b hb, hlogical1 b hb]

namespace Machine

theorem entries_inj {p q : Nat × Nat} (hp : p ∈ entries start lh) (hq : q ∈ entries start lh) (h : p.2 = q.2)
    : p.1 = q.1 := by
  rcases List.mem_map.mp hp with ⟨⟨b, i⟩, hmem, rfl⟩
  rcases List.mem_map.mp hq with ⟨⟨b', i'⟩, hmem', rfl⟩
  rcases List.mem_zipIdx' hmem with ⟨hi, hb⟩
  rcases List.mem_zipIdx' hmem' with ⟨hi', hb'⟩
  dsimp only at h ⊢
  have heq : i = i' := by omega
  subst heq
  rw [hb, hb']

def logs (s : Machine) : List (Nat × Block) :=
  (entries s.start s.lh).map fun p => (p.2, s.bread p.1)

theorem logArea_of_mem_logs (hfits : Fits s.start size s.lh) {a : Nat} (h : a ∈ s.logs.map Prod.fst)
    : LogArea s.start size a ∧ a ≠ s.start := by
  unfold logs at h
  rw [List.map_map] at h
  rcases List.mem_map.mp h with ⟨p, hp, rfl⟩
  rcases mem_entries hp with ⟨_, i, hi, hp2⟩
  have hlt := hfits.lt
  simp only [Function.comp]
  unfold LogArea
  omega

def committed (s : Machine) (d : Disk) : Disk :=
  Function.update (apply s.logs d) s.start (s.lh.encode (s.bread s.start))

theorem committed_log (hfits : Fits s.start size s.lh) (d : Disk) {p : Nat × Nat}
    (hp : p ∈ entries s.start s.lh)
    : s.committed d p.2 = s.bread p.1 := by
  have hmem : p.2 ∈ s.logs.map Prod.fst := by
    unfold logs
    rw [List.map_map]
    exact List.mem_map_of_mem (f := fun p : Nat × Nat => p.2) hp
  unfold committed
  rw [Function.update_of_ne (logArea_of_mem_logs hfits hmem).2]
  apply apply_eq_of_forall
  . intro w hw heq
    rcases List.mem_map.mp hw with ⟨q, hq, rfl⟩
    dsimp only at heq ⊢
    rw [entries_inj hq hp heq]
  . exact .inl hmem

theorem installs_committed (hfits : Fits s.start size s.lh) (d : Disk)
    : installs s.start s.lh (s.committed d)
      = (entries s.start s.lh).map fun p => (p.1, s.bread p.1) := by
  apply List.map_congr_left
  intro p hp
  rw [committed_log hfits d hp]

theorem holds_committed (hfits : Fits s.start size s.lh) (d : Disk)
    : Holds s.start size (s.committed d) s.lh where
  head := by
    unfold committed
    rw [Function.update_self]
    apply LogHeader.decode_encode
  fits := hfits

theorem committed_of_not_logArea (hfits : Fits s.start size s.lh) (d : Disk) {b : Nat}
    (hb : ¬LogArea s.start size b)
    : s.committed d b = d b := by
  have hne : b ≠ s.start := by
    intro heq
    rw [heq] at hb
    exact hb (logArea_start hfits)
  unfold committed
  rw [Function.update_of_ne hne, apply_of_not_mem]
  exact fun hmem => hb (logArea_of_mem_logs hfits hmem).1

theorem logical_committed (hfits : Fits s.start size s.lh) (d : Disk) {b : Nat}
    (hb : ¬LogArea s.start size b)
    : logical s.start (s.committed d) b = if b ∈ s.lh.block then s.bread b else d b := by
  rw [logical_eq (holds_committed hfits d).head, installs_committed hfits]
  have hmap : ((entries s.start s.lh).map fun p => (p.1, s.bread p.1)).map Prod.fst = s.lh.block := by
    rw [← map_fst_entries s.start s.lh, List.map_map]
    rfl
  split
  . next hmem =>
    apply apply_eq_of_forall
    . intro w hw heq
      rcases List.mem_map.mp hw with ⟨q, _, rfl⟩
      dsimp only at heq ⊢
      rw [heq]
    . rw [hmap]
      exact .inl hmem
  . next hmem =>
    rw [apply_of_not_mem]
    . exact committed_of_not_logArea hfits d hb
    . rw [hmap]
      exact hmem

theorem commitWrites_eq (hfits : Fits s.start size s.lh) (hn : 0 < s.lh.n)
    : ∃ head, LogHeader.decode head = some .empty
      ∧ s.commitWrites = s.logs ++ ((s.start, s.lh.encode (s.bread s.start))
        :: (installs s.start s.lh (s.committed s.disk) ++ [(s.start, head)])) := by
  have hlog : s.Extends s.writeLog s.logs := by
    apply extends_copyBlocks
    intro p hp q hq
    exact entries_apart hfits hp hq
  have hstart : s.writeLog.bread s.start = s.bread s.start := by
    rw [hlog.bread, apply_of_not_mem]
    exact fun hmem => (logArea_of_mem_logs hfits hmem).2 rfl
  have hhead : s.Extends s.writeLog.writeHead
      (s.logs ++ [(s.start, s.lh.encode (s.bread s.start))]) := by
    apply hlog.trans
    unfold writeHead
    rw [hlog.start, hlog.lh, hstart]
    apply extends_bwrite
  have hview : s.writeLog.writeHead.bread = s.committed s.bread := by
    rw [hhead.bread, apply_append]
    rfl
  have hfits' : Fits s.writeLog.writeHead.start size s.writeLog.writeHead.lh := by
    rw [hhead.start, hhead.lh]
    exact hfits
  rcases extends_clear hfits' with ⟨head, hdecode, _, hwritten, _⟩
  refine ⟨head, hdecode, ?_⟩
  have hcommit : s.commit = s.writeLog.writeHead.installTrans.clearN.writeHead := by
    unfold commit
    rw [if_pos hn]
  unfold commitWrites
  rw [hcommit, hwritten, hhead.written, hhead.start, hhead.lh, hview, installs_committed hfits,
    installs_committed hfits, List.append_assoc, List.append_assoc, List.drop_left]
  rfl

theorem cut_before_head (hfits : Fits s.start size s.lh)
    (hdisk : LogHeader.diskN (s.disk s.start) = 0) {k : Nat} (hk : k ≤ s.logs.length)
    {rest : List (Nat × Block)}
    : ∃ lh', Holds s.start size (apply ((s.logs ++ rest).take k) s.disk) lh'
      ∧ ∀ b, ¬LogArea s.start size b → logical s.start (apply ((s.logs ++ rest).take k) s.disk) b
        = if s.start ∈ ((s.logs ++ rest).take k).map Prod.fst ∧ b ∈ s.lh.block
          then s.bread b else s.disk b := by
  rw [List.take_append_of_le_length hk]
  have hsub : ∀ a ∈ (s.logs.take k).map Prod.fst, LogArea s.start size a ∧ a ≠ s.start := by
    intro a ha
    rw [List.map_take] at ha
    exact logArea_of_mem_logs hfits (List.mem_of_mem_take ha)
  have hstart : s.start ∉ (s.logs.take k).map Prod.fst := fun hmem => (hsub _ hmem).2 rfl
  have hhead : LogHeader.decode (apply (s.logs.take k) s.disk s.start) = some .empty := by
    rw [apply_of_not_mem hstart]
    exact LogHeader.decode_of_diskN_eq_zero hdisk
  refine ⟨.empty, ⟨hhead, fits_empty (Nat.zero_lt_of_lt hfits.lt)⟩, ?_⟩
  intro b hb
  rw [if_neg (fun h => hstart h.1), logical_eq hhead]
  exact apply_of_not_mem (fun hmem => hb (hsub _ hmem).1) _

theorem cut_after_head (hfits : Fits s.start size s.lh) {head : Block}
    (hhead : LogHeader.decode head = some .empty) {k : Nat} (hk : s.logs.length < k)
    {ws : List (Nat × Block)}
    (hws : ws = s.logs ++ ((s.start, s.lh.encode (s.bread s.start))
      :: (installs s.start s.lh (s.committed s.disk) ++ [(s.start, head)])))
    : ∃ lh', Holds s.start size (apply (ws.take k) s.disk) lh'
      ∧ ∀ b, ¬LogArea s.start size b → logical s.start (apply (ws.take k) s.disk) b
        = if s.start ∈ (ws.take k).map Prod.fst ∧ b ∈ s.lh.block then s.bread b else s.disk b := by
  have hj : ∃ j, k = s.logs.length + (j + 1) := ⟨k - s.logs.length - 1, by omega⟩
  rcases hj with ⟨j, rfl⟩
  have hsplit : ws.take (s.logs.length + (j + 1))
      = s.logs ++ ((s.start, s.lh.encode (s.bread s.start))
        :: (installs s.start s.lh (s.committed s.disk) ++ [(s.start, head)]).take j) := by
    rw [hws, List.take_length_add_append, List.take_succ_cons]
  have hmem : s.start ∈ (ws.take (s.logs.length + (j + 1))).map Prod.fst := by
    rw [hsplit, List.map_append, List.map_cons]
    apply List.mem_append_right
    exact List.mem_cons_self
  have happly : apply (ws.take (s.logs.length + (j + 1))) s.disk
      = apply ((installs s.start s.lh (s.committed s.disk) ++ [(s.start, head)]).take j)
        (s.committed s.disk) := by
    rw [hsplit, apply_append, apply_cons]
    rfl
  rcases (holds_committed hfits s.disk).cut hhead j with ⟨lh', h, hlogical⟩
  rw [← happly] at h hlogical
  refine ⟨lh', h, ?_⟩
  intro b hb
  rw [hlogical b hb, logical_committed hfits s.disk hb]
  simp only [hmem, true_and]

theorem commitCut_cases (hfits : Fits s.start size s.lh)
    (hdisk : LogHeader.diskN (s.disk s.start) = 0) (k : Nat)
    : ∃ lh', Holds s.start size (s.commitCut k) lh'
      ∧ ∀ b, ¬LogArea s.start size b → logical s.start (s.commitCut k) b
        = if s.start ∈ (s.commitWrites.take k).map Prod.fst
            ∧ b ∈ s.lh.block
          then s.bread b else s.disk b := by
  by_cases hn : 0 < s.lh.n
  . rcases commitWrites_eq hfits hn with ⟨head, hhead, hwrites⟩
    unfold commitCut
    by_cases hk : k ≤ s.logs.length
    . rw [hwrites]
      exact cut_before_head hfits hdisk hk
    . exact cut_after_head hfits hhead (Nat.lt_of_not_le hk) hwrites
  . have hempty : s.lh.block = [] := List.eq_nil_of_length_eq_zero (Nat.eq_zero_of_not_pos hn)
    have hnone : s.commitCut k = s.disk := by
      unfold commitCut commitWrites commit
      rw [if_neg hn, List.drop_length, List.take_nil]
      rfl
    have hhead := LogHeader.decode_of_diskN_eq_zero hdisk
    rw [hnone]
    refine ⟨.empty, ⟨hhead, fits_empty (Nat.zero_lt_of_lt hfits.lt)⟩, ?_⟩
    intro b _
    rw [hempty, if_neg (fun h => nomatch h.2), logical_eq hhead]
    rfl

end Machine

/-- Crash atomicity of the log. -/
theorem crash_atomic (s : Machine) (size : Nat) (hdisk : LogHeader.diskN (s.disk s.start) = 0)
    (hn : s.lh.n < size) (hhome : ∀ b ∈ s.lh.block, ¬LogArea s.start size b) (k : Nat)
    (ks : List Nat)
    : ∃ d s', recoverCuts s.start ks (s.commitCut k) = some d
      ∧ (boot s.start d).recoverFromLog = some s'
      ∧ (∀ b ∈ s.lh.block, s'.disk b
        = if s.start ∈ (s.commitWrites.take k).map Prod.fst
          then s.bread b else s.disk b)
      ∧ (∀ b, ¬LogArea s.start size b → b ∉ s.lh.block → s'.disk b = s.disk b)
      ∧ LogHeader.diskN (s'.disk s.start) = 0 := by
  have hfits : Fits s.start size s.lh := ⟨hn, hhome⟩
  rcases commitCut_cases hfits hdisk k with ⟨lh1, h1, hcut⟩
  rcases h1.recoverCuts ks with ⟨d, lh2, hcuts, h2, hsame⟩
  rcases h2.recover_complete with ⟨s', hrun, hclear, hrestored⟩
  refine ⟨d, s', hcuts, hrun, ?_, ?_, hclear⟩
  . intro b hb
    rw [hrestored b (hhome b hb), hsame b (hhome b hb), hcut b (hhome b hb)]
    simp only [hb, and_true]
  . intro b hb hnot
    rw [hrestored b hb, hsame b hb, hcut b hb, if_neg (fun h => hnot h.2)]

def twoBlocks : Machine where
  start := 2
  lh := {
    block := [40, 41]
    length_le := by decide
    lt := by decide
  }
  cache := fun b => if b = 40 ∨ b = 41 then some (fun _ => 1) else none
  disk := fun _ => Bytes.zero

theorem crash_atomic_of_twoBlocks
    : ∃ d s', recoverCuts 2 [1, 0] (twoBlocks.commitCut 3) = some d
      ∧ (boot 2 d).recoverFromLog = some s'
      ∧ s'.disk 40 = (fun _ => 1) ∧ s'.disk 41 = (fun _ => 1) ∧ s'.disk 50 = Bytes.zero := by
  have hhome : ∀ b ∈ twoBlocks.lh.block, ¬LogArea twoBlocks.start 30 b := by decide
  rcases crash_atomic twoBlocks 30 (by decide) (by decide) hhome 3 [1, 0]
    with ⟨d, s', hcuts, hrun, hnew, hsame, _⟩
  have hhead : twoBlocks.start ∈ (twoBlocks.commitWrites.take 3).map Prod.fst := by decide
  simp only [if_pos hhead] at hnew
  exact ⟨d, s', hcuts, hrun, hnew 40 (by decide), hnew 41 (by decide),
    hsame 50 (by decide) (by decide)⟩

end Xv6.Log
