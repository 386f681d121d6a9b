import Xv6.Ide.Impl

namespace Xv6

structure Buf.Same {P : Type} (b b' : Buf P) : Prop where
  valid : b.valid = b'.valid
  dirty : b.dirty = b'.dirty
  dev : b.dev = b'.dev
  blockno : b.blockno = b'.blockno
  lock : b.lock = b'.lock
  data : b.data = b'.data

theorem Buf.Same.trans {P : Type} {b b' b'' : Buf P} (h : b.Same b') (h' : b'.Same b'')
    : b.Same b'' where
  valid := h.valid.trans h'.valid
  dirty := h.dirty.trans h'.dirty
  dev := h.dev.trans h'.dev
  blockno := h.blockno.trans h'.blockno
  lock := h.lock.trans h'.lock
  data := h.data.trans h'.data

theorem Buf.Same.refl {P : Type} (b : Buf P) : b.Same b := by
  constructor <;> rfl

namespace Ide

variable {B P : Type}

def served [DecidableEq P] (disk : Disk) (l : List (Request B P)) : Except Memide.Halt Disk :=
  l.foldlM (fun disk r => Prod.fst <$> Memide.iderw FSSIZE disk r.proc r.val) disk

def Request.Ok (r : Request B P) : Prop :=
  r.val.lock = some r.proc ∧ ¬(r.val.valid = true ∧ ¬r.val.dirty = true) ∧ r.val.dev = 1
    ∧ r.val.blockno < FSSIZE

def serve (disk : Disk) (l : List (Request B P)) : Disk :=
  l.foldl (fun disk r => (Memide.sync disk r.val).1) disk

theorem Request.Ok.iderw [DecidableEq P] {r : Request B P} (h : r.Ok) (disk : Disk)
    : Memide.iderw FSSIZE disk r.proc r.val = .ok (Memide.sync disk r.val) := by
  rcases h with ⟨hlock, hflags, hdev, hblockno⟩
  unfold Memide.iderw
  rw [if_neg (not_not.mpr hlock), if_neg hflags, if_neg (not_not.mpr hdev),
    if_neg (Nat.not_le_of_lt hblockno)]

theorem served_eq [DecidableEq P] (disk : Disk) {l : List (Request B P)} (h : ∀ r ∈ l, r.Ok)
    : served disk l = .ok (serve disk l) := by
  induction l generalizing disk with
  | nil => rfl
  | cons r l ih =>
    have hr := (h r List.mem_cons_self).iderw disk
    unfold served at ih ⊢
    rw [List.foldlM_cons, hr]
    apply ih
    intro r' hr'
    exact h r' (List.mem_cons_of_mem r hr')

theorem serve_take_succ {l : List (Request B P)} {m : Nat} {r : Request B P} (h : l[m]? = some r) (disk : Disk)
    : serve disk (l.take (m + 1)) = (Memide.sync (serve disk (l.take m)) r.val).1 := by
  unfold serve
  rw [List.take_add_one, h, List.foldl_append]
  rfl

theorem Command.ofBuf_congr {b b' : Buf P} (h : b.Same b') : Command.ofBuf b = Command.ofBuf b' := by
  unfold Command.ofBuf
  rw [h.dirty, h.dev, h.blockno, h.data]

def DiskOk (c : Ctl) (disk : Disk) : (next : Option (Request B P)) → Prop
  | none => c.phase = .ready ∧ c.intr = false ∧ c.media 1 = disk
  | some r =>
    c.executing = some (.ofBuf r.val) ∧ c.control = 0
      ∧ (c.phase = .busy ∧ c.intr = false ∧ c.media 1 = disk
        ∨ c.phase = .ready ∧ c.intr = true ∧ c.media 1 = (Memide.sync disk r.val).1
          ∧ (r.val.dirty = false → c.port = (Memide.sync disk r.val).2.data))

def PcOk (s : State B P) (media : Disk) (p : P) : Pc B → Prop
  | .user => True
  | .acquire i => ({ proc := p, buf := i, val := s.buf i } : Request B P).Ok
  | .sleeping i m => s.retired ≤ m ∧ ∃ r, s.arrived[m]? = some r ∧ r.proc = p ∧ r.buf = i
  | .woken i m =>
    m < s.retired ∧ ∃ r, s.arrived[m]? = some r ∧ r.proc = p ∧ r.buf = i
      ∧ (s.buf i).Same (Memide.sync (serve media (s.arrived.take m)) r.val).2

structure Inv (media : Disk) (s : State B P) : Prop where
  lists : Fifo.Lists s.link none (s.pending.map (·.buf))
  nodup : (s.pending.map (·.buf)).Nodup
  ok : ∀ r ∈ s.arrived, r.Ok
  asleep : ∀ m r, s.retired ≤ m → s.arrived[m]? = some r → s.pc r.proc = .sleeping r.buf m
  same : ∀ r ∈ s.pending, (s.buf r.buf).Same r.val
  pcOk : ∀ p, PcOk s media p (s.pc p)
  started : s.started = (s.arrived.take (s.retired + 1)).map (·.buf)
  retired : s.retired ≤ s.arrived.length
  disk : DiskOk s.ctl (serve media (s.arrived.take s.retired)) s.arrived[s.retired]?

section
variable {s : State B P} {media : Disk} {p : P} {i : B}

theorem mem_pending {r : Request B P}
    : r ∈ s.pending ↔ ∃ m, s.retired ≤ m ∧ s.arrived[m]? = some r := by
  unfold State.pending
  rw [List.mem_iff_getElem?]
  constructor
  . rintro ⟨m, hm⟩
    rw [List.getElem?_drop] at hm
    exact ⟨s.retired + m, Nat.le_add_right .., hm⟩
  . rintro ⟨m, hle, hm⟩
    refine ⟨m - s.retired, ?_⟩
    rw [List.getElem?_drop, Nat.add_sub_cancel' hle]
    exact hm

theorem State.pending_eq_cons {r : Request B P} (h : s.arrived[s.retired]? = some r)
    : s.pending = r :: s.arrived.drop (s.retired + 1) := by
  rcases List.getElem?_eq_some_iff.mp h with ⟨hlt, hr⟩
  unfold State.pending
  rw [List.drop_eq_getElem_cons hlt, hr]

section
variable (h : Inv media s)
include h

theorem Inv.lock_eq (huses : (s.pc p).uses i) : (s.buf i).lock = some p := by
  have hp := h.pcOk p
  cases hpc : s.pc p with
  | user =>
    rw [hpc] at huses
    cases huses
  | acquire j =>
    rw [hpc] at hp huses
    cases huses
    exact hp.1
  | sleeping j m =>
    rw [hpc] at hp huses
    cases huses
    rcases hp with ⟨hle, r, hr, rfl, rfl⟩
    rw [(h.same r (mem_pending.mpr ⟨m, hle, hr⟩)).lock]
    exact (h.ok r (List.mem_of_getElem? hr)).1
  | woken j m =>
    rw [hpc] at hp huses
    cases huses
    rcases hp with ⟨-, r, hr, rfl, rfl, hsame⟩
    rw [hsame.lock, Memide.sync_lock]
    exact (h.ok r (List.mem_of_getElem? hr)).1

theorem Inv.eq_of_uses {p' : P} (huses : (s.pc p).uses i) (huses' : (s.pc p').uses i)
    : p = p' := by
  apply Option.some.inj
  rw [← h.lock_eq huses, h.lock_eq huses']

theorem Inv.uses_of_pending {r : Request B P} (hr : r ∈ s.pending)
    : (s.pc r.proc).uses r.buf := by
  rcases mem_pending.mp hr with ⟨m, hle, hm⟩
  rw [h.asleep m r hle hm]
  rfl

theorem Inv.not_mem_pending (hp : s.pc p = .acquire i)
    : i ∉ s.pending.map (·.buf) := by
  intro hmem
  rcases List.mem_map.mp hmem with ⟨r, hr, rfl⟩
  have huses : (s.pc p).uses r.buf := by
    rw [hp]
    rfl
  have heq : p = r.proc := h.eq_of_uses huses (h.uses_of_pending hr)
  rcases mem_pending.mp hr with ⟨m, hle, hm⟩
  rw [heq, h.asleep m r hle hm] at hp
  cases hp

theorem Inv.of_buf {buf : B → Buf P} (hbuf : ∀ p i, (s.pc p).uses i → (buf i).Same (s.buf i))
    : Inv media { s with buf := buf } where
  lists := h.lists
  nodup := h.nodup
  ok := h.ok
  asleep := h.asleep
  same := by
    intro r hr
    exact (hbuf r.proc r.buf (h.uses_of_pending hr)).trans (h.same r hr)
  pcOk := by
    intro q
    have hq := h.pcOk q
    have hbufq := hbuf q
    change PcOk _ _ _ (s.pc q)
    cases hpc : s.pc q with
    | user => trivial
    | acquire i =>
      rw [hpc] at hq hbufq
      have hsame := hbufq i rfl
      rcases hq with ⟨hlock, hflags, hdev, hblockno⟩
      refine ⟨hsame.lock.trans hlock, ?_, hsame.dev.trans hdev, ?_⟩
      . dsimp only
        rw [hsame.valid, hsame.dirty]
        exact hflags
      . dsimp only
        rw [hsame.blockno]
        exact hblockno
    | sleeping i m =>
      rw [hpc] at hq
      exact hq
    | woken i m =>
      rw [hpc] at hq hbufq
      rcases hq with ⟨hlt, r, hr, hproc, hi, hsame⟩
      exact ⟨hlt, r, hr, hproc, hi, (hbufq i rfl).trans hsame⟩
  started := h.started
  retired := h.retired
  disk := h.disk

theorem Inv.ctl {ctl : Ctl}
    (hdisk : DiskOk ctl (serve media (s.arrived.take s.retired)) s.arrived[s.retired]?)
    : Inv media { s with ctl := ctl } where
  lists := h.lists
  nodup := h.nodup
  ok := h.ok
  asleep := h.asleep
  same := h.same
  pcOk := h.pcOk
  started := h.started
  retired := h.retired
  disk := hdisk

theorem Inv.execute (hbusy : s.ctl.phase = .busy)
    : Inv media { s with ctl := s.ctl.execute } := by
  apply h.ctl
  have hdisk := h.disk
  cases hnext : s.arrived[s.retired]? with
  | none =>
    rw [hnext] at hdisk
    rw [hdisk.1] at hbusy
    cases hbusy
  | some r =>
    rw [hnext] at hdisk
    rcases hdisk with ⟨hexec, hcontrol, ⟨-, -, hmedia⟩ | ⟨hready, -⟩⟩
    . have hdev : r.val.dev = 1 := (h.ok r (List.mem_of_getElem? hnext)).2.2.1
      refine ⟨execute_executing hcontrol hexec, (execute_control _).trans hcontrol, .inr ?_⟩
      refine ⟨execute_phase _, execute_intr _ hcontrol, ?_, ?_⟩
      . rw [← hdev, execute_media hexec, hdev, hmedia]
      . intro hdirty
        rw [execute_port hexec hdirty, hdev, hmedia]
    . rw [hready] at hbusy
      cases hbusy

end

theorem State.idestart_buf {i : B} (hready : s.ctl.phase = .ready) (hblockno : (s.buf i).blockno < FSSIZE)
    : s.idestart (some i) = some (.ok { s with ctl := issue s.ctl (s.buf i), started := s.started ++ [i] }) := by
  have hphase : s.ctl.phase ≠ .busy := by
    rw [hready]
    decide
  unfold State.idestart
  rw [Option.map_some, idestart_eq hphase hblockno]
  rfl

section
variable [DecidableEq B]

theorem State.pending_enqueue (h : s.retired ≤ s.arrived.length) (pp : Option B)
    : (s.enqueue p i pp).pending = s.pending ++ [{ proc := p, buf := i, val := s.buf i }] :=
  List.drop_append_of_le_length h

variable [DecidableEq P]

omit [DecidableEq B] in
theorem Inv.setPc {pc : Pc B} (h : Inv media s) (hp : ∀ i m, s.pc p ≠ .sleeping i m) (hpc : PcOk s media p pc)
    : Inv media (s.setPc p pc) where
  lists := h.lists
  nodup := h.nodup
  ok := h.ok
  asleep := by
    intro m r hle hr
    have hasleep := h.asleep m r hle hr
    apply (Function.update_of_ne _ ..).trans hasleep
    intro heq
    rw [heq] at hasleep
    exact hp _ _ hasleep
  same := h.same
  pcOk := by
    intro q
    change PcOk s media q (Function.update s.pc p pc q)
    by_cases hq : q = p
    . rw [hq, Function.update_self]
      exact hpc
    . rw [Function.update_of_ne hq]
      exact h.pcOk q
  started := h.started
  retired := h.retired
  disk := h.disk

theorem Inv.enqueue {pp : Option B} {ctl : Ctl} {started : List B} (h : Inv media s) (hp : s.pc p = .acquire i)
    (hlists : Fifo.Lists (Fifo.append s.link pp i) none (s.pending.map (·.buf) ++ [i]))
    (hstarted : started = ((s.enqueue p i pp).arrived.take (s.retired + 1)).map (·.buf))
    (hdisk : DiskOk ctl (serve media (s.arrived.take s.retired)) (s.enqueue p i pp).arrived[s.retired]?)
    : Inv media ({ s.enqueue p i pp with ctl := ctl, started := started }.setPc p
          (.sleeping i s.arrived.length)) := by
  have hpending := State.pending_enqueue (p := p) (i := i) h.retired pp
  have hok : ({ proc := p, buf := i, val := s.buf i } : Request B P).Ok := by
    have hpc := h.pcOk p
    rw [hp] at hpc
    exact hpc
  -- the old requests keep their numbers
  have hold : ∀ (m : Nat) (r : Request B P), s.arrived[m]? = some r → (s.enqueue p i pp).arrived[m]? = some r := by
    intro m r hr
    exact List.getElem?_append_left (List.getElem?_eq_some_iff.mp hr).1 ▸ hr
  have htake : ∀ m, m ≤ s.arrived.length → (s.enqueue p i pp).arrived.take m = s.arrived.take m := by
    intro m hm
    exact List.take_append_of_le_length hm
  constructor
  . change Fifo.Lists _ _ ((s.enqueue p i pp).pending.map _)
    rw [hpending, List.map_append]
    exact hlists
  . change ((s.enqueue p i pp).pending.map _).Nodup
    rw [hpending, List.map_append]
    apply List.nodup_append.mpr
    refine ⟨h.nodup, List.nodup_singleton _, ?_⟩
    rintro j hj j' hj' rfl
    rw [List.map_singleton, List.mem_singleton] at hj'
    rw [hj'] at hj
    exact h.not_mem_pending hp hj
  . intro r hr
    rcases List.mem_append.mp hr with hr | hr
    . exact h.ok r hr
    . rw [List.mem_singleton.mp hr]
      exact hok
  . intro m r hle hr
    change Function.update s.pc p _ r.proc = _
    by_cases hm : m < s.arrived.length
    . have hr : s.arrived[m]? = some r := (List.getElem?_append_left hm).symm.trans hr
      have hasleep := h.asleep m r hle hr
      rw [Function.update_of_ne]
      . exact hasleep
      . intro heq
        rw [heq, hp] at hasleep
        cases hasleep
    . have hlt : m < (s.arrived ++ [_]).length := (List.getElem?_eq_some_iff.mp hr).1
      rw [List.length_append, List.length_singleton] at hlt
      have hm : m = s.arrived.length := by omega
      rw [hm] at hr ⊢
      have hr := List.getElem?_concat_length.symm.trans hr
      cases hr
      exact Function.update_self ..
  . intro r hr
    change r ∈ (s.enqueue p i pp).pending at hr
    rw [hpending] at hr
    rcases List.mem_append.mp hr with hr | hr
    . exact h.same r hr
    . rw [List.mem_singleton.mp hr]
      exact .refl _
  . intro q
    change PcOk _ media q (Function.update s.pc p _ q)
    by_cases hq : q = p
    . rw [hq, Function.update_self]
      exact ⟨h.retired, _, List.getElem?_concat_length, rfl, rfl⟩
    rw [Function.update_of_ne hq]
    have hqok := h.pcOk q
    cases hpc : s.pc q with
    | user => trivial
    | acquire j =>
      rw [hpc] at hqok
      exact hqok
    | sleeping j m =>
      rw [hpc] at hqok
      rcases hqok with ⟨hle, r, hr, hproc, hj⟩
      exact ⟨hle, r, hold m r hr, hproc, hj⟩
    | woken j m =>
      rw [hpc] at hqok
      rcases hqok with ⟨hlt, r, hr, hproc, hj, hsame⟩
      refine ⟨hlt, r, hold m r hr, hproc, hj, ?_⟩
      change (s.buf j).Same (Memide.sync (serve media ((s.enqueue p i pp).arrived.take m)) r.val).2
      rw [htake m (Nat.le_trans (Nat.le_of_lt hlt) h.retired)]
      exact hsame
  . exact hstarted
  . change s.retired ≤ (s.arrived ++ [_]).length
    rw [List.length_append]
    exact Nat.le_add_right_of_le h.retired
  . change DiskOk ctl (serve media ((s.enqueue p i pp).arrived.take s.retired)) _
    rw [htake s.retired h.retired]
    exact hdisk

section
variable [Fintype B]

omit [DecidableEq P] in
theorem Inv.findEnd (h : Inv media s) (hp : s.pc p = .acquire i)
    : ∃ pp, Fifo.findEnd (Function.update s.link (some i) none) (Fintype.card B) none = some pp
      ∧ Fifo.Lists (Fifo.append s.link pp i) none (s.pending.map (·.buf) ++ [i]) := by
  have hmem := h.not_mem_pending hp
  refine ⟨Fifo.last none (s.pending.map (·.buf)), ?_, ?_⟩
  . apply Fifo.Lists.findEnd_eq
    . apply h.lists.congr
      . exact Function.update_of_ne (Option.some_ne_none i).symm ..
      . intro j hj
        apply Function.update_of_ne
        intro heq
        rw [Option.some.inj heq] at hj
        exact hmem hj
    . exact h.nodup.length_le_card
  . apply h.lists.append
    . apply List.nodup_cons.mpr
      constructor
      . intro hnone
        rcases List.mem_map.mp hnone with ⟨j, -, hj⟩
        cases hj
      . exact h.nodup.map (Option.some_injective B)
    . exact hmem
    . exact (Option.some_ne_none i).symm

theorem Inv.acquire (h : Inv media s) (hp : s.pc p = .acquire i)
    : ∃ s', s.acquire p i = some (.ok s') ∧ Inv media s' := by
  rcases h.findEnd hp with ⟨pp, hpp, hlists⟩
  have hok : ({ proc := p, buf := i, val := s.buf i } : Request B P).Ok := by
    have hpc := h.pcOk p
    rw [hp] at hpc
    exact hpc
  have hdisk := h.disk
  unfold State.acquire
  rw [hpp]
  dsimp only [Option.bind_eq_bind, Option.bind_some]
  cases hnext : s.arrived[s.retired]? with
  | none =>
    rw [hnext] at hdisk
    rcases hdisk with ⟨hready, hintr, hmedia⟩
    have hretired : s.retired = s.arrived.length :=
      Nat.le_antisymm h.retired (List.getElem?_eq_none_iff.mp hnext)
    have hempty : s.pending = [] := List.drop_eq_nil_of_le (Nat.le_of_eq hretired.symm)
    have hhead : (s.enqueue p i pp).link none = some i := by
      rw [hempty] at hlists
      exact hlists.1
    have hnext' : (s.enqueue p i pp).arrived[s.retired]?
        = some { proc := p, buf := i, val := s.buf i } := by
      rw [hretired]
      exact List.getElem?_concat_length
    have hstart : (s.enqueue p i pp).idestart (some i)
        = some (.ok { s.enqueue p i pp with
                      ctl := issue s.ctl (s.buf i), started := s.started ++ [i] }) := by
      apply State.idestart_buf
      . exact hready
      . exact hok.2.2.2
    rw [if_pos hhead, hstart]
    refine ⟨_, congrArg (fun s => some (Except.ok s)) (if_neg hok.2.1), ?_⟩
    apply h.enqueue hp hlists
    . rw [h.started, List.take_of_length_le (by omega), List.take_of_length_le]
      . unfold State.enqueue
        rw [List.map_append]
        rfl
      . change (s.arrived ++ [_]).length ≤ _
        rw [List.length_append, List.length_singleton, hretired]
    . rw [hnext']
      refine ⟨issue_executing s.ctl ?_ ?_, issue_control .., .inl ?_⟩
      . rw [hok.2.2.1]
        decide
      . exact Nat.lt_trans hok.2.2.2 (by decide)
      . exact ⟨issue_phase .., (issue_intr ..).trans hintr, by rw [issue_media, hmedia]⟩
  | some r =>
    have hlt : s.retired < s.arrived.length := (List.getElem?_eq_some_iff.mp hnext).1
    have hr : r ∈ s.pending := mem_pending.mpr ⟨_, Nat.le_refl _, hnext⟩
    have hhead : (s.enqueue p i pp).link none ≠ some i := by
      have hlists' := hlists
      rw [State.pending_eq_cons hnext] at hlists'
      intro heq
      have hi : i = r.buf := Option.some.inj (heq.symm.trans hlists'.1)
      apply h.not_mem_pending hp
      rw [hi]
      exact List.mem_map_of_mem hr
    rw [if_neg hhead]
    refine ⟨_, congrArg (fun s => some (Except.ok s)) (if_neg hok.2.1), ?_⟩
    apply h.enqueue hp hlists
    . apply h.started.trans
      congr 1
      exact (List.take_append_of_le_length hlt).symm
    . have hold : (s.enqueue p i pp).arrived[s.retired]? = s.arrived[s.retired]? :=
        List.getElem?_append_left hlt
      rw [hold]
      exact h.disk

end

omit [DecidableEq P] in
theorem State.wakeup_pc (s : State B P) (i : B) {q : P} {pc : Pc B} (h : s.pc q = pc)
    (hne : ∀ m, pc ≠ .sleeping i m)
    : (s.wakeup i).pc q = pc := by
  unfold State.wakeup
  dsimp only
  rw [h]
  cases pc with
  | sleeping j m =>
    apply if_neg
    intro heq
    apply hne m
    rw [heq]
  | _ => rfl

omit [DecidableEq P] in
theorem State.wakeup_sleeping (s : State B P) {i : B} {q : P} {m : Nat} (h : s.pc q = .sleeping i m)
    : (s.wakeup i).pc q = .woken i m := by
  unfold State.wakeup
  dsimp only
  rw [h]
  exact if_pos rfl

def State.retire (s : State B P) (i : B) (data : Block) : State B P :=
  ({ s with link := Fifo.pop s.link i }.finish i data).wakeup i

omit [DecidableEq P] in
theorem Inv.retire {r : Request B P} {data : Block} {ctl : Ctl} {started : List B}
    (h : Inv media s) (hr : s.arrived[s.retired]? = some r)
    (hdata : data = (Memide.sync (serve media (s.arrived.take s.retired)) r.val).2.data)
    (hstarted : started = (s.arrived.take (s.retired + 2)).map (·.buf))
    (hdisk : DiskOk ctl (serve media (s.arrived.take (s.retired + 1))) s.arrived[s.retired + 1]?)
    : Inv media { s.retire r.buf data with ctl := ctl, started := started } := by
  have hpending := State.pending_eq_cons hr
  have hlists := h.lists
  have hnodup := h.nodup
  rw [hpending, List.map_cons] at hlists hnodup
  have hmem : r ∈ s.pending := mem_pending.mpr ⟨_, Nat.le_refl _, hr⟩
  -- the other buffers in use are not touched
  have hother : ∀ q j, (s.pc q).uses j → q ≠ r.proc → (s.retire r.buf data).buf j = s.buf j := by
    intro q j hq hne
    apply Function.update_of_ne
    intro heq
    rw [heq] at hq
    exact hne (h.eq_of_uses hq (h.uses_of_pending hmem))
  -- nobody else sleeps on this buffer
  have hpc : ∀ q, q ≠ r.proc → (s.retire r.buf data).pc q = s.pc q := by
    intro q hne
    apply State.wakeup_pc _ _ rfl
    intro m hm
    apply hne
    apply h.eq_of_uses _ (h.uses_of_pending hmem)
    have hm : s.pc q = .sleeping r.buf m := hm
    rw [hm]
    rfl
  have hsleep := h.asleep s.retired r (Nat.le_refl _) hr
  constructor
  . exact hlists.pop
  . exact (List.nodup_cons.mp hnodup).2
  . exact h.ok
  . intro m r' hle hr'
    have hle : s.retired + 1 ≤ m := hle
    have hasleep := h.asleep m r' (by omega) hr'
    apply (hpc r'.proc _).trans hasleep
    intro heq
    rw [heq, hsleep] at hasleep
    injection hasleep
    omega
  . intro r' hr'
    have hr' : r' ∈ s.arrived.drop (s.retired + 1) := hr'
    have hne : r'.buf ≠ r.buf := by
      intro heq
      apply (List.nodup_cons.mp hnodup).1
      rw [← heq]
      exact List.mem_map_of_mem hr'
    have hsame := h.same r' (hpending ▸ List.mem_cons_of_mem r hr')
    rw [← Function.update_of_ne hne _ s.buf] at hsame
    exact hsame
  . intro q
    change PcOk _ media q ((s.retire r.buf data).pc q)
    by_cases hq : q = r.proc
    . have hwoken : (s.retire r.buf data).pc q = .woken r.buf s.retired := by
        rw [hq]
        exact State.wakeup_sleeping _ hsleep
      rw [hwoken]
      refine ⟨Nat.lt_succ_self _, r, hr, hq.symm, rfl, ?_⟩
      have hself : (s.retire r.buf data).buf r.buf
          = { s.buf r.buf with data := data, valid := true, dirty := false } :=
        Function.update_self ..
      change ((s.retire r.buf data).buf r.buf).Same _
      rw [hself]
      have hsame := h.same r hmem
      have hflags := Memide.sync_flags (serve media (s.arrived.take s.retired)) r.val
      have hkey := Memide.sync_key (serve media (s.arrived.take s.retired)) r.val
      constructor
      . exact hflags.1.symm
      . exact hflags.2.symm
      . exact hsame.dev.trans hkey.1.symm
      . exact hsame.blockno.trans hkey.2.symm
      . exact hsame.lock.trans (Memide.sync_lock ..).symm
      . exact hdata
    . rw [hpc q hq]
      have hok := h.pcOk q
      have hbuf := hother q
      cases hqpc : s.pc q with
      | user => trivial
      | acquire j =>
        rw [hqpc] at hok hbuf
        change ({ proc := q, buf := j, val := (s.retire r.buf data).buf j } : Request B P).Ok
        rw [hbuf j rfl hq]
        exact hok
      | sleeping j m =>
        rw [hqpc] at hok
        rcases hok with ⟨hle, r', hr', hproc, hj⟩
        refine ⟨?_, r', hr', hproc, hj⟩
        change s.retired + 1 ≤ m
        apply Nat.lt_of_le_of_ne hle
        rintro rfl
        apply hq
        rw [hr] at hr'
        cases hr'
        exact hproc.symm
      | woken j m =>
        rw [hqpc] at hok hbuf
        rcases hok with ⟨hlt, r', hr', hproc, hj, hsame⟩
        refine ⟨Nat.lt_succ_of_lt hlt, r', hr', hproc, hj, ?_⟩
        change ((s.retire r.buf data).buf j).Same _
        rw [hbuf j rfl hq]
        exact hsame
  . exact hstarted
  . exact (List.getElem?_eq_some_iff.mp hr).1
  . exact hdisk

omit [DecidableEq P] in
theorem State.ideintr_eq {i : B} {data : Block} (hlink : s.link none = some i)
    (hready : s.ctl.phase = .ready)
    (hdata : data = if (s.buf i).dirty then (s.buf i).data else s.ctl.port)
    : s.ideintr
      = if (s.retire i data).link none ≠ none then
          (s.retire i data).idestart ((s.retire i data).link none)
        else
          some (.ok (s.retire i data)) := by
  have hphase : s.ctl.phase ≠ .busy := by
    rw [hready]
    decide
  rw [hdata]
  unfold State.ideintr
  rw [hlink]
  dsimp only
  rw [idewait_of_ne_busy hphase]
  split <;> rfl

omit [DecidableEq P] in
theorem Inv.ideintr (h : Inv media s) (hintr : s.ctl.intr = true)
    : ∃ s', s.ack.ideintr = some (.ok s') ∧ Inv media s' := by
  have hdisk := h.disk
  cases hr : s.arrived[s.retired]? with
  | none =>
    rw [hr] at hdisk
    rw [hdisk.2.1] at hintr
    cases hintr
  | some r =>
    rw [hr] at hdisk
    rcases hdisk with ⟨-, -, ⟨-, hnot, -⟩ | ⟨hready, -, hmedia, hport⟩⟩
    . rw [hnot] at hintr
      cases hintr
    . have hpending := State.pending_eq_cons hr
      have hlists := h.lists
      have hnodup := h.nodup
      rw [hpending, List.map_cons] at hlists hnodup
      have hsame := h.same r (mem_pending.mpr ⟨_, Nat.le_refl _, hr⟩)
      generalize hdata : (if (s.buf r.buf).dirty then (s.buf r.buf).data else s.ctl.port) = data
      have hsync : data = (Memide.sync (serve media (s.arrived.take s.retired)) r.val).2.data := by
        rw [← hdata, hsame.dirty, hsame.data]
        cases hdirty : r.val.dirty with
        | true =>
          unfold Memide.sync
          rw [hdirty]
          rfl
        | false => exact hport hdirty
      rw [← serve_take_succ hr] at hmedia
      rw [State.ideintr_eq (s := s.ack) hlists.1 hready hdata.symm]
      have hpop := hlists.pop
      cases hr' : s.arrived[s.retired + 1]? with
      | none =>
        -- the queue is empty now
        have hlen : s.arrived.length ≤ s.retired + 1 := List.getElem?_eq_none_iff.mp hr'
        rw [List.drop_eq_nil_of_le hlen] at hpop
        have hlink : (s.ack.retire r.buf data).link none = none := hpop
        rw [if_neg (not_not.mpr hlink)]
        refine ⟨_, rfl, ?_⟩
        apply h.retire hr hsync
        . rw [List.take_of_length_le (Nat.le_succ_of_le hlen), ← List.take_of_length_le hlen]
          exact h.started
        . rw [hr']
          exact ⟨hready, rfl, hmedia⟩
      | some r' =>
        have hlt : s.retired + 1 < s.arrived.length := (List.getElem?_eq_some_iff.mp hr').1
        have hdrop : s.arrived.drop (s.retired + 1) = r' :: s.arrived.drop (s.retired + 2) := by
          rw [List.drop_eq_getElem_cons hlt, (List.getElem?_eq_some_iff.mp hr').2]
        rw [hdrop] at hpop hnodup
        have hne : r'.buf ≠ r.buf := by
          intro heq
          apply (List.nodup_cons.mp hnodup).1
          rw [← heq]
          exact List.mem_cons_self
        have hok := h.ok r' (List.mem_of_getElem? hr')
        have hsame' := h.same r' (mem_pending.mpr ⟨_, Nat.le_succ _, hr'⟩)
        have hbuf : (s.ack.retire r.buf data).buf r'.buf = s.buf r'.buf :=
          Function.update_of_ne hne ..
        have hlink : (s.ack.retire r.buf data).link none = some r'.buf := hpop.1
        have hblockno : ((s.ack.retire r.buf data).buf r'.buf).blockno < FSSIZE := by
          rw [hbuf, hsame'.blockno]
          exact hok.2.2.2
        rw [hlink, if_pos (Option.some_ne_none _),
          State.idestart_buf (s := s.ack.retire r.buf data) hready hblockno, hbuf]
        refine ⟨_, rfl, ?_⟩
        apply h.retire hr hsync
        . change s.started ++ _ = _
          rw [h.started, List.take_add_one (i := s.retired + 1), hr', List.map_append]
          rfl
        . rw [hr']
          refine ⟨?_, issue_control .., .inl ⟨issue_phase .., issue_intr .., ?_⟩⟩
          . rw [← Command.ofBuf_congr hsame']
            apply issue_executing
            . rw [hsame'.dev, hok.2.2.1]
              decide
            . rw [hsame'.blockno]
              exact Nat.lt_trans hok.2.2.2 (by decide)
          . rw [issue_media]
            exact hmedia

end
end
end Ide
end Xv6
