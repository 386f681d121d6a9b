import Mathlib.Logic.Function.Basic
import Xv6.Lib.Guard
import Xv6.Lib.Reach

/-!
The sleep locks of `sleeplock.c`, one instruction at a time, with the `sleep` and
`wakeup` that they use, and the proof that they exclude each other and strand nobody.
-/

namespace Xv6.SleepLock

variable {a b : Pc} {pc : Pc} {i : Nat}

inductive Pc
  | out
  | held
  | acquire
  | test
  | sleepAcquire
  | sleepRelease
  | sleepChan
  | sleepState
  | sleepSched
  | asleep
  | tidyUp
  | sleepUnlock
  | sleepRelock
  | take
  | taken
  | release
  | clear
  | wakeupAcquire
  | wakeup1 (i : Nat)
  | wakeupRelease
  | released
  | holding (inside : Bool)
  | check (inside : Bool)
  | checked (inside r : Bool)
deriving DecidableEq, Repr

structure Thread where
  pc : Pc := .out
  sleeping : Bool := false
  chan : Bool := false

structure State (n : Nat) where
  lk : Bool
  ptable : Bool
  locked : Bool
  pid : Int
  thread : Fin n → Thread

inductive Call
  | acquiresleep
  | releasesleep
  | holdingsleep

inductive Act (n : Nat)
  | call (p : Fin n) (c : Call)
  | next (p : Fin n)
  | dispatch (p : Fin n)
  | kill (p : Fin n)

namespace State

variable {n : Nat}

def init : State n where
  lk := false
  ptable := false
  locked := false
  pid := 0
  thread _ := {}

def setThread (s : State n) (p : Fin n) (t : Thread) : State n :=
  { s with thread := Function.update s.thread p t }

def setPc (s : State n) (p : Fin n) (pc : Pc) : State n :=
  s.setThread p { s.thread p with pc }

def awake (s : State n) (p : Fin n) : State n :=
  s.setThread p { s.thread p with sleeping := false }

def acquireLk (s : State n) (p : Fin n) (pc : Pc) : Option (State n) :=
  if s.lk then none else some ({ s with lk := true }.setPc p pc)

def releaseLk (s : State n) (p : Fin n) (pc : Pc) : State n :=
  { s with lk := false }.setPc p pc

def acquirePtable (s : State n) (p : Fin n) (pc : Pc) : Option (State n) :=
  if s.ptable then none else some ({ s with ptable := true }.setPc p pc)

def releasePtable (s : State n) (p : Fin n) (pc : Pc) : State n :=
  { s with ptable := false }.setPc p pc

def call (s : State n) (p : Fin n) (c : Call) : Option (State n) :=
  match (s.thread p).pc, c with
  | .out, .acquiresleep => some (s.setPc p .acquire)
  | .held, .releasesleep => some (s.setPc p .release)
  | .out, .holdingsleep => some (s.setPc p (.holding false))
  | .held, .holdingsleep => some (s.setPc p (.holding true))
  | _, _ => none

def next (pid : Fin n → Int) (s : State n) (p : Fin n) : Option (State n) :=
  match (s.thread p).pc with
  | .out | .held | .asleep => none
  | .acquire => s.acquireLk p .test
  | .test => some (s.setPc p (if s.locked then .sleepAcquire else .take))
  | .sleepAcquire => s.acquirePtable p .sleepRelease
  | .sleepRelease => some (s.releaseLk p .sleepChan)
  | .sleepChan => some (s.setThread p { s.thread p with chan := true, pc := .sleepState })
  | .sleepState => some (s.setThread p { s.thread p with sleeping := true, pc := .sleepSched })
  | .sleepSched => some (s.releasePtable p .asleep)
  | .tidyUp => some (s.setThread p { s.thread p with chan := false, pc := .sleepUnlock })
  | .sleepUnlock => some (s.releasePtable p .sleepRelock)
  | .sleepRelock => s.acquireLk p .test
  | .take => some ({ s with locked := true, pid := pid p }.setPc p .taken)
  | .taken => some (s.releaseLk p .held)
  | .release => s.acquireLk p .clear
  | .clear => some ({ s with locked := false, pid := 0 }.setPc p .wakeupAcquire)
  | .wakeupAcquire => s.acquirePtable p (.wakeup1 0)
  | .wakeup1 i =>
    if h : i < n then
      let s := if (s.thread ⟨i, h⟩).sleeping && (s.thread ⟨i, h⟩).chan then s.awake ⟨i, h⟩ else s
      some (s.setPc p (.wakeup1 (i + 1)))
    else
      some (s.setPc p .wakeupRelease)
  | .wakeupRelease => some (s.releasePtable p .released)
  | .released => some (s.releaseLk p .out)
  | .holding inside => s.acquireLk p (.check inside)
  | .check inside => some (s.setPc p (.checked inside (s.locked && s.pid = pid p)))
  | .checked inside _ => some (s.releaseLk p (if inside then .held else .out))

def dispatch (s : State n) (p : Fin n) : Option (State n) :=
  if (s.thread p).pc = .asleep ∧ (s.thread p).sleeping = false then s.acquirePtable p .tidyUp else none

def kill (s : State n) (p : Fin n) : Option (State n) :=
  if s.ptable then none else some (s.awake p)

def step (pid : Fin n → Int) (s : State n) : Act n → Option (State n)
  | .call p c => s.call p c
  | .next p => s.next pid p
  | .dispatch p => s.dispatch p
  | .kill p => s.kill p

def Steps (pid : Fin n → Int) (s : State n) (a : Act n) (s' : State n) : Prop :=
  s.step pid a = some s'

end State

namespace Pc

def hasLk : Pc → Bool
  | .test | .sleepAcquire | .sleepRelease | .take | .taken | .clear | .wakeupAcquire | .wakeup1 _
  | .wakeupRelease | .released | .check _ | .checked _ _ => true
  | _ => false

def hasPtable : Pc → Bool
  | .sleepRelease | .sleepChan | .sleepState | .sleepSched | .tidyUp | .sleepUnlock | .wakeup1 _
  | .wakeupRelease => true
  | _ => false

def between : Pc → Bool
  | .held | .holding true | .check true | .checked true _ => true
  | _ => false

def owns : Pc → Bool
  | .taken | .release | .clear => true
  | pc => pc.between

def early : Pc → Bool
  | .sleepAcquire | .sleepRelease => true
  | _ => false

def late : Pc → Bool
  | .sleepChan | .sleepState => true
  | _ => false

def wakes (i : Nat) : Pc → Bool
  | .wakeupAcquire => true
  | .wakeup1 j => j ≤ i
  | _ => false

theorem owns_of_between (h : pc.between = true) : pc.owns = true := by
  cases pc <;> first | exact h | cases h

theorem hasLk_of_early (h : pc.early = true) : pc.hasLk = true := by
  cases pc <;> first | rfl | cases h

theorem hasPtable_of_late (h : pc.late = true) : pc.hasPtable = true := by
  cases pc <;> first | rfl | cases h

theorem hasLk_of_wakes (h : pc.wakes i = true) : pc.hasLk = true := by
  cases pc <;> first | rfl | cases h

end Pc

structure Thread.Ok (t : Thread) : Prop where
  chan : t.pc = .sleepState ∨ t.sleeping = true → t.chan = true
  sleeping : t.sleeping = true → t.pc = .sleepSched ∨ t.pc = .asleep
  result : ∀ inside r, t.pc = .checked inside r → r = inside

structure Inv {n : Nat} (pid : Fin n → Int) (s : State n) : Prop where
  lk : Guards s.lk fun p => (s.thread p).pc.hasLk = true
  ptable : Guards s.ptable fun p => (s.thread p).pc.hasPtable = true
  owner : Guards s.locked fun p => (s.thread p).pc.owns = true
  pid : ∀ p, (s.thread p).pc.owns = true → s.pid = pid p
  take : ∀ p, (s.thread p).pc = .take → s.locked = false
  early : ∀ p, (s.thread p).pc.early = true → s.locked = true
  ok : ∀ p, (s.thread p).Ok
  woken : ∀ q, (s.thread q).pc.late = true ∨ (s.thread q).sleeping = true
    → s.locked = true ∨ ∃ p, (s.thread p).pc.wakes q = true

variable {n : Nat} {pid : Fin n → Int} {s s' : State n} {p : Fin n}

theorem inv_init : Inv pid (State.init : State n) where
  lk := .release (by rintro _ ⟨⟩)
  ptable := .release (by rintro _ ⟨⟩)
  owner := .release (by rintro _ ⟨⟩)
  pid := by rintro _ ⟨⟩
  take := by rintro _ ⟨⟩
  early := by rintro _ ⟨⟩
  ok _ := by
    refine ⟨?_, ?_, ?_⟩
    . intro h
      cases h with
      | inl h => cases h
      | inr h => cases h
    . rintro ⟨⟩
    . rintro _ _ ⟨⟩
  woken _ h := by
    cases h with
    | inl h => cases h
    | inr h => cases h

structure Move (pid : Fin n → Int) (s s' : State n) (p : Fin n) (t u : Thread) : Prop where
  before : s.thread p = t
  after : s'.thread = Function.update s.thread p u
  lk : Guards.Moves s.lk s'.lk t.pc.hasLk u.pc.hasLk
  ptable : Guards.Moves s.ptable s'.ptable t.pc.hasPtable u.pc.hasPtable
  owner : Guards.Moves s.locked s'.locked t.pc.owns u.pc.owns
  pid_self : u.pc.owns = true → s'.pid = pid p
  pid_other : s'.pid = s.pid ∨ t.pc.owns = true ∨ s.locked = false
  locked : s'.locked = s.locked ∨ t.pc.hasLk = true
  take : u.pc = .take → s'.locked = false
  early : u.pc.early = true → s'.locked = true
  ok : u.Ok
  woken : u.pc.late = true ∨ u.sleeping = true
    → s'.locked = true ∨ t.pc.late = true ∨ t.sleeping = true
  unlock : s.locked = true → s'.locked = true ∨ u.pc = .wakeupAcquire
  wakes : ∀ q : Fin n, t.pc.wakes q = true
    → (s.thread q).pc.late = true ∨ (s.thread q).sleeping = true → u.pc.wakes q = true

theorem Move.inv {t u : Thread} (h : Move pid s s' p t u) (hinv : Inv pid s) : Inv pid s' := by
  have hself : s'.thread p = u := by
    rw [h.after, Function.update_self]
  have hother : ∀ q, q ≠ p → s'.thread q = s.thread q := by
    intro q hq
    rw [h.after, Function.update_of_ne hq]
  have hbefore := h.before
  subst hbefore
  refine ⟨?_, ?_, ?_, ?_, ?_, ?_, ?_, ?_⟩
  . exact hinv.lk.step (fun q hq => by rw [hother q hq]) (by rw [hself]; exact h.lk)
  . exact hinv.ptable.step (fun q hq => by rw [hother q hq]) (by rw [hself]; exact h.ptable)
  . exact hinv.owner.step (fun q hq => by rw [hother q hq]) (by rw [hself]; exact h.owner)
  . intro q hq
    by_cases heq : q = p
    . rw [heq, hself] at hq
      rw [heq]
      exact h.pid_self hq
    rw [hother q heq] at hq
    rcases h.pid_other with hsame | howns | hfree
    . rw [hsame]
      exact hinv.pid q hq
    . exact absurd (hinv.owner.unique q p hq howns) heq
    . rw [hinv.owner.set_of_has hq] at hfree
      cases hfree
  . intro q hq
    by_cases heq : q = p
    . rw [heq, hself] at hq
      exact h.take hq
    rw [hother q heq] at hq
    rcases h.locked with hsame | hlk
    . rw [hsame]
      exact hinv.take q hq
    . exact absurd (hinv.lk.unique q p (by rw [hq]; rfl) hlk) heq
  . intro q hq
    by_cases heq : q = p
    . rw [heq, hself] at hq
      exact h.early hq
    rw [hother q heq] at hq
    rcases h.locked with hsame | hlk
    . rw [hsame]
      exact hinv.early q hq
    . exact absurd (hinv.lk.unique q p (Pc.hasLk_of_early hq) hlk) heq
  . intro q
    by_cases heq : q = p
    . rw [heq, hself]
      exact h.ok
    . rw [hother q heq]
      exact hinv.ok q
  . intro q hq
    -- who was going to be woken before still is
    have hkeep : (s.thread q).pc.late = true ∨ (s.thread q).sleeping = true
        → s'.locked = true ∨ ∃ p, (s'.thread p).pc.wakes q = true := by
      intro hold
      rcases hinv.woken q hold with hlocked | ⟨r, hr⟩
      . rcases h.unlock hlocked with hlocked' | hwake
        . exact .inl hlocked'
        . exact .inr ⟨p, by rw [hself, hwake]; rfl⟩
      . by_cases hrp : r = p
        . rw [hrp] at hr
          exact .inr ⟨p, by rw [hself]; exact h.wakes q hr hold⟩
        . exact .inr ⟨r, by rw [hother r hrp]; exact hr⟩
    by_cases heq : q = p
    . rw [heq, hself] at hq
      rcases h.woken hq with hlocked | hold
      . exact .inl hlocked
      . exact hkeep (heq ▸ hold)
    . rw [hother q heq] at hq
      exact hkeep hq

theorem Inv.awake (hinv : Inv pid s) (q : Fin n) : Inv pid (s.awake q) := by
  have hok := hinv.ok q
  refine Move.inv (u := ⟨(s.thread q).pc, false, (s.thread q).chan⟩)
    ⟨rfl, rfl, .inl ⟨rfl, rfl⟩, .inl ⟨rfl, rfl⟩, .inl ⟨rfl, rfl⟩, hinv.pid q, .inl rfl, .inl rfl,
      hinv.take q, hinv.early q, ?_, ?_, .inl, fun _ hw _ => hw⟩ hinv
  . refine ⟨?_, by rintro ⟨⟩, hok.result⟩
    intro h
    cases h with
    | inl hpc => exact hok.chan (.inl hpc)
    | inr h => cases h
  . intro h
    cases h with
    | inl hlate => exact .inr (.inl hlate)
    | inr h => cases h

theorem awake_thread (s : State n) (q : Fin n)
    : (s.awake q).thread q = { s.thread q with sleeping := false } := by
  exact Function.update_self q _ s.thread

theorem awake_pc (s : State n) (q p : Fin n) : ((s.awake q).thread p).pc = (s.thread p).pc := by
  by_cases h : p = q
  . rw [h, awake_thread]
  . exact congrArg Thread.pc (Function.update_of_ne h _ s.thread)

theorem awake_sleeping (s : State n) (q : Fin n) : ((s.awake q).thread q).sleeping = false := by
  rw [awake_thread]

theorem Inv.thread_eq {a : Pc} (hinv : Inv pid s) (ha : (s.thread p).pc = a) (hsched : a ≠ .sleepSched)
    (hasleep : a ≠ .asleep)
    : s.thread p = ⟨a, false, (s.thread p).chan⟩ := by
  have hawake : (s.thread p).sleeping = false := by
    rw [← Bool.not_eq_true]
    intro hsleeping
    rcases (hinv.ok p).sleeping hsleeping with hpc | hpc
    . exact hsched (ha.symm.trans hpc)
    . exact hasleep (ha.symm.trans hpc)
  rw [← ha, ← hawake]

theorem setPc_thread {a : Pc} {chan : Bool} (b : Pc) (h : s.thread p = ⟨a, false, chan⟩)
    : (s.setPc p b).thread = Function.update s.thread p ⟨b, false, chan⟩ := by
  unfold State.setPc
  rw [h]
  rfl

theorem Thread.ok_of (chan : Bool) (hstate : pc ≠ .sleepState)
    (hchecked : ∀ inside r, pc ≠ .checked inside r)
    : Thread.Ok ⟨pc, false, chan⟩ := by
  refine ⟨?_, by rintro ⟨⟩, fun inside r hpc => absurd hpc (hchecked inside r)⟩
  intro hor
  cases hor with
  | inl hpc => exact absurd hpc hstate
  | inr hsleeping => cases hsleeping

structure Plain (n : Nat) (a b : Pc) : Prop where
  owns : b.owns = a.owns
  take : b ≠ .take
  early : b.early = false
  late : b.late = false
  checked : ∀ inside r, b ≠ .checked inside r
  wakes : ∀ q : Fin n, a.wakes q = true → b.wakes q = true

theorem Inv.goto {chan : Bool} (hinv : Inv pid s) (hbefore : s.thread p = ⟨a, false, chan⟩)
    (hafter : s'.thread = Function.update s.thread p ⟨b, false, chan⟩)
    (hlk : Guards.Moves s.lk s'.lk a.hasLk b.hasLk)
    (hptable : Guards.Moves s.ptable s'.ptable a.hasPtable b.hasPtable)
    (hlocked : s'.locked = s.locked) (hpid : s'.pid = s.pid) (hplain : Plain n a b)
    : Inv pid s' := by
  have hstate : b ≠ .sleepState := by
    rintro rfl
    cases hplain.late
  refine Move.inv ⟨hbefore, hafter, hlk, hptable, .inl ⟨hplain.owns, hlocked⟩, ?_, .inl hpid, .inl hlocked,
    fun h => absurd h hplain.take, ?_, Thread.ok_of chan hstate hplain.checked, ?_,
    fun h => .inl (hlocked.trans h), fun q hq _ => hplain.wakes q hq⟩ hinv
  . intro hown
    rw [hpid]
    apply hinv.pid p
    rw [hbefore]
    exact hplain.owns.symm.trans hown
  . intro h
    rw [hplain.early] at h
    cases h
  . intro hor
    cases hor with
    | inl h =>
      rw [hplain.late] at h
      cases h
    | inr h => cases h

theorem Inv.call {c : Call} (hinv : Inv pid s) (h : s.call p c = some s') : Inv pid s' := by
  unfold State.call at h
  split at h
  case h_5 => cases h
  all_goals
    next hpc =>
    cases h
    have ht := hinv.thread_eq hpc (by decide) (by decide)
    exact hinv.goto ht (setPc_thread _ ht) (.inl ⟨rfl, rfl⟩) (.inl ⟨rfl, rfl⟩) rfl rfl
      ⟨rfl, by decide, rfl, rfl, by rintro _ _ ⟨⟩, by rintro _ ⟨⟩⟩

theorem acquireLk_eq {b : Pc} (h : s.acquireLk p b = some s')
    : s.lk = false ∧ s' = { s with lk := true }.setPc p b := by
  unfold State.acquireLk at h
  split at h
  next => cases h
  next hfree =>
    cases h
    exact ⟨Bool.not_eq_true _ ▸ hfree, rfl⟩

theorem acquirePtable_eq {b : Pc} (h : s.acquirePtable p b = some s')
    : s.ptable = false ∧ s' = { s with ptable := true }.setPc p b := by
  unfold State.acquirePtable at h
  split at h
  next => cases h
  next hfree =>
    cases h
    exact ⟨Bool.not_eq_true _ ▸ hfree, rfl⟩

section
variable (hinv : Inv pid s)
include hinv

theorem Inv.test (hpc : (s.thread p).pc = .test)
    : Inv pid (s.setPc p (if s.locked then .sleepAcquire else .take)) := by
  have ht := hinv.thread_eq hpc (by decide) (by decide)
  cases hlocked : s.locked with
  | true =>
    exact Move.inv ⟨ht, setPc_thread .sleepAcquire ht, .inl ⟨rfl, rfl⟩, .inl ⟨rfl, rfl⟩, .inl ⟨rfl, rfl⟩,
      by rintro ⟨⟩, .inl rfl, .inl rfl, by rintro ⟨⟩, fun _ => hlocked,
      Thread.ok_of _ (by decide) (by rintro _ _ ⟨⟩), fun _ => .inl hlocked, .inl, by rintro _ ⟨⟩⟩ hinv
  | false =>
    exact Move.inv ⟨ht, setPc_thread .take ht, .inl ⟨rfl, rfl⟩, .inl ⟨rfl, rfl⟩, .inl ⟨rfl, rfl⟩,
      by rintro ⟨⟩, .inl rfl, .inl rfl, fun _ => hlocked, by rintro ⟨⟩,
      Thread.ok_of _ (by decide) (by rintro _ _ ⟨⟩),
      fun h => (h.elim Bool.false_ne_true Bool.false_ne_true).elim, .inl, by rintro _ ⟨⟩⟩ hinv

theorem Inv.sleepAcquire (hpc : (s.thread p).pc = .sleepAcquire)
    (h : s.acquirePtable p .sleepRelease = some s')
    : Inv pid s' := by
  have ht := hinv.thread_eq hpc (by decide) (by decide)
  have hlocked := hinv.early p (by rw [hpc]; rfl)
  rcases acquirePtable_eq h with ⟨hfree, rfl⟩
  exact Move.inv ⟨ht, setPc_thread .sleepRelease ht, .inl ⟨rfl, rfl⟩, .inr (.inl ⟨rfl, rfl, hfree, rfl⟩),
    .inl ⟨rfl, rfl⟩, by rintro ⟨⟩, .inl rfl, .inl rfl, by rintro ⟨⟩, fun _ => hlocked,
    Thread.ok_of _ (by decide) (by rintro _ _ ⟨⟩), fun _ => .inl hlocked, .inl, by rintro _ ⟨⟩⟩ hinv

theorem Inv.sleepRelease (hpc : (s.thread p).pc = .sleepRelease)
    : Inv pid (s.releaseLk p .sleepChan) := by
  have ht := hinv.thread_eq hpc (by decide) (by decide)
  have hlocked := hinv.early p (by rw [hpc]; rfl)
  exact Move.inv ⟨ht, setPc_thread .sleepChan ht, .inr (.inr ⟨rfl, rfl, rfl⟩), .inl ⟨rfl, rfl⟩,
    .inl ⟨rfl, rfl⟩, by rintro ⟨⟩, .inl rfl, .inl rfl, by rintro ⟨⟩, by rintro ⟨⟩,
    Thread.ok_of _ (by decide) (by rintro _ _ ⟨⟩), fun _ => .inl hlocked, .inl, by rintro _ ⟨⟩⟩ hinv

theorem Inv.sleepChan (hpc : (s.thread p).pc = .sleepChan)
    : Inv pid (s.setThread p { s.thread p with chan := true, pc := .sleepState }) := by
  have ht := hinv.thread_eq hpc (by decide) (by decide)
  refine Move.inv (u := ⟨.sleepState, false, true⟩) ⟨ht, by rw [ht]; rfl, .inl ⟨rfl, rfl⟩, .inl ⟨rfl, rfl⟩,
    .inl ⟨rfl, rfl⟩, by rintro ⟨⟩, .inl rfl, .inl rfl, by rintro ⟨⟩, by rintro ⟨⟩,
    ⟨fun _ => rfl, by rintro ⟨⟩, by rintro _ _ ⟨⟩⟩, fun _ => .inr (.inl rfl), .inl, by rintro _ ⟨⟩⟩ hinv

theorem Inv.sleepState (hpc : (s.thread p).pc = .sleepState)
    : Inv pid (s.setThread p { s.thread p with sleeping := true, pc := .sleepSched }) := by
  have ht := hinv.thread_eq hpc (by decide) (by decide)
  have hchan := (hinv.ok p).chan (.inl hpc)
  rw [hchan] at ht
  refine Move.inv (u := ⟨.sleepSched, true, true⟩) ⟨ht, by rw [ht]; rfl, .inl ⟨rfl, rfl⟩,
    .inl ⟨rfl, rfl⟩, .inl ⟨rfl, rfl⟩, by rintro ⟨⟩, .inl rfl, .inl rfl, by rintro ⟨⟩, by rintro ⟨⟩,
    ⟨fun _ => rfl, fun _ => .inl rfl, by rintro _ _ ⟨⟩⟩, fun _ => .inr (.inl rfl), .inl, by rintro _ ⟨⟩⟩
    hinv

theorem Inv.sleepSched (hpc : (s.thread p).pc = .sleepSched)
    : Inv pid (s.releasePtable p .asleep) := by
  have hok := hinv.ok p
  have ht : s.thread p = ⟨.sleepSched, (s.thread p).sleeping, (s.thread p).chan⟩ := by
    rw [← hpc]
  refine Move.inv (u := ⟨.asleep, (s.thread p).sleeping, (s.thread p).chan⟩) ⟨ht, rfl, .inl ⟨rfl, rfl⟩,
    .inr (.inr ⟨rfl, rfl, rfl⟩), .inl ⟨rfl, rfl⟩, by rintro ⟨⟩, .inl rfl, .inl rfl, by rintro ⟨⟩,
    by rintro ⟨⟩, ⟨?_, fun _ => .inr rfl, by rintro _ _ ⟨⟩⟩, ?_, .inl, by rintro _ ⟨⟩⟩ hinv
  . intro hor
    cases hor with
    | inl h => cases h
    | inr h => exact hok.chan (.inr h)
  . intro hor
    cases hor with
    | inl h => cases h
    | inr h => exact .inr (.inr h)

theorem Inv.tidyUp (hpc : (s.thread p).pc = .tidyUp)
    : Inv pid (s.setThread p { s.thread p with chan := false, pc := .sleepUnlock }) := by
  have ht := hinv.thread_eq hpc (by decide) (by decide)
  exact Move.inv (u := ⟨.sleepUnlock, false, false⟩) ⟨ht, by rw [ht]; rfl, .inl ⟨rfl, rfl⟩,
    .inl ⟨rfl, rfl⟩, .inl ⟨rfl, rfl⟩, by rintro ⟨⟩, .inl rfl, .inl rfl, by rintro ⟨⟩, by rintro ⟨⟩,
    Thread.ok_of _ (by decide) (by rintro _ _ ⟨⟩),
    fun h => (h.elim Bool.false_ne_true Bool.false_ne_true).elim, .inl, by rintro _ ⟨⟩⟩ hinv

theorem Inv.takeLock (hpc : (s.thread p).pc = .take)
    : Inv pid ({ s with locked := true, pid := pid p }.setPc p .taken) := by
  have ht := hinv.thread_eq hpc (by decide) (by decide)
  have hfree := hinv.take p hpc
  exact Move.inv ⟨ht, setPc_thread (s := { s with locked := true, pid := pid p }) .taken ht,
    .inl ⟨rfl, rfl⟩, .inl ⟨rfl, rfl⟩, .inr (.inl ⟨rfl, rfl, hfree, rfl⟩), fun _ => rfl, .inr (.inr hfree),
    .inr rfl, by rintro ⟨⟩, by rintro ⟨⟩, Thread.ok_of _ (by decide) (by rintro _ _ ⟨⟩),
    fun _ => .inl rfl, fun _ => .inl rfl, by rintro _ ⟨⟩⟩ hinv

theorem Inv.clear (hpc : (s.thread p).pc = .clear)
    : Inv pid ({ s with locked := false, pid := 0 }.setPc p .wakeupAcquire) := by
  have ht := hinv.thread_eq hpc (by decide) (by decide)
  exact Move.inv ⟨ht, setPc_thread (s := { s with locked := false, pid := 0 }) .wakeupAcquire ht,
    .inl ⟨rfl, rfl⟩, .inl ⟨rfl, rfl⟩, .inr (.inr ⟨rfl, rfl, rfl⟩), by rintro ⟨⟩, .inr (.inl rfl), .inr rfl,
    by rintro ⟨⟩, by rintro ⟨⟩, Thread.ok_of _ (by decide) (by rintro _ _ ⟨⟩),
    fun h => (h.elim Bool.false_ne_true Bool.false_ne_true).elim, fun _ => .inr rfl, by rintro _ ⟨⟩⟩ hinv

end

theorem Inv.holds_iff {inside : Bool} (hpid : Function.Injective pid) (hinv : Inv pid s)
    (hpc : (s.thread p).pc = .check inside)
    : (s.locked && decide (s.pid = pid p)) = inside := by
  cases inside with
  | true =>
    have howns : (s.thread p).pc.owns = true := by
      rw [hpc]
      rfl
    rw [hinv.owner.set_of_has howns, hinv.pid p howns]
    simp
  | false =>
    rw [← Bool.not_eq_true, Bool.and_eq_true, decide_eq_true_eq]
    rintro ⟨hlocked, heq⟩
    rcases hinv.owner.set_iff.mp hlocked with ⟨q, hq⟩
    have hqp : q = p := hpid ((hinv.pid q hq).symm.trans heq)
    rw [hqp, hpc] at hq
    cases hq

theorem Inv.check {inside : Bool} (hpid : Function.Injective pid) (hinv : Inv pid s)
    (hpc : (s.thread p).pc = .check inside)
    : Inv pid (s.setPc p (.checked inside (s.locked && s.pid = pid p))) := by
  have ht := hinv.thread_eq hpc (by rintro ⟨⟩) (by rintro ⟨⟩)
  have howns := hinv.pid p
  rw [hpc] at howns
  rw [hinv.holds_iff hpid hpc]
  refine Move.inv ⟨ht, setPc_thread (.checked inside inside) ht, .inl ⟨rfl, rfl⟩, .inl ⟨rfl, rfl⟩,
    .inl ⟨by cases inside <;> rfl, rfl⟩, ?_, .inl rfl, .inl rfl, by rintro ⟨⟩, by rintro ⟨⟩, ?_,
    fun h => (h.elim Bool.false_ne_true Bool.false_ne_true).elim, .inl, by rintro _ ⟨⟩⟩ hinv
  . intro h
    apply howns
    cases inside with
    | true => rfl
    | false => cases h
  . refine ⟨?_, by rintro ⟨⟩, ?_⟩
    . intro hor
      cases hor with
      | inl h => cases h
      | inr h => cases h
    . rintro _ _ ⟨⟩
      rfl

section
variable (hinv : Inv pid s)
include hinv

theorem Inv.wakeupRound (hpc : (s.thread p).pc = .wakeup1 i)
    (hdone : ∀ q : Fin n, q.val = i → (s.thread q).sleeping = false)
    : Inv pid (s.setPc p (.wakeup1 (i + 1))) := by
  have ht := hinv.thread_eq hpc (by rintro ⟨⟩) (by rintro ⟨⟩)
  refine Move.inv ⟨ht, setPc_thread (.wakeup1 (i + 1)) ht, .inl ⟨rfl, rfl⟩, .inl ⟨rfl, rfl⟩,
    .inl ⟨rfl, rfl⟩, by rintro ⟨⟩, .inl rfl, .inl rfl, by rintro ⟨⟩, by rintro ⟨⟩,
    Thread.ok_of _ (by rintro ⟨⟩) (by rintro _ _ ⟨⟩),
    fun h => (h.elim Bool.false_ne_true Bool.false_ne_true).elim, .inl, ?_⟩ hinv
  intro q hq hwaits
  have hle : i ≤ q.val := of_decide_eq_true hq
  have hne : q.val ≠ i := by
    intro heq
    rcases hwaits with hlate | hsleeping
    . -- both would hold `ptable.lock`
      have hqp := hinv.ptable.unique q p (Pc.hasPtable_of_late hlate) (by rw [hpc]; rfl)
      rw [hqp, hpc] at hlate
      cases hlate
    . rw [hdone q heq] at hsleeping
      cases hsleeping
  exact decide_eq_true (by omega)

theorem Inv.wakeup1 (hpc : (s.thread p).pc = .wakeup1 i) (hi : i < n)
    : Inv pid ((if (s.thread ⟨i, hi⟩).sleeping && (s.thread ⟨i, hi⟩).chan then s.awake ⟨i, hi⟩
        else s).setPc p (.wakeup1 (i + 1))) := by
  have hok := hinv.ok ⟨i, hi⟩
  split
  next =>
    apply (hinv.awake ⟨i, hi⟩).wakeupRound
    . rw [awake_pc, hpc]
    . rintro q rfl
      exact awake_sleeping s q
  next hno =>
    apply hinv.wakeupRound hpc
    rintro q rfl
    rw [← Bool.not_eq_true]
    intro hsleeping
    rw [hsleeping, hok.chan (.inr hsleeping)] at hno
    exact hno rfl

theorem Inv.acquireLk (ht : s.thread p = ⟨a, false, (s.thread p).chan⟩)
    (h : s.acquireLk p b = some s') (hlk : a.hasLk = false ∧ b.hasLk = true)
    (hptable : b.hasPtable = a.hasPtable) (hplain : Plain n a b)
    : Inv pid s' := by
  rcases acquireLk_eq h with ⟨hfree, rfl⟩
  exact hinv.goto ht (setPc_thread (s := { s with lk := true }) b ht)
    (.inr (.inl ⟨hlk.1, hlk.2, hfree, rfl⟩)) (.inl ⟨hptable, rfl⟩) rfl rfl hplain

theorem Inv.releaseLk (ht : s.thread p = ⟨a, false, (s.thread p).chan⟩)
    (hlk : a.hasLk = true ∧ b.hasLk = false) (hptable : b.hasPtable = a.hasPtable) (hplain : Plain n a b)
    : Inv pid (s.releaseLk p b) := by
  exact hinv.goto ht (setPc_thread (s := { s with lk := false }) b ht)
    (.inr (.inr ⟨hlk.1, hlk.2, rfl⟩)) (.inl ⟨hptable, rfl⟩) rfl rfl hplain

theorem Inv.acquirePtable (ht : s.thread p = ⟨a, false, (s.thread p).chan⟩)
    (h : s.acquirePtable p b = some s') (hptable : a.hasPtable = false ∧ b.hasPtable = true)
    (hlk : b.hasLk = a.hasLk) (hplain : Plain n a b)
    : Inv pid s' := by
  rcases acquirePtable_eq h with ⟨hfree, rfl⟩
  exact hinv.goto ht (setPc_thread (s := { s with ptable := true }) b ht) (.inl ⟨hlk, rfl⟩)
    (.inr (.inl ⟨hptable.1, hptable.2, hfree, rfl⟩)) rfl rfl hplain

theorem Inv.releasePtable (ht : s.thread p = ⟨a, false, (s.thread p).chan⟩)
    (hptable : a.hasPtable = true ∧ b.hasPtable = false) (hlk : b.hasLk = a.hasLk) (hplain : Plain n a b)
    : Inv pid (s.releasePtable p b) := by
  exact hinv.goto ht (setPc_thread (s := { s with ptable := false }) b ht) (.inl ⟨hlk, rfl⟩)
    (.inr (.inr ⟨hptable.1, hptable.2, rfl⟩)) rfl rfl hplain

theorem Inv.wakeupDone (hpc : (s.thread p).pc = .wakeup1 i) (hi : ¬i < n)
    : Inv pid (s.setPc p .wakeupRelease) := by
  have ht := hinv.thread_eq hpc (by rintro ⟨⟩) (by rintro ⟨⟩)
  refine hinv.goto ht (setPc_thread _ ht) (.inl ⟨rfl, rfl⟩) (.inl ⟨rfl, rfl⟩) rfl rfl
    ⟨rfl, by decide, rfl, rfl, by rintro _ _ ⟨⟩, ?_⟩
  intro q hq
  have hle : i ≤ q.val := of_decide_eq_true hq
  omega

end

section
variable (hpid : Function.Injective pid)
include hpid

theorem Inv.next (hinv : Inv pid s) (h : s.next pid p = some s')
    : Inv pid s' := by
  unfold State.next at h
  split at h
  next => cases h
  next => cases h
  next => cases h
  next hpc =>
    exact hinv.acquireLk (hinv.thread_eq hpc (by decide) (by decide)) h ⟨rfl, rfl⟩ rfl
      ⟨rfl, by decide, rfl, rfl, by rintro _ _ ⟨⟩, by rintro _ ⟨⟩⟩
  next hpc =>
    cases h
    exact hinv.test hpc
  next hpc => exact hinv.sleepAcquire hpc h
  next hpc =>
    cases h
    exact hinv.sleepRelease hpc
  next hpc =>
    cases h
    exact hinv.sleepChan hpc
  next hpc =>
    cases h
    exact hinv.sleepState hpc
  next hpc =>
    cases h
    exact hinv.sleepSched hpc
  next hpc =>
    cases h
    exact hinv.tidyUp hpc
  next hpc =>
    cases h
    exact hinv.releasePtable (hinv.thread_eq hpc (by decide) (by decide)) ⟨rfl, rfl⟩ rfl
      ⟨rfl, by decide, rfl, rfl, by rintro _ _ ⟨⟩, by rintro _ ⟨⟩⟩
  next hpc =>
    exact hinv.acquireLk (hinv.thread_eq hpc (by decide) (by decide)) h ⟨rfl, rfl⟩ rfl
      ⟨rfl, by decide, rfl, rfl, by rintro _ _ ⟨⟩, by rintro _ ⟨⟩⟩
  next hpc =>
    cases h
    exact hinv.takeLock hpc
  next hpc =>
    cases h
    exact hinv.releaseLk (hinv.thread_eq hpc (by decide) (by decide)) ⟨rfl, rfl⟩ rfl
      ⟨rfl, by decide, rfl, rfl, by rintro _ _ ⟨⟩, by rintro _ ⟨⟩⟩
  next hpc =>
    exact hinv.acquireLk (hinv.thread_eq hpc (by decide) (by decide)) h ⟨rfl, rfl⟩ rfl
      ⟨rfl, by decide, rfl, rfl, by rintro _ _ ⟨⟩, by rintro _ ⟨⟩⟩
  next hpc =>
    cases h
    exact hinv.clear hpc
  next hpc =>
    exact hinv.acquirePtable (hinv.thread_eq hpc (by decide) (by decide)) h ⟨rfl, rfl⟩ rfl
      ⟨rfl, by decide, rfl, rfl, by rintro _ _ ⟨⟩, fun q _ => decide_eq_true (Nat.zero_le q.val)⟩
  next i hpc =>
    split at h
    next hi =>
      cases h
      exact hinv.wakeup1 hpc hi
    next hi =>
      cases h
      exact hinv.wakeupDone hpc hi
  next hpc =>
    cases h
    exact hinv.releasePtable (hinv.thread_eq hpc (by decide) (by decide)) ⟨rfl, rfl⟩ rfl
      ⟨rfl, by decide, rfl, rfl, by rintro _ _ ⟨⟩, by rintro _ ⟨⟩⟩
  next hpc =>
    cases h
    exact hinv.releaseLk (hinv.thread_eq hpc (by decide) (by decide)) ⟨rfl, rfl⟩ rfl
      ⟨rfl, by decide, rfl, rfl, by rintro _ _ ⟨⟩, by rintro _ ⟨⟩⟩
  next inside hpc =>
    exact hinv.acquireLk (hinv.thread_eq hpc (by rintro ⟨⟩) (by rintro ⟨⟩)) h ⟨rfl, rfl⟩ rfl
      ⟨by cases inside <;> rfl, by rintro ⟨⟩, rfl, rfl, by rintro _ _ ⟨⟩, by rintro _ ⟨⟩⟩
  next inside hpc =>
    cases h
    exact hinv.check hpid hpc
  next inside r hpc =>
    cases h
    have ht := hinv.thread_eq hpc (by rintro ⟨⟩) (by rintro ⟨⟩)
    cases inside with
    | true =>
      exact hinv.releaseLk ht ⟨rfl, rfl⟩ rfl
        ⟨rfl, by decide, rfl, rfl, by rintro _ _ ⟨⟩, by rintro _ ⟨⟩⟩
    | false =>
      exact hinv.releaseLk ht ⟨rfl, rfl⟩ rfl
        ⟨rfl, by decide, rfl, rfl, by rintro _ _ ⟨⟩, by rintro _ ⟨⟩⟩

theorem Inv.step {a : Act n} (hinv : Inv pid s) (h : State.Steps pid s a s')
    : Inv pid s' := by
  cases a with
  | call p c => exact hinv.call h
  | next p => exact hinv.next hpid h
  | dispatch p =>
    change s.dispatch p = some s' at h
    unfold State.dispatch at h
    split at h
    next hready =>
      have ht : s.thread p = ⟨.asleep, false, (s.thread p).chan⟩ := by
        rw [← hready.1, ← hready.2]
      exact hinv.acquirePtable ht h ⟨rfl, rfl⟩ rfl
        ⟨rfl, by decide, rfl, rfl, by rintro _ _ ⟨⟩, by rintro _ ⟨⟩⟩
    next => cases h
  | kill p =>
    change s.kill p = some s' at h
    unfold State.kill at h
    split at h
    next => cases h
    next =>
      cases h
      exact hinv.awake p

/--
At most one process is between `acquiresleep` and `releasesleep`, it is the one for which `holdingsleep`
returns true, and when the lock is free nobody sleeps on it.
-/
theorem sleep_lock_excludes (h : Reach.Reachable State.init (State.Steps pid) s)
    : (∀ p q, (s.thread p).pc.between = true → (s.thread q).pc.between = true → p = q)
      ∧ (∀ p inside r, (s.thread p).pc = .checked inside r → (r = true ↔ (s.thread p).pc.between = true))
      ∧ (s.lk = false → s.locked = false → ∀ p, ¬((s.thread p).sleeping = true ∧ (s.thread p).chan = true)) := by
  have hinv : Inv pid s := h.induct (Inv pid) inv_init (fun _ _ _ _ hinv hstep => hinv.step hpid hstep)
  refine ⟨?_, ?_, ?_⟩
  . intro p q hp hq
    exact hinv.owner.unique p q (Pc.owns_of_between hp) (Pc.owns_of_between hq)
  . intro p inside r hpc
    rw [(hinv.ok p).result inside r hpc, hpc]
    cases inside with
    | true => exact Iff.rfl
    | false => exact Iff.rfl
  . rintro hlk hlocked p ⟨hsleeping, -⟩
    rcases hinv.woken p (.inr hsleeping) with hset | ⟨q, hq⟩
    . rw [hlocked] at hset
      cases hset
    . rw [hinv.lk.set_of_has (Pc.hasLk_of_wakes hq)] at hlk
      cases hlk

end

theorem sleep_lock_excludes_of_two
    : ∃ s : State 2, Reach.Reachable State.init (State.Steps fun p => (p.val : Int) + 1) s
      ∧ (s.thread 0).pc.between = true ∧ (s.thread 1).sleeping = true
      ∧ (s.thread 1).pc.between = false := by
  have hrun : ∃ s : State 2, Reach.Reachable State.init (State.Steps fun p => (p.val : Int) + 1) s
      ∧ ((s.thread 0).pc.between && (s.thread 1).sleeping) = true := by
    apply Reach.exists_of_exec (f := State.step fun p => (p.val : Int) + 1) (fun _ _ _ h => h)
      [.call 0 .acquiresleep, .next 0, .next 0, .next 0, .next 0, .call 1 .acquiresleep, .next 1, .next 1,
        .next 1, .next 1, .next 1, .next 1, .next 1]
    decide
  rcases hrun with ⟨s, hreach, hs⟩
  rw [Bool.and_eq_true] at hs
  refine ⟨s, hreach, hs.1, hs.2, ?_⟩
  have hpid : Function.Injective fun p : Fin 2 => (p.val : Int) + 1 := by
    intro p q hpq
    exact Fin.ext (by simp only at hpq; omega)
  rw [← Bool.not_eq_true]
  intro hbetween
  have := (sleep_lock_excludes hpid hreach).1 0 1 hs.1 hbetween
  cases this

end Xv6.SleepLock
