import Xv6.Sleep.Impl

namespace Xv6.Sleep

variable {n : Nat} {M χ L : Type}

inductive LockEffect (L : Type)
  | keep
  | acquire (l : Lock L)
  | release (l : Lock L)

namespace Ret

def Holds (mon : Monitor M χ L) (l : Lock L) : Ret M → Prop
  | .out => False
  | .crit m => l = mon.lock m

def Apart (mon : Monitor M χ L) : Ret M → Prop
  | .out => True
  | .crit m => mon.lock m ≠ .ptable

end Ret

namespace Pc

def Holds (mon : Monitor M χ L) (l : Lock L) : Pc M χ → Prop
  | .out | .asleep _ | .sleepRelock _ => False
  | .crit m | .sleepAcquire m => l = mon.lock m
  | .sleepRelease m => l = mon.lock m ∨ l = .ptable
  | .sleepChan _ | .sleepState _ | .sleepSched _ | .tidyUp _ | .sleepUnlock _ => l = .ptable
  | .wakeupAcquire ret _ => ret.Holds mon l
  | .wakeup1 ret _ _ | .wakeupRelease ret _ => ret.Holds mon l ∨ l = .ptable

def Early (mon : Monitor M χ L) (c : χ) : Pc M χ → Prop
  | .sleepAcquire m | .sleepRelease m => mon.chan m = c
  | _ => False

def Late (mon : Monitor M χ L) (c : χ) : Pc M χ → Prop
  | .sleepChan m | .sleepState m | .sleepSched m => mon.chan m = c
  | _ => False

def inSleep : Pc M χ → Bool
  | .sleepAcquire _ | .sleepRelease _ | .sleepChan _ | .sleepState _ | .sleepSched _ | .asleep _
  | .tidyUp _ | .sleepUnlock _ | .sleepRelock _ => true
  | _ => false

def inWakeup : Pc M χ → Bool
  | .wakeupAcquire _ _ | .wakeup1 _ _ _ | .wakeupRelease _ _ => true
  | _ => false

def Ok (mon : Monitor M χ L) (state : ProcState) (chan : Option χ) : Pc M χ → Prop
  | .sleepAcquire m | .sleepRelease m => state ≠ .sleeping ∧ mon.lock m ≠ .ptable
  | .sleepState m => state ≠ .sleeping ∧ chan = some (mon.chan m)
  | .sleepSched m | .asleep m => chan = some (mon.chan m)
  | .wakeupAcquire ret _ | .wakeupRelease ret _ => state ≠ .sleeping ∧ ret.Apart mon
  | _ => state ≠ .sleeping

variable {mon : Monitor M χ L} {c : χ} {pc : Pc M χ}

theorem Early.holds (h : pc.Early mon c) : pc.Holds mon (mon.lk c) := by
  cases pc with
  | sleepAcquire m =>
    cases h
    rfl
  | sleepRelease m =>
    cases h
    apply Or.inl
    rfl
  | _ => cases h

theorem Late.holds (h : pc.Late mon c) : pc.Holds mon .ptable := by
  cases pc with
  | sleepChan m => rfl
  | sleepState m => rfl
  | sleepSched m => rfl
  | _ => cases h

theorem Ok.awake {state state' : ProcState} {chan : Option χ} (h : pc.Ok mon state chan)
    (hawake : state' ≠ .sleeping)
    : pc.Ok mon state' chan := by
  cases pc with
  | sleepSched m => exact h
  | asleep m => exact h
  | sleepAcquire m => exact ⟨hawake, h.2⟩
  | sleepRelease m => exact ⟨hawake, h.2⟩
  | sleepState m => exact ⟨hawake, h.2⟩
  | wakeupAcquire ret c => exact ⟨hawake, h.2⟩
  | wakeupRelease ret c => exact ⟨hawake, h.2⟩
  | _ => exact hawake

end Pc

namespace Thread

def SleepingOn (c : χ) (t : Thread M χ) : Prop :=
  t.state = .sleeping ∧ t.chan = some c

instance [DecidableEq χ] (c : χ) (t : Thread M χ) : Decidable (t.SleepingOn c) :=
  inferInstanceAs (Decidable (_ ∧ _))

def Ok (mon : Monitor M χ L) (t : Thread M χ) : Prop :=
  t.pc.Ok mon t.state t.chan

inductive Step (mon : Monitor M χ L) (t : Thread M χ)
    : (tested : Bool) → LockEffect L → Thread M χ → Prop where
  | stay (tested : Bool) : Step mon t tested .keep t
  | woken : Step mon t false .keep { t with state := .runnable }
  | enter (m : M) (h : t.pc = .out)
    : Step mon t false (.acquire (mon.lock m)) { t with pc := .crit m }
  | leave (m : M) (h : t.pc = .crit m) : Step mon t false (.release (mon.lock m)) { t with pc := .out }
  | test (m : M) (h : t.pc = .crit m) (hlk : mon.lock m ≠ .ptable)
    : Step mon t true .keep { t with pc := .sleepAcquire m }
  | testPtable (m : M) (h : t.pc = .crit m) (hlk : mon.lock m = .ptable)
    : Step mon t true .keep { t with pc := .sleepChan m }
  | wakeup (ret : Ret M) (c : χ) (h : t.pc = ret.pc) (hret : ret.Apart mon)
    : Step mon t false .keep { t with pc := .wakeupAcquire ret c }
  | callWakeup1 (m : M) (c : χ) (h : t.pc = .crit m) (hlk : mon.lock m = .ptable)
    : Step mon t false .keep { t with pc := .wakeup1 (.crit m) c 0 }
  | sleepAcquire (m : M) (h : t.pc = .sleepAcquire m)
    : Step mon t false (.acquire .ptable) { t with pc := .sleepRelease m }
  | sleepRelease (m : M) (h : t.pc = .sleepRelease m)
    : Step mon t false (.release (mon.lock m)) { t with pc := .sleepChan m }
  | sleepChan (m : M) (h : t.pc = .sleepChan m)
    : Step mon t false .keep { t with chan := some (mon.chan m), pc := .sleepState m }
  | sleepState (m : M) (h : t.pc = .sleepState m)
    : Step mon t false .keep { t with state := .sleeping, pc := .sleepSched m }
  | sleepSched (m : M) (h : t.pc = .sleepSched m)
    : Step mon t false (.release .ptable) { t with pc := .asleep m }
  | dispatch (m : M) (h : t.pc = .asleep m)
    : Step mon t false (.acquire .ptable) { t with state := .running, pc := .tidyUp m }
  | tidyUp (m : M) (h : t.pc = .tidyUp m) (hlk : mon.lock m ≠ .ptable)
    : Step mon t false .keep { t with chan := none, pc := .sleepUnlock m }
  | tidyUpPtable (m : M) (h : t.pc = .tidyUp m) (hlk : mon.lock m = .ptable)
    : Step mon t false .keep { t with chan := none, pc := .crit m }
  | sleepUnlock (m : M) (h : t.pc = .sleepUnlock m)
    : Step mon t false (.release .ptable) { t with pc := .sleepRelock m }
  | sleepRelock (m : M) (h : t.pc = .sleepRelock m)
    : Step mon t false (.acquire (mon.lock m)) { t with pc := .crit m }
  | wakeupAcquire (ret : Ret M) (c : χ) (h : t.pc = .wakeupAcquire ret c)
    : Step mon t false (.acquire .ptable) { t with pc := .wakeup1 ret c 0 }
  | wakeup1 (ret : Ret M) (c : χ) (i : Nat) (h : t.pc = .wakeup1 ret c i)
    : Step mon t false .keep { t with pc := .wakeup1 ret c (i + 1) }
  | wakeup1Done (ret : Ret M) (c : χ) (i : Nat) (h : t.pc = .wakeup1 ret c i) (hret : ret.Apart mon)
    : Step mon t false .keep { t with pc := .wakeupRelease ret c }
  | wakeup1Ret (m : M) (c : χ) (i : Nat) (h : t.pc = .wakeup1 (.crit m) c i)
      (hlk : mon.lock m = .ptable)
    : Step mon t false .keep { t with pc := .crit m }
  | wakeupRelease (ret : Ret M) (c : χ) (h : t.pc = .wakeupRelease ret c)
    : Step mon t false (.release .ptable) { t with pc := ret.pc }
  | running : Step mon t false .keep { t with state := .running }

variable {mon : Monitor M χ L}

theorem Ok.step {t t' : Thread M χ} {tested : Bool} {e : LockEffect L} (hok : t.Ok mon) (h : t.Step mon tested e t')
    : t'.Ok mon := by
  unfold Ok at hok ⊢
  cases h with
  | stay => exact hok
  | woken => exact hok.awake nofun
  | running => exact hok.awake nofun
  | sleepChan m h =>
    rw [h] at hok
    exact ⟨hok, rfl⟩
  | sleepState m h =>
    rw [h] at hok
    exact hok.2
  | dispatch m h => exact nofun
  | test m h hlk =>
    rw [h] at hok
    exact ⟨hok, hlk⟩
  | sleepRelease m h =>
    rw [h] at hok
    exact hok.1
  | wakeup ret c h hret =>
    rw [h] at hok
    cases ret
    all_goals exact ⟨hok, hret⟩
  | wakeupAcquire ret c h =>
    rw [h] at hok
    exact hok.1
  | wakeup1Done ret c i h hret =>
    rw [h] at hok
    exact ⟨hok, hret⟩
  | wakeupRelease ret c h =>
    rw [h] at hok
    cases ret
    all_goals exact hok.1
  | enter m h | leave m h | testPtable m h _ | callWakeup1 m c h _ | sleepAcquire m h
  | sleepSched m h | tidyUp m h _ | tidyUpPtable m h _ | sleepUnlock m h | sleepRelock m h
  | wakeup1 ret c i h | wakeup1Ret m c i h _ =>
    rw [h] at hok
    exact hok

def Passive (t t' : Thread M χ) : Prop :=
  t' = t ∨ t' = { t with state := .runnable }

theorem Passive.step {t t' : Thread M χ} (h : t.Passive t') : t.Step mon false .keep t' := by
  rcases h with h | h
  . rw [h]
    apply Step.stay
  . rw [h]
    apply Step.woken

theorem Passive.pc {t t' : Thread M χ} (h : t.Passive t') : t'.pc = t.pc := by
  rcases h with h | h
  all_goals rw [h]

theorem wakeup1_passive [DecidableEq χ] (t : Thread M χ) (c : χ) : t.Passive (t.wakeup1 c) := by
  unfold wakeup1
  split
  . exact .inr rfl
  . exact .inl rfl

theorem wakeup1_not_sleepingOn [DecidableEq χ] (t : Thread M χ) (c : χ)
    : ¬(t.wakeup1 c).SleepingOn c := by
  unfold wakeup1 SleepingOn
  split
  . rintro ⟨h, _⟩
    cases h
  . next h => exact h

end Thread

namespace LockEffect

def Frame (before after : Lock L → Prop) : LockEffect L → Prop
  | .keep => ∀ l, after l → before l
  | .acquire k => ∀ l, after l → l = k ∨ before l
  | .release k => before k ∧ ∀ l, after l → l ≠ k ∧ before l

def Applies [DecidableEq L] (f f' : Lock L → Bool) : LockEffect L → Prop
  | .keep => f' = f
  | .acquire l => f l = false ∧ f' = fun k => if k = l then true else f k
  | .release l => f' = fun k => if k = l then false else f k

end LockEffect

theorem Thread.Step.frame {mon : Monitor M χ L} {t t' : Thread M χ} {tested : Bool}
    {e : LockEffect L} (hok : t.Ok mon) (h : t.Step mon tested e t')
    : e.Frame (fun l => t.pc.Holds mon l) (fun l => t'.pc.Holds mon l) := by
  unfold Thread.Ok at hok
  cases h with
  | stay | woken | running => exact fun l hl => hl
  | enter m h | sleepRelock m h => exact fun l hl => .inl hl
  | leave m h =>
    rw [h]
    exact ⟨rfl, nofun⟩
  | test m h hlk | sleepChan m h | sleepState m h | tidyUp m h hlk =>
    rw [h]
    exact fun l hl => hl
  | testPtable m h hlk =>
    rw [h]
    intro l hl
    exact Eq.trans hl hlk.symm
  | tidyUpPtable m h hlk =>
    rw [h]
    intro l hl
    exact Eq.trans hl hlk
  | wakeup ret c h hret =>
    rw [h]
    cases ret with
    | out => exact nofun
    | crit m => exact fun l hl => hl
  | callWakeup1 m c h hlk =>
    rw [h]
    intro l hl
    rcases hl with hl | hl
    . exact hl
    . exact hl.trans hlk.symm
  | sleepAcquire m h =>
    rw [h]
    exact fun l hl => hl.symm
  | sleepRelease m h =>
    rw [h] at hok ⊢
    refine ⟨.inl rfl, ?_⟩
    intro l hl
    exact ⟨fun heq => hok.2 (heq.symm.trans hl), .inr hl⟩
  | sleepSched m h | sleepUnlock m h =>
    rw [h]
    exact ⟨rfl, nofun⟩
  | dispatch m h => exact fun l hl => .inl hl
  | wakeupAcquire ret c h =>
    rw [h]
    exact fun l hl => hl.symm
  | wakeup1 ret c i h =>
    rw [h]
    exact fun l hl => hl
  | wakeup1Done ret c i h hret =>
    rw [h]
    exact fun l hl => hl
  | wakeup1Ret m c i h hlk =>
    rw [h]
    exact fun l hl => .inl hl
  | wakeupRelease ret c h =>
    rw [h] at hok ⊢
    refine ⟨.inr rfl, ?_⟩
    intro l hl
    cases ret with
    | out => cases hl
    | crit m => exact ⟨fun heq => hok.2 (hl.symm.trans heq), .inl hl⟩

def Act.proc : Act n M χ → Fin n
  | .enter p _ | .leave p | .set p _ | .test p | .wakeup p _ | .wakeup1 p _ | .next p | .preempt p
  | .dispatch p | .kill p => p

def Act.isTest (p : Fin n) : Act n M χ → Bool
  | .test q => q = p
  | _ => false

theorem Act.isTest_eq_false {a : Act n M χ} {p : Fin n} (h : a ≠ .test p) : a.isTest p = false := by
  cases a with
  | test q =>
    apply decide_eq_false
    intro hq
    rw [hq] at h
    exact h rfl
  | _ => rfl

namespace State

section

variable [DecidableEq L] {mon : Monitor M χ L}

structure Moves (mon : Monitor M χ L) (s s' : State n M χ L) (a : Act n M χ) (p : Fin n)
    (e : LockEffect L) : Prop where
  step : (s.thread p).Step mon (a.isTest p) e (s'.thread p)
  locks : e.Applies s.locked s'.locked
  others : ∀ q, q ≠ p → (s.thread q).Passive (s'.thread q) ∧ a.isTest q = false

variable {s s' s1 : State n M χ L} {a : Act n M χ} {p : Fin n}

theorem Moves.of_setThread {e : LockEffect L} {t : Thread M χ} (hthread : s1.thread = s.thread)
    (hlocks : e.Applies s.locked s1.locked) (hact : ∀ q, q ≠ p → a.isTest q = false)
    (hstep : (s.thread p).Step mon (a.isTest p) e t)
    : Moves mon s (s1.setThread p t) a p e where
  step := by
    unfold setThread
    dsimp only
    rw [if_pos rfl]
    exact hstep
  locks := hlocks
  others := by
    intro q hq
    unfold setThread
    dsimp only
    rw [if_neg hq, hthread]
    exact ⟨.inl rfl, hact q hq⟩

theorem Moves.keep {t : Thread M χ} (hact : ∀ q, q ≠ p → a.isTest q = false)
    (hstep : (s.thread p).Step mon (a.isTest p) .keep t)
    : Moves mon s (s.setThread p t) a p .keep := by
  apply Moves.of_setThread _ _ hact hstep
  . rfl
  . rfl

theorem Moves.release {l : Lock L} {t : Thread M χ} (hact : ∀ q, q ≠ p → a.isTest q = false)
    (hstep : (s.thread p).Step mon (a.isTest p) (.release l) t)
    : Moves mon s ((s.release l).setThread p t) a p (.release l) := by
  apply Moves.of_setThread _ _ hact hstep
  . rfl
  . rfl

theorem Moves.acquire {l : Lock L} {t : Thread M χ} (hacq : s.acquire l = some s1)
    (hact : ∀ q, q ≠ p → a.isTest q = false) (hstep : (s.thread p).Step mon (a.isTest p) (.acquire l) t)
    : Moves mon s (s1.setThread p t) a p (.acquire l) := by
  unfold State.acquire at hacq
  split at hacq
  . cases hacq
  . next hfree =>
    cases hacq
    apply Moves.of_setThread _ _ hact hstep
    . rfl
    . exact ⟨Bool.eq_false_iff.mpr hfree, rfl⟩

theorem thread_acquire {l : Lock L} (h : s.acquire l = some s1) : s1.thread = s.thread := by
  unfold State.acquire at h
  split at h
  . cases h
  . cases h
    rfl

end

theorem onCpu_eq_some {s s' : State n M χ L} {p : Fin n} {r : Option (State n M χ L)} (h : s.onCpu p r = some s')
    : (s.thread p).executing ∧ r = some s' := by
  unfold onCpu at h
  split at h
  . next hcpu => exact ⟨hcpu, h⟩
  . cases h

section

variable [DecidableEq χ] [DecidableEq L] {mon : Monitor M χ L} {s s' : State n M χ L} {p : Fin n}

theorem moves_wakeup1 {ret : Ret M} {c : χ} {i : Fin n} (hpc : (s.thread p).pc = .wakeup1 ret c i)
    (hrun : (s.thread p).state = .running)
    : Moves mon s ((s.setThread i ((s.thread i).wakeup1 c)).setPc p (.wakeup1 ret c (i + 1))) (.next p) p
        .keep where
  step := by
    have hself : (s.setThread i ((s.thread i).wakeup1 c)).thread p = s.thread p := by
      unfold setThread
      dsimp only
      split
      . next h =>
        rw [h] at hrun
        unfold Thread.wakeup1
        rw [if_neg (by rw [hrun]; exact fun h => nomatch h.1), h]
      . rfl
    unfold setPc
    rw [hself]
    unfold setThread
    dsimp only
    rw [if_pos rfl]
    exact .wakeup1 ret c i hpc
  locks := rfl
  others := by
    intro q hq
    unfold setPc setThread
    dsimp only
    rw [if_neg hq]
    split
    . next h =>
      rw [h]
      exact ⟨Thread.wakeup1_passive _ c, rfl⟩
    . exact ⟨.inl rfl, rfl⟩

theorem moves_next (hcpu : (s.thread p).executing) (h : s.next mon p = some s')
    : ∃ e, Moves mon s s' (.next p) p e := by
  have hact : ∀ q, q ≠ p → (Act.next p : Act n M χ).isTest q = false := fun _ _ => rfl
  unfold next at h
  split at h
  . cases h
  . cases h
  . cases h
  . next m hpc =>
    rcases Option.bind_eq_some_iff.mp h with ⟨s1, hacq, hs'⟩
    cases hs'
    unfold setPc
    rw [thread_acquire hacq]
    exact ⟨_, .acquire hacq hact (.sleepAcquire m hpc)⟩
  . next m hpc =>
    cases h
    exact ⟨_, .release hact (.sleepRelease m hpc)⟩
  . next m hpc =>
    cases h
    exact ⟨_, .keep hact (.sleepChan m hpc)⟩
  . next m hpc =>
    cases h
    exact ⟨_, .keep hact (.sleepState m hpc)⟩
  . next m hpc =>
    cases h
    exact ⟨_, .release hact (.sleepSched m hpc)⟩
  . next m hpc =>
    cases h
    dsimp only
    split
    . next hlk => exact ⟨_, .keep hact (.tidyUp m hpc hlk)⟩
    . next hlk => exact ⟨_, .keep hact (.tidyUpPtable m hpc (not_not.mp hlk))⟩
  . next m hpc =>
    cases h
    exact ⟨_, .release hact (.sleepUnlock m hpc)⟩
  . next m hpc =>
    rcases Option.bind_eq_some_iff.mp h with ⟨s1, hacq, hs'⟩
    cases hs'
    unfold setPc
    rw [thread_acquire hacq]
    exact ⟨_, .acquire hacq hact (.sleepRelock m hpc)⟩
  . next ret c hpc =>
    rcases Option.bind_eq_some_iff.mp h with ⟨s1, hacq, hs'⟩
    cases hs'
    unfold setPc
    rw [thread_acquire hacq]
    exact ⟨_, .acquire hacq hact (.wakeupAcquire ret c hpc)⟩
  . next ret c i hpc =>
    split at h
    . next hi =>
      cases h
      unfold Thread.executing at hcpu
      rw [hpc] at hcpu
      exact ⟨_, moves_wakeup1 (i := ⟨i, hi⟩) hpc (of_decide_eq_true hcpu)⟩
    . cases h
      unfold wakeup1Ret
      split
      . exact ⟨_, .keep hact (.wakeup1Done .out c i hpc trivial)⟩
      . next m =>
        split
        . next hlk => exact ⟨_, .keep hact (.wakeup1Ret m c i hpc hlk)⟩
        . next hlk => exact ⟨_, .keep hact (.wakeup1Done (.crit m) c i hpc hlk)⟩
  . next ret c hpc =>
    cases h
    exact ⟨_, .release hact (.wakeupRelease ret c hpc)⟩

theorem Steps.moves [DecidableEq M] {a : Act n M χ} (h : Steps mon s a s')
    : ∃ e, Moves mon s s' a a.proc e := by
  unfold Steps step at h
  split at h
  . next p m =>
    have h := (onCpu_eq_some h).2
    unfold enter at h
    split at h
    . next hpc =>
      rcases Option.bind_eq_some_iff.mp h with ⟨s1, hacq, hs'⟩
      cases hs'
      unfold setPc
      rw [thread_acquire hacq]
      exact ⟨_, .acquire hacq (fun _ _ => rfl) (.enter m hpc)⟩
    . cases h
  . next p =>
    have h := (onCpu_eq_some h).2
    unfold leave at h
    split at h
    . next m hpc =>
      cases h
      exact ⟨_, .release (fun _ _ => rfl) (.leave m hpc)⟩
    . cases h
  . next p b =>
    have h := (onCpu_eq_some h).2
    unfold set at h
    split at h
    . cases h
      exact ⟨.keep, ⟨.stay _, rfl, fun _ _ => ⟨.inl rfl, rfl⟩⟩⟩
    . cases h
  . next p =>
    have h := (onCpu_eq_some h).2
    have hact : ∀ q, q ≠ p → (Act.test p : Act n M χ).isTest q = false := by
      intro q hq
      exact decide_eq_false hq.symm
    unfold test at h
    split at h
    . next m hpc =>
      have htest : (Act.test p : Act n M χ).isTest p = true := decide_eq_true rfl
      split at h
      . cases h
        exact ⟨.keep, ⟨.stay _, rfl, fun q hq => ⟨.inl rfl, hact q hq⟩⟩⟩
      cases h
      unfold sleepPc
      split
      . next hlk => exact ⟨_, .keep hact (htest ▸ .test m hpc hlk)⟩
      . next hlk => exact ⟨_, .keep hact (htest ▸ .testPtable m hpc (not_not.mp hlk))⟩
    . cases h
  . next p c =>
    have h := (onCpu_eq_some h).2
    unfold wakeup at h
    split at h
    . next hpc =>
      cases h
      exact ⟨_, .keep (fun _ _ => rfl) (.wakeup .out c hpc trivial)⟩
    . next m hpc =>
      split at h
      . cases h
      . next hlk =>
        cases h
        exact ⟨_, .keep (fun _ _ => rfl) (.wakeup (.crit m) c hpc hlk)⟩
    . cases h
  . next p c =>
    have h := (onCpu_eq_some h).2
    unfold wakeup1 at h
    split at h
    . next m hpc =>
      split at h
      . next hlk =>
        cases h
        exact ⟨_, .keep (fun _ _ => rfl) (.callWakeup1 m c hpc hlk)⟩
      . cases h
    . cases h
  . next p =>
    have h := onCpu_eq_some h
    exact moves_next h.1 h.2
  . next p =>
    have h := (onCpu_eq_some h).2
    unfold preempt at h
    split at h
    . cases h
      exact ⟨_, .keep (fun _ _ => rfl) .woken⟩
    . cases h
  . next p =>
    unfold dispatch at h
    split at h
    . split at h
      . next m hpc =>
        rcases Option.bind_eq_some_iff.mp h with ⟨s1, hacq, hs'⟩
        cases hs'
        rw [thread_acquire hacq]
        exact ⟨_, .acquire hacq (fun _ _ => rfl) (.dispatch m hpc)⟩
      . split at h
        . cases h
        . cases h
          exact ⟨_, .keep (fun _ _ => rfl) .running⟩
    . cases h
  . next p =>
    unfold kill at h
    split at h
    . cases h
    split at h
    . cases h
      exact ⟨_, .keep (fun _ _ => rfl) .woken⟩
    . cases h
      exact ⟨.keep, ⟨.stay _, rfl, fun _ _ => ⟨.inl rfl, rfl⟩⟩⟩

theorem Steps.wakeup1_cases [DecidableEq M] {a : Act n M χ} {ret : Ret M} {c : χ} {i : Nat}
    (h : Steps mon s a s') (hpc : (s.thread p).pc = .wakeup1 ret c i)
    : (s'.thread p).pc = .wakeup1 ret c i ∨ n ≤ i
      ∨ ((s'.thread p).pc = .wakeup1 ret c (i + 1) ∧ ∀ q : Fin n, q = i → ¬(s'.thread q).SleepingOn c)
    := by
  rcases h.moves with ⟨e, hmoves⟩
  by_cases hp : p = a.proc
  . rw [hp] at hpc ⊢
    unfold Steps at h
    cases a with
    | enter r m | leave r | set r b | test r | wakeup r c' | wakeup1 r c' | preempt r =>
      have h := (onCpu_eq_some h).2
      simp only [Act.proc] at hpc
      simp [enter, leave, set, test, wakeup, wakeup1, preempt, Thread.interruptible, hpc] at h
    | dispatch r =>
      simp only [Act.proc] at hpc ⊢
      simp only [step, dispatch, hpc] at h
      split at h
      . split at h
        . cases h
        . cases h
          simp [setThread]
      . cases h
    | kill r =>
      simp only [Act.proc] at hpc ⊢
      simp only [step, kill] at h
      split at h
      . cases h
      split at h
      . cases h
        simp [setThread, hpc]
      . cases h
        exact .inl hpc
    | next r =>
      simp only [Act.proc] at hpc ⊢
      have h := (onCpu_eq_some h).2
      simp only [next, hpc] at h
      split at h
      . next hi =>
        cases h
        refine .inr (.inr ⟨by simp [setPc, setThread], ?_⟩)
        intro q hq
        have hq : q = ⟨i, hi⟩ := Fin.ext hq
        have hnot := Thread.wakeup1_not_sleepingOn (s.thread q) c
        unfold setPc setThread
        rw [hq] at hnot ⊢
        dsimp only
        split
        . next heq =>
          rw [if_pos heq.symm]
          exact hnot
        . rw [if_pos rfl]
          exact hnot
      . next hi => exact .inr (.inl (Nat.le_of_not_lt hi))
  . rw [(hmoves.others p hp).1.pc]
    exact .inl hpc

end
end State
end Xv6.Sleep
