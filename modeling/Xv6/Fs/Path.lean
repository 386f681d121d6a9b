import Xv6.Fs.Directory
import Xv6.Fs.Lemmas.Calls

namespace Xv6.Fs

variable {names : List (List UInt8)} {parent : Bool} {path : List UInt8}

def components (path : List UInt8) : List (List UInt8) :=
  ((path.splitOnP (· = slash)).filter (· ≠ [])).map (·.take DIRSIZ)

theorem components_slash (path : List UInt8) : components (slash :: path) = components path := by
  have hsplit : (slash :: path).splitOnP (· = slash) = [] :: path.splitOnP (· = slash) :=
    List.splitOnP_append_cons_of_forall_mem (List.forall_mem_nil _) slash (by simp) path
  unfold components
  rw [hsplit, List.filter_cons_of_neg (by simp)]

theorem components_dropWhile (path : List UInt8) : components (path.dropWhile (· = slash)) = components path := by
  induction path with
  | nil => rfl
  | cons c path ih =>
    by_cases hc : c = slash
    . rw [List.dropWhile_cons_of_pos (by simpa using hc), ih, hc, components_slash]
    . rw [List.dropWhile_cons_of_neg (by simpa using hc)]

theorem components_cons {c : UInt8} (hc : c ≠ slash) (l : List UInt8)
    : components (c :: l) = ((c :: l).takeWhile (· ≠ slash)).take DIRSIZ
      :: components ((c :: l).dropWhile (· ≠ slash)) := by
  have hrun : ∀ x ∈ (c :: l).takeWhile (· ≠ slash), decide (x = slash) = false := by
    intro x hx
    have hx := List.all_eq_true.mp List.all_takeWhile x hx
    simpa using hx
  have hne : (c :: l).takeWhile (· ≠ slash) ≠ [] := by
    rw [List.takeWhile_cons_of_pos (by simpa using hc)]
    exact List.cons_ne_nil _ _
  have hsplit := List.takeWhile_append_dropWhile (p := (· ≠ slash)) (l := c :: l)
  cases htail : (c :: l).dropWhile (· ≠ slash) with
  | nil =>
    rw [htail, List.append_nil] at hsplit
    rw [hsplit] at hrun hne ⊢
    unfold components
    rw [List.splitOnP_eq_singleton hrun, List.filter_cons_of_pos (by simp)]
    rfl
  | cons d tail =>
    have hd : d = slash := by
      have hhead := List.head?_dropWhile_not (· ≠ slash) (c :: l)
      rw [htail] at hhead
      simpa using hhead
    rw [htail, hd] at hsplit
    rw [hd, components_slash]
    conv => lhs; rw [← hsplit]
    unfold components
    rw [List.splitOnP_append_cons_of_forall_mem hrun slash (by simp),
      List.filter_cons_of_pos (by simpa using hne)]
    rfl

theorem ne_slash_of_dropWhile {path l : List UInt8} {c : UInt8} (h : path.dropWhile (· = slash) = c :: l)
    : c ≠ slash := by
  have hhead := List.head?_dropWhile_not (· = slash) path
  rw [h] at hhead
  simpa using hhead

theorem eq_nil_of_components (h : components (path.dropWhile (· = slash)) = [])
    : path.dropWhile (· = slash) = [] := by
  cases hpath : path.dropWhile (· = slash) with
  | nil => rfl
  | cons c l =>
    rw [hpath, components_cons (ne_slash_of_dropWhile hpath)] at h
    cases h

theorem components_of_skipelem_none (h : skipelem path = none) : components path = [] := by
  unfold skipelem at h
  dsimp only at h
  split at h
  . next hnil =>
    rw [← components_dropWhile, hnil]
    rfl
  . cases h

theorem components_of_skipelem {path name rest : List UInt8} (h : skipelem path = some (name, rest))
    : components path = name :: components rest ∧ (components rest = [] → rest = []) := by
  unfold skipelem at h
  dsimp only at h
  split at h
  . cases h
  . next hne =>
    cases h
    refine ⟨?_, eq_nil_of_components⟩
    rw [components_dropWhile, ← components_dropWhile path]
    cases hpath : path.dropWhile (· = slash) with
    | nil => exact absurd hpath hne
    | cons c l =>
      exact components_cons (ne_slash_of_dropWhile hpath) l

namespace State

open Outcome

variable {n : Nat} {s s' : State n} {i : Fin n} {nmeta x : Nat}

def file (s : State n) (x : Nat) : List UInt8 :=
  Chunks.contents (content s.disk s.inodes x) (s.inodes x).size.toNat

def child (s : State n) (x : Nat) (name : List UInt8) : Option Nat :=
  if (s.inodes x).type = T_DIR then (lookup (s.file x) name).map Prod.snd else none

def walk (s : State n) (x : Nat) (names : List (List UInt8)) : Option Nat :=
  match names with
  | [] => some x
  | name :: names => (s.child x name).bind fun y => s.walk y names

def walkParent (s : State n) (x : Nat) (names : List (List UInt8)) : Option Nat :=
  if names = [] then none else (s.walk x names.dropLast).filter fun y => (s.inodes y).type = T_DIR

structure Alive (s : State n) (x : Nat) : Prop where
  type : (s.inodes x).type ≠ 0
  kept : (s.inodes x).nlink ≠ 0 ∨ ∃ j, 0 < (s.inode j).ref ∧ (s.inode j).inum = x

structure Tree (nmeta : Nat) (s : State n) : Prop extends Proper nmeta s where
  refs : ∀ j, 0 ≤ s.refs j
  aligned : ∀ x, (s.inodes x).type = T_DIR → (s.inodes x).size.toNat % 16 = 0

/-- The inodes that are searched on the way are allocated, and so is the one that is put when `nameiparent`
finds no name. -/
def Searched (s : State n) (parent : Bool) (x : Nat) (names : List (List UInt8)) : Prop :=
  (names = [] → parent = true) → ∀ names' y, names' <+: names.dropLast → s.walk x names' = some y → s.Alive y

theorem Searched.alive (h : s.Searched parent x names)
    (hnames : names = [] → parent = true)
    : s.Alive x :=
  h hnames [] x List.nil_prefix rfl

theorem Searched.child {name : List UInt8} {y : Nat}
    (h : s.Searched parent x (name :: names)) (hnames : parent = true → names ≠ []) (hy : s.child x name = some y)
    : s.Searched parent y names := by
  intro hnil names' z hprefix hwalk
  have hne : names ≠ [] := fun hempty => hnames (hnil hempty) hempty
  refine h (fun hcons => by cases hcons) (name :: names') z ?_ ?_
  . rw [List.dropLast_cons_of_ne_nil hne]
    exact List.cons_prefix_cons.mpr ⟨rfl, hprefix⟩
  . change (s.child x name).bind _ = _
    rw [hy]
    exact hwalk

def Stops (s : State n) (e : Halt) : Prop :=
  e = .iget ∧ (∀ j k, (s.inode j).ref = 0 → (s.inode k).ref = 0 → j = k)
    ∨ e = .deadlock ∧ ∃ j, (s.inode j).lock = true

structure Near (s s' : State n) (i : Fin n) (x : Nat) : Prop where
  store : s'.toStore = s.toStore
  inum : (s'.inode i).inum = x
  lock : ∀ j, (s'.inode j).lock = (s.inode j).lock
  kept : ∀ j, 0 < (s.inode j).ref → (s'.inode j).inum = (s.inode j).inum

theorem Near.inodes (h : Near s s' i x) : s'.inodes = s.inodes := by
  unfold State.inodes
  rw [h.store]

theorem Proper.ilock_eq (h : Proper nmeta s) (hi : 0 < (s.inode i).ref) (hlock : (s.inode i).lock = false)
    (htype : (s.inodes (s.inode i).inum).type ≠ 0)
    : s.ilock i = .ok (s.setInode i
      { s.inode i with lock := true, valid := true, din := s.inodes (s.inode i).inum }) := by
  have hdin : ∀ ip, Dinode.get ((s.setInode i ip).disk ((s.setInode i ip).sb.iblock (s.inode i).inum))
      (dinodeOff (s.inode i).inum) = s.inodes (s.inode i).inum := fun _ => (if_pos (h.inum i hi)).symm
  unfold State.ilock
  rw [if_neg (by omega), acquiresleep_eq hlock]
  change State.iload _ i = _
  unfold iload
  dsimp only
  rw [setInode_self]
  dsimp only
  split
  . next hvalid =>
    rw [← (h.synced i hi hvalid).1, ← hvalid]
  . rw [setInode_setInode, hdin, if_neg htype]

theorem iunlock_eq (hlock : (s.inode i).lock = true) (hi : 0 < (s.inode i).ref)
    : s.iunlock i = .ok (s.setInode i { s.inode i with lock := false }) := by
  unfold iunlock
  rw [if_neg]
  . rfl
  . rintro (hnot | href)
    . exact hnot hlock
    . omega

theorem iunlockput_eq (hlock : (s.inode i).lock = true) (hi : 0 < (s.inode i).ref)
    (hkeep : ¬((s.inode i).valid = true ∧ (s.inode i).din.nlink = 0 ∧ (s.inode i).ref = 1))
    : s.iunlockput i = .ok (s.setInode i { s.inode i with lock := false, ref := (s.inode i).ref - 1 }) := by
  unfold iunlockput
  rw [iunlock_eq hlock hi]
  refine (iput_keeps ?_ ?_).trans (congrArg Except.ok (drop_setInode ..))
  . rw [setInode_self]
  . rw [setInode_self]
    exact hkeep

theorem Proper.data_eq (h : Proper nmeta s) (hi : 0 < (s.inode i).ref) (hvalid : (s.inode i).valid = true)
    : s.data i = s.file (s.inode i).inum := by
  unfold data file chunks
  rw [(h.work hi hvalid).2, (h.synced i hi hvalid).1]

theorem Proper.dir (h : Proper nmeta s) (hi : 0 < (s.inode i).ref) (hvalid : (s.inode i).valid = true)
    (htype : (s.inode i).din.type = T_DIR) (hlock : (s.inode i).lock = true)
    (haligned : (s.inode i).din.size.toNat % 16 = 0)
    : Dir nmeta s i := by
  refine ⟨(h.work hi hvalid).1, h.sized_of_valid hi hvalid ?_, htype, hlock, ?_⟩
  . rw [htype]
    decide
  . rw [length_data]
    exact haligned

theorem iget_near {dev y : Nat} {k : Fin n} (h : s.iget dev y = .ok (k, s'))
    : s'.toStore = s.toStore ∧ (s'.inode k).inum = y ∧ (∀ j, (s'.inode j).lock = (s.inode j).lock)
      ∧ ∀ j, 0 < (s.inode j).ref → (s'.inode j).inum = (s.inode j).inum
        ∧ (s'.inode j).din = (s.inode j).din ∧ (s.inode j).ref ≤ (s'.inode j).ref := by
  have hother : ∀ ip j, j ≠ k → (s.setInode k ip).inode j = s.inode j := by
    intro ip j hj
    exact Function.update_of_ne hj ..
  rcases iget_eq h with ⟨hpos, -, hinum, rfl⟩ | ⟨hzero, rfl⟩
  . refine ⟨rfl, ?_, ?_, ?_⟩
    . rw [setInode_self]
      exact hinum
    . intro j
      by_cases hj : j = k
      . rw [hj, setInode_self]
      . rw [hother _ j hj]
    . intro j _
      by_cases hj : j = k
      . rw [hj, setInode_self]
        exact ⟨rfl, rfl, by dsimp only; omega⟩
      . rw [hother _ j hj]
        exact ⟨rfl, rfl, le_refl _⟩
  . refine ⟨rfl, ?_, ?_, ?_⟩
    . rw [setInode_self]
    . intro j
      by_cases hj : j = k
      . rw [hj, setInode_self]
      . rw [hother _ j hj]
    . intro j hpos
      have hj : j ≠ k := by
        rintro rfl
        omega
      rw [hother _ j hj]
      exact ⟨rfl, rfl, le_refl _⟩

theorem iget_error {dev y : Nat} {e : Halt} (h : s.iget dev y = .error e)
    : e = .iget ∧ ∀ j, (s.inode j).ref ≠ 0 := by
  unfold iget at h
  dsimp only at h
  split at h
  . cases h
  split at h
  . next hnone =>
    cases h
    refine ⟨rfl, ?_⟩
    intro j hj
    have hnot := List.find?_eq_none.mp hnone j (List.mem_finRange j)
    exact hnot (decide_eq_true hj)
  . cases h

def target (s : State n) (parent : Bool) (x : Nat) (names : List (List UInt8)) : Option Nat :=
  if parent then s.walkParent x names else s.walk x names

theorem target_cons (h : parent = true → names ≠ [])
    (name : List UInt8)
    : s.target parent x (name :: names) = (s.child x name).bind fun y => s.target parent y names := by
  unfold target
  cases parent with
  | false => rfl
  | true =>
    have hne := h rfl
    simp only [if_true]
    unfold walkParent
    have hwalk : s.walk x (name :: names.dropLast) = (s.child x name).bind fun y => s.walk y names.dropLast := rfl
    rw [if_neg (List.cons_ne_nil _ _), List.dropLast_cons_of_ne_nil hne, hwalk]
    simp only [if_neg hne]
    cases s.child x name with
    | none => rfl
    | some y => rfl

theorem target_last (name : List UInt8)
    : s.target true x [name] = if (s.inodes x).type = T_DIR then some x else none := by
  unfold target walkParent walk
  rw [if_pos rfl, if_neg (List.cons_ne_nil _ _)]
  change Option.filter _ (some x) = _
  rw [Option.filter_some]
  simp

theorem target_of_not_dir (h : (s.inodes x).type ≠ T_DIR) (name : List UInt8)
    (names : List (List UInt8))
    : s.target parent x (name :: names) = none := by
  by_cases hlast : parent = true ∧ names = []
  . rw [hlast.1, hlast.2, target_last, if_neg h]
  rw [target_cons (fun hparent hnil => hlast ⟨hparent, hnil⟩)]
  unfold child
  rw [if_neg h]
  rfl

structure At (nmeta : Nat) (s s' : State n) (i : Fin n) (x : Nat) : Prop extends Near s s' i x where
  proper : Proper nmeta s'
  refs : s'.refs = s.refs + Pi.single i 1

namespace At

section
variable (h : At nmeta s s' i x)
include h

theorem ref_self : (s'.inode i).ref = (s.inode i).ref + 1 := by
  have hrefs := congrFun h.refs i
  rw [Pi.add_apply, Pi.single_eq_same] at hrefs
  exact hrefs

theorem ref_of_ne {j : Fin n} (hj : j ≠ i) : (s'.inode j).ref = (s.inode j).ref := by
  have hrefs := congrFun h.refs j
  rw [Pi.add_apply, Pi.single_eq_of_ne hj, add_zero] at hrefs
  exact hrefs

theorem ref_le (j : Fin n) : (s.inode j).ref ≤ (s'.inode j).ref := by
  by_cases hj : j = i
  . rw [hj, h.ref_self]
    omega
  . rw [h.ref_of_ne hj]

theorem ref_pos (htree : Tree nmeta s) : 0 < (s'.inode i).ref := by
  have hnonneg : 0 ≤ (s.inode i).ref := htree.refs i
  rw [h.ref_self]
  omega

theorem not_last (htree : Tree nmeta s) (halive : s.Alive x) {ip : Inode}
    (hdin : ip.valid = true → ip.din = s.inodes x) (href : (s'.inode i).ref ≤ ip.ref)
    : ¬(ip.valid = true ∧ ip.din.nlink = 0 ∧ ip.ref = 1) := by
  rintro ⟨hvalid, hnlink, hone⟩
  have hself := h.ref_self
  have hnonneg : 0 ≤ (s.inode i).ref := htree.refs i
  rcases halive.kept with hlink | ⟨j, hj, hjx⟩
  . rw [hdin hvalid] at hnlink
    exact hlink hnlink
  . have hji : j = i := by
      apply h.proper.single
      . exact Int.lt_of_lt_of_le hj (h.ref_le j)
      . omega
      . rw [h.kept j hj, hjx, h.inum]
    rw [hji] at hj
    omega

theorem stops_iget (hfull : ∀ j, (s'.inode j).ref ≠ 0) : s.Stops .iget := by
  refine .inl ⟨rfl, ?_⟩
  have hself : ∀ j, (s.inode j).ref = 0 → j = i := by
    intro j hj
    by_contra hji
    exact hfull j ((h.ref_of_ne hji).trans hj)
  intro j k hj hk
  rw [hself j hj, hself k hk]

end

end At

structure Locked (nmeta : Nat) (s s' t : State n) (i : Fin n) (x : Nat) : Prop where
  proper : Proper nmeta t
  store : t.toStore = s.toStore
  self : t.inode i = { s'.inode i with lock := true, valid := true, din := s.inodes x }
  other : ∀ j, j ≠ i → t.inode j = s'.inode j
  free : (s.inode i).lock = false

theorem At.ilock (h : At nmeta s s' i x) (htree : Tree nmeta s) (halive : s.Alive x)
    : Sat s.Stops (fun t => Locked nmeta s s' t i x) (s'.ilock i) := by
  have hi := h.ref_pos htree
  by_cases hlock : (s'.inode i).lock = true
  . have hlocked : (s.inode i).lock = true := (h.lock i).symm.trans hlock
    unfold State.ilock State.acquiresleep
    rw [if_neg (by omega), if_pos hlock]
    exact .inr ⟨rfl, i, hlocked⟩
  . have hfree : (s'.inode i).lock = false := Bool.eq_false_iff.mpr hlock
    have htype : (s'.inodes (s'.inode i).inum).type ≠ 0 := by
      rw [h.inodes, h.inum]
      exact halive.type
    have hilock := h.proper.ilock_eq hi hfree htype
    have hproper := (h.proper.ilock (i := i)).of_ok hilock
    rw [hilock]
    refine ⟨hproper.1, h.store, ?_, hproper.2.2.2.2.2.2, (h.lock i).symm.trans hfree⟩
    rw [setInode_self, h.inodes, h.inum]

namespace Locked

variable {t : State n}

section
variable (h : Locked nmeta s s' t i x)
include h

theorem inodes_eq : t.inodes = s.inodes := by
  unfold State.inodes
  rw [h.store]

theorem file_eq : t.file = s.file := by
  unfold file
  rw [h.inodes_eq, h.store]

theorem ref_eq (j : Fin n) : (t.inode j).ref = (s'.inode j).ref := by
  by_cases hj : j = i
  . rw [hj, h.self]
  . rw [h.other j hj]

theorem inum_eq (j : Fin n) : (t.inode j).inum = (s'.inode j).inum := by
  by_cases hj : j = i
  . rw [hj, h.self]
  . rw [h.other j hj]

theorem dirlookup_eq (htree : Tree nmeta s) (hat : At nmeta s s' i x)
    (htype : (s.inodes x).type = T_DIR) (name : List UInt8)
    : t.dirlookup i name = t.answer i (lookup (s.file x) name) := by
  have hi : 0 < (t.inode i).ref := by
    rw [h.ref_eq]
    exact hat.ref_pos htree
  have hvalid : (t.inode i).valid = true := by rw [h.self]
  have hdir : Dir nmeta t i := by
    refine h.proper.dir hi hvalid ?_ ?_ ?_
    . rw [h.self]
      exact htype
    . rw [h.self]
    . rw [h.self]
      exact htree.aligned x htype
  rw [hdir.dirlookup_eq, h.proper.data_eq hi hvalid, h.file_eq, h.inum_eq, hat.inum]

end

end Locked

theorem At.iunlockput (h : At nmeta s s' i x) (htree : Tree nmeta s) (halive : s.Alive x) {u : State n}
    (hlock : (u.inode i).lock = true) (hdin : (u.inode i).din = s.inodes x)
    (href : (s'.inode i).ref ≤ (u.inode i).ref)
    : u.iunlockput i = .ok (u.setInode i { u.inode i with lock := false, ref := (u.inode i).ref - 1 }) := by
  have hi := h.ref_pos htree
  exact iunlockput_eq hlock (by omega) (h.not_last htree halive (fun _ => hdin) href)

theorem At.iput (h : At nmeta s s' i x) (htree : Tree nmeta s) (halive : s.Alive x)
    : Sat s.Stops (fun t => t.toStore = s.toStore) (s'.iput i) := by
  have hi := h.ref_pos htree
  by_cases hlock : (s'.inode i).lock = true
  . have hlocked : (s.inode i).lock = true := (h.lock i).symm.trans hlock
    unfold State.iput State.acquiresleep
    rw [if_pos hlock]
    exact .inr ⟨rfl, i, hlocked⟩
  . have hdin : (s'.inode i).valid = true → (s'.inode i).din = s.inodes x := by
      intro hvalid
      rw [(h.proper.synced i hi hvalid).1, h.inodes, h.inum]
    rw [iput_keeps (Bool.eq_false_iff.mpr hlock) (h.not_last htree halive hdin (Int.le_refl _))]
    exact h.store

theorem At.next {t u : State n} {k : Fin n} {y : Nat} (h : At nmeta s s' i x) (htree : Tree nmeta s)
    (halive : s.Alive x) (hheld : Locked nmeta s s' t i x) (hget : t.iget (t.inode i).dev y = .ok (k, u))
    : ∃ u', u.iunlockput i = .ok u' ∧ Near s u' k y := by
  rcases iget_near hget with ⟨hstore, hinum, hlock, hkept⟩
  have hi : 0 < (t.inode i).ref := by
    rw [hheld.ref_eq]
    exact h.ref_pos htree
  rcases hkept i hi with ⟨-, hdin, href⟩
  refine ⟨_, h.iunlockput htree halive ?_ ?_ ?_, ⟨?_, ?_, ?_, ?_⟩⟩
  . rw [hlock, hheld.self]
  . rw [hdin, hheld.self]
  . rw [← hheld.ref_eq]
    exact href
  . exact hstore.trans hheld.store
  . by_cases hki : k = i
    . rw [hki, setInode_self]
      rw [hki] at hinum
      exact hinum
    . exact (congrArg Inode.inum (Function.update_of_ne hki ..)).trans hinum
  . intro j
    by_cases hj : j = i
    . rw [hj, setInode_self]
      exact hheld.free.symm
    . refine (congrArg Inode.lock (Function.update_of_ne hj ..)).trans ?_
      rw [hlock, hheld.other j hj]
      exact h.lock j
  . intro j hpos
    have htj : 0 < (t.inode j).ref := by
      rw [hheld.ref_eq]
      exact Int.lt_of_lt_of_le hpos (h.ref_le j)
    have hjinum : (u.inode j).inum = (s.inode j).inum := by
      rw [(hkept j htj).1, hheld.inum_eq, h.kept j hpos]
    by_cases hj : j = i
    . rw [hj, setInode_self]
      rw [hj] at hjinum
      exact hjinum
    . exact (congrArg Inode.inum (Function.update_of_ne hj ..)).trans hjinum

section
variable (htree : Tree nmeta s)
include htree

theorem namexBody_sat (parent : Bool) (path name : List UInt8) (hat : At nmeta s s' i x)
    (hsearched : s.Searched parent x (components path))
    : Sat s.Stops
      (Sum.elim
        (fun b => b.1.length < path.length ∧ ∃ y, Near s b.2.2.2 b.2.2.1 y ∧ s.Searched parent y (components b.1)
          ∧ s.target parent x (components path) = s.target parent y (components b.1)
          ∧ (parent = true → (components path).getLast? = (components b.1).getLast?))
        (fun r => r.2.toStore = s.toStore
          ∧ r.1.map (fun p => (r.2.inode p.1).inum) = s.target parent x (components path)
          ∧ (parent = true → ∀ p, r.1 = some p → (components path).getLast? = some p.2)))
      (namexBody parent (path, name, i, s')) := by
  unfold namexBody
  dsimp only
  split
  . next name rest hskip =>
    rcases components_of_skipelem hskip with ⟨hcomponents, hrest⟩
    rw [hcomponents] at hsearched ⊢
    have halive := hsearched.alive fun hnil => by cases hnil
    apply Sat.bind (hat.ilock htree halive)
    intro t hheld
    have htype : (t.inode i).din.type = (s.inodes x).type := by rw [hheld.self]
    have hput : t.iunlockput i = .ok _ := hat.iunlockput htree halive (by rw [hheld.self]) (by rw [hheld.self])
      (Int.le_of_eq (hheld.ref_eq i).symm)
    rw [htype]
    split
    . next hnot =>
      rw [hput]
      exact ⟨hheld.store, (target_of_not_dir hnot name _).symm, fun _ p hp => by cases hp⟩
    next hdir =>
    have hdir : (s.inodes x).type = T_DIR := not_not.mp hdir
    split
    . -- The last name is left to the caller of `nameiparent`.
      next hlast =>
      have hpos : 0 < (t.inode i).ref := by
        rw [hheld.ref_eq]
        exact hat.ref_pos htree
      rw [iunlock_eq (by rw [hheld.self]) hpos, hlast.1, hlast.2]
      refine ⟨hheld.store, ?_, ?_⟩
      . change some ((t.setInode i _).inode i).inum = s.target true x [name]
        rw [target_last, if_pos hdir, setInode_self]
        exact congrArg some ((hheld.inum_eq i).trans hat.inum)
      . intro _ p hp
        cases hp
        rfl
    next hmore =>
    have hne : parent = true → components rest ≠ [] := fun hparent hnil => hmore ⟨hparent, hrest hnil⟩
    rw [target_cons hne, hheld.dirlookup_eq htree hat hdir]
    have hchild : s.child x name = (lookup (s.file x) name).map Prod.snd := if_pos hdir
    rw [hchild]
    cases hlookup : lookup (s.file x) name with
    | none =>
      unfold answer
      simp only [bind, Except.bind]
      rw [hput]
      exact ⟨hheld.store, rfl, fun _ p hp => by cases hp⟩
    | some r =>
      rcases r with ⟨j, y⟩
      unfold answer
      dsimp only
      cases hget : t.iget (t.inode i).dev y with
      | error e =>
        rcases iget_error hget with ⟨rfl, hfull⟩
        exact hat.stops_iget fun j hj => hfull j ((hheld.ref_eq j).trans hj)
      | ok r =>
        rcases hat.next htree halive hheld hget with ⟨u', hput', hnear⟩
        simp only [bind, Except.bind, pure, Except.pure]
        rw [hput']
        rw [hlookup] at hchild
        refine ⟨skipelem_lt hskip, y, hnear, hsearched.child hne hchild, rfl, ?_⟩
        intro hparent
        exact List.getLast?_cons_of_ne_nil (hne hparent)
  . next hskip =>
    rw [components_of_skipelem_none hskip] at hsearched ⊢
    split
    . next hparent =>
      -- A path without elements has no parent.
      apply Sat.bind (hat.iput htree (hsearched.alive fun _ => hparent))
      intro t hstore
      rw [hparent]
      exact ⟨hstore, rfl, fun _ p hp => by cases hp⟩
    . next hparent =>
      refine ⟨hat.store, ?_, fun hparent' => absurd hparent' hparent⟩
      rw [Bool.eq_false_iff.mpr hparent]
      exact congrArg some hat.inum

theorem namex_loop (parent : Bool) (hat : At nmeta s s' i x)
    (hsearched : s.Searched parent x (components path))
    : Sat s.Stops
      (fun r => r.2.toStore = s.toStore
        ∧ r.1.map (fun p => (r.2.inode p.1).inum) = s.target parent x (components path)
        ∧ (parent = true → ∀ p, r.1 = some p → (components path).getLast? = some p.2))
      (Outcome.loop .stuck (namexBody parent) (path.length + 1) (path, [], i, s')) := by
  -- What is to be found from the current entry on stays the same.
  refine Sat.loop (fun b => ∃ y, At nmeta s b.2.2.2 b.2.2.1 y ∧ s.Searched parent y (components b.1)
      ∧ s.target parent x (components path) = s.target parent y (components b.1)
      ∧ (parent = true → (components path).getLast? = (components b.1).getLast?))
    (fun b => b.1.length) ?_ ⟨x, hat, hsearched, rfl, fun _ => rfl⟩ (Nat.lt_succ_self _)
  rintro ⟨path', name, j, s1⟩ ⟨y, hat', hsearched', htarget, hlast⟩
  dsimp only at hat' hsearched' htarget hlast
  have hbody := namexBody_sat htree parent path' name hat' hsearched'
  have hproper := Proper.namexBody parent htree.refs (path', name, j, s1) hat'.proper hat'.refs
  have hrefs := namexBody_refs parent s.refs (path', name, j, s1) hat'.refs
  refine ((hbody.and hproper).and hrefs).mono (fun _ he => he) ?_
  rintro (b | r) ⟨⟨hnext, hproper⟩, hrefs⟩
  . rcases hnext with ⟨hlt, z, hnear, hsearched, htarget', hlast'⟩
    exact ⟨⟨z, ⟨hnear, hproper, hrefs⟩, hsearched, htarget.trans htarget',
      fun hparent => (hlast hparent).trans (hlast' hparent)⟩, hlt⟩
  . rcases hnext with ⟨hstore, hfound, hname⟩
    exact ⟨hstore, hfound.trans htarget.symm, fun hparent p hp => (hlast hparent).trans (hname hparent p hp)⟩

def start (s : State n) (cwd : Fin n) (path : List UInt8) : Nat :=
  if path.head? = some slash then ROOTINO else (s.inode cwd).inum

theorem namex_sat {cwd : Fin n} (hcwd : 0 < (s.inode cwd).ref) (path : List UInt8)
    (parent : Bool) (hsearched : s.Searched parent (s.start cwd path) (components path))
    : Sat s.Stops
      (fun r => r.2.toStore = s.toStore
        ∧ r.1.map (fun p => (r.2.inode p.1).inum) = s.target parent (s.start cwd path) (components path)
        ∧ (parent = true → ∀ p, r.1 = some p → (components path).getLast? = some p.2))
      (s.namex cwd path parent) := by
  unfold start at hsearched ⊢
  unfold namex
  split
  . next habs =>
    rw [if_pos habs] at hsearched
    cases hget : s.iget ROOTDEV ROOTINO with
    | error e =>
      rcases iget_error hget with ⟨rfl, hfull⟩
      exact .inl ⟨rfl, fun j _ hj => absurd hj (hfull j)⟩
    | ok r =>
      rcases r with ⟨i, s1⟩
      rcases iget_near hget with ⟨hstore, hinum, hlock, hkept⟩
      have hproper := ((htree.toProper.iget htree.root).of_ok hget).1
      have hrefs := (iget_refs s ROOTDEV ROOTINO).of_ok hget
      exact namex_loop htree parent ⟨⟨hstore, hinum, hlock, fun j hj => (hkept j hj).1⟩, hproper, hrefs⟩
        hsearched
  . next hrel =>
    rw [if_neg hrel] at hsearched
    have hother : ∀ j, j ≠ cwd → (s.idup cwd).inode j = s.inode j := by
      intro j hj
      exact Function.update_of_ne hj ..
    have hself : (s.idup cwd).inode cwd = { s.inode cwd with ref := (s.inode cwd).ref + 1 } :=
      setInode_self ..
    refine namex_loop htree parent ⟨⟨rfl, ?_, ?_, ?_⟩, (htree.toProper.idup hcwd).1, refs_idup s cwd⟩
      hsearched
    . rw [hself]
    . intro j
      by_cases hj : j = cwd
      . rw [hj, hself]
      . rw [hother j hj]
    . intro j _
      by_cases hj : j = cwd
      . rw [hj, hself]
      . rw [hother j hj]

/-- Path resolution is a walk down the directory tree. -/
theorem path_resolution_is_walk {cwd : Fin n} (hcwd : 0 < (s.inode cwd).ref)
    (path : List UInt8)
    (halive : ∀ names y, names <+: (components path).dropLast → s.walk (s.start cwd path) names = some y
      → s.Alive y)
    : Sat s.Stops
        (fun r => r.2.toStore = s.toStore
          ∧ r.1.map (fun i => (r.2.inode i).inum) = s.walk (s.start cwd path) (components path))
        (s.namei cwd path)
      ∧ Sat s.Stops
        (fun r => r.2.toStore = s.toStore
          ∧ r.1.map (fun p => (r.2.inode p.1).inum) = s.walkParent (s.start cwd path) (components path)
          ∧ ∀ p, r.1 = some p → (components path).getLast? = some p.2)
        (s.nameiparent cwd path) := by
  constructor
  . apply Sat.bind (namex_sat htree hcwd path false fun _ => halive)
    rintro ⟨r, s1⟩ ⟨hstore, hfound, -⟩
    refine ⟨hstore, ?_⟩
    change (r.map Prod.fst).map _ = _
    rw [Option.map_map]
    exact hfound
  . refine (namex_sat htree hcwd path true fun _ => halive).mono (fun _ he => he) ?_
    rintro r ⟨hstore, hfound, hname⟩
    exact ⟨hstore, hfound, hname rfl⟩

end

def idle : State 3 :=
  home.releasesleep dp

theorem idle_inodes : idle.inodes = Function.update (fun _ => .fresh 0) 1 homeDin :=
  home_table

theorem inodes_idle_ne {x : Nat} (hx : x ≠ 1) : (idle.inodes x).type = 0 := by
  rw [idle_inodes, Function.update_of_ne hx]
  rfl

theorem used_idle {j : Fin 3} (h : 0 < (idle.inode j).ref) : j = dp := by
  revert j
  decide

theorem tree_idle : Tree 59 idle := by
  have hone : idle.inodes 1 = homeDin := by
    rw [idle_inodes, Function.update_self]
  have htype : ∀ x, (idle.inodes x).type = T_DIR → x = 1 := by
    intro x hx
    by_contra hne
    rw [inodes_idle_ne hne] at hx
    cases hx
  refine ⟨⟨⟨consistent_home, ?_, ?_, ?_, ?_⟩, by decide, ?_, ?_⟩, by decide, ?_⟩
  . intro x hx _
    by_cases hx1 : x = 1
    . rw [hx1, hone]
      exact dir_home.sized
    . exact absurd (inodes_idle_ne hx1) hx
  . intro j hj
    rw [used_idle hj]
    rfl
  . intro j j' hj hj' _
    rw [used_idle hj, used_idle hj']
  . intro j hj _
    rw [used_idle hj]
    exact ⟨hone.symm, by decide⟩
  . intro j hj
    rw [used_idle hj]
    decide
  . intro x m hx hm
    rw [htype x hx] at hm ⊢
    rw [hone] at hm
    have hm : 16 * m + 16 ≤ 32 := hm
    have hinum : ∀ m, m < 2 → idle.inumAt 1 (DIRENTSIZE * m) < idle.sb.ninodes := by decide +kernel
    exact hinum m (by omega)
  . intro x hx
    rw [htype x hx, hone]
    decide

theorem alive_idle (names : List (List UInt8)) (y : Nat) (hnames : names <+: (components [slash, dot]).dropLast)
    (hwalk : idle.walk (idle.start dp [slash, dot]) names = some y)
    : idle.Alive y := by
  have hlast : (components [slash, dot]).dropLast = [] := by decide +kernel
  rw [hlast, List.prefix_nil] at hnames
  rw [hnames] at hwalk
  cases hwalk
  refine ⟨?_, .inl ?_⟩ <;> decide +kernel

theorem path_resolution_is_walk_of_root
    : ∃ i s', idle.namei dp [slash, dot] = .ok (some i, s') ∧ (s'.inode i).inum = ROOTINO := by
  have hspec := (path_resolution_is_walk tree_idle (show 0 < (idle.inode dp).ref by decide) [slash, dot]
    alive_idle).1
  have hwalk : idle.walk (idle.start dp [slash, dot]) (components [slash, dot]) = some ROOTINO := by
    decide +kernel
  have hfree : ∀ j, (idle.inode j).lock = false := by decide
  cases hnamei : idle.namei dp [slash, dot] with
  | error e =>
    rcases hspec.of_error hnamei with ⟨-, hfull⟩ | ⟨-, j, hlock⟩
    . exact absurd (hfull ⟨1, by decide⟩ ⟨2, by decide⟩ (by decide) (by decide)) (by decide)
    . rw [hfree] at hlock
      cases hlock
  | ok r =>
    rcases r with ⟨found, s'⟩
    have hfound := (hspec.of_ok hnamei).2
    rw [hwalk] at hfound
    cases found with
    | none => cases hfound
    | some i => exact ⟨i, s', rfl, Option.some.inj hfound⟩

end State
end Xv6.Fs
