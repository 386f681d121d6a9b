import Xv6.Bcache.Representation

namespace Xv6.Bcache

open Ring Reach

variable {n : Nat} {P : Type} {links : Links (Fin n)} {i : Fin n}

namespace Cache

inductive Call (n : Nat) (P : Type)
  | bget (dev blockno : Nat)
  | brelse (i : Fin n)
  | use (buf : Fin n → Buf P)

def use (c : Cache n P) (buf : Fin n → Buf P) : Cache n P :=
  { c with
    buf := fun i =>
      { buf i with
        dev := (c.buf i).dev, blockno := (c.buf i).blockno, refcnt := (c.buf i).refcnt } }

def call (c : Cache n P) : Call n P → Option (Cache n P)
  | .bget dev blockno => (c.bget dev blockno).toOption.map Prod.snd
  | .brelse i => if (c.buf i).refcnt = 0 then none else some (c.put i)
  | .use buf => some (c.use buf)

def Calls (c : Cache n P) (a : Call n P) (c' : Cache n P) : Prop :=
  c.call a = some c'

def stamp (c c' : Cache n P) (k : Nat) (t : Fin n → Nat) (i : Fin n) : Nat :=
  if (c.buf i).refcnt ≠ 0 ∧ (c'.buf i).refcnt = 0 then k else t i

def lastFreed (state : Nat → Cache n P) : Nat → Fin n → Nat
  | 0 => fun _ => 0
  | k + 1 => stamp (state k) (state (k + 1)) (k + 1) (lastFreed state k)

theorem lastFreed_le (state : Nat → Cache n P) (k : Nat) (i : Fin n) : lastFreed state k i ≤ k := by
  induction k with
  | zero => exact Nat.le_refl 0
  | succ k ih =>
    rw [lastFreed, stamp]
    split
    . exact Nat.le_refl _
    . exact Nat.le_succ_of_le ih

def Ordered (c : Cache n P) (t : Fin n → Nat) : Prop :=
  ∃ l, c.links.Represents l ∧ (∀ i, i ∈ l) ∧ l.Pairwise fun i j => t j = 0 ∨ t j < t i

variable {c c' : Cache n P} {t : Fin n → Nat} {k : Nat}

theorem ordered_binit (links : Links (Fin n)) : (binit links : Cache n P).Ordered fun _ => 0 := by
  rcases linked_binit (P := P) links with ⟨l, hrep, hmem⟩
  exact ⟨l, hrep, hmem, List.pairwise_of_forall fun _ _ => .inl rfl⟩

theorem Ordered.of_links_eq (h : c.Ordered t) (hlinks : c'.links = c.links)
    (hused : ∀ i, (c.buf i).refcnt ≠ 0 → (c'.buf i).refcnt ≠ 0)
    : c'.Ordered (stamp c c' k t) := by
  have hstamp : stamp c c' k t = t := by
    funext i
    rw [stamp, if_neg]
    rintro ⟨hbefore, hafter⟩
    exact hused i hbefore hafter
  rw [hstamp]
  unfold Ordered
  rw [hlinks]
  exact h

theorem Ordered.free (h : c.Ordered t) (hone : (c.buf i).refcnt = 1) (hk : ∀ j, t j < k)
    : (c.put i).Ordered (stamp c (c.put i) k t) := by
  rcases h with ⟨l, hrep, hmem, hpair⟩
  rcases List.append_of_mem (hmem i) with ⟨l₁, l₂, rfl⟩
  have hnodup := List.nodup_cons.mp (List.nodup_middle.mp hrep.nodup)
  have hself : stamp c (c.put i) k t i = k := by
    rw [stamp, if_pos]
    rw [refcnt_put, if_pos rfl, hone]
    exact ⟨by decide, rfl⟩
  have hother : ∀ j, j ∈ l₁ ++ l₂ → stamp c (c.put i) k t j = t j := by
    intro j hj
    rw [stamp, if_neg]
    rw [refcnt_put, if_neg (by rintro rfl; exact hnodup.1 hj)]
    exact fun h => h.1 h.2
  refine ⟨i :: (l₁ ++ l₂), ?_, ?_, ?_⟩
  . rw [links_put, if_pos (by rw [hone])]
    exact hrep.unlink.insertFront hnodup.1
  . intro j
    exact List.perm_middle.mem_iff.mp (hmem j)
  . apply List.pairwise_cons.mpr
    constructor
    . intro j hj
      rw [hself, hother j hj]
      exact .inr (hk j)
    . have hrest : (l₁ ++ l₂).Pairwise fun i j => t j = 0 ∨ t j < t i := by
        exact List.Pairwise.sublist (List.Sublist.append_left (List.sublist_cons_self i l₂) l₁) hpair
      apply hrest.imp_of_mem
      intro a b ha hb hab
      rw [hother a ha, hother b hb]
      exact hab

theorem Ordered.put (h : c.Ordered t) (hpos : (c.buf i).refcnt ≠ 0) (hk : ∀ j, t j < k)
    : (c.put i).Ordered (stamp c (c.put i) k t) := by
  by_cases hone : (c.buf i).refcnt = 1
  . exact h.free hone hk
  apply h.of_links_eq
  . rw [links_put, if_neg (by omega)]
  . intro j hj
    rw [refcnt_put]
    split
    . omega
    . exact hj

instance : Nonempty (Call n P) :=
  ⟨.bget 0 0⟩

theorem Ordered.call {a : Call n P} (h : c.Ordered t) (hk : ∀ j, t j < k) (hcall : c.Calls a c')
    : c'.Ordered (stamp c c' k t) := by
  cases a with
  | bget dev blockno =>
    have hlinked : c.Linked := h.imp fun _ hl => ⟨hl.1, hl.2.1⟩
    rcases hlinked.bget_cases dev blockno with ⟨i, d, hok, hgets⟩ | ⟨herr, -⟩
    . simp only [Calls, Cache.call, hok, Except.toOption, Option.map_some, Option.some.injEq] at hcall
      subst hcall
      apply h.of_links_eq
      . cases hgets with
        | hit => rfl
        | miss => rfl
      . intro j hj
        rw [hgets.refcnt]
        omega
    . simp only [Calls, Cache.call, herr, Except.toOption, Option.map_none] at hcall
      cases hcall
  | brelse i =>
    change (if (c.buf i).refcnt = 0 then none else some (c.put i)) = some c' at hcall
    split at hcall
    . cases hcall
    . next hpos =>
      cases hcall
      exact h.put hpos hk
  | use buf =>
    cases hcall
    exact h.of_links_eq rfl (fun _ hj => hj)

theorem ordered_of_trace {tr : Trace (Calls (n := n) (P := P))}
    (h0 : tr.state 0 = .binit links) (hk : k ≤ tr.length)
    : (tr.state k).Ordered (lastFreed tr.state k) := by
  induction k with
  | zero =>
    rw [h0]
    exact ordered_binit links
  | succ k ih =>
    apply (ih (Nat.le_of_succ_le hk)).call _ (tr.next k hk)
    intro j
    exact Nat.lt_succ_of_le (lastFreed_le tr.state k j)

theorem Ordered.miss (h : c.Ordered t) {dev blockno : Nat} (hmiss : ∀ i, c.caches dev blockno i = false)
    : (∃ i, c.bget dev blockno = .ok (i, c.recycle i dev blockno) ∧ c.unused i = true
        ∧ ∀ j, c.unused j = true → j ≠ i → t i = 0 ∨ t i < t j)
      ∨ (c.bget dev blockno = .error .noBuffers ∧ ∀ i, c.unused i = false) := by
  rcases h with ⟨l, hrep, hmem, hpair⟩
  have hhit : l.find? (c.caches dev blockno) = none := by
    apply List.find?_eq_none.mpr
    intro i _ hi
    rw [hmiss i] at hi
    cases hi
  rw [bget_eq hrep hmem, hhit]
  cases hfind : l.reverse.find? c.unused with
  | none =>
    refine .inr ⟨rfl, ?_⟩
    intro i
    rw [← Bool.not_eq_true]
    exact List.find?_eq_none.mp hfind i (List.mem_reverse.mpr (hmem i))
  | some i =>
    refine .inl ⟨i, rfl, List.find?_some hfind, ?_⟩
    intro j hj hji
    rcases List.find?_eq_some_iff_append.mp hfind with ⟨hi, as, bs, hsplit, hskipped⟩
    have hmemj : j ∈ as ++ i :: bs := by
      rw [← hsplit]
      exact List.mem_reverse.mpr (hmem j)
    rcases List.mem_append.mp hmemj with hjas | hjbs
    . have := hskipped j hjas
      rw [hj] at this
      cases this
    . have hback := List.pairwise_reverse.mpr hpair
      rw [hsplit] at hback
      have hjbs : j ∈ bs := (List.mem_cons.mp hjbs).resolve_left hji
      exact (List.pairwise_cons.mp (List.pairwise_append.mp hback).2.1).1 j hjbs

def key (b : Buf P) : Nat × Nat :=
  (b.dev, b.blockno)

theorem Ordered.recycled {a : Call n P} (h : c.Ordered t) (hcall : c.Calls a c')
    (hkey : key (c'.buf i) ≠ key (c.buf i))
    : c.unused i = true ∧ ∀ j, c.unused j = true → j ≠ i → t i = 0 ∨ t i < t j := by
  cases a with
  | bget dev blockno =>
    have hlinked : c.Linked := h.imp fun _ hl => ⟨hl.1, hl.2.1⟩
    rcases hlinked.bget_cases dev blockno with ⟨m, d, hok, hgets⟩ | ⟨herr, -⟩
    . simp only [Calls, Cache.call, hok, Except.toOption, Option.map_some, Option.some.injEq] at hcall
      subst hcall
      cases hgets with
      | hit => exact absurd (State.apply_update key (by rfl) i) hkey
      | miss hnone =>
        have hmiss : ∀ j, c.caches dev blockno j = false :=
          fun j => decide_eq_false fun h => hnone j h.1 h.2
        have hi : i = m := by
          by_contra hne
          exact hkey (congrArg key (c.buf_setBuf_of_ne _ hne))
        rcases h.miss hmiss with ⟨k, hok', hunused, holdest⟩ | ⟨herr, -⟩
        . cases hok.symm.trans hok'
          rw [hi]
          exact ⟨hunused, holdest⟩
        . cases hok.symm.trans herr
    . simp only [Calls, Cache.call, herr, Except.toOption, Option.map_none] at hcall
      cases hcall
  | brelse j =>
    change (if (c.buf j).refcnt = 0 then none else some (c.put j)) = some c' at hcall
    obtain ⟨-, hput⟩ := Option.ite_none_left_eq_some.mp hcall
    cases hput
    rw [buf_put] at hkey
    exact absurd (State.apply_update key (by rfl) i) hkey
  | use buf =>
    cases hcall
    exact absurd rfl hkey

/--
After any history, a `bget` that misses recycles the unused buffer that was released first, and it has
to be read from the disk.
-/
theorem bget_recycles_oldest (tr : Trace (Calls (n := n) (P := P)))
    (h0 : tr.state 0 = .binit links) (hk : k ≤ tr.length) (dev blockno : Nat)
    (hmiss : ∀ i, (tr.state k).caches dev blockno i = false)
    : ((tr.state k).bget dev blockno = .error .noBuffers ↔ ∀ i, (tr.state k).unused i = false)
      ∧ ((∃ i, (tr.state k).unused i = true) → ∃ i c', (tr.state k).bget dev blockno = .ok (i, c')
        ∧ (tr.state k).unused i = true ∧ (∀ j, (tr.state k).unused j = true → j ≠ i
          → lastFreed tr.state k i = 0 ∨ lastFreed tr.state k i < lastFreed tr.state k j) ∧ (c'.buf i).valid = false
        ∧ ∀ disk, (Memide.sync disk (c'.buf i)).2.data = disk blockno) := by
  rcases (ordered_of_trace h0 hk).miss hmiss with ⟨i, hok, hunused, holdest⟩ | ⟨herr, hnone⟩
  . constructor
    . constructor
      . intro herr
        rw [hok] at herr
        cases herr
      . intro hnone
        rw [hnone i] at hunused
        cases hunused
    . intro _
      refine ⟨i, _, hok, hunused, holdest, ?_, ?_⟩
      . rw [recycle, buf_setBuf_self]
      . intro disk
        rw [recycle, buf_setBuf_self]
        rfl
  . constructor
    . exact ⟨fun _ => hnone, fun _ => herr⟩
    . rintro ⟨i, hunused⟩
      rw [hnone i] at hunused
      cases hunused

theorem bget_recycles_oldest_of_two
    : ∃ tr : Trace (Calls (n := 2) (P := Unit)), tr.length = 4
      ∧ lastFreed tr.state 4 0 = 2 ∧ lastFreed tr.state 4 1 = 4
      ∧ ∃ c', (tr.state 4).bget 1 7 = .ok (0, c') ∧ (c'.buf 0).valid = false := by
  let tr : Trace (Calls (n := 2) (P := Unit)) :=
    .ofExec call (fun _ _ _ h => h) (.binit ⟨id, id⟩)
      [.bget 1 5, .brelse 0, .bget 1 6, .brelse 1] (.brelse 0) (by decide +kernel)
  have hfst : lastFreed tr.state 4 0 = 2 := by decide +kernel
  have hsnd : lastFreed tr.state 4 1 = 4 := by decide +kernel
  refine ⟨tr, rfl, hfst, hsnd, ?_⟩
  have hunused : ∀ i, (tr.state 4).unused i = true := by decide +kernel
  have h0 : tr.state 0 = .binit ⟨id, id⟩ := rfl
  rcases (bget_recycles_oldest tr h0 (Nat.le_refl 4) 1 7 (by decide +kernel)).2 ⟨0, hunused 0⟩
    with ⟨i, c', hok, -, holdest, hvalid, -⟩
  have hi : i = 0 := by
    by_contra hne
    have hone : i = 1 := by omega
    have := holdest 0 (hunused 0) (Ne.symm hne)
    rw [hone, hfst, hsnd] at this
    omega
  subst hi
  exact ⟨c', hok, hvalid⟩

end Cache

namespace State

variable [DecidableEq P] [Fintype P] {s s' : State n P}

omit [DecidableEq P] [Fintype P] in
theorem calls_of_sameKey (hlinks : s'.cache.links = s.cache.links)
    (hkey : ∀ i, (s'.buf i).dev = (s.buf i).dev ∧ (s'.buf i).blockno = (s.buf i).blockno
      ∧ (s'.buf i).refcnt = (s.buf i).refcnt)
    : s.cache.Calls (.use s'.cache.buf) s'.cache := by
  have hbuf : (s.cache.use s'.cache.buf).buf = s'.cache.buf := by
    funext i
    rcases hkey i with ⟨hdev, hblockno, hrefcnt⟩
    change { s'.buf i with dev := (s.buf i).dev, blockno := (s.buf i).blockno, refcnt := (s.buf i).refcnt }
      = s'.buf i
    rw [← hdev, ← hblockno, ← hrefcnt]
  have heq : s.cache.use s'.cache.buf = s'.cache := by
    calc s.cache.use s'.cache.buf
      _ = ⟨s.cache.links, (s.cache.use s'.cache.buf).buf⟩ := rfl
      _ = s'.cache := by rw [hbuf, ← hlinks]
  exact congrArg some heq

theorem Effect.calls {p : P} (h : Effect s p s') (hinv : s.Inv) : ∃ a, s.cache.Calls a s'.cache := by
  cases h with
  | quiet hlinks hkey hfree hpc =>
    exact ⟨_, calls_of_sameKey hlinks fun i => ⟨(hkey i).dev, (hkey i).blockno, (hkey i).refcnt⟩⟩
  | @get dev blockno i cache ret hfree hget hs' =>
    refine ⟨.bget dev blockno, ?_⟩
    rw [hs', Cache.Calls, Cache.call, hget]
    rfl
  | @acquire dev blockno i ret hpc hlock hs' =>
    subst hs'
    refine ⟨_, calls_of_sameKey rfl fun j => ⟨?_, ?_, ?_⟩⟩
    . exact apply_update Buf.dev (by rfl) j
    . exact apply_update Buf.blockno (by rfl) j
    . exact apply_update Buf.refcnt (by rfl) j
  | @release i next hfree hlock hs' =>
    subst hs'
    refine ⟨_, calls_of_sameKey rfl fun j => ⟨?_, ?_, ?_⟩⟩
    . exact apply_update Buf.dev (by rfl) j
    . exact apply_update Buf.blockno (by rfl) j
    . exact apply_update Buf.refcnt (by rfl) j
  | @put i next hpc hs' =>
    have hpos := hinv.refcnt_pos_of_refs (p := p) (i := i) (by rw [hpc, Pc.refs_brelse, if_pos rfl])
    refine ⟨.brelse i, ?_⟩
    rw [hs', Cache.Calls, Cache.call]
    exact if_neg (Nat.ne_of_gt hpos)

theorem ordered_of_trace {tr : Trace (Steps (n := n) (P := P))} {disk : Disk}
    {disksize dev start size : Nat} (h0 : tr.state 0 = init links disk disksize dev start size) {k : Nat}
    (hk : k ≤ tr.length)
    : (tr.state k).cache.Ordered (Cache.lastFreed (fun i => (tr.state i).cache) k) := by
  have hinit : (tr.state 0).Inv := by
    rw [h0]
    apply inv_init
  have hcalls : ∀ i, i < tr.length → ∃ a, (tr.state i).cache.Calls a (tr.state (i + 1)).cache := by
    intro i hi
    rcases (tr.next i hi).step.effect with ⟨p, heffect⟩
    exact heffect.calls (inv_of_trace hinit (Nat.le_of_lt hi))
  rcases tr.exists_map hcalls with ⟨tr', hlength, hstate⟩
  have hbinit : tr'.state 0 = .binit links := by
    rw [hstate]
    exact congrArg State.cache h0
  have hordered := Cache.ordered_of_trace hbinit (hlength ▸ hk)
  rw [hstate] at hordered
  exact hordered

/-- However the processes are interleaved, a buffer that gets another block is the unused one released first. -/
theorem recycled_is_oldest (tr : Trace (Steps (n := n) (P := P))) {disk : Disk}
    {disksize dev start size : Nat} (h0 : tr.state 0 = init links disk disksize dev start size) {k : Nat}
    (hk : k < tr.length) (hkey : Cache.key ((tr.state (k + 1)).buf i) ≠ Cache.key ((tr.state k).buf i))
    : (tr.state k).cache.unused i = true
      ∧ ∀ j, (tr.state k).cache.unused j = true → j ≠ i
        → Cache.lastFreed (fun m => (tr.state m).cache) k i = 0
          ∨ Cache.lastFreed (fun m => (tr.state m).cache) k i
              < Cache.lastFreed (fun m => (tr.state m).cache) k j := by
  have hinit : (tr.state 0).Inv := by
    rw [h0]
    apply inv_init
  obtain ⟨p, heffect⟩ := (tr.next k hk).step.effect
  obtain ⟨a, hcalls⟩ := heffect.calls (inv_of_trace hinit (Nat.le_of_lt hk))
  exact (ordered_of_trace h0 (Nat.le_of_lt hk)).recycled hcalls hkey

theorem recycled_is_oldest_of_two
    : ∃ tr : Trace (Steps (n := 2) (P := Bool)), (tr.state 10).cache.unused 1 = true
      ∧ Cache.key ((tr.state 11).buf 0) = (1, 7)
      ∧ (Cache.lastFreed (fun m => (tr.state m).cache) 10 0 = 0
        ∨ Cache.lastFreed (fun m => (tr.state m).cache) 10 0
            < Cache.lastFreed (fun m => (tr.state m).cache) 10 1) := by
  let tr : Trace (Steps (n := 2) (P := Bool)) :=
    .ofExec (attempt step) of_attempt (init ⟨id, id⟩ (fun _ => .zero) 100 1 2 30)
      [.bread true 1 5, .bread false 1 6, .next true, .next false, .next true, .next false, .brelse true 0,
        .brelse false 1, .next true, .next false, .bread true 1 7]
      (.next true) (by decide +kernel)
  have hunused : (tr.state 10).cache.unused 1 = true := by decide +kernel
  have h0 : tr.state 0 = init ⟨id, id⟩ (fun _ => .zero) 100 1 2 30 := rfl
  refine ⟨tr, hunused, by decide +kernel, ?_⟩
  exact (recycled_is_oldest tr h0 (k := 10) (show 10 < 11 by decide) (by decide +kernel)).2 1 hunused (by decide)

end State
end Xv6.Bcache
