import Xv6.Fs.Lemmas.Proper
import Xv6.Fs.Lemmas.Refs

namespace Xv6.Fs
namespace State

open Outcome

variable {n : Nat} {s s' : State n} {i : Fin n} {nmeta : Nat}

theorem ref_pos {refs : Fin n → Int} (h : s.refs = refs + Pi.single i 1) (hrefs : ∀ j, 0 ≤ refs j)
    : 0 < (s.inode i).ref := by
  have hi : s.refs i = refs i + 1 := by
    rw [h, Pi.add_apply, Pi.single_eq_same]
  have hnonneg := hrefs i
  change 0 < s.refs i
  omega

namespace Proper

theorem namexBody (parent : Bool) {refs : Fin n → Int} (hrefs : ∀ j, 0 ≤ refs j)
    (b : List UInt8 × List UInt8 × Fin n × State n) (h : Proper nmeta b.2.2.2)
    (hb : b.2.2.2.refs = refs + Pi.single b.2.2.1 1)
    : Sat (fun _ => True) (Sum.elim (fun b' => Proper nmeta b'.2.2.2) (fun r => Proper nmeta r.2))
      (State.namexBody parent b) := by
  rcases b with ⟨path, name, i, s⟩
  dsimp only at h hb
  have hi := ref_pos hb hrefs
  unfold State.namexBody
  dsimp only
  split
  . next name path _ =>
    apply Sat.bind h.ilock
    rintro s1 ⟨h1, hi1, hvalid1, _⟩
    split
    . apply Sat.bind h1.iunlockput
      rintro s2 ⟨h2, _⟩
      exact h2
    split
    . apply Sat.bind h1.iunlock
      rintro s2 ⟨h2, _⟩
      exact h2
    apply Sat.bind (h1.dirlookup hi1 hvalid1 name)
    rintro ⟨next, s2⟩ ⟨h2, _⟩
    apply Sat.bind h2.iunlockput
    rintro s3 ⟨h3, _⟩
    cases next with
    | none => exact h3
    | some r => exact h3
  . split
    . apply Sat.bind (h.iput hi)
      rintro s1 ⟨h1, _⟩
      exact h1
    . exact h

end Proper

end State
end Xv6.Fs
