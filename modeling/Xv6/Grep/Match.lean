import Mathlib.Computability.Language

/-!
The matcher of `grep.c` and the proof that it decides the language of a pattern.
Patterns and texts are C strings without their terminating 0.
-/

namespace Xv6
namespace Grep

open Computability

abbrev caret : UInt8 := 94

abbrev star : UInt8 := 42

abbrev dollar : UInt8 := 36

abbrev dot : UInt8 := 46

def starLoop (here : List UInt8 → Bool) (c : UInt8) (text : List UInt8) : Bool :=
  if here text then
    true
  else
    match text with
    | [] => false
    | t :: text => if t = c ∨ c = dot then starLoop here c text else false

def matchhere (re : List UInt8) (text : List UInt8) : Bool :=
  match re with
  | [] => true
  | [c] =>
    if c = dollar then
      text = []
    else
      match text with
      | [] => false
      | t :: _ => c = dot ∨ c = t
  | c :: d :: re =>
    if d = star then
      -- matchstar(re[0], re+2, text)
      starLoop (fun text => matchhere re text) c text
    else
      match text with
      | [] => false
      | t :: text => if c = dot ∨ c = t then matchhere (d :: re) text else false

def matchstar (c : UInt8) (re text : List UInt8) : Bool :=
  starLoop (matchhere re) c text

def matchAny (re text : List UInt8) : Bool :=
  if matchhere re text then
    true
  else
    match text with
    | [] => false
    | _ :: text => matchAny re text

def matchRe (re text : List UInt8) : Bool :=
  match re with
  | [] => matchAny re text
  | c :: re' => if c = caret then matchhere re' text else matchAny re text

inductive Item
  | one (c : UInt8)
  | many (c : UInt8)
  deriving DecidableEq, Repr

def parse (re : List UInt8) : List Item × Bool :=
  match re with
  | [] => ([], false)
  | [c] => if c = dollar then ([], true) else ([.one c], false)
  | c :: d :: re =>
    if d = star then
      (.many c :: (parse re).1, (parse re).2)
    else
      (.one c :: (parse (d :: re)).1, (parse (d :: re)).2)

def Accepts (c t : UInt8) : Prop :=
  c = dot ∨ c = t

def letter (c : UInt8) : Language UInt8 :=
  { w | ∃ t, Accepts c t ∧ w = [t] }

def Item.lang (i : Item) : Language UInt8 :=
  match i with
  | .one c => letter c
  | .many c => (letter c)∗

def lang (l : List Item) : Language UInt8 :=
  (l.map Item.lang).prod

variable {c t : UInt8} {re text u w : List UInt8}

theorem nil_mem_lang_nil : w ∈ lang [] ↔ w = [] :=
  Language.mem_one w

theorem mem_lang_one {l : List Item}
    : w ∈ lang (.one c :: l) ↔ ∃ t u, Accepts c t ∧ u ∈ lang l ∧ w = t :: u := by
  unfold lang
  rw [List.map_cons, List.prod_cons, Language.mem_mul]
  constructor
  . rintro ⟨a, ⟨t, ht, rfl⟩, u, hu, rfl⟩
    exact ⟨t, u, ht, hu, rfl⟩
  . rintro ⟨t, u, ht, hu, rfl⟩
    exact ⟨[t], ⟨t, ht, rfl⟩, u, hu, rfl⟩

theorem mem_kstar_letter : w ∈ (letter c)∗ ↔ ∀ t ∈ w, Accepts c t := by
  rw [Language.mem_kstar]
  constructor
  . rintro ⟨L, rfl, hL⟩ t ht
    rcases List.mem_flatten.mp ht with ⟨a, ha, hta⟩
    rcases hL a ha with ⟨t', ht', rfl⟩
    rw [List.mem_singleton.mp hta]
    exact ht'
  . intro h
    refine ⟨w.map fun t => [t], by rw [← List.flatMap_def, List.flatMap_singleton'], ?_⟩
    intro y hy
    rcases List.mem_map.mp hy with ⟨t, ht, rfl⟩
    exact ⟨t, h t ht, rfl⟩

theorem mem_lang_many {l : List Item}
    : w ∈ lang (.many c :: l) ↔ ∃ v u, (∀ t ∈ v, Accepts c t) ∧ u ∈ lang l ∧ w = v ++ u := by
  unfold lang
  rw [List.map_cons, List.prod_cons, Language.mem_mul]
  constructor
  . rintro ⟨v, hv, u, hu, rfl⟩
    exact ⟨v, u, mem_kstar_letter.mp hv, hu, rfl⟩
  . rintro ⟨v, u, hv, hu, rfl⟩
    exact ⟨v, mem_kstar_letter.mpr hv, u, hu, rfl⟩

theorem starLoop_iff {here : List UInt8 → Bool}
    : starLoop here c text = true ↔ ∃ v w, text = v ++ w ∧ (∀ t ∈ v, Accepts c t) ∧ here w = true := by
  induction text with
  | nil =>
    rw [starLoop]
    constructor
    . intro h
      split at h
      . next hhere => exact ⟨[], [], rfl, nofun, hhere⟩
      . cases h
    . rintro ⟨v, w, htext, -, hhere⟩
      rw [(List.nil_eq_append_iff.mp htext).2] at hhere
      rw [if_pos hhere]
  | cons t text ih =>
    rw [starLoop]
    constructor
    . intro h
      split at h
      . next hhere => exact ⟨[], t :: text, rfl, nofun, hhere⟩
      split at h
      . next ht =>
        rcases ih.mp h with ⟨v, w, htext, hv, hhere⟩
        refine ⟨t :: v, w, by rw [htext, List.cons_append], ?_, hhere⟩
        intro t' ht'
        rcases List.mem_cons.mp ht' with rfl | ht'
        . exact ht.symm.imp_right Eq.symm
        . exact hv t' ht'
      . cases h
    . rintro ⟨v, w, htext, hv, hhere⟩
      split
      . rfl
      . next hnot =>
        cases v with
        | nil =>
          rw [List.nil_append] at htext
          rw [htext] at hnot
          exact absurd hhere hnot
        | cons t' v =>
          rw [List.cons_append, List.cons.injEq] at htext
          rcases htext with ⟨rfl, htext⟩
          have ht : t = c ∨ c = dot := (hv t List.mem_cons_self).symm.imp_left Eq.symm
          rw [if_pos ht]
          exact ih.mpr ⟨v, w, htext, fun t' ht' => hv t' (List.mem_cons_of_mem _ ht'), hhere⟩

def MatchesHere (re text : List UInt8) : Prop :=
  ∃ u post, text = u ++ post ∧ u ∈ lang (parse re).1 ∧ ((parse re).2 = true → post = [])

theorem matchesHere_nil : MatchesHere [] text :=
  ⟨[], text, rfl, nil_mem_lang_nil.mpr rfl, nofun⟩

theorem matchesHere_dollar : MatchesHere [dollar] text ↔ text = [] := by
  constructor
  . rintro ⟨u, post, rfl, hu, hpost⟩
    rw [nil_mem_lang_nil.mp hu, hpost rfl]
    rfl
  . rintro rfl
    exact ⟨[], [], rfl, nil_mem_lang_nil.mpr rfl, fun _ => rfl⟩

theorem matchesHere_one {re' : List UInt8} (hparse : parse re = (.one c :: (parse re').1, (parse re').2))
    : MatchesHere re text ↔ ∃ t text', text = t :: text' ∧ Accepts c t ∧ MatchesHere re' text' := by
  unfold MatchesHere
  rw [hparse]
  dsimp only
  constructor
  . rintro ⟨w, post, rfl, hw, hpost⟩
    rcases mem_lang_one.mp hw with ⟨t, u, ht, hu, rfl⟩
    exact ⟨t, u ++ post, rfl, ht, u, post, rfl, hu, hpost⟩
  . rintro ⟨t, text', rfl, ht, u, post, rfl, hu, hpost⟩
    exact ⟨t :: u, post, rfl, mem_lang_one.mpr ⟨t, u, ht, hu, rfl⟩, hpost⟩

theorem matchesHere_many {re' : List UInt8} (hparse : parse re = (.many c :: (parse re').1, (parse re').2))
    : MatchesHere re text ↔ ∃ v w, text = v ++ w ∧ (∀ t ∈ v, Accepts c t) ∧ MatchesHere re' w := by
  unfold MatchesHere
  rw [hparse]
  dsimp only
  constructor
  . rintro ⟨w, post, rfl, hw, hpost⟩
    rcases mem_lang_many.mp hw with ⟨v, u, hv, hu, rfl⟩
    exact ⟨v, u ++ post, List.append_assoc .., hv, u, post, rfl, hu, hpost⟩
  . rintro ⟨v, w, rfl, hv, u, post, rfl, hu, hpost⟩
    exact ⟨v ++ u, post, (List.append_assoc ..).symm, mem_lang_many.mpr ⟨v, u, hv, hu, rfl⟩, hpost⟩

theorem matchhere_iff : matchhere re text = true ↔ MatchesHere re text := by
  induction re using parse.induct generalizing text with
  | case1 =>
    rw [matchhere]
    exact iff_of_true rfl matchesHere_nil
  | case2 =>
    rw [matchhere.eq_def, matchesHere_dollar]
    dsimp only
    rw [if_pos rfl]
    exact decide_eq_true_iff
  | case3 c hc =>
    have hparse : parse [c] = (.one c :: (parse []).1, (parse []).2) := if_neg hc
    rw [matchhere.eq_def, matchesHere_one hparse]
    dsimp only
    rw [if_neg hc]
    cases text with
    | nil => simp
    | cons t text =>
      dsimp only
      rw [decide_eq_true_iff]
      constructor
      . intro ht
        exact ⟨t, text, rfl, ht, matchesHere_nil⟩
      . rintro ⟨t', text', heq, ht, -⟩
        cases heq
        exact ht
  | case4 c re ih =>
    have hparse : parse (c :: star :: re) = (.many c :: (parse re).1, (parse re).2) := if_pos rfl
    rw [matchhere.eq_def, matchesHere_many hparse]
    dsimp only
    rw [if_pos rfl, starLoop_iff]
    simp only [ih]
  | case5 c d re hd ih =>
    have hparse : parse (c :: d :: re) = (.one c :: (parse (d :: re)).1, (parse (d :: re)).2) := if_neg hd
    rw [matchhere.eq_def, matchesHere_one hparse]
    dsimp only
    rw [if_neg hd]
    cases text with
    | nil => simp
    | cons t text =>
      dsimp only
      split
      . next ht =>
        rw [ih]
        constructor
        . intro h
          exact ⟨t, text, rfl, ht, h⟩
        . rintro ⟨t', text', heq, -, h⟩
          cases heq
          exact h
      . next ht =>
        refine iff_of_false Bool.false_ne_true ?_
        rintro ⟨t', text', heq, ht', -⟩
        cases heq
        exact ht ht'

theorem matchAny_iff : matchAny re text = true ↔ ∃ pre w, text = pre ++ w ∧ MatchesHere re w := by
  induction text with
  | nil =>
    rw [matchAny]
    constructor
    . intro h
      split at h
      . next hhere => exact ⟨[], [], rfl, matchhere_iff.mp hhere⟩
      . cases h
    . rintro ⟨pre, w, htext, hhere⟩
      rw [(List.nil_eq_append_iff.mp htext).2] at hhere
      rw [if_pos (matchhere_iff.mpr hhere)]
  | cons t text ih =>
    rw [matchAny]
    constructor
    . intro h
      split at h
      . next hhere => exact ⟨[], t :: text, rfl, matchhere_iff.mp hhere⟩
      . rcases ih.mp h with ⟨pre, w, htext, hhere⟩
        exact ⟨t :: pre, w, by rw [htext, List.cons_append], hhere⟩
    . rintro ⟨pre, w, htext, hhere⟩
      split
      . rfl
      . next hnot =>
        cases pre with
        | nil =>
          rw [List.nil_append] at htext
          rw [htext, matchhere_iff] at hnot
          exact absurd hhere hnot
        | cons t' pre =>
          rw [List.cons_append, List.cons.injEq] at htext
          exact ih.mpr ⟨pre, w, htext.2, hhere⟩

def body (re : List UInt8) : List UInt8 :=
  if re.head? = some caret then re.tail else re

/-- `match` finds exactly the texts of which some part is in the language of the pattern. -/
theorem match_iff_lang (re text : List UInt8)
    : matchRe re text = true ↔ ∃ pre u post, text = pre ++ u ++ post ∧ (re.head? = some caret → pre = [])
        ∧ u ∈ lang (parse (body re)).1 ∧ ((parse (body re)).2 = true → post = []) := by
  have hany : matchAny re text = true
      ↔ ∃ pre u post, text = pre ++ u ++ post ∧ u ∈ lang (parse re).1 ∧ ((parse re).2 = true → post = []) := by
    rw [matchAny_iff]
    constructor
    . rintro ⟨pre, w, rfl, u, post, rfl, hu, hpost⟩
      exact ⟨pre, u, post, (List.append_assoc ..).symm, hu, hpost⟩
    . rintro ⟨pre, u, post, rfl, hu, hpost⟩
      exact ⟨pre, u ++ post, List.append_assoc .., u, post, rfl, hu, hpost⟩
  cases re with
  | nil =>
    refine hany.trans ?_
    simp [body]
  | cons c re' =>
    unfold matchRe
    dsimp only
    by_cases hc : c = caret
    . have hbody : body (c :: re') = re' := if_pos (congrArg some hc)
      rw [hbody, if_pos hc, matchhere_iff]
      constructor
      . rintro ⟨u, post, rfl, hu, hpost⟩
        exact ⟨[], u, post, rfl, fun _ => rfl, hu, hpost⟩
      . rintro ⟨pre, u, post, rfl, hpre, hu, hpost⟩
        rw [hpre (congrArg some hc)]
        exact ⟨u, post, rfl, hu, hpost⟩
    . have hhead : (c :: re').head? ≠ some caret := fun h => hc (Option.some.inj h)
      have hbody : body (c :: re') = c :: re' := if_neg hhead
      rw [hbody, if_neg hc, hany]
      constructor
      . rintro ⟨pre, u, post, htext, hu, hpost⟩
        exact ⟨pre, u, post, htext, fun h => absurd h hhead, hu, hpost⟩
      . rintro ⟨pre, u, post, htext, -, hu, hpost⟩
        exact ⟨pre, u, post, htext, hu, hpost⟩

end Grep
end Xv6
