import Mathlib.Data.List.Basic

/-!
# Reading a sorted list in pages

A list is read page by page. A page is the first items of what is left, and what is left after a
page are the items that are *past* its last one. Nothing is remembered but that item.

The list is sorted (`before`), and what is past an item comes after it. Where being past is
transitive, reading ends (`follow_isSome`), and it has given the list itself exactly where, at the
end of every page, everything that comes after the last item is past it (`follow_eq_iff`). What is
passed over once is never given later: it would have to be past an item that is past the one it
was not past.
-/

namespace Sone.Keyset

open List

universe u

variable {α : Type u} (items : List α) (past : α → α → Bool) (limit : ℕ)

/-- What is left after an item: all of it, where there was none. -/
def remaining : Option α → List α
  | none => items
  | some last => items.filter (past last)

/-- All pages from an item on, where the fuel is enough. The last page is one that holds all that
is left. -/
def follow : ℕ → Option α → Option (List α)
  | 0, _ => none
  | n + 1, last =>
    if limit < (remaining items past last).length then
      match ((remaining items past last).take limit).getLast? with
      | some next => (follow n (some next)).map ((remaining items past last).take limit ++ ·)
      | none => none
    else some (remaining items past last)

variable {items past limit}

theorem mem_remaining {last : Option α} {a : α} :
    a ∈ remaining items past last ↔ a ∈ items ∧ ∀ l ∈ last, past l a = true := by
  cases last with
  | none => simp [remaining]
  | some last => simp [remaining, mem_filter]

section Sorted

variable {before : α → α → Prop} (hsorted : items.Pairwise before)
  (hbefore : ∀ a b, past a b = true → before a b) (hasymm : ∀ a b, before a b → ¬before b a)

include hsorted hbefore hasymm

theorem remaining_eq_drop {k : ℕ} {next : α} (hk : items[k]? = some next)
    (hall : ∀ a ∈ items.drop (k + 1), past next a = true) :
    remaining items past (some next) = items.drop (k + 1) := by
  have hsplit : items = items.take (k + 1) ++ items.drop (k + 1) := (take_append_drop _ _).symm
  have hfirst : (items.take (k + 1)).filter (past next) = [] := by
    rw [filter_eq_nil_iff]
    intro a ha hpast
    obtain ⟨hklt, hnext⟩ := List.getElem?_eq_some_iff.mp hk
    obtain ⟨i, hi, rfl⟩ := mem_take_iff_getElem.mp ha
    have hile : i ≤ k := by omega
    have hafter := hbefore _ _ hpast
    rcases Nat.lt_or_eq_of_le hile with hlt | rfl
    · have hearlier := pairwise_iff_getElem.mp hsorted i k (by omega) hklt hlt
      exact hasymm _ _ hearlier (hnext ▸ hafter)
    · exact hasymm _ _ (hnext ▸ hafter) (hnext ▸ hafter)
  have hrest : (items.drop (k + 1)).filter (past next) = items.drop (k + 1) :=
    List.filter_eq_self.mpr hall
  rw [remaining]
  conv_lhs => rw [hsplit]
  rw [filter_append, hfirst, hrest, nil_append]

end Sorted

/-- **What a first page holds**: the items that fewer come before than it holds. -/
theorem mem_take_iff {before : α → α → Bool} {n : ℕ} {x : α}
    (hsorted : items.Pairwise fun a b => before a b = true)
    (hasymm : ∀ a b, before a b = true → before b a = false) :
    x ∈ items.take n ↔ x ∈ items ∧ items.countP (before · x) < n := by
  induction items generalizing n with
  | nil => simp
  | cons a items ih =>
    obtain ⟨ha, hrest⟩ := pairwise_cons.mp hsorted
    cases n with
    | zero => simp
    | succ n =>
      rw [take_succ_cons, mem_cons, mem_cons, countP_cons, ih hrest]
      by_cases hxa : x = a
      · -- nothing comes before the first
        subst hxa
        have hself : before x x = false := by
          by_contra h
          rw [Bool.not_eq_false] at h
          exact Bool.false_ne_true ((hasymm x x h).symm.trans h)
        have hnone : items.countP (before · x) = 0 := by
          rw [countP_eq_zero]
          intro b hb h
          exact Bool.false_ne_true ((hasymm x b (ha b hb)).symm.trans h)
        simp [hself, hnone]
      · simp only [hxa, false_or]
        refine and_congr_right fun hx => ?_
        rw [if_pos (ha x hx)]
        omega

section Transitive

variable (htrans : ∀ a b c, past a b = true → past b c = true → past a c = true)

include htrans

theorem remaining_some {last : Option α} {next : α} (hnext : next ∈ remaining items past last) :
    remaining items past (some next) = (remaining items past last).filter (past next) := by
  cases last with
  | none => rfl
  | some last =>
    obtain ⟨-, hpast⟩ := mem_remaining.mp hnext
    simp only [remaining, List.filter_filter]
    refine filter_congr fun a ha => ?_
    by_cases h : past next a = true
    · rw [h, htrans last next a (hpast last rfl) h]
      rfl
    · rw [Bool.not_eq_true] at h
      rw [h]
      rfl

/-- **Nothing passed over is given later.** -/
theorem mem_remaining_of_mem_follow {n : ℕ} {last : Option α} {out : List α}
    (h : follow items past limit n last = some out) :
    ∀ a ∈ out, a ∈ remaining items past last := by
  induction n generalizing last out with
  | zero => cases h
  | succ n ih =>
    rw [follow] at h
    split at h
    · split at h
      · next next hlast =>
        obtain ⟨rest, hrest, rfl⟩ := Option.map_eq_some_iff.mp h
        have hnext : next ∈ remaining items past last :=
          mem_of_mem_take (mem_of_getLast? hlast)
        intro a ha
        rcases mem_append.mp ha with ha | ha
        · exact mem_of_mem_take ha
        · have hmem := ih hrest a ha
          rw [remaining_some htrans hnext] at hmem
          exact mem_of_mem_filter hmem
      · cases h
    · exact Option.some.inj h ▸ fun a ha => ha

/-- **Reading ends**, where an item is not past itself: each page leaves less. -/
theorem follow_isSome (hirrefl : ∀ a, past a a = false) (hlimit : 0 < limit) {n : ℕ}
    {last : Option α} (hn : (remaining items past last).length < n) :
    (follow items past limit n last).isSome = true := by
  induction n generalizing last with
  | zero => exact absurd hn (Nat.not_lt_zero _)
  | succ n ih =>
    rw [follow]
    split
    · next hmore =>
      have hne : (remaining items past last).take limit ≠ [] := by
        rw [← length_pos_iff, length_take]
        omega
      rw [List.getLast?_eq_some_getLast hne]
      simp only [Option.isSome_map]
      obtain ⟨next, hlast⟩ : ∃ next, ((remaining items past last).take limit).getLast hne = next :=
        ⟨_, rfl⟩
      have hnext : next ∈ remaining items past last :=
        mem_of_mem_take (hlast ▸ getLast_mem hne)
      have hless : ((remaining items past last).filter (past next)).length <
          (remaining items past last).length :=
        length_filter_lt_length_iff_exists.mpr ⟨next, hnext, by simp [hirrefl next]⟩
      rw [hlast]
      refine ih ?_
      rw [remaining_some htrans hnext]
      omega
    · rfl

section Sorted

variable {before : α → α → Prop} (hsorted : items.Pairwise before)
  (hbefore : ∀ a b, past a b = true → before a b) (hasymm : ∀ a b, before a b → ¬before b a)

include hsorted hbefore hasymm

/-- **The pages are the list** exactly where nothing is passed over at the end of one. -/
theorem follow_eq_drop_iff (hlimit : 0 < limit) {n k : ℕ} {last : Option α} {out : List α}
    (hlast : remaining items past last = items.drop (k * limit))
    (h : follow items past limit n last = some out) :
    out = items.drop (k * limit) ↔ ∀ j, k ≤ j → ∀ next,
      items[(j + 1) * limit - 1]? = some next →
        ∀ a ∈ items.drop ((j + 1) * limit), past next a = true := by
  induction n generalizing k last out with
  | zero => cases h
  | succ n ih =>
    have hsucc : ∀ j, (j + 1) * limit - 1 + 1 = (j + 1) * limit := fun j => by
      have hpos : 0 < (j + 1) * limit := Nat.mul_pos (Nat.succ_pos j) hlimit
      omega
    have hmul : (k + 1) * limit = k * limit + limit := by rw [Nat.add_mul, Nat.one_mul]
    rw [follow, hlast] at h
    split at h
    · next hmore =>
      rw [length_drop] at hmore
      obtain ⟨next, hnext⟩ : ∃ next, items[(k + 1) * limit - 1]? = some next :=
        ⟨_, List.getElem?_eq_getElem (by omega)⟩
      have hgetLast : ((items.drop (k * limit)).take limit).getLast? = some next := by
        rw [List.getLast?_eq_getElem?, length_take, length_drop,
          List.getElem?_take_of_lt (by omega), List.getElem?_drop, ← hnext]
        congr 1
        omega
      rw [hgetLast] at h
      obtain ⟨rest, hrest, rfl⟩ := Option.map_eq_some_iff.mp h
      have hdrop : items.drop (k * limit) =
          (items.drop (k * limit)).take limit ++ items.drop ((k + 1) * limit) := by
        rw [hmul, ← drop_drop, take_append_drop]
      have hsame : (items.drop (k * limit)).take limit ++ rest = items.drop (k * limit) ↔
          rest = items.drop ((k + 1) * limit) :=
        ⟨fun heq => append_cancel_left (heq.trans hdrop), fun heq => heq ▸ hdrop.symm⟩
      rw [hsame]
      by_cases hall : ∀ a ∈ items.drop ((k + 1) * limit), past next a = true
      · have hleft := remaining_eq_drop hsorted hbefore hasymm hnext (hsucc k ▸ hall)
        rw [hsucc] at hleft
        rw [ih hleft hrest]
        constructor
        · intro hlater j hj
          rcases Nat.lt_or_eq_of_le hj with hlt | rfl
          · exact hlater j hlt
          · intro other hother
            exact Option.some.inj (hnext.symm.trans hother) ▸ hall
        · exact fun hlater j hj => hlater j (by omega)
      · -- what is passed over here does not come again
        refine iff_of_false (fun heq => hall fun a ha => ?_) fun hlater =>
          hall (hlater k (Nat.le_refl k) next hnext)
        have hmem := mem_remaining_of_mem_follow htrans hrest a (heq ▸ ha)
        exact (mem_remaining.mp hmem).2 next rfl
    · next hdone =>
      obtain rfl := Option.some.inj h
      rw [length_drop] at hdone
      refine iff_of_true rfl fun j hj next hnext => ?_
      have hle : (k + 1) * limit ≤ (j + 1) * limit := Nat.mul_le_mul_right _ (by omega)
      rw [drop_eq_nil_of_le (by omega)]
      exact fun a ha => absurd ha not_mem_nil

theorem follow_eq_iff (hlimit : 0 < limit) {n : ℕ} {out : List α}
    (h : follow items past limit n none = some out) :
    out = items ↔ ∀ j next, items[(j + 1) * limit - 1]? = some next →
      ∀ a ∈ items.drop ((j + 1) * limit), past next a = true := by
  have hstart : remaining items past none = items.drop (0 * limit) := by
    rw [Nat.zero_mul, drop_zero, remaining]
  have hiff := follow_eq_drop_iff htrans hsorted hbefore hasymm hlimit hstart h
  rw [Nat.zero_mul, drop_zero] at hiff
  rw [hiff]
  exact ⟨fun hall j => hall j (Nat.zero_le j), fun hall j _ => hall j⟩

end Sorted

end Transitive

end Sone.Keyset
