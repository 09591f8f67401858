import Mathlib.Order.Bounds.Basic
import Mathlib.Order.MinMax

/-!
# Common subsequences

`commonLength` is the recurrence by which the length of a longest common subsequence of two lists
is tabulated: equal heads are taken, of different ones the one or the other is left out.
`isGreatest_commonLength` says that it is that length.
-/

namespace Sone

open List

universe u

variable {α : Type u} [DecidableEq α] {x y : α} {a b : List α}

/-- The recurrence for the length of a longest common subsequence. -/
def commonLength : List α → List α → ℕ
  | [], _ => 0
  | _ :: _, [] => 0
  | x :: a, y :: b =>
    if x = y then commonLength a b + 1
    else max (commonLength a (y :: b)) (commonLength (x :: a) b)
termination_by a b => a.length + b.length

@[simp]
theorem commonLength_nil_left (b : List α) : commonLength [] b = 0 := by rw [commonLength]

@[simp]
theorem commonLength_nil_right (a : List α) : commonLength a [] = 0 := by
  cases a with
  | nil => rw [commonLength]
  | cons x a => rw [commonLength]

@[simp]
theorem commonLength_cons_self (x : α) (a b : List α) :
    commonLength (x :: a) (x :: b) = commonLength a b + 1 := by
  rw [commonLength, if_pos rfl]

theorem commonLength_cons_of_ne (h : x ≠ y) :
    commonLength (x :: a) (y :: b) = max (commonLength a (y :: b)) (commonLength (x :: a) b) := by
  rw [commonLength, if_neg h]

omit [DecidableEq α] in
theorem sublist_of_ne {s : List α} (h : x ≠ y) (ha : s.Sublist (x :: a)) (hb : s.Sublist (y :: b)) :
    s.Sublist a ∨ s.Sublist b := by
  rcases sublist_cons_iff.mp ha with ha | ⟨s, rfl, -⟩
  · exact .inl ha
  · rcases sublist_cons_iff.mp hb with hb | ⟨t, heq, -⟩
    · exact .inr hb
    · exact absurd (List.cons.inj heq).1 h

theorem exists_sublist_commonLength (a b : List α) :
    ∃ s : List α, s.Sublist a ∧ s.Sublist b ∧ s.length = commonLength a b := by
  induction a, b using commonLength.induct with
  | case1 b => exact ⟨[], nil_sublist _, nil_sublist _, by simp⟩
  | case2 x a => exact ⟨[], nil_sublist _, nil_sublist _, by simp⟩
  | case3 a y b ih =>
    obtain ⟨s, ha, hb, hlength⟩ := ih
    exact ⟨y :: s, ha.cons_cons y, hb.cons_cons y, by simp [hlength]⟩
  | case4 x a y b hne ihleft ihright =>
    rw [commonLength_cons_of_ne hne]
    rcases max_choice (commonLength a (y :: b)) (commonLength (x :: a) b) with hmax | hmax
    · obtain ⟨s, ha, hb, hlength⟩ := ihleft
      exact ⟨s, ha.cons x, hb, hlength.trans hmax.symm⟩
    · obtain ⟨s, ha, hb, hlength⟩ := ihright
      exact ⟨s, ha, hb.cons y, hlength.trans hmax.symm⟩

theorem length_le_commonLength {s : List α} (ha : s.Sublist a) (hb : s.Sublist b) :
    s.length ≤ commonLength a b := by
  induction a, b using commonLength.induct generalizing s with
  | case1 b => simp [sublist_nil.mp ha]
  | case2 x a => simp [sublist_nil.mp hb]
  | case3 a y b ih =>
    rw [commonLength_cons_self]
    cases s with
    | nil => exact Nat.zero_le _
    | cons z s => exact Nat.succ_le_succ (ih ha.of_cons_cons hb.of_cons_cons)
  | case4 x a y b hne ihleft ihright =>
    rw [commonLength_cons_of_ne hne]
    rcases sublist_of_ne hne ha hb with hleft | hright
    · exact (ihleft hleft hb).trans (le_max_left _ _)
    · exact (ihright ha hright).trans (le_max_right _ _)

theorem isGreatest_commonLength (a b : List α) :
    IsGreatest {n | ∃ s : List α, s.Sublist a ∧ s.Sublist b ∧ s.length = n}
      (commonLength a b) := by
  refine ⟨exists_sublist_commonLength a b, ?_⟩
  rintro _ ⟨s, ha, hb, rfl⟩
  exact length_le_commonLength ha hb

end Sone
