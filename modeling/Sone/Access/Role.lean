import Sone.Order.Level

/-!
# The four levels

What somebody may do with a page is one of four levels, `viewer < commenter < editor <
admin`. The source compares them in three ways: by position in `ROLE_ORDER`, by the table
`RANK`, and by a `CASE` expression in SQL. This file defines the three and shows that they
are one order, in which `morePermissive` widens and `lessPermissive` tightens.
-/

namespace Sone

/-- A level: `Role` in `@sone/core`, `PageAccess` in `pages/access.ts`. -/
inductive Role where
  | viewer
  | commenter
  | editor
  | admin
  deriving DecidableEq, Repr

/-- `ROLE_ORDER`. -/
def roleOrder : List Role := [.viewer, .commenter, .editor, .admin]

namespace Role

/-- `RANK`. -/
def rank : Role → ℕ
  | viewer => 1
  | commenter => 2
  | editor => 3
  | admin => 4

/-- The `CASE role WHEN 'admin' THEN 4 … ELSE 1 END` the queries order by. -/
def caseRank (role : Role) : ℕ :=
  if role = admin then 4 else if role = editor then 3 else if role = commenter then 2 else 1

theorem rank_injective : Function.Injective rank := by
  intro a b h
  cases a <;> cases b <;> first | rfl | simp [rank] at h

/-- Levels are ordered by what they allow. -/
instance : LinearOrder Role := LinearOrder.lift' rank rank_injective

theorem rank_le_rank {a b : Role} : a.rank ≤ b.rank ↔ a ≤ b := Iff.rfl

theorem caseRank_eq_rank (role : Role) : role.caseRank = role.rank := by
  cases role <;> rfl

theorem caseRank_le_caseRank (a b : Role) : a.caseRank ≤ b.caseRank ↔ a ≤ b := by
  rw [caseRank_eq_rank, caseRank_eq_rank, rank_le_rank]

theorem idxOf_roleOrder (role : Role) : roleOrder.idxOf role + 1 = role.rank := by
  cases role <;> rfl

theorem le_admin (role : Role) : role ≤ admin := by
  cases role <;> decide

end Role

open Role

/-- `atLeast` of `auth/claims.ts`: whether the level held is the level needed or more. -/
def atLeast (have' need : Role) : Bool :=
  roleOrder.idxOf need ≤ roleOrder.idxOf have'

@[simp] theorem atLeast_iff {a b : Role} : atLeast a b = true ↔ b ≤ a := by
  have ha := idxOf_roleOrder a
  have hb := idxOf_roleOrder b
  rw [atLeast, decide_eq_true_iff, ← rank_le_rank]
  omega

/-- `morePermissive`: the more permissive of two, for somebody who is granted access
twice. -/
def morePermissive : Option Role → Option Role → Option Role
  | none, b => b
  | some a, none => some a
  | some a, some b => if b.rank ≤ a.rank then some a else some b

/-- `lessPermissive`: the lower of two ceilings, for a cap under a cap. -/
def lessPermissive : Option Role → Option Role → Option Role
  | none, b => b
  | some a, none => some a
  | some a, some b => if a.rank ≤ b.rank then some a else some b

theorem morePermissive_eq_widen (a b : Option Role) : morePermissive a b = widen a b := by
  rcases a with _ | a <;> rcases b with _ | b
  · rfl
  · rfl
  · rfl
  · simp only [morePermissive, widen, rank_le_rank]
    split
    · rename_i h
      rw [max_eq_left h]
    · rename_i h
      rw [max_eq_right (le_of_not_ge h)]

theorem lessPermissive_eq_tighten (a b : Option Role) :
    lessPermissive a b = tighten a b := by
  rcases a with _ | a <;> rcases b with _ | b
  · rfl
  · rfl
  · rfl
  · simp only [lessPermissive, tighten, rank_le_rank, min_def]
    split <;> rfl

end Sone
