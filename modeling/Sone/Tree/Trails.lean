import Mathlib.Data.List.TakeWhile

/-!
# The names on the way to a node

Every node of a forest has at most one parent, `up`, and a name. A node's **trail** is what the
nodes are called from a root down to it (`IsTrail`): it has one at most, and none where the way up
does not end. `walk` reads it from below and gives up after a number of nodes;
`isTrail_of_length_walk_lt` says that it has the trail unless it gave up.

The names among siblings are all it takes: `IsTrail.siblings` says that two nodes with one trail
are siblings of one name, where no node above others shares its name with a sibling.
-/

namespace Sone

open List

universe u v

section Trails

variable {α : Type u} {β : Type v} {up : α → Option α} {name : α → β} {a b : α} {l l' : List β}
  {S : Set α} {n : ℕ}

/-- **The names on the way** from a root down to a node. -/
inductive IsTrail (up : α → Option α) (name : α → β) : α → List β → Prop
  | root {a : α} (h : up a = none) : IsTrail up name a [name a]
  | under {a b : α} {l : List β} (h : up a = some b) (hb : IsTrail up name b l) :
    IsTrail up name a (l ++ [name a])

namespace IsTrail

theorem of_under (h : IsTrail up name a l) (hup : up a = some b) :
    ∃ above, IsTrail up name b above ∧ l = above ++ [name a] := by
  cases h with
  | root hroot =>
    rw [hup] at hroot
    cases hroot
  | under hother hb =>
    rw [hup, Option.some.injEq] at hother
    exact ⟨_, hother ▸ hb, rfl⟩

theorem of_root (h : IsTrail up name a l) (hup : up a = none) : l = [name a] := by
  cases h with
  | root => rfl
  | under hother hb =>
    rw [hup] at hother
    cases hother

theorem unique (h : IsTrail up name a l) (h' : IsTrail up name a l') : l = l' := by
  induction h generalizing l' with
  | root hroot => exact (h'.of_root hroot).symm
  | under hup hb ih =>
    obtain ⟨above, habove, rfl⟩ := h'.of_under hup
    rw [ih habove]

theorem ne_nil (h : IsTrail up name a l) : l ≠ [] := by
  cases h <;> simp

theorem length_eq_one_iff (h : IsTrail up name a l) : l.length = 1 ↔ up a = none := by
  cases h with
  | root hroot => simp [hroot]
  | under hup hb =>
    have hne := hb.ne_nil
    simp [hup, hne]

theorem take (hS : ∀ a ∈ S, ∀ b, up a = some b → b ∈ S) (h : IsTrail up name a l) (ha : a ∈ S)
    (hpos : 0 < n) (hn : n < l.length) :
    ∃ b ∈ S, ∃ c ∈ S, up b = some c ∧ IsTrail up name c (l.take n) := by
  induction h with
  | root hroot =>
    rw [length_singleton] at hn
    omega
  | @under a b l hup hb ih =>
    rw [length_append, length_singleton] at hn
    rcases Nat.lt_or_eq_of_le (Nat.lt_succ_iff.mp hn) with hlt | hlength
    · rw [take_append_of_le_length hlt.le]
      exact ih (hS a ha b hup) hlt
    · refine ⟨a, ha, b, hS a ha b hup, hup, ?_⟩
      rwa [hlength, take_left]

/-- **Two nodes with one trail** are siblings of one name, where what is above others shares no
name with a sibling. -/
theorem siblings (hS : ∀ a ∈ S, ∀ b, up a = some b → b ∈ S)
    (hnames : ∀ a ∈ S, ∀ b ∈ S, up a = up b → name a = name b → (∃ c ∈ S, up c = some a) → a = b)
    (h : IsTrail up name a l) (ha : a ∈ S) (h' : IsTrail up name b l) (hb : b ∈ S) :
    up a = up b ∧ name a = name b := by
  induction h generalizing b with
  | @root a hroot =>
    have hup := h'.length_eq_one_iff.mp rfl
    have hname := h'.of_root hup
    rw [List.cons.injEq] at hname
    exact ⟨hroot.trans hup.symm, hname.1⟩
  | @under a above l hup habove ih =>
    cases hother : up b with
    | none =>
      have hlength := congrArg List.length (h'.of_root hother)
      rw [length_append, length_singleton, length_singleton] at hlength
      exact absurd (length_eq_zero_iff.mp (by omega)) habove.ne_nil
    | some other =>
      obtain ⟨rest, hrest, hconcat⟩ := h'.of_under hother
      obtain ⟨rfl, hname⟩ := append_inj' hconcat rfl
      rw [List.cons.injEq] at hname
      have hmem := hS a ha above hup
      obtain ⟨hups, hnamesEq⟩ := ih hmem hrest (hS b hb other hother)
      have hsame := hnames above hmem other (hS b hb other hother) hups hnamesEq ⟨a, ha, hup⟩
      exact ⟨by rw [hup, hsame], hname.1⟩

end IsTrail

/-! ### Walking up -/

/-- The names on the way up from a node, of a number of nodes at most. -/
def walk (up : α → Option α) (name : α → β) : ℕ → Option α → List β
  | n + 1, some a => walk up name n (up a) ++ [name a]
  | _, _ => []

theorem walk_none : walk up name n none = [] := by
  cases n <;> rfl

theorem exists_of_mem_walk {o : Option α} {x : β} (h : x ∈ walk up name n o) : ∃ a, name a = x := by
  induction n generalizing o with
  | zero => exact absurd h not_mem_nil
  | succ n ih =>
    cases o with
    | none => exact absurd h not_mem_nil
    | some a =>
      rw [walk, mem_append, mem_singleton] at h
      rcases h with h | rfl
      · exact ih h
      · exact ⟨a, rfl⟩

theorem IsTrail.walk_eq (h : IsTrail up name a l) (hn : l.length ≤ n) :
    walk up name n (some a) = l := by
  induction h generalizing n with
  | root hroot =>
    obtain ⟨n, rfl⟩ := Nat.exists_eq_add_of_le' hn
    rw [length_singleton, walk, hroot, walk_none]
    rfl
  | @under a b l hup hb ih =>
    rw [length_append, length_singleton] at hn
    obtain ⟨n, rfl⟩ := Nat.exists_eq_add_of_le' (Nat.one_le_of_lt hn)
    rw [walk, hup, ih (Nat.succ_le_succ_iff.mp hn)]

theorem isTrail_of_length_walk_lt (hn : (walk up name n (some a)).length < n) :
    IsTrail up name a (walk up name n (some a)) := by
  induction n generalizing a with
  | zero => exact absurd hn (Nat.not_lt_zero _)
  | succ n ih =>
    rw [walk] at hn ⊢
    rw [length_append, length_singleton] at hn
    cases hup : up a with
    | none =>
      rw [walk_none]
      exact .root hup
    | some b =>
      rw [hup] at hn
      exact .under hup (ih (Nat.succ_lt_succ_iff.mp hn))

end Trails

end Sone
