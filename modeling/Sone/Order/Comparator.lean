import Mathlib.Data.List.Lemmas
import Mathlib.Data.List.Sort

/-!
# Comparing by a number

A comparison gives a number that is negative where the one comes first, positive where the other
does, and zero where they are told not apart. `ConsistentOn` says that it is a total preorder of
the things of a list: only of such a comparison it is known what a list is sorted to, and
`ArraySort` is a sort of which this much is known.

Two comparisons one after the other (`thenBy`), the first of keys that it tells apart where they
differ, are consistent exactly where the first is of the keys and the second is among the things
of one key (`consistentOn_thenBy_iff`). A list that was in a strict order is sorted to the order
by the comparison and then as it was (`ArraySort.pairwise_sort`).
-/

namespace Sone

open List

universe u v

variable {α : Type u} {κ : Type v}

/-! ### Consistency -/

/-- **A comparison is a total preorder** of the things of a list. -/
structure ConsistentOn (compare : α → α → ℤ) (xs : List α) : Prop where
  swap : ∀ a ∈ xs, ∀ b ∈ xs, compare a b < 0 ↔ 0 < compare b a
  trans : ∀ a ∈ xs, ∀ b ∈ xs, ∀ c ∈ xs, compare a b ≤ 0 → compare b c ≤ 0 → compare a c ≤ 0

/-- One comparison, and where it is zero another. -/
def thenBy (first second : α → α → ℤ) (a b : α) : ℤ :=
  if first a b = 0 then second a b else first a b

namespace ConsistentOn

variable {compare other : α → α → ℤ} {xs ys : List α} {a b c : α}

theorem mono (h : ConsistentOn compare xs) (hsub : ∀ a ∈ ys, a ∈ xs) : ConsistentOn compare ys where
  swap a ha b hb := h.swap a (hsub a ha) b (hsub b hb)
  trans a ha b hb c hc := h.trans a (hsub a ha) b (hsub b hb) c (hsub c hc)

theorem congr (h : ConsistentOn compare xs)
    (heq : ∀ a ∈ xs, ∀ b ∈ xs, other a b = compare a b) : ConsistentOn other xs where
  swap a ha b hb := by rw [heq a ha b hb, heq b hb a ha]; exact h.swap a ha b hb
  trans a ha b hb c hc := by
    rw [heq a ha b hb, heq b hb c hc, heq a ha c hc]
    exact h.trans a ha b hb c hc

theorem eq_zero_comm (h : ConsistentOn compare xs) (ha : a ∈ xs) (hb : b ∈ xs) :
    compare a b = 0 ↔ compare b a = 0 := by
  have hab := h.swap a ha b hb
  have hba := h.swap b hb a ha
  omega

theorem self (h : ConsistentOn compare xs) (ha : a ∈ xs) : compare a a = 0 := by
  have haa := h.swap a ha a ha
  omega

theorem zero : ConsistentOn (fun _ _ => 0) xs where
  swap _ _ _ _ := by simp
  trans _ _ _ _ _ _ _ _ := le_rfl

theorem map_iff {compare : κ → κ → ℤ} {key : α → κ} :
    ConsistentOn compare (xs.map key) ↔ ConsistentOn (fun a b => compare (key a) (key b)) xs := by
  constructor
  · intro h
    exact ⟨fun a ha b hb => h.swap _ (List.mem_map_of_mem ha) _ (List.mem_map_of_mem hb),
      fun a ha b hb c hc => h.trans _ (List.mem_map_of_mem ha) _ (List.mem_map_of_mem hb) _
        (List.mem_map_of_mem hc)⟩
  · intro h
    constructor
    · simp only [List.forall_mem_map]
      exact h.swap
    · simp only [List.forall_mem_map]
      exact h.trans

end ConsistentOn

section ThenBy

variable {compare : κ → κ → ℤ} {key : α → κ} {second : α → α → ℤ} {xs : List α}

/-- The things that a comparison of keys does not tell from one. -/
def tiedWith (compare : κ → κ → ℤ) (key : α → κ) (x : α) (xs : List α) : List α :=
  xs.filter fun a => compare (key x) (key a) = 0

theorem mem_tiedWith {x a : α} :
    a ∈ tiedWith compare key x xs ↔ a ∈ xs ∧ compare (key x) (key a) = 0 := by
  simp [tiedWith]

theorem thenBy_of_eq {a b : α} (h : compare (key a) (key b) = 0) :
    thenBy (fun a b => compare (key a) (key b)) second a b = second a b := if_pos h

theorem thenBy_of_ne {a b : α} (h : compare (key a) (key b) ≠ 0) :
    thenBy (fun a b => compare (key a) (key b)) second a b = compare (key a) (key b) := if_neg h

section Parts

variable (hkey : ∀ u v, compare u v = 0 → u = v)

include hkey

/-- **The keys** are compared consistently where the things are. -/
theorem ConsistentOn.keys_of_thenBy
    (h : ConsistentOn (thenBy (fun a b => compare (key a) (key b)) second) xs)
    (hself : ∀ a ∈ xs, compare (key a) (key a) = 0) :
    ConsistentOn (fun a b => compare (key a) (key b)) xs := by
  refine ⟨fun a ha b hb => ?_, fun a ha b hb c hc hab hbc => ?_⟩
  · by_cases hab : compare (key a) (key b) = 0
    · have hba : compare (key b) (key a) = 0 := by
        rw [hkey _ _ hab]
        exact hself b hb
      rw [hab, hba]
    · -- keys that differ decide, so the second comparison has no say
      have hba : compare (key b) (key a) ≠ 0 := fun hba => hab (by
        rw [hkey _ _ hba]
        exact hself a ha)
      have hswap := h.swap a ha b hb
      simpa only [thenBy, hab, hba, if_false] using hswap
  · by_cases hab0 : compare (key a) (key b) = 0
    · rwa [hkey _ _ hab0]
    · by_cases hbc0 : compare (key b) (key c) = 0
      · rwa [← hkey _ _ hbc0]
      · have htrans := h.trans a ha b hb c hc
        simp only [thenBy, hab0, hbc0, if_false] at htrans
        by_cases hac0 : compare (key a) (key c) = 0
        · exact hac0.le
        · simpa only [hac0, if_false] using htrans hab hbc

theorem ConsistentOn.tied_of_thenBy
    (h : ConsistentOn (thenBy (fun a b => compare (key a) (key b)) second) xs)
    (hself : ∀ a ∈ xs, compare (key a) (key a) = 0) (x : α) :
    ConsistentOn second (tiedWith compare key x xs) := by
  have htied := h.mono (fun a (ha : a ∈ tiedWith compare key x xs) => (mem_tiedWith.mp ha).1)
  refine htied.congr fun a ha b hb => ?_
  obtain ⟨ha, hxa⟩ := mem_tiedWith.mp ha
  obtain ⟨-, hxb⟩ := mem_tiedWith.mp hb
  have hab : compare (key a) (key b) = 0 := by
    rw [← hkey _ _ hxa, ← hkey _ _ hxb, hkey _ _ hxa]
    exact hself a ha
  exact (thenBy_of_eq hab).symm

/-- **Both comparisons** make a consistent one. -/
theorem ConsistentOn.thenBy_keys (hfirst : ConsistentOn (fun a b => compare (key a) (key b)) xs)
    (hsecond : ∀ x ∈ xs, ConsistentOn second (tiedWith compare key x xs)) :
    ConsistentOn (thenBy (fun a b => compare (key a) (key b)) second) xs := by
  refine ⟨fun a ha b hb => ?_, fun a ha b hb c hc hab hbc => ?_⟩
  · by_cases hab : compare (key a) (key b) = 0
    · have hba := (hfirst.eq_zero_comm ha hb).mp hab
      rw [thenBy_of_eq hab, thenBy_of_eq hba]
      exact (hsecond a ha).swap a (mem_tiedWith.mpr ⟨ha, hfirst.self ha⟩) b
        (mem_tiedWith.mpr ⟨hb, hab⟩)
    · have hba : compare (key b) (key a) ≠ 0 := fun hba =>
        hab ((hfirst.eq_zero_comm ha hb).mpr hba)
      rw [thenBy_of_ne hab, thenBy_of_ne hba]
      exact hfirst.swap a ha b hb
  · by_cases hab0 : compare (key a) (key b) = 0
    · by_cases hbc0 : compare (key b) (key c) = 0
      · have hac0 : compare (key a) (key c) = 0 := by rwa [hkey _ _ hab0]
        rw [thenBy_of_eq hab0] at hab
        rw [thenBy_of_eq hbc0] at hbc
        rw [thenBy_of_eq hac0]
        exact (hsecond a ha).trans a (mem_tiedWith.mpr ⟨ha, hfirst.self ha⟩) b
          (mem_tiedWith.mpr ⟨hb, hab0⟩) c (mem_tiedWith.mpr ⟨hc, hac0⟩) hab hbc
      · have hac0 : compare (key a) (key c) ≠ 0 := by rwa [hkey _ _ hab0]
        rw [thenBy_of_ne hbc0] at hbc
        rw [thenBy_of_ne hac0, hkey _ _ hab0]
        exact hbc
    · rw [thenBy_of_ne hab0] at hab
      have hle : compare (key b) (key c) ≤ 0 := by
        by_cases hbc0 : compare (key b) (key c) = 0
        · exact hbc0.le
        · rwa [thenBy_of_ne hbc0] at hbc
      have hac : compare (key a) (key c) < 0 := by
        refine lt_of_le_of_ne (hfirst.trans a ha b hb c hc hab hle) fun hac0 => ?_
        -- `c` has the key of `a`, so it does not come after `b`
        have hba := (hfirst.swap a ha b hb).mp (lt_of_le_of_ne hab hab0)
        rw [hkey _ _ hac0] at hba
        exact absurd hle (not_le.mpr hba)
      rw [thenBy_of_ne hac.ne]
      exact hac.le

theorem consistentOn_thenBy_iff :
    ConsistentOn (thenBy (fun a b => compare (key a) (key b)) second) xs ↔
      ConsistentOn compare (xs.map key) ∧
        ∀ x ∈ xs, ConsistentOn second (tiedWith compare key x xs) := by
  rw [ConsistentOn.map_iff]
  constructor
  · intro h
    have hself : ∀ a ∈ xs, compare (key a) (key a) = 0 := by
      intro a ha
      by_contra hne
      have haa := h.self ha
      rw [thenBy_of_ne hne] at haa
      exact hne haa
    exact ⟨h.keys_of_thenBy hkey hself, fun x _ => h.tied_of_thenBy hkey hself x⟩
  · rintro ⟨hfirst, hsecond⟩
    exact hfirst.thenBy_keys hkey hsecond

end Parts

end ThenBy

/-! ### Sorting -/

/-- **A stable sort**: where a comparison is consistent, the list is in its order, and what it does
not tell apart is as it was. What an inconsistent one makes of a list is not known. -/
structure ArraySort (α : Type u) where
  sort : (α → α → ℤ) → List α → List α
  perm : ∀ compare xs, (sort compare xs).Perm xs
  sorted : ∀ compare xs, ConsistentOn compare xs →
    (sort compare xs).Pairwise fun a b => compare a b ≤ 0
  stable : ∀ compare xs, ConsistentOn compare xs → ∀ a b, [a, b].Sublist xs → compare a b ≤ 0 →
    [a, b].Sublist (sort compare xs)

section Sorted

variable {compare : α → α → ℤ} {r : α → α → Prop} {xs : List α} {a b : α}

theorem pair_sublist_or (ha : a ∈ xs) (hb : b ∈ xs) (hne : a ≠ b) :
    [a, b].Sublist xs ∨ [b, a].Sublist xs := by
  induction xs with
  | nil => cases ha
  | cons x xs ih =>
    rcases mem_cons.mp ha with rfl | hxa
    · exact .inl (List.Sublist.cons_cons _
        (singleton_sublist.mpr ((mem_cons.mp hb).resolve_left (Ne.symm hne))))
    · rcases mem_cons.mp hb with rfl | hb
      · exact .inr (List.Sublist.cons_cons _ (singleton_sublist.mpr hxa))
      · exact (ih hxa hb).imp (fun h => h.cons x) fun h => h.cons x

theorem not_pair_sublist (hxs : xs.Nodup) (hab : [a, b].Sublist xs) : ¬[b, a].Sublist xs := by
  induction xs with
  | nil => cases hab
  | cons x xs ih =>
    obtain ⟨hx, hxs⟩ := nodup_cons.mp hxs
    intro hba
    cases hab with
    | cons _ hab =>
      cases hba with
      | cons _ hba => exact ih hxs hab hba
      | cons_cons _ hba => exact hx (hab.subset (mem_cons_of_mem _ mem_cons_self))
    | cons_cons _ hab =>
      have hb := singleton_sublist.mp hab
      cases hba with
      | cons _ hba => exact hx (hba.subset (mem_cons_of_mem _ mem_cons_self))
      | cons_cons _ hba => exact hx hb

/-- **A list in a strict order** is sorted to the order by the comparison, and else as it was. -/
theorem ArraySort.pairwise_sort (arraySort : ArraySort α) (h : ConsistentOn compare xs)
    (hxs : xs.Pairwise r) (hirrefl : ∀ a, ¬r a a) :
    (arraySort.sort compare xs).Pairwise fun a b =>
      compare a b < 0 ∨ (compare a b = 0 ∧ r a b) := by
  have hnodup : (arraySort.sort compare xs).Nodup := by
    refine (arraySort.perm compare xs).nodup_iff.mpr (hxs.imp ?_)
    rintro a b hab rfl
    exact hirrefl a hab
  -- two places of the sorted list: either the comparison parts them or they stood so before
  rw [pairwise_iff_forall_sublist] at hxs ⊢
  intro a b hab
  have hle := pairwise_iff_forall_sublist.mp (arraySort.sorted compare xs h) hab
  rcases hle.lt_or_eq with hlt | hzero
  · exact .inl hlt
  refine .inr ⟨hzero, ?_⟩
  have ha : a ∈ xs := (arraySort.perm compare xs).mem_iff.mp (hab.subset mem_cons_self)
  have hb : b ∈ xs := (arraySort.perm compare xs).mem_iff.mp
    (hab.subset (mem_cons_of_mem _ mem_cons_self))
  have hne : a ≠ b := by
    rintro rfl
    exact absurd (hnodup.sublist hab) (by simp)
  rcases pair_sublist_or ha hb hne with hin | hin
  · exact hxs hin
  · -- the other way round it would still be so
    have hba := arraySort.stable compare xs h b a hin ((h.eq_zero_comm ha hb).mp hzero).le
    exact absurd hba (not_pair_sublist hnodup hab)

/-- The things of a list are inserted one after the other, from the last. -/
def insertionSortBy (compare : α → α → ℤ) (xs : List α) : List α :=
  xs.insertionSort fun a b => compare a b ≤ 0

theorem perm_insertionSortBy : (insertionSortBy compare xs).Perm xs := perm_insertionSort _ _

theorem pairwise_insertionSortBy (h : ConsistentOn compare xs) :
    (insertionSortBy compare xs).Pairwise fun a b => compare a b ≤ 0 := by
  let le : {a // a ∈ xs} → {a // a ∈ xs} → Prop := fun a b => compare a b ≤ 0
  have htrans : IsTrans {a // a ∈ xs} le :=
    ⟨fun a b c => h.trans a a.2 b b.2 c c.2⟩
  have htotal : Std.Total le := ⟨fun a b => by
    have hba := h.swap b b.2 a a.2
    change compare a b ≤ 0 ∨ compare b a ≤ 0
    omega⟩
  have hmap := @map_insertionSort _ _ le (fun a b => compare a b ≤ 0) _ _ Subtype.val
    xs.attach fun _ _ _ _ => Iff.rfl
  rw [List.attach_map_subtype_val] at hmap
  rw [insertionSortBy, ← hmap, pairwise_map]
  exact pairwise_insertionSort le xs.attach

/-- **Insertion sort is a stable sort.** -/
def ArraySort.insertion (α : Type u) : ArraySort α where
  sort := insertionSortBy
  perm _ _ := perm_insertionSortBy
  sorted _ _ h := pairwise_insertionSortBy h
  stable _ _ _ _ _ hin hab := pair_sublist_insertionSort hab hin

end Sorted

end Sone
