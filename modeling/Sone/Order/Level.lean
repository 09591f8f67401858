import Mathlib.Data.List.Sort
import Mathlib.Order.Bounds.Basic
import Mathlib.Order.MinMax

/-!
# Levels, the widest of several, and ceilings

Access is a level of a linear order or nothing at all, `Option α`. Two different readings
of `none` meet here, and keeping them apart is the point of this file:

* a level that was *given* is absent: nothing is held, below every level;
* a *ceiling* is absent: nothing is withheld, above every level.

`IsWidest S` says that an optional level is the greatest of a set of given levels, and
`IsTightest S` that an optional level is the least of a set of ceilings. Both determine
the level, so two computations of the widest level of one set agree (`IsWidest.unique`).
`widen` combines what was given twice, `tighten` combines two ceilings, and `ceiled`
applies a ceiling to what was given: the one operation whose two arguments read `none`
differently, so `tighten` must not be used in its place (`tighten_eq_ceiled_iff`).
-/

namespace Sone

open List

universe u

variable {α : Type u} [LinearOrder α] {S T : Set α} {a b c g : Option α}

/-- The optional level is the greatest of the set, absent when the set is empty. -/
def IsWidest (S : Set α) : Option α → Prop
  | none => S = ∅
  | some a => IsGreatest S a

/-- The optional ceiling is the least of the set, absent when the set is empty. -/
def IsTightest (S : Set α) : Option α → Prop
  | none => S = ∅
  | some a => IsLeast S a

@[simp] theorem isWidest_none : IsWidest S none ↔ S = ∅ := Iff.rfl

@[simp] theorem isWidest_some {x : α} : IsWidest S (some x) ↔ IsGreatest S x := Iff.rfl

@[simp] theorem isTightest_none : IsTightest S none ↔ S = ∅ := Iff.rfl

@[simp] theorem isTightest_some {x : α} : IsTightest S (some x) ↔ IsLeast S x := Iff.rfl

theorem IsWidest.unique (ha : IsWidest S a) (hb : IsWidest S b) : a = b := by
  rcases a with _ | x <;> rcases b with _ | y
  · rfl
  · exact absurd (isWidest_none.mp ha) (Set.nonempty_iff_ne_empty.mp ⟨y, hb.1⟩)
  · exact absurd (isWidest_none.mp hb) (Set.nonempty_iff_ne_empty.mp ⟨x, ha.1⟩)
  · exact congrArg some (IsGreatest.unique ha hb)

theorem IsWidest.eq_none_iff (h : IsWidest S a) : a = none ↔ S = ∅ := by
  refine ⟨fun ha => by simpa [ha] using h, fun hS => ?_⟩
  exact h.unique (isWidest_none.mpr hS)

theorem IsWidest.ne_none_iff (h : IsWidest S a) : a ≠ none ↔ S.Nonempty := by
  rw [ne_eq, h.eq_none_iff, Set.nonempty_iff_ne_empty]

theorem isTightest_iff_isWidest_dual : IsTightest S a ↔ @IsWidest αᵒᵈ _ S a := by
  cases a <;> exact Iff.rfl

theorem IsTightest.unique (ha : IsTightest S a) (hb : IsTightest S b) : a = b :=
  @IsWidest.unique αᵒᵈ _ S a b (isTightest_iff_isWidest_dual.mp ha)
    (isTightest_iff_isWidest_dual.mp hb)

theorem IsTightest.ne_none_iff (h : IsTightest S a) : a ≠ none ↔ S.Nonempty :=
  @IsWidest.ne_none_iff αᵒᵈ _ S a (isTightest_iff_isWidest_dual.mp h)

theorem isWidest_setOf_eq_some (a : Option α) : IsWidest {x | a = some x} a := by
  rcases a with _ | y
  · simp
  · have hset : {x | some y = some x} = {y} := by
      ext x
      simp [eq_comm]
    rw [hset]
    exact isGreatest_singleton

/-! ### Combining levels -/

/-- The wider of two given levels: absent only when both are. -/
def widen : Option α → Option α → Option α
  | none, b => b
  | a, none => a
  | some x, some y => some (max x y)

/-- The tighter of two ceilings: absent only when both are. -/
def tighten : Option α → Option α → Option α
  | none, b => b
  | a, none => a
  | some x, some y => some (min x y)

/-- A given level under a ceiling: absent when nothing was given, unchanged when there is
no ceiling. -/
def ceiled : Option α → Option α → Option α
  | none, _ => none
  | some x, none => some x
  | some x, some y => some (min x y)

@[simp] theorem widen_none : widen a none = a := by cases a <;> rfl

@[simp] theorem none_widen : widen none a = a := by cases a <;> rfl

@[simp] theorem ceiled_none : ceiled a none = a := by cases a <;> rfl

@[simp] theorem widen_eq_none_iff : widen a b = none ↔ a = none ∧ b = none := by
  cases a <;> cases b <;> simp [widen]

@[simp] theorem tighten_eq_none_iff : tighten a b = none ↔ a = none ∧ b = none := by
  cases a <;> cases b <;> simp [tighten]

@[simp] theorem ceiled_eq_none_iff : ceiled a b = none ↔ a = none := by
  cases a <;> cases b <;> simp [ceiled]

theorem isSome_ceiled : (ceiled a b).isSome = a.isSome := by
  cases a <;> cases b <;> rfl

theorem tighten_eq_ceiled_iff : tighten g c = ceiled g c ↔ (g = none → c = none) := by
  cases g <;> cases c <;> simp [tighten, ceiled]

theorem IsWidest.union (ha : IsWidest S a) (hb : IsWidest T b) :
    IsWidest (S ∪ T) (widen a b) := by
  rcases a with _ | x <;> rcases b with _ | y
  · simp [isWidest_none.mp ha, isWidest_none.mp hb]
  · simpa [isWidest_none.mp ha] using hb
  · simpa [isWidest_none.mp hb] using ha
  · exact IsGreatest.union ha hb

theorem IsWidest.of_family {ι : Type*} {I : Set ι} {given : ι → Set α} {best : ι → Option α}
    (hbest : ∀ i ∈ I, IsWidest (given i) (best i)) (h : IsWidest {x | ∃ i ∈ I, x ∈ given i} a) :
    IsWidest {x | ∃ i ∈ I, best i = some x} a := by
  rcases a with _ | m
  · refine Set.eq_empty_iff_forall_notMem.mpr ?_
    rintro x ⟨i, hi, heq⟩
    have hx : IsGreatest (given i) x := isWidest_some.mp (heq ▸ hbest i hi)
    exact Set.eq_empty_iff_forall_notMem.mp h x ⟨i, hi, hx.1⟩
  · obtain ⟨⟨i, hi, hm⟩, hmax⟩ := h
    refine ⟨⟨i, hi, ?_⟩, ?_⟩
    · cases heq : best i with
      | none =>
        have hempty : given i = ∅ := isWidest_none.mp (heq ▸ hbest i hi)
        exact absurd hm (Set.eq_empty_iff_forall_notMem.mp hempty m)
      | some x =>
        have hx : IsGreatest (given i) x := isWidest_some.mp (heq ▸ hbest i hi)
        exact congrArg some (le_antisymm (hmax ⟨i, hi, hx.1⟩) (hx.2 hm))
    · rintro x ⟨j, hj, heq⟩
      have hx : IsGreatest (given j) x := isWidest_some.mp (heq ▸ hbest j hj)
      exact hmax ⟨j, hj, hx.1⟩

theorem IsWidest.ceiled (h : IsWidest S a) (c : Option α) :
    IsWidest {x | ∃ y ∈ S, Sone.ceiled (some y) c = some x} (Sone.ceiled a c) := by
  rcases a with _ | m
  · refine Set.eq_empty_iff_forall_notMem.mpr ?_
    rintro x ⟨y, hy, -⟩
    exact Set.eq_empty_iff_forall_notMem.mp h y hy
  rcases c with _ | c
  · refine ⟨⟨m, h.1, rfl⟩, ?_⟩
    rintro x ⟨y, hy, heq⟩
    exact Option.some.inj heq ▸ h.2 hy
  · refine ⟨⟨m, h.1, rfl⟩, ?_⟩
    rintro x ⟨y, hy, heq⟩
    exact Option.some.inj heq ▸ min_le_min_right c (h.2 hy)

theorem IsWidest.mono (ha : IsWidest S a) (hb : IsWidest T b) (h : S ⊆ T) :
    ∀ x ∈ a, ∃ y ∈ b, x ≤ y := by
  rintro x rfl
  have hx : x ∈ T := h ha.1
  rcases b with _ | y
  · exact absurd hx (Set.eq_empty_iff_forall_notMem.mp hb x)
  · exact ⟨y, rfl, hb.2 hx⟩

/-! ### What is reached -/

theorem IsWidest.exists_ge_iff (h : IsWidest S a) {x : α} :
    (∃ y ∈ a, x ≤ y) ↔ ∃ y ∈ S, x ≤ y := by
  rcases a with _ | m
  · rw [isWidest_none.mp h]
    simp
  · constructor
    · rintro ⟨_, ⟨rfl⟩, hle⟩
      exact ⟨m, h.1, hle⟩
    · rintro ⟨y, hy, hle⟩
      exact ⟨m, rfl, hle.trans (h.2 hy)⟩

theorem IsTightest.forall_le_iff (h : IsTightest S a) {x : α} :
    (∀ y ∈ a, x ≤ y) ↔ ∀ y ∈ S, x ≤ y := by
  rcases a with _ | m
  · rw [isTightest_none.mp h]
    simp
  · constructor
    · exact fun hle y hy => (hle m rfl).trans (h.2 hy)
    · rintro hle _ ⟨rfl⟩
      exact hle m h.1

theorem exists_ge_ceiled_iff {x : α} :
    (∃ y ∈ Sone.ceiled a c, x ≤ y) ↔ (∃ y ∈ a, x ≤ y) ∧ ∀ y ∈ c, x ≤ y := by
  cases a <;> cases c <;> simp [Sone.ceiled]

/-! ### Loops that keep a best level -/

/-- One step of the loop that keeps the widest level seen. -/
def considerLevel (best : Option α) (x : α) : Option α :=
  match best with
  | none => some x
  | some y => if y ≤ x then some x else some y

theorem considerLevel_eq_widen (best : Option α) (x : α) :
    considerLevel best x = widen best (some x) := by
  rcases best with _ | y
  · rfl
  · simp only [considerLevel, widen]
    split
    · rename_i h
      rw [max_eq_right h]
    · rename_i h
      rw [max_eq_left (le_of_not_ge h)]

theorem IsWidest.foldl (l : List α) (h : IsWidest S a) :
    IsWidest (S ∪ {x | x ∈ l}) (l.foldl considerLevel a) := by
  induction l generalizing S a with
  | nil => simpa using h
  | cons x l ih =>
    have hx : IsWidest {x} (some x) := isGreatest_singleton
    have hstep : IsWidest (S ∪ {x}) (considerLevel a x) := by
      rw [considerLevel_eq_widen]
      exact h.union hx
    have hset : S ∪ {y | y ∈ x :: l} = (S ∪ {x}) ∪ {y | y ∈ l} := by
      ext y
      simp [or_assoc, or_left_comm]
    rw [foldl_cons, hset]
    exact ih hstep

/-- One step of the loop that lowers a level to each ceiling below it. -/
def lowerLevel (best x : α) : α := if best ≤ x then best else x

theorem lowerLevel_eq_min (best x : α) : lowerLevel best x = min best x := by
  simp only [lowerLevel, min_def]

theorem foldl_lowerLevel {l : List α} (x : α) (h : IsTightest {y | y ∈ l} c) :
    some (l.foldl lowerLevel x) = ceiled (some x) c := by
  -- the loop ends at the least of what it started with and the list
  have hle : ∀ (l : List α) (x : α),
      IsLeast {y | y = x ∨ y ∈ l} (l.foldl lowerLevel x) := by
    intro l
    induction l with
    | nil => intro x; simp
    | cons z l ih =>
      intro x
      obtain ⟨hmem, hlow⟩ := ih (lowerLevel x z)
      rw [foldl_cons]
      refine ⟨?_, fun y hy => ?_⟩
      · rcases hmem with h | h
        · rw [h, lowerLevel_eq_min]
          rcases min_choice x z with h | h <;> simp [h]
        · exact .inr (mem_cons_of_mem z h)
      · have hmin : lowerLevel x z ≤ x ∧ lowerLevel x z ≤ z := by
          simp [lowerLevel_eq_min]
        have hfold : l.foldl lowerLevel (lowerLevel x z) ≤ lowerLevel x z := hlow (.inl rfl)
        rcases hy with rfl | hy
        · exact hfold.trans hmin.1
        · rcases mem_cons.mp hy with rfl | hy
          · exact hfold.trans hmin.2
          · exact hlow (.inr hy)
  rcases c with _ | m
  · have hnil : l = [] := eq_nil_iff_forall_not_mem.mpr fun y hy =>
      Set.eq_empty_iff_forall_notMem.mp h y hy
    rw [hnil]
    rfl
  · refine congrArg some ((hle l x).unique ⟨?_, fun y hy => ?_⟩)
    · have hm : m ∈ l := h.1
      rcases min_choice x m with h | h <;> simp [h, hm]
    · rcases hy with rfl | hy
      · exact min_le_left y m
      · exact (min_le_right x m).trans (h.2 hy)

/-! ### The first of a sorted list -/

section Sorted

variable {β : Type u} (rank : β → ℕ)

/-- The first element of a list sorted by descending rank: `ORDER BY … DESC LIMIT 1`. -/
def firstByRankDesc (l : List β) : Option β :=
  (l.insertionSort fun x y => rank y ≤ rank x).head?

/-- The first element of a list sorted by ascending rank: `ORDER BY … ASC LIMIT 1`. -/
def firstByRankAsc (l : List β) : Option β :=
  (l.insertionSort fun x y => rank x ≤ rank y).head?

variable {rank} {l : List β} {x : β}

@[simp] theorem firstByRankDesc_eq_none_iff : firstByRankDesc rank l = none ↔ l = [] := by
  rw [firstByRankDesc, List.head?_eq_none_iff, ← length_eq_zero_iff,
    length_insertionSort, length_eq_zero_iff]

private theorem head?_insertionSort_spec {r : β → β → Prop} [DecidableRel r] [Std.Refl r]
    [Std.Total r] [IsTrans β r] (h : (l.insertionSort r).head? = some x) :
    x ∈ l ∧ ∀ y ∈ l, r x y := by
  obtain ⟨tail, htail⟩ := List.head?_eq_some_iff.mp h
  have hsorted : (x :: tail).Pairwise r := htail ▸ pairwise_insertionSort r l
  have hmem : ∀ y, y ∈ l ↔ y ∈ x :: tail := fun y => by
    rw [← htail, mem_insertionSort]
  refine ⟨(hmem x).mpr mem_cons_self, fun y hy => ?_⟩
  rcases mem_cons.mp ((hmem y).mp hy) with rfl | hy
  · exact refl_of r y
  · exact (pairwise_cons.mp hsorted).1 y hy

theorem firstByRankDesc_spec (h : firstByRankDesc rank l = some x) :
    x ∈ l ∧ ∀ y ∈ l, rank y ≤ rank x :=
  have : Std.Refl fun x y : β => rank y ≤ rank x := ⟨fun x => Nat.le_refl (rank x)⟩
  have : Std.Total fun x y : β => rank y ≤ rank x := ⟨fun x y => Nat.le_total (rank y) (rank x)⟩
  have : IsTrans β fun x y => rank y ≤ rank x := ⟨fun _ _ _ hxy hyz => Nat.le_trans hyz hxy⟩
  head?_insertionSort_spec h

theorem firstByRankAsc_spec (h : firstByRankAsc rank l = some x) :
    x ∈ l ∧ ∀ y ∈ l, rank x ≤ rank y :=
  have : Std.Refl fun x y : β => rank x ≤ rank y := ⟨fun x => Nat.le_refl (rank x)⟩
  have : Std.Total fun x y : β => rank x ≤ rank y := ⟨fun x y => Nat.le_total (rank x) (rank y)⟩
  have : IsTrans β fun x y => rank x ≤ rank y := ⟨fun _ _ _ hxy hyz => Nat.le_trans hxy hyz⟩
  head?_insertionSort_spec h

@[simp] theorem firstByRankAsc_eq_none_iff : firstByRankAsc rank l = none ↔ l = [] := by
  rw [firstByRankAsc, List.head?_eq_none_iff, ← length_eq_zero_iff,
    length_insertionSort, length_eq_zero_iff]

end Sorted

section SortedLevels

variable {rank : α → ℕ}

theorem isWidest_firstByRankDesc (hrank : ∀ x y, rank x ≤ rank y ↔ x ≤ y) (l : List α) :
    IsWidest {x | x ∈ l} (firstByRankDesc rank l) := by
  cases h : firstByRankDesc rank l with
  | none => simp [firstByRankDesc_eq_none_iff.mp h]
  | some x =>
    obtain ⟨hmem, hmax⟩ := firstByRankDesc_spec h
    exact ⟨hmem, fun y hy => (hrank y x).mp (hmax y hy)⟩

theorem isTightest_firstByRankAsc (hrank : ∀ x y, rank x ≤ rank y ↔ x ≤ y) (l : List α) :
    IsTightest {x | x ∈ l} (firstByRankAsc rank l) := by
  cases h : firstByRankAsc rank l with
  | none => simp [firstByRankAsc_eq_none_iff.mp h]
  | some x =>
    obtain ⟨hmem, hmin⟩ := firstByRankAsc_spec h
    exact ⟨hmem, fun y hy => (hrank x y).mp (hmin y hy)⟩

end SortedLevels

end Sone
