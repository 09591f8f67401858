import Mathlib.Data.List.Sort

/-!
# Sorting and leaving out

Things that come first by the same key stay in the order they were in. So it makes no difference
whether a list is sorted before some of it is left out or after (`insertionSort_filter`), and what
comes between two neighbours of a sorted list is sorted to the place between them
(`mergeSort_cons_eq`). What decides only between things that a coarser order takes for equal leaves
the list sorted by that order, whatever it decides (`pairwise_mergeSort_of`).
-/

namespace Sone

open List

section Sorting

variable {α : Type*} {r : α → α → Prop} [DecidableRel r] {p : α → Bool}

theorem orderedInsert_filter [IsTrans α r] {a : α} {l : List α} (hl : l.Pairwise r) :
    (l.orderedInsert r a).filter p =
      if p a then (l.filter p).orderedInsert r a else l.filter p := by
  induction l with
  | nil => by_cases hp : p a <;> simp [hp]
  | cons b l ih =>
    obtain ⟨hb, hl⟩ := pairwise_cons.mp hl
    rw [orderedInsert_cons]
    by_cases hab : r a b
    · -- it comes before all that are kept
      have hbefore : ∀ c ∈ (b :: l).filter p, r a c := by
        intro c hc
        rcases mem_cons.mp (mem_of_mem_filter hc) with rfl | hc
        · exact hab
        · exact IsTrans.trans _ _ _ hab (hb c hc)
      rw [if_pos hab]
      by_cases hp : p a
      · rw [if_pos hp, filter_cons_of_pos hp]
        cases hkept : (b :: l).filter p with
        | nil => rfl
        | cons c kept =>
          rw [orderedInsert_cons, if_pos (hbefore c (hkept ▸ mem_cons_self))]
      · rw [if_neg hp, filter_cons_of_neg hp]
    · rw [if_neg hab]
      by_cases hpb : p b
      · rw [filter_cons_of_pos hpb, ih hl, filter_cons_of_pos hpb]
        by_cases hp : p a
        · rw [if_pos hp, if_pos hp, orderedInsert_cons, if_neg hab]
        · rw [if_neg hp, if_neg hp]
      · rw [filter_cons_of_neg hpb, ih hl, filter_cons_of_neg hpb]

theorem insertionSort_filter [IsTrans α r] [Std.Total r] (l : List α) :
    (l.insertionSort r).filter p = (l.filter p).insertionSort r := by
  induction l with
  | nil => rfl
  | cons a l ih =>
    rw [insertionSort_cons, orderedInsert_filter (pairwise_insertionSort r l), ih]
    by_cases hp : p a
    · rw [if_pos hp, filter_cons_of_pos hp, insertionSort_cons]
    · rw [if_neg hp, filter_cons_of_neg hp]

end Sorting

/-- **What comes between two parts of a sorted list** is sorted to the place between them. -/
theorem mergeSort_cons_eq {α : Type*} {le : α → α → Bool} {a : α} {front rest : List α}
    (trans : ∀ a b c, le a b → le b c → le a c) (total : ∀ a b, le a b || le b a)
    (hsorted : (front ++ rest).Pairwise fun x y => le x y) (hfront : ∀ x ∈ front, le a x = false)
    (hrest : ∀ y ∈ rest, le a y = true) :
    (a :: (front ++ rest)).mergeSort le = front ++ a :: rest := by
  obtain ⟨before, after, hmerged, hsplit, hbefore⟩ :=
    mergeSort_cons trans total a (front ++ rest)
  rw [mergeSort_of_pairwise hsorted] at hsplit
  have hafter : ∀ y ∈ after, le a y = true := by
    have hmergedSorted := pairwise_mergeSort trans total (a :: (front ++ rest))
    rw [hmerged, pairwise_append, pairwise_cons] at hmergedSorted
    exact hmergedSorted.2.1.1
  -- what one of the two splits has in front and the other behind is on both sides of `a`
  rcases append_eq_append_iff.mp hsplit with ⟨middle, rfl, rfl⟩ | ⟨middle, rfl, rfl⟩
  · have hnone : middle = [] := eq_nil_iff_forall_not_mem.mpr fun x hx => by
      have hnot := hbefore x (mem_append_right _ hx)
      simp [hrest x (mem_append_left _ hx)] at hnot
    simpa [hnone] using hmerged
  · have hnone : middle = [] := eq_nil_iff_forall_not_mem.mpr fun x hx => by
      have hle := hafter x (mem_append_left _ hx)
      simp [hfront x (mem_append_right _ hx)] at hle
    simpa [hnone] using hmerged

section Coarser

variable {α : Type*} {le : α → α → Bool} {r : α → α → Prop} [IsTrans α r]

theorem pairwise_merge_of (hle : ∀ a b, le a b = true → r a b)
    (hnot : ∀ a b, le a b = false → r b a) {l₁ l₂ : List α} (h₁ : l₁.Pairwise r)
    (h₂ : l₂.Pairwise r) : (l₁.merge l₂ le).Pairwise r := by
  induction l₁ generalizing l₂ with
  | nil => rwa [nil_merge]
  | cons a l₁ ih₁ =>
    induction l₂ with
    | nil => rwa [merge_right]
    | cons b l₂ ih₂ =>
      obtain ⟨ha, hl₁⟩ := pairwise_cons.mp h₁
      obtain ⟨hb, hl₂⟩ := pairwise_cons.mp h₂
      rw [cons_merge_cons]
      split_ifs with hab
      · refine pairwise_cons.mpr ⟨fun c hc => ?_, ih₁ hl₁ h₂⟩
        rcases mem_merge.mp hc with hc | hc
        · exact ha c hc
        · rcases mem_cons.mp hc with rfl | hc
          · exact hle a c hab
          · exact IsTrans.trans _ _ _ (hle a b hab) (hb c hc)
      · rw [Bool.not_eq_true] at hab
        refine pairwise_cons.mpr ⟨fun c hc => ?_, ih₂ hl₂⟩
        rcases mem_merge.mp hc with hc | hc
        · rcases mem_cons.mp hc with rfl | hc
          · exact hnot c b hab
          · exact IsTrans.trans _ _ _ (hnot a b hab) (ha c hc)
        · exact hb c hc

theorem pairwise_mergeSort_of (hle : ∀ a b, le a b = true → r a b)
    (hnot : ∀ a b, le a b = false → r b a) : (l : List α) → (l.mergeSort le).Pairwise r
  | [] => by simp
  | [a] => by simp
  | a :: b :: l => by
    rw [List.mergeSort]
    exact pairwise_merge_of hle hnot (pairwise_mergeSort_of hle hnot _)
      (pairwise_mergeSort_of hle hnot _)
termination_by l => l.length

end Coarser

end Sone
