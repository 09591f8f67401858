import Mathlib.Data.List.Infix
import Mathlib.Logic.Relation

/-!
# Trees kept as parents and paths

A tree can be kept in a table that gives each id a **place**: its parent, and its ancestors
root first, which is redundant. `IsPathed` says that the two agree; an id whose parent is not
in the table has that parent as its only ancestor.

In a table that is pathed nothing is under itself (`IsPathed.not_mem_ancestors`), and an id is
under another exactly where its path starts with the other's (`IsPathed.prefix_of_mem`). An id
may come in (`IsPathed.insert`), and one may be hung elsewhere with all that is under it
(`IsPathed.rehung`).
-/

namespace Sone

open List Option Function

universe u

/-- A **place** in a tree: the parent, and the ancestors, root first. -/
structure Place (α : Type u) where
  parent : Option α
  ancestors : List α
  deriving DecidableEq

variable {α : Type u} {T : α → Option (Place α)} {a b c : α} {p q old new : Place α}

/-- A place **agrees** with a table: its ancestors are its parent's, and the parent. -/
structure Place.Agrees (T : α → Option (Place α)) (p : Place α) : Prop where
  root : p.parent = none → p.ancestors = []
  child : ∀ b q, p.parent = some b → T b = some q → p.ancestors = q.ancestors ++ [b]
  /-- The parent is not there. -/
  orphan : ∀ b, p.parent = some b → T b = none → p.ancestors = [b]

/-- **The paths of a table agree with its parents.** -/
def IsPathed (T : α → Option (Place α)) : Prop := ∀ a p, T a = some p → p.Agrees T

theorem Place.Agrees.exists_eq (h : p.Agrees T) (hb : p.parent = some b) :
    ∃ front, p.ancestors = front ++ [b] := by
  cases hq : T b with
  | none => exact ⟨[], by simpa using h.orphan b hb hq⟩
  | some q => exact ⟨q.ancestors, h.child b q hb hq⟩

theorem Place.Agrees.parent_mem (h : p.Agrees T) (hb : p.parent = some b) : b ∈ p.ancestors := by
  obtain ⟨front, hfront⟩ := h.exists_eq hb
  simp [hfront]

theorem Place.Agrees.eq_of_parent (hp : p.Agrees T) (hq : q.Agrees T)
    (hparent : p.parent = q.parent) : p = q := by
  have hancestors : p.ancestors = q.ancestors := by
    cases hb : p.parent with
    | none => rw [hp.root hb, hq.root (hparent ▸ hb)]
    | some b =>
      cases hT : T b with
      | none => rw [hp.orphan b hb hT, hq.orphan b (hparent ▸ hb) hT]
      | some r => rw [hp.child b r hb hT, hq.child b r (hparent ▸ hb) hT]
  obtain ⟨parent, ancestors⟩ := p
  obtain ⟨parent', ancestors'⟩ := q
  obtain rfl : parent = parent' := hparent
  obtain rfl : ancestors = ancestors' := hancestors
  rfl

/-- An id **has another as its parent**. -/
def IsChild (T : α → Option (Place α)) (a b : α) : Prop :=
  ∃ p, T a = some p ∧ p.parent = some b

namespace IsPathed

theorem prefix_of_mem (h : IsPathed T) (ha : T a = some p) (hb : T b = some q)
    (hmem : b ∈ p.ancestors) : q.ancestors ++ [b] <+: p.ancestors := by
  -- by induction on the length of the path, from the parent down
  induction hn : p.ancestors.length using Nat.strong_induction_on generalizing a p with
  | _ n ih =>
    have hagrees := h a p ha
    cases hparent : p.parent with
    | none => simp [hagrees.root hparent] at hmem
    | some c =>
      cases hc : T c with
      | none =>
        have hpath := hagrees.orphan c hparent hc
        rw [hpath, mem_singleton] at hmem
        simp [← hmem, hb] at hc
      | some r =>
        have hpath := hagrees.child c r hparent hc
        rw [hpath, mem_append, mem_singleton] at hmem
        rw [hpath]
        rcases hmem with hmem | rfl
        · have hlt : r.ancestors.length < n := by simp [← hn, hpath]
          exact (ih _ hlt hc hmem rfl).trans (prefix_append _ _)
        · obtain rfl := some.inj (hb.symm.trans hc)
          exact prefix_refl _

theorem not_mem_ancestors (h : IsPathed T) (ha : T a = some p) : a ∉ p.ancestors := by
  intro hmem
  have hle := (h.prefix_of_mem ha ha hmem).length_le
  rw [length_append, length_singleton] at hle
  omega

theorem parent_eq (h : IsPathed T) (ha : T a = some p) {front : List α}
    (heq : p.ancestors = front ++ [b]) : p.parent = some b := by
  have hagrees := h a p ha
  cases hparent : p.parent with
  | none => simp [hagrees.root hparent] at heq
  | some c =>
    obtain ⟨front', hfront'⟩ := hagrees.exists_eq hparent
    rw [hfront'] at heq
    rw [singleton_inj.mp (append_inj' heq rfl).2]

/-- **There are no cycles**: nothing is reached from itself by going up. -/
theorem acyclic (h : IsPathed T) (a : α) : ¬ Relation.TransGen (IsChild T) a a := by
  -- what is reached by going up is an ancestor
  have hancestor : ∀ a b, Relation.TransGen (IsChild T) a b →
      ∃ p, T a = some p ∧ b ∈ p.ancestors := by
    intro a b hup
    induction hup with
    | single hstep =>
      obtain ⟨p, hp, hparent⟩ := hstep
      exact ⟨p, hp, (h a p hp).parent_mem hparent⟩
    | tail _ hstep ih =>
      obtain ⟨p, hp, hmem⟩ := ih
      obtain ⟨q, hq, hparent⟩ := hstep
      have hstart := h.prefix_of_mem hp hq hmem
      exact ⟨p, hp, hstart.mem (mem_append_left _ ((h _ q hq).parent_mem hparent))⟩
  intro hup
  obtain ⟨p, hp, hmem⟩ := hancestor a a hup
  exact h.not_mem_ancestors hp hmem

variable [DecidableEq α]

/-- **An id comes in.** What names it as its parent already has it as the only ancestor, so it
may have none of its own. -/
theorem insert (h : IsPathed T) (ha : T a = none) (hp : p.Agrees T) (hout : a ∉ p.ancestors)
    (hwait : ∀ c q, T c = some q → q.parent = some a → p.ancestors = []) :
    IsPathed (Function.update T a (some p)) := by
  intro c q hc
  by_cases hca : c = a
  · subst hca
    rw [update_self, Option.some.injEq] at hc
    subst hc
    have hne : ∀ b, p.parent = some b → b ≠ c := by
      rintro b hb rfl
      exact hout (hp.parent_mem hb)
    refine ⟨hp.root, fun b q hb hq => ?_, fun b hb hq => ?_⟩
    · rw [update_of_ne (hne b hb)] at hq
      exact hp.child b q hb hq
    · rw [update_of_ne (hne b hb)] at hq
      exact hp.orphan b hb hq
  · rw [update_of_ne hca] at hc
    have hagrees := h c q hc
    refine ⟨hagrees.root, fun b r hb hr => ?_, fun b hb hr => ?_⟩
    · by_cases hba : b = a
      · subst hba
        rw [update_self, Option.some.injEq] at hr
        subst hr
        rw [hwait c q hc hb]
        exact hagrees.orphan b hb ha
      · rw [update_of_ne hba] at hr
        exact hagrees.child b r hb hr
    · have hba : b ≠ a := by
        rintro rfl
        simp at hr
      rw [update_of_ne hba] at hr
      exact hagrees.orphan b hb hr

end IsPathed

section Rehung

variable [DecidableEq α]

/-- **The children below an id that was given another place**: of the id, and of all that was
under it, they are the ones whose path says so. -/
theorem IsPathed.child_iff (h : IsPathed T) (ha : T a = some old) (hnew : new.Agrees T)
    (hout : a ∉ new.ancestors) (hb : T b = some q) (hunder : a ∈ q.ancestors ++ [b]) :
    (∃ r, Function.update T a (some new) c = some r ∧ r.parent = some b) ↔
      ∃ r, T c = some r ∧ r.ancestors = q.ancestors ++ [b] := by
  constructor
  · rintro ⟨r, hr, hparent⟩
    by_cases hca : c = a
    · -- the id is under none of them, where it is now
      subst hca
      rw [update_self, Option.some.injEq] at hr
      subst hr
      exact absurd (hnew.child b q hparent hb ▸ hunder) hout
    · rw [update_of_ne hca] at hr
      exact ⟨r, hr, (h c r hr).child b q hparent hb⟩
  · rintro ⟨r, hr, hpath⟩
    have hca : c ≠ a := by
      rintro rfl
      exact h.not_mem_ancestors hr (hpath ▸ hunder)
    exact ⟨r, by rw [update_of_ne hca, hr], h.parent_eq hr hpath⟩

/-- What an id that is under another has for a place once the other is hung elsewhere. -/
def Place.under (old new : Place α) (a : α) (q : Place α) : Place α :=
  if old.ancestors ++ [a] <+: q.ancestors then
    { q with ancestors := new.ancestors ++ [a] ++ q.ancestors.drop (old.ancestors ++ [a]).length }
  else q

@[simp] theorem Place.parent_under : (Place.under old new a q).parent = q.parent := by
  unfold Place.under
  split <;> rfl

/-- **The table with an id hung elsewhere**, and with it all that is under it. -/
def rehung (T : α → Option (Place α)) (a : α) (old new : Place α) : α → Option (Place α) :=
  Function.update (fun c => (T c).map (Place.under old new a)) a (some new)

theorem rehung_self (ha : T a = some p) : rehung T a p p = T := by
  funext c
  rw [rehung]
  by_cases hca : c = a
  · rw [hca, update_self, ha]
  · rw [update_of_ne hca]
    cases hq : T c with
    | none => rfl
    | some q =>
      rw [map_some, Option.some.injEq, Place.under]
      split
      · rename_i hunder
        obtain ⟨rest, hrest⟩ := hunder
        rw [← hrest, drop_left, hrest]
      · rfl

/-- **An id is hung elsewhere**, not under itself. -/
theorem IsPathed.rehung (h : IsPathed T) (ha : T a = some old) (hnew : new.Agrees T)
    (hout : a ∉ new.ancestors) : IsPathed (rehung T a old new) := by
  intro c q' hc
  by_cases hca : c = a
  · subst hca
    obtain rfl : new = q' := by simpa [Sone.rehung] using hc
    have hne : ∀ b, new.parent = some b → b ≠ c := by
      rintro b hb rfl
      exact hout (hnew.parent_mem hb)
    refine ⟨hnew.root, fun b r' hb hr' => ?_, fun b hb hr' => ?_⟩
    · rw [Sone.rehung, update_of_ne (hne b hb)] at hr'
      obtain ⟨r, hr, rfl⟩ := map_eq_some_iff.mp hr'
      have hpath := hnew.child b r hb hr
      -- the new parent is not under the id, and so keeps its path
      have hnot : ¬ old.ancestors ++ [c] <+: r.ancestors := fun hunder =>
        hout (by rw [hpath]; exact mem_append_left _ (hunder.subset (by simp)))
      rw [Place.under, if_neg hnot]
      exact hpath
    · rw [Sone.rehung, update_of_ne (hne b hb), map_eq_none_iff] at hr'
      exact hnew.orphan b hb hr'
  · rw [Sone.rehung, update_of_ne hca] at hc
    obtain ⟨q, hq, rfl⟩ := map_eq_some_iff.mp hc
    have hagrees := h c q hq
    refine ⟨fun hb => ?_, fun b r' hb hr' => ?_, fun b hb hr' => ?_⟩
    · rw [Place.parent_under] at hb
      have hnot : ¬ old.ancestors ++ [a] <+: q.ancestors := by simp [hagrees.root hb]
      rw [Place.under, if_neg hnot]
      exact hagrees.root hb
    · rw [Place.parent_under] at hb
      by_cases hba : b = a
      · subst hba
        obtain rfl : new = r' := by simpa [Sone.rehung] using hr'
        have hpath := hagrees.child b old hb ha
        rw [Place.under, if_pos (by rw [hpath])]
        simp [hpath]
      · rw [Sone.rehung, update_of_ne hba] at hr'
        obtain ⟨r, hr, rfl⟩ := map_eq_some_iff.mp hr'
        have hpath := hagrees.child b r hb hr
        by_cases hunder : old.ancestors ++ [a] <+: r.ancestors
        · have hlonger : old.ancestors ++ [a] <+: q.ancestors :=
            hpath ▸ hunder.trans (prefix_append _ _)
          rw [Place.under, if_pos hlonger, Place.under, if_pos hunder]
          simp only [hpath, drop_append_of_le_length hunder.length_le, append_assoc]
        · have hnot : ¬ old.ancestors ++ [a] <+: q.ancestors := by
            intro hlonger
            rw [hpath, prefix_concat_iff] at hlonger
            rcases hlonger with heq | hlonger
            · exact hba (singleton_inj.mp (append_inj' heq rfl).2).symm
            · exact hunder hlonger
          rw [Place.under, if_neg hnot, Place.under, if_neg hunder]
          exact hpath
    · rw [Place.parent_under] at hb
      have hba : b ≠ a := by
        rintro rfl
        simp [Sone.rehung] at hr'
      rw [Sone.rehung, update_of_ne hba, map_eq_none_iff] at hr'
      have hpath := hagrees.orphan b hb hr'
      have hnot : ¬ old.ancestors ++ [a] <+: q.ancestors := by
        intro hunder
        rw [hpath] at hunder
        have hmem : a ∈ [b] := hunder.subset (by simp)
        exact hba (mem_singleton.mp hmem).symm
      rw [Place.under, if_neg hnot]
      exact hpath

end Rehung

end Sone
