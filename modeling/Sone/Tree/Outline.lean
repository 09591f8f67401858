import Mathlib.Data.List.Nodup
import Mathlib.Order.Nat

/-!
# Outlines

A forest is written as a list in reading order, each entry with its key, the key of its parent
and its depth. Entries come in one after the other: a root, or a child of an entry that is
*open*, which is one after which everything is deeper (`IsOutline`).

Whatever is written so is a forest in reading order: a parent is an earlier entry
(`IsOutline.parent_of_getElem?`), and the subtree of an entry is the run of deeper entries that
starts with it (`IsOutline.inSubtree_iff`, `IsOutline.exists_run`).
-/

namespace Sone

universe u

structure OutlineEntry (κ : Type u) where
  key : κ
  parent : Option κ
  depth : ℕ

namespace OutlineEntry

variable {κ : Type u} {l l' : List (OutlineEntry κ)} {e b p : OutlineEntry κ} {q : κ} {d i j : ℕ}

/-- **An entry is open**: all that comes after it is deeper. -/
def IsOpen (l : List (OutlineEntry κ)) (q : κ) (d : ℕ) : Prop :=
  ∃ (k : ℕ) (p : OutlineEntry κ), l[k]? = some p ∧ p.key = q ∧ p.depth = d ∧
    ∀ (m : ℕ) (c : OutlineEntry κ), k < m → l[m]? = some c → d < c.depth

/-- **An outline**, as it is written. -/
inductive IsOutline : List (OutlineEntry κ) → Prop
  | nil : IsOutline []
  | root {l : List (OutlineEntry κ)} {e : OutlineEntry κ} : IsOutline l → e.parent = none →
      e.depth = 0 → IsOutline (l ++ [e])
  | child {l : List (OutlineEntry κ)} {e : OutlineEntry κ} {q : κ} {d : ℕ} : IsOutline l →
      IsOpen l q d → e.parent = some q → e.depth = d + 1 → IsOutline (l ++ [e])

theorem getElem?_append_of_some {i : ℕ} (h : l[i]? = some p) (l' : List (OutlineEntry κ)) :
    (l ++ l')[i]? = some p := by
  rw [List.getElem?_append_left (List.getElem?_eq_some_iff.mp h).1, h]

theorem isOpen_concat (l : List (OutlineEntry κ)) (e : OutlineEntry κ) :
    IsOpen (l ++ [e]) e.key e.depth := by
  refine ⟨l.length, e, by simp, rfl, rfl, fun m c hm hc => ?_⟩
  rw [List.getElem?_eq_none (by simp; omega)] at hc
  simp at hc

theorem IsOpen.append (h : IsOpen l q d) (hdeep : ∀ e ∈ l', d < e.depth) :
    IsOpen (l ++ l') q d := by
  obtain ⟨k, p, hk, hkey, hdepth, hafter⟩ := h
  refine ⟨k, p, getElem?_append_of_some hk _, hkey, hdepth, fun m c hm hc => ?_⟩
  by_cases hlt : m < l.length
  · rw [List.getElem?_append_left hlt] at hc
    exact hafter m c hm hc
  · rw [List.getElem?_append_right (not_lt.mp hlt)] at hc
    exact hdeep c (List.mem_of_getElem? hc)

/-! ### Parents -/

/-- **The parent of an entry** is the last before it that is less deep. -/
theorem IsOutline.parent_of_getElem? (h : IsOutline l) (hb : l[j]? = some b) :
    (b.parent = none ∧ b.depth = 0) ∨ ∃ (k : ℕ) (p : OutlineEntry κ), k < j ∧ l[k]? = some p ∧
      b.parent = some p.key ∧ b.depth = p.depth + 1 ∧
        ∀ (m : ℕ) (c : OutlineEntry κ), k < m → m < j → l[m]? = some c → p.depth < c.depth := by
  have hlast : ∀ {l : List (OutlineEntry κ)} {e : OutlineEntry κ}, (l ++ [e])[j]? = some b →
      l[j]? = some b ∨ (j = l.length ∧ e = b) := by
    intro l e hb
    rcases Nat.lt_trichotomy j l.length with hlt | heq | hgt
    · exact .inl (by rwa [List.getElem?_append_left hlt] at hb)
    · subst heq
      rw [List.getElem?_concat_length, Option.some.injEq] at hb
      exact .inr ⟨rfl, hb⟩
    · rw [List.getElem?_eq_none (by simp; omega)] at hb
      simp at hb
  induction h with
  | nil => simp at hb
  | @root l e h hparent hdepth ih =>
    rcases hlast hb with hb | ⟨-, rfl⟩
    · have hj : j < l.length := (List.getElem?_eq_some_iff.mp hb).1
      rcases ih hb with hfirst | ⟨k, p, hk, hp, hparent, hdepth, hbetween⟩
      · exact .inl hfirst
      · refine .inr
          ⟨k, p, hk, getElem?_append_of_some hp _, hparent, hdepth, fun m c hkm hm hc => ?_⟩
        exact hbetween m c hkm hm (by rwa [List.getElem?_append_left (by omega)] at hc)
    · exact .inl ⟨hparent, hdepth⟩
  | @child l e q d h hopen hparent hdepth ih =>
    rcases hlast hb with hb | ⟨rfl, rfl⟩
    · have hj : j < l.length := (List.getElem?_eq_some_iff.mp hb).1
      rcases ih hb with hfirst | ⟨k, p, hk, hp, hparent, hdepth, hbetween⟩
      · exact .inl hfirst
      · refine .inr
          ⟨k, p, hk, getElem?_append_of_some hp _, hparent, hdepth, fun m c hkm hm hc => ?_⟩
        exact hbetween m c hkm hm (by rwa [List.getElem?_append_left (by omega)] at hc)
    · obtain ⟨k, p, hk, rfl, rfl, hafter⟩ := hopen
      refine .inr ⟨k, p, (List.getElem?_eq_some_iff.mp hk).1, getElem?_append_of_some hk _,
        hparent, hdepth, fun m c hkm hm hc => ?_⟩
      exact hafter m c hkm (by rwa [List.getElem?_append_left hm] at hc)

theorem IsOutline.parent_mem_keys (h : IsOutline l) (hb : b ∈ l) (hq : b.parent = some q) :
    q ∈ l.map key := by
  obtain ⟨j, hj⟩ := List.mem_iff_getElem?.mp hb
  rcases h.parent_of_getElem? hj with ⟨hnone, -⟩ | ⟨k, p, -, hp, hparent, -⟩
  · rw [hq] at hnone
    simp at hnone
  · rw [hq, Option.some.injEq] at hparent
    exact hparent ▸ List.mem_map_of_mem (List.mem_of_getElem? hp)

theorem eq_of_key_eq (hnodup : (l.map key).Nodup) (hp : l[i]? = some p) (hb : l[j]? = some b)
    (hkey : p.key = b.key) : i = j := by
  obtain ⟨hi, rfl⟩ := List.getElem?_eq_some_iff.mp hp
  obtain ⟨hj, rfl⟩ := List.getElem?_eq_some_iff.mp hb
  have hi' : i < (l.map key).length := by simpa using hi
  have hj' : j < (l.map key).length := by simpa using hj
  have hsame : (l.map key)[i] = (l.map key)[j] := by simpa using hkey
  exact hnodup.getElem_inj_iff.mp hsame

/-! ### Subtrees -/

/-- **The subtree** of the entry at a place: it, and the children of what is in it. -/
inductive InSubtree (l : List (OutlineEntry κ)) (i : ℕ) : ℕ → Prop
  | self : i < l.length → InSubtree l i i
  | child {k j : ℕ} {p b : OutlineEntry κ} : InSubtree l i k → l[k]? = some p → l[j]? = some b →
      b.parent = some p.key → InSubtree l i j

/-- **A subtree is what follows and is deeper.** -/
theorem IsOutline.inSubtree_iff (h : IsOutline l) (hnodup : (l.map key).Nodup)
    (hi : l[i]? = some e) : InSubtree l i j ↔ i ≤ j ∧ j < l.length ∧
      ∀ (m : ℕ) (c : OutlineEntry κ), i < m → m ≤ j → l[m]? = some c → e.depth < c.depth := by
  have hlength : ∀ {j : ℕ} {b : OutlineEntry κ}, l[j]? = some b → j < l.length :=
    fun hj => (List.getElem?_eq_some_iff.mp hj).1
  constructor
  · intro hsub
    induction hsub with
    | self hlt => exact ⟨le_rfl, hlt, fun m c him hmi => absurd him (by omega)⟩
    | @child k j p b _ hp hb hparent ih =>
      obtain ⟨hik, -, hdeep⟩ := ih
      rcases h.parent_of_getElem? hb with ⟨hnone, -⟩ | ⟨k', p', hk', hp', hparent', hdepth, hafter⟩
      · rw [hparent] at hnone
        simp at hnone
      · rw [hparent, Option.some.injEq] at hparent'
        obtain rfl : k = k' := eq_of_key_eq hnodup hp hp' hparent'
        obtain rfl : p = p' := Option.some.inj (hp.symm.trans hp')
        -- the parent is as deep as the entry, or deeper
        have hle : e.depth ≤ p.depth := by
          rcases hik.eq_or_lt with rfl | hlt
          · rw [Option.some.inj (hi.symm.trans hp)]
          · exact (hdeep k p hlt le_rfl hp).le
        refine ⟨by omega, hlength hb, fun m c him hmj hc => ?_⟩
        rcases Nat.lt_trichotomy m k with hmk | rfl | hkm
        · exact hdeep m c him hmk.le hc
        · exact hdeep m c him le_rfl hc
        · rcases hmj.eq_or_lt with rfl | hmj
          · rw [← Option.some.inj (hb.symm.trans hc)]
            omega
          · exact hle.trans_lt (hafter m c hkm hmj hc)
  · rintro ⟨hij, hj, hdeep⟩
    induction j using Nat.strong_induction_on with
    | _ j ih =>
      rcases hij.eq_or_lt with rfl | hlt
      · exact InSubtree.self (hlength hi)
      · obtain ⟨b, hb⟩ : ∃ b, l[j]? = some b := ⟨l[j], List.getElem?_eq_getElem hj⟩
        have hbdeep := hdeep j b hlt le_rfl hb
        rcases h.parent_of_getElem? hb with ⟨-, hzero⟩ | ⟨k, p, hkj, hp, hparent, hdepth, hafter⟩
        · omega
        · -- a parent before the entry would have the entry between
          have hik : i ≤ k := by
            by_contra hki
            have := hafter i e (by omega) hlt hi
            omega
          exact InSubtree.child (ih k hkj hik (hlength hp) fun m c him hmk hc =>
            hdeep m c him (by omega) hc) hp hb hparent

/-- **A subtree is a run** that starts with its root. -/
theorem IsOutline.exists_run (h : IsOutline l) (hnodup : (l.map key).Nodup) (hi : i < l.length) :
    ∃ n, ∀ j, InSubtree l i j ↔ i ≤ j ∧ j < i + n := by
  have hget : l[i]? = some l[i] := List.getElem?_eq_getElem hi
  -- where the run ends: the list does, or something is not deeper
  have hend : ∃ m, i < m ∧ ∀ c, l[m]? = some c → c.depth ≤ l[i].depth :=
    ⟨l.length, hi, fun c hc => by simp at hc⟩
  classical
  have hfind := Nat.find_spec hend
  refine ⟨Nat.find hend - i, fun j => ?_⟩
  rw [h.inSubtree_iff hnodup hget]
  constructor
  · rintro ⟨hij, hj, hdeep⟩
    refine ⟨hij, ?_⟩
    by_contra hge
    obtain ⟨c, hc⟩ : ∃ c, l[Nat.find hend]? = some c :=
      ⟨_, List.getElem?_eq_getElem (lt_of_le_of_lt (by omega) hj)⟩
    have hlt := hdeep _ c hfind.1 (by omega) hc
    have hle := hfind.2 c hc
    omega
  · rintro ⟨hij, hj⟩
    have hmin : ∀ m, i < m → m ≤ j → ∃ c, l[m]? = some c ∧ l[i].depth < c.depth := by
      intro m him hmj
      have hnot := Nat.find_min hend (show m < Nat.find hend by omega)
      rw [not_and] at hnot
      have hc := hnot him
      push Not at hc
      exact hc
    refine ⟨hij, ?_, fun m c him hmj hc => ?_⟩
    · rcases hij.eq_or_lt with rfl | hlt
      · exact hi
      · obtain ⟨c, hc, -⟩ := hmin j hlt le_rfl
        exact (List.getElem?_eq_some_iff.mp hc).1
    · obtain ⟨c', hc', hlt⟩ := hmin m him hmj
      rwa [Option.some.inj (hc.symm.trans hc')]

end OutlineEntry

end Sone
