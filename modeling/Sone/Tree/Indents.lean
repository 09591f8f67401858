import Sone.Tree.Outline

/-!
# Outlines by indents

A list of indents can be read as a forest in two ways. The **run** of an entry is it and all
that follows and is indented more (`InRun`), by the indents as they are. Or each entry is put on
a **level** first, at most one below the entry before it and none below a deepest one
(`levels`), and the runs are those of the levels.

Where no entry is indented more than one further than the one before it, the levels are the
indents. Where one is, the two readings may still have the same runs:
`inRun_levels_iff_isEven` says exactly when, by the indents alone.

A list written in groups, each an entry and deeper ones, has as subtrees of the first entries of
its groups the runs of these (`IsOutline.inSubtree_start_iff`).
-/

namespace Sone

open List

namespace Indents

variable {deepest next i j k m c r x : ℕ} {l : List ℕ}

/-- **The run of an entry**: it, and what follows it and is indented more. -/
def InRun (l : List ℕ) (i j : ℕ) : Prop :=
  i ≤ j ∧ j < l.length ∧
    ∀ m r s, i < m → m ≤ j → l[i]? = some r → l[m]? = some s → r < s

/-- **The levels** of entries, where the first may be on the level `next` or above. -/
def levels (deepest : ℕ) : ℕ → List ℕ → List ℕ
  | _, [] => []
  | next, r :: l =>
    let level := min (min r deepest) next
    level :: levels deepest (level + 1) l

/-- An entry is **held above** a level: it cannot be below the deepest, nor further down than
the entries before it allow, the first of which is at the top. -/
def IsHeldAbove (deepest : ℕ) (l : List ℕ) (i x : ℕ) : Prop :=
  deepest < x ∨ i < x ∨ ∃ k ≤ i, ∃ r, l[k]? = some r ∧ r + (i - k) < x

/-- **Even indents**: what is on the deepest level is not followed by what is indented more, and
what is on a level less than its indent is followed, before the next entry on that level or
above, only by what is indented more than it. -/
structure IsEven (deepest : ℕ) (l : List ℕ) : Prop where
  bottom : ∀ i r s, l[i]? = some r → l[i + 1]? = some s → ¬ IsHeldAbove deepest l i deepest → s ≤ r
  jump : ∀ i j r s, i < j → l[i]? = some r → l[j]? = some s → IsHeldAbove deepest l i deepest →
    (∀ m t, i < m → m ≤ j → l[m]? = some t → IsHeldAbove deepest l i t) → r < s

/-! ### Levels -/

theorem length_levels : (levels deepest next l).length = l.length := by
  induction l generalizing next with
  | nil => rfl
  | cons r l ih => rw [levels, length_cons, length_cons, ih]

theorem levels_lt_iff (hc : (levels deepest next l)[i]? = some c) :
    c < x ↔ deepest < x ∨ next + i < x ∨ ∃ k ≤ i, ∃ r, l[k]? = some r ∧ r + (i - k) < x := by
  induction l generalizing next i with
  | nil => simp [levels] at hc
  | cons r l ih =>
    rw [levels] at hc
    cases i with
    | zero =>
      obtain rfl : min (min r deepest) next = c := by simpa using hc
      constructor
      · intro hlt
        by_cases hfirst : r < x
        · exact .inr (.inr ⟨0, le_rfl, r, rfl, hfirst⟩)
        · by_cases hdeepest : deepest < x
          · exact .inl hdeepest
          · exact .inr (.inl (by omega))
      · rintro (hlt | hlt | ⟨k, hk, r', hr, hlt⟩)
        · omega
        · omega
        · obtain rfl : k = 0 := by omega
          obtain rfl : r = r' := by simpa using hr
          omega
    | succ i =>
      rw [List.getElem?_cons_succ] at hc
      rw [ih hc]
      constructor
      · rintro (hlt | hlt | ⟨k, hk, r', hr, hlt⟩)
        · exact .inl hlt
        · by_cases hfirst : r + (i + 1) < x
          · exact .inr (.inr ⟨0, by omega, r, rfl, by omega⟩)
          · omega
        · exact .inr (.inr ⟨k + 1, by omega, r', hr, by omega⟩)
      · rintro (hlt | hlt | ⟨k, hk, r', hr, hlt⟩)
        · exact .inl hlt
        · exact .inr (.inl (by omega))
        · cases k with
          | zero =>
            obtain rfl : r = r' := by simpa using hr
            exact .inr (.inl (by omega))
          | succ k => exact .inr (.inr ⟨k, by omega, r', hr, by omega⟩)

theorem levels_succ (hc : (levels deepest next l)[i]? = some c) (hr : l[i + 1]? = some r) :
    (levels deepest next l)[i + 1]? = some (min (min r deepest) (c + 1)) := by
  induction l generalizing next i with
  | nil => simp at hr
  | cons first l ih =>
    rw [levels] at hc ⊢
    rw [List.getElem?_cons_succ] at hr ⊢
    cases i with
    | zero =>
      obtain rfl : min (min first deepest) next = c := by simpa using hc
      cases l with
      | nil => simp at hr
      | cons second l =>
        obtain rfl : second = r := by simpa using hr
        rfl
    | succ i => exact ih (by simpa using hc) hr

theorem levels_le (hc : (levels deepest next l)[i]? = some c) (hr : l[i]? = some r) :
    c ≤ r ∧ c ≤ deepest := by
  have hindent := (levels_lt_iff (x := r + 1) hc).mpr
    (.inr (.inr ⟨i, le_rfl, r, hr, by omega⟩))
  have hdeepest := (levels_lt_iff (x := deepest + 1) hc).mpr (.inl (by omega))
  omega

theorem exists_level (deepest next : ℕ) (hi : i < l.length) :
    ∃ c, (levels deepest next l)[i]? = some c :=
  ⟨_, List.getElem?_eq_getElem (length_levels (l := l) ▸ hi)⟩

/-! ### Runs -/

theorem inRun_self (hi : i < l.length) : InRun l i i :=
  ⟨le_rfl, hi, fun m r s hm hle => absurd hm (by omega)⟩

/-- **A run by the levels** is one of entries indented more than the level of the first. -/
theorem inRun_levels_iff (hij : i < j) (hj : j < l.length)
    (hc : (levels deepest next l)[i]? = some c) :
    InRun (levels deepest next l) i j ↔
      c < deepest ∧ ∀ m s, i < m → m ≤ j → l[m]? = some s → c < s := by
  constructor
  · rintro ⟨-, hlength, hrun⟩
    have hbelow : ∀ m s, i < m → m ≤ j → l[m]? = some s → c < s ∧ c < deepest := by
      intro m s him hmj hs
      obtain ⟨d, hd⟩ := exists_level deepest next (show m < l.length by omega)
      have hlt := hrun m c d him hmj hc hd
      have hle := levels_le hd hs
      omega
    obtain ⟨s, hs⟩ : ∃ s, l[j]? = some s := ⟨_, List.getElem?_eq_getElem hj⟩
    exact ⟨(hbelow j s hij le_rfl hs).2, fun m s him hmj hs => (hbelow m s him hmj hs).1⟩
  · rintro ⟨hdeepest, hbelow⟩
    -- from one entry of the run to the next
    have hlevel : ∀ n, i + n ≤ j → ∃ d, (levels deepest next l)[i + n]? = some d ∧
        c ≤ d ∧ (n ≠ 0 → c < d) := by
      intro n
      induction n with
      | zero => exact fun _ => ⟨c, hc, le_rfl, by omega⟩
      | succ n ih =>
        intro hn
        obtain ⟨d, hd, hle, -⟩ := ih (by omega)
        obtain ⟨s, hs⟩ : ∃ s, l[i + n + 1]? = some s :=
          ⟨_, List.getElem?_eq_getElem (by omega)⟩
        have hlt := hbelow (i + n + 1) s (by omega) (by omega) hs
        exact ⟨_, levels_succ hd hs, by omega, fun _ => by omega⟩
    refine ⟨hij.le, by rwa [length_levels], fun m r s him hmj hr hs => ?_⟩
    obtain ⟨d, hd, -, hlt⟩ := hlevel (m - i) (by omega)
    rw [show i + (m - i) = m by omega, hs, Option.some.injEq] at hd
    rw [hc, Option.some.injEq] at hr
    have := hlt (by omega)
    omega

/-- **The two readings have the same runs** exactly where the indents are even. -/
theorem inRun_levels_iff_isEven :
    (∀ i j, InRun (levels deepest 0 l) i j ↔ InRun l i j) ↔ IsEven deepest l := by
  have hheld : ∀ {i c x}, (levels deepest 0 l)[i]? = some c →
      (c < x ↔ IsHeldAbove deepest l i x) := by
    intro i c x hc
    rw [levels_lt_iff hc, Nat.zero_add, IsHeldAbove]
  have hlength : ∀ {i r}, l[i]? = some r → i < l.length := fun hr =>
    (List.getElem?_eq_some_iff.mp hr).1
  constructor
  · intro hsame
    constructor
    · intro i r s hr hs hbottom
      by_contra hlt
      obtain ⟨c, hc⟩ := exists_level deepest 0 (hlength hr)
      have hrun : InRun l i (i + 1) := by
        refine ⟨by omega, hlength hs, fun m r' s' him hm hr' hs' => ?_⟩
        obtain rfl : m = i + 1 := by omega
        rw [hr, Option.some.injEq] at hr'
        rw [hs, Option.some.injEq] at hs'
        omega
      have hlevels := (inRun_levels_iff (by omega) (hlength hs) hc).mp ((hsame i (i + 1)).mpr hrun)
      exact hbottom ((hheld hc).mp hlevels.1)
    · intro i j r s hij hr hs hheldDeepest hall
      obtain ⟨c, hc⟩ := exists_level deepest 0 (hlength hr)
      have hlevels : InRun (levels deepest 0 l) i j :=
        (inRun_levels_iff hij (hlength hs) hc).mpr ⟨(hheld hc).mpr hheldDeepest,
          fun m t him hmj ht => (hheld hc).mpr (hall m t him hmj ht)⟩
      exact ((hsame i j).mp hlevels).2.2 j r s hij le_rfl hr hs
  · intro heven i j
    constructor
    · rintro ⟨hij, hj, hrun⟩
      rw [length_levels] at hj
      refine ⟨hij, hj, fun m r s him hmj hr hs => ?_⟩
      obtain ⟨c, hc⟩ := exists_level deepest 0 (hlength hr)
      obtain ⟨hdeepest, hall⟩ := (inRun_levels_iff (lt_of_lt_of_le him hmj) hj hc).mp
        ⟨hij, by rwa [length_levels], hrun⟩
      exact heven.jump i m r s him hr hs ((hheld hc).mp hdeepest) fun m' t him' hm' ht =>
        (hheld hc).mp (hall m' t him' (hm'.trans hmj) ht)
    · rintro ⟨hij, hj, hrun⟩
      rcases hij.eq_or_lt with rfl | hlt
      · exact inRun_self (by rwa [length_levels])
      · obtain ⟨r, hr⟩ : ∃ r, l[i]? = some r := ⟨_, List.getElem?_eq_getElem (by omega)⟩
        obtain ⟨c, hc⟩ := exists_level deepest 0 (hlength hr)
        refine (inRun_levels_iff hlt hj hc).mpr ⟨?_, fun m s him hmj hs => ?_⟩
        · by_contra hbottom
          obtain ⟨s, hs⟩ : ∃ s, l[i + 1]? = some s := ⟨_, List.getElem?_eq_getElem (by omega)⟩
          have hle := heven.bottom i r s hr hs fun habove => hbottom ((hheld hc).mpr habove)
          have hlt := hrun (i + 1) r s (by omega) (by omega) hr hs
          omega
        · have hlt := hrun m r s him hmj hr hs
          have hle := levels_le hc hr
          omega

theorem inRun_cons_zero : InRun (r :: l) 0 (j + 1) ↔
    j < l.length ∧ ∀ m s, m ≤ j → l[m]? = some s → r < s := by
  constructor
  · rintro ⟨-, hj, hrun⟩
    exact ⟨by simpa using hj, fun m s hm hs => hrun (m + 1) r s (by omega) (by omega) rfl hs⟩
  · rintro ⟨hj, hrun⟩
    refine ⟨by omega, by simpa using hj, fun m r' s hm hmj hr hs => ?_⟩
    obtain rfl : r = r' := by simpa using hr
    obtain ⟨n, rfl⟩ : ∃ n, m = n + 1 := ⟨m - 1, by omega⟩
    exact hrun n s (by omega) hs

theorem inRun_cons_succ : InRun (r :: l) (i + 1) (j + 1) ↔ InRun l i j := by
  constructor
  · rintro ⟨hij, hj, hrun⟩
    exact ⟨by omega, by simpa using hj, fun m r s him hmj hr hs =>
      hrun (m + 1) r s (by omega) (by omega) hr hs⟩
  · rintro ⟨hij, hj, hrun⟩
    refine ⟨by omega, by simpa using hj, fun m r s him hmj hr hs => ?_⟩
    obtain ⟨n, rfl⟩ : ∃ n, m = n + 1 := ⟨m - 1, by omega⟩
    exact hrun n r s (by omega) (by omega) hr hs

theorem inRun_map_add {base : ℕ} : InRun (l.map (base + ·)) i j ↔ InRun l i j := by
  simp only [InRun, length_map, List.getElem?_map, Option.map_eq_some_iff]
  refine and_congr_right fun _ => and_congr_right fun _ => ⟨fun hrun m r s him hmj hr hs => ?_, ?_⟩
  · have hlt := hrun m _ _ him hmj ⟨r, hr, rfl⟩ ⟨s, hs, rfl⟩
    omega
  · rintro hrun m _ _ him hmj ⟨r, hr, rfl⟩ ⟨s, hs, rfl⟩
    have hlt := hrun m r s him hmj hr hs
    omega

/-! ### Lists in groups -/

section Groups

universe u

variable {α : Type u} {groups : List (List α)} {g : List α} {t b : ℕ}

def groupStart (groups : List (List α)) (k : ℕ) : ℕ := (groups.take k).flatten.length

@[simp] theorem groupStart_zero : groupStart groups 0 = 0 := rfl

theorem groupStart_cons_succ :
    groupStart (g :: groups) (k + 1) = g.length + groupStart groups k := by
  rw [groupStart, take_succ_cons, flatten_cons, length_append, groupStart]

theorem groupStart_succ (hg : groups[k]? = some g) :
    groupStart groups (k + 1) = groupStart groups k + g.length := by
  rw [groupStart, take_add_one, hg, Option.toList_some, flatten_append,
    length_append, flatten_singleton, groupStart]

theorem groupStart_mono (h : i ≤ j) : groupStart groups i ≤ groupStart groups j := by
  obtain ⟨d, rfl⟩ := Nat.exists_eq_add_of_le h
  rw [groupStart, groupStart, take_add, flatten_append, length_append]
  exact Nat.le_add_right _ _

theorem groupStart_le : groupStart groups k ≤ groups.flatten.length := by
  conv_rhs => rw [← take_append_drop k groups, flatten_append, length_append]
  exact Nat.le_add_right _ _

theorem getElem?_flatten_groupStart (hg : groups[k]? = some g) (ht : t < g.length) :
    groups.flatten[groupStart groups k + t]? = g[t]? := by
  induction groups generalizing k with
  | nil => simp at hg
  | cons first groups ih =>
    cases k with
    | zero =>
      obtain rfl : first = g := by simpa using hg
      rw [groupStart_zero, Nat.zero_add, flatten_cons, List.getElem?_append_left ht]
    | succ k =>
      rw [groupStart_cons_succ, flatten_cons, Nat.add_assoc,
        List.getElem?_append_right (by omega), Nat.add_sub_cancel_left]
      exact ih (by simpa using hg)

theorem exists_group (groups : List (List α)) (hb : b < groups.flatten.length) :
    ∃ k g t, groups[k]? = some g ∧ t < g.length ∧ b = groupStart groups k + t := by
  induction groups generalizing b with
  | nil => simp at hb
  | cons first groups ih =>
    by_cases hfirst : b < first.length
    · exact ⟨0, first, b, rfl, hfirst, by simp⟩
    · rw [flatten_cons, length_append] at hb
      obtain ⟨k, g, t, hg, ht, hplace⟩ := @ih (b - first.length) (by omega)
      exact ⟨k + 1, g, t, hg, ht, by rw [groupStart_cons_succ]; omega⟩

end Groups

end Indents

namespace OutlineEntry

open Indents

universe u

variable {κ : Type u} {before : List (OutlineEntry κ)} {groups : List (List (OutlineEntry κ))}
  {depths : List ℕ} {i b : ℕ}

/-- **Groups**, each of which is an entry of its depth and deeper ones. -/
def AreGroups (groups : List (List (OutlineEntry κ))) (depths : List ℕ) : Prop :=
  List.Forall₂ (fun g d => ∃ head rest, g = head :: rest ∧ head.depth = d ∧
    ∀ e ∈ rest, d < e.depth) groups depths

/-- **The subtree of the first entry of a group** is made of the groups of its run. -/
theorem IsOutline.inSubtree_start_iff (h : IsOutline (before ++ groups.flatten))
    (hnodup : ((before ++ groups.flatten).map key).Nodup) (hgroups : AreGroups groups depths)
    (hi : i < groups.length) :
    InSubtree (before ++ groups.flatten) (before.length + groupStart groups i) b ↔
      ∃ k, InRun depths i k ∧ before.length + groupStart groups k ≤ b ∧
        b < before.length + groupStart groups (k + 1) := by
  have hlength : groups.length = depths.length := hgroups.length_eq
  have hgroup : ∀ {k : ℕ} {g}, groups[k]? = some g → ∃ head rest d, g = head :: rest ∧
      depths[k]? = some d ∧ head.depth = d ∧ ∀ e ∈ rest, d < e.depth := by
    intro k g hg
    obtain ⟨hk, rfl⟩ := List.getElem?_eq_some_iff.mp hg
    obtain ⟨head, rest, hcons, hdepth, hdeep⟩ := hgroups.get hk (hlength ▸ hk)
    exact ⟨head, rest, _, hcons, List.getElem?_eq_getElem (hlength ▸ hk), hdepth, hdeep⟩
  have hget : ∀ {k t : ℕ} {g}, groups[k]? = some g → t < g.length →
      (before ++ groups.flatten)[before.length + groupStart groups k + t]? = g[t]? := by
    intro k t g hg ht
    rw [Nat.add_assoc, List.getElem?_append_right (by omega), Nat.add_sub_cancel_left]
    exact getElem?_flatten_groupStart hg ht
  obtain ⟨g₀, hg₀⟩ : ∃ g, groups[i]? = some g := ⟨_, List.getElem?_eq_getElem hi⟩
  obtain ⟨first, rest₀, d, rfl, hd, hfirst, hrest₀⟩ := hgroup hg₀
  have hplace := hget hg₀ (t := 0) (by simp)
  rw [Nat.add_zero, List.getElem?_cons_zero] at hplace
  have hnext := groupStart_succ hg₀
  rw [length_cons] at hnext
  rw [h.inSubtree_iff hnodup hplace]
  constructor
  · rintro ⟨hle, hlt, hdeep⟩
    rw [length_append] at hlt
    obtain ⟨k, g, t, hg, ht, hb⟩ := exists_group groups (show b - before.length < _ by omega)
    have hk := groupStart_succ hg
    have hik : i ≤ k := by
      by_contra hki
      have hmono : groupStart groups (k + 1) ≤ groupStart groups i := groupStart_mono (by omega)
      omega
    have hlength' : k < groups.length := (List.getElem?_eq_some_iff.mp hg).1
    refine ⟨k, ⟨hik, hlength ▸ hlength', fun m r s him hmk hr hs => ?_⟩, by omega, by omega⟩
    -- the first entry of a group of the run is one of those that are deeper
    obtain ⟨g', hg'⟩ : ∃ g, groups[m]? = some g := ⟨_, List.getElem?_eq_getElem (by omega)⟩
    obtain ⟨head, rest, d', rfl, hd', hhead, -⟩ := hgroup hg'
    have hentry := hget hg' (t := 0) (by simp)
    rw [Nat.add_zero, List.getElem?_cons_zero] at hentry
    have hmono : groupStart groups (i + 1) ≤ groupStart groups m := groupStart_mono (by omega)
    have hmono' : groupStart groups m ≤ groupStart groups k := groupStart_mono hmk
    have hlt := hdeep _ head (by omega) (by omega) hentry
    rw [hr, Option.some.injEq] at hd
    rw [hs, Option.some.injEq] at hd'
    omega
  · rintro ⟨k, ⟨hik, hk, hrun⟩, hle, hlt⟩
    have hmono : groupStart groups i ≤ groupStart groups k := groupStart_mono hik
    have hend : groupStart groups (k + 1) ≤ groups.flatten.length := groupStart_le
    refine ⟨by omega, by rw [length_append]; omega, fun m c him hmb hc => ?_⟩
    obtain ⟨n, g, t, hg, ht, hm⟩ := exists_group groups (show m - before.length < _ by omega)
    obtain ⟨head, rest, d', rfl, hd', hhead, hrest⟩ := hgroup hg
    have hn := groupStart_succ hg
    have hin : i ≤ n := by
      by_contra hni
      have hmono : groupStart groups (n + 1) ≤ groupStart groups i := groupStart_mono (by omega)
      omega
    have hnk : n ≤ k := by
      by_contra hkn
      have hmono : groupStart groups (k + 1) ≤ groupStart groups n := groupStart_mono (by omega)
      omega
    rw [show m = before.length + groupStart groups n + t by omega, hget hg ht] at hc
    have hfirst_le : d ≤ d' := by
      rcases hin.eq_or_lt with rfl | hlt
      · rw [hd, Option.some.injEq] at hd'
        omega
      · exact (hrun n d d' hlt hnk hd hd').le
    cases t with
    | zero =>
      obtain rfl : head = c := by simpa using hc
      rcases hin.eq_or_lt with rfl | hlt
      · omega
      · have := hrun n d d' hlt hnk hd hd'
        omega
    | succ t =>
      have hdeeper := hrest c (mem_of_getElem? (by simpa using hc))
      omega

end OutlineEntry

end Sone
