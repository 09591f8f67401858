import Mathlib.Data.Finset.Card
import Sone.Doc.Text

/-!
# Rows that are asked for by name

A statement `WHERE id = ANY($1) AND …` is given names, each of which is cast to the type of the
key. To see whether every name is one of a row, a caller counts the rows that are found and
compares with the number of different names.

`length_named_iff` is what that tells: every name is one of a row that is meant, and no two of
the names are names of one row.
-/

namespace Sone

open List Option

universe u v w

namespace Keyed

variable {ρ : Type u} {κ : Type v} [DecidableEq κ] {key : ρ → κ} {τ : Type w} [DecidableEq τ]

/-- `WHERE id = ANY(names) AND p`, where every name can be cast. -/
def named (t : Keyed key) (cast : τ → Option κ) (p : ρ → Bool) (names : List τ) :
    Option (List ρ) :=
  (names.mapM cast).map fun ids => t.rows.filter fun row => key row ∈ ids && p row

def HasRow (t : Keyed key) (p : ρ → Bool) (k : κ) : Prop :=
  ∃ row, t.find k = some row ∧ p row = true

/-- **Every name is one of something that is there**, and each of something else. -/
structure Names (cast : τ → Option κ) (isThere : κ → Prop) (names : List τ) : Prop where
  exists_key : ∀ name ∈ names, ∃ k, cast name = some k ∧ isThere k
  eq_of_cast : ∀ name ∈ names, ∀ other ∈ names, cast name = cast other → name = other

omit [DecidableEq κ] [DecidableEq τ] in
theorem map_of_mapM {cast : τ → Option κ} {names : List τ} {ids : List κ}
    (h : names.mapM cast = some ids) : names.map cast = ids.map some := by
  induction names generalizing ids with
  | nil =>
    obtain rfl : [] = ids := some.inj h
    rfl
  | cons name names ih =>
    rw [mapM_cons] at h
    obtain ⟨id, hid, h⟩ := bind_eq_some_iff.mp h
    obtain ⟨rest, hrest, h⟩ := bind_eq_some_iff.mp h
    obtain rfl : id :: rest = ids := some.inj h
    rw [map_cons, map_cons, hid, ih hrest]

variable {t : Keyed key} {cast : τ → Option κ} {p : ρ → Bool} {names : List τ} {ids : List κ}

theorem card_eq_card_image (h : names.mapM cast = some ids) :
    ids.toFinset.card = (names.toFinset.image cast).card := by
  have himage : ids.toFinset.image some = names.toFinset.image cast := by
    ext id
    simp only [Finset.mem_image, List.mem_toFinset]
    rw [← List.mem_map, ← List.mem_map, map_of_mapM h]
  rw [← himage, Finset.card_image_of_injective _ (some_injective κ)]

theorem card_eq_iff (h : names.mapM cast = some ids) :
    ids.toFinset.card = names.dedup.length ↔
      ∀ name ∈ names, ∀ other ∈ names, cast name = cast other → name = other := by
  rw [card_eq_card_image h, ← List.card_toFinset, Finset.card_image_iff]
  simp only [Set.InjOn, coe_toFinset]
  exact ⟨fun h name hname other hother => h hname hother,
    fun h name hname other hother => h name hname other hother⟩

omit [DecidableEq τ] in
theorem length_filter_eq_card :
    (t.rows.filter fun row => key row ∈ ids && p row).length =
      (ids.toFinset.filter fun id => ((t.find id).any p) = true).card := by
  have hnodup : ((t.rows.filter fun row => key row ∈ ids && p row).map key).Nodup :=
    t.nodup.sublist (filter_sublist.map key)
  have hkeys : ((t.rows.filter fun row => key row ∈ ids && p row).map key).toFinset =
      ids.toFinset.filter fun id => ((t.find id).any p) = true := by
    ext id
    simp only [List.mem_toFinset, List.mem_map, mem_filter, Finset.mem_filter,
      Bool.and_eq_true, decide_eq_true_eq]
    constructor
    · rintro ⟨row, ⟨hmem, hid, hp⟩, rfl⟩
      exact ⟨hid, by simpa [mem_rows_iff.mp hmem] using hp⟩
    · rintro ⟨hid, hany⟩
      cases hfind : t.find id with
      | none => simp [hfind] at hany
      | some row =>
        rw [hfind] at hany
        obtain rfl := key_eq hfind
        exact ⟨row, ⟨mem_rows hfind, hid, hany⟩, rfl⟩
  rw [← hkeys, toFinset_card_of_nodup hnodup, length_map]

/-- **Counting what was found** tells whether every name is one of a row and each of its own. -/
theorem length_named_iff :
    (∃ found, t.named cast p names = some found ∧ found.length = names.dedup.length) ↔
      Names cast (t.HasRow p) names := by
  cases hids : names.mapM cast with
  | none =>
    have hnone : t.named cast p names = none := by rw [named, hids, map_none]
    refine ⟨fun ⟨found, hfound, _⟩ => by simp [hnone] at hfound, fun hnames => ?_⟩
    have hsome : (names.mapM cast).isSome = true := mapM_isSome_iff.mpr fun name hname => by
      obtain ⟨id, hid, -⟩ := hnames.exists_key name hname
      simp [hid]
    simp [hids] at hsome
  | some ids =>
    have hnamed : t.named cast p names =
        some (t.rows.filter fun row => key row ∈ ids && p row) := by
      rw [named, hids, map_some]
    have hle : ids.toFinset.card ≤ names.dedup.length := by
      rw [card_eq_card_image hids, ← List.card_toFinset]
      exact Finset.card_image_le
    have hmem : ∀ id, id ∈ ids ↔ ∃ name ∈ names, cast name = some id := fun id => by
      rw [← List.mem_map, map_of_mapM hids]
      simp
    constructor
    · rintro ⟨found, hfound, hlength⟩
      obtain rfl := some.inj (hnamed.symm.trans hfound)
      rw [length_filter_eq_card] at hlength
      have hall : (ids.toFinset.filter fun id => ((t.find id).any p) = true) = ids.toFinset :=
        Finset.eq_of_subset_of_card_le (Finset.filter_subset _ _) (hle.trans hlength.ge)
      refine ⟨fun name hname => ?_, (card_eq_iff hids).mp (by rw [← hall, hlength])⟩
      obtain ⟨id, hid⟩ :=
        isSome_iff_exists.mp
          (mapM_isSome_iff.mp (by rw [hids, isSome_some]) name hname)
      have hany : (t.find id).any p = true :=
        Finset.filter_eq_self.mp hall id (List.mem_toFinset.mpr ((hmem id).mpr ⟨name, hname, hid⟩))
      cases hfind : t.find id with
      | none => simp [hfind] at hany
      | some row =>
        rw [hfind] at hany
        exact ⟨id, hid, row, hfind, hany⟩
    · intro hnames
      refine ⟨_, hnamed, ?_⟩
      rw [length_filter_eq_card, ← (card_eq_iff hids).mpr hnames.eq_of_cast,
        Finset.filter_eq_self.mpr]
      intro id hid
      obtain ⟨name, hname, hcast⟩ := (hmem id).mp (List.mem_toFinset.mp hid)
      obtain ⟨_, hid', row, hrow, hp⟩ := hnames.exists_key name hname
      obtain rfl := some.inj (hcast.symm.trans hid')
      simpa [hrow] using hp

end Keyed

end Sone
