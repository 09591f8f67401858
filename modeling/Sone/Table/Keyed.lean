import Mathlib.Data.List.Nodup

/-!
# Tables with a primary key

A `Keyed` table is a list of rows in which no two have one key. `find` is the row of a key,
`upsert` is an insert that updates the row there is, `insertIgnore` one that leaves it, and
`insertAll` one that fails on it; `modify` is an update of all rows that leaves their keys,
`filter` is what a delete leaves. Each of these is known by what `find` gives after it, and
`mem_rows_iff` says that `find` is all there is to a table.
-/

namespace Sone

open List Option

universe u v

/-- **A table** with a primary key. -/
structure Keyed {ρ : Type u} {κ : Type v} (key : ρ → κ) where
  rows : List ρ
  nodup : (rows.map key).Nodup

namespace Keyed

variable {ρ : Type u} {κ : Type v} [DecidableEq κ] {key : ρ → κ} {t : Keyed key} {row : ρ} {k : κ}

omit [DecidableEq κ] in
theorem ext {t' : Keyed key} (h : t.rows = t'.rows) : t = t' := by
  cases t
  cases t'
  obtain rfl := h
  rfl

def empty : Keyed key := ⟨[], nodup_nil⟩

def find (t : Keyed key) (k : κ) : Option ρ := t.rows.find? fun row => key row = k

theorem key_eq (h : t.find k = some row) : key row = k := by
  simpa using List.find?_some h

theorem mem_rows_iff : row ∈ t.rows ↔ t.find (key row) = some row := by
  constructor
  · intro hmem
    have hsome : (t.find (key row)).isSome :=
      List.find?_isSome.mpr ⟨row, hmem, by simp⟩
    obtain ⟨found, hfound⟩ := isSome_iff_exists.mp hsome
    have hkey : key found = key row := by simpa using List.find?_some hfound
    have hsame : found = row :=
      inj_on_of_nodup_map t.nodup (List.mem_of_find?_eq_some hfound) hmem hkey
    rw [hfound, hsame]
  · exact List.mem_of_find?_eq_some

theorem mem_rows (h : t.find k = some row) : row ∈ t.rows := List.mem_of_find?_eq_some h

theorem find_empty : (empty : Keyed key).find k = none := rfl

/-- `UPDATE` of all rows. -/
def modify (t : Keyed key) (f : ρ → ρ) (hf : ∀ row, key (f row) = key row) : Keyed key where
  rows := t.rows.map f
  nodup := by
    rw [List.map_map, show key ∘ f = key from funext hf]
    exact t.nodup

theorem find_modify {f : ρ → ρ} (hf : ∀ row, key (f row) = key row) :
    (t.modify f hf).find k = (t.find k).map f := by
  rw [find, modify, List.find?_map]
  congr 2
  funext row
  simp [hf]

/-- What a `DELETE` of the other rows leaves. -/
def filter (t : Keyed key) (p : ρ → Bool) : Keyed key where
  rows := t.rows.filter p
  nodup := t.nodup.sublist ((filter_sublist).map key)

theorem find_filter {p : ρ → Bool} : (t.filter p).find k = (t.find k).filter p := by
  cases hfind : (t.filter p).find k with
  | some row =>
    obtain ⟨hmem, hp⟩ := mem_filter.mp (mem_rows hfind)
    rw [mem_rows_iff, key_eq hfind] at hmem
    rw [hmem, filter_some_pos hp]
  | none =>
    cases hrow : t.find k with
    | none => rfl
    | some row =>
      rw [find, filter, List.find?_eq_none] at hfind
      have hnot : p row = false := by
        by_contra hp
        rw [Bool.not_eq_false] at hp
        exact hfind row (mem_filter.mpr ⟨mem_rows hrow, hp⟩) (decide_eq_true (key_eq hrow))
      rw [filter_some_neg hnot]

def replace (t : Keyed key) (row : ρ) : Keyed key :=
  t.modify (fun other => if key other = key row then row else other) (by
    intro other
    split
    · rename_i heq
      exact heq.symm
    · rfl)

/-- `INSERT … ON CONFLICT DO UPDATE`: the row replaces the one with its key, or comes last. -/
def upsert (t : Keyed key) (row : ρ) : Keyed key :=
  if h : key row ∈ t.rows.map key then t.replace row
  else
    { rows := t.rows ++ [row]
      nodup := by
        rw [map_append]
        exact nodup_append_comm.mp (nodup_cons.mpr ⟨h, t.nodup⟩) }

theorem find_upsert : (t.upsert row).find k = if key row = k then some row else t.find k := by
  by_cases hmem : key row ∈ t.rows.map key
  · obtain ⟨old, hold, hkey⟩ := List.mem_map.mp hmem
    rw [upsert, dif_pos hmem, replace, find_modify]
    split
    · rename_i heq
      rw [mem_rows_iff, hkey, heq] at hold
      simp [hold, hkey]
    · rename_i hne
      cases hrow : t.find k with
      | none => rfl
      | some other => simp [key_eq hrow, Ne.symm hne]
  · rw [upsert, dif_neg hmem, find, List.find?_append]
    split
    · rename_i heq
      have hnone : t.rows.find? (fun row => key row = k) = none := by
        rw [List.find?_eq_none]
        exact fun other hother hkey =>
          hmem (List.mem_map.mpr ⟨other, hother, (of_decide_eq_true hkey).trans heq.symm⟩)
      simp [hnone, heq]
    · rename_i hne
      simp [hne, find]

theorem map_upsert {β : Type*} {f : ρ → β} {old : ρ} (hold : t.find (key row) = some old)
    (hf : f row = f old) : (t.upsert row).rows.map f = t.rows.map f := by
  have hmem : key row ∈ t.rows.map key :=
    List.mem_map.mpr ⟨old, mem_rows hold, key_eq hold⟩
  rw [upsert, dif_pos hmem, replace, modify, List.map_map]
  refine map_congr_left fun other hother => ?_
  rw [Function.comp_apply]
  split
  · rename_i heq
    rw [mem_rows_iff, heq, hold] at hother
    rw [hf, Option.some.inj hother]
  · rfl

/-! ### Writing again -/

theorem ext_of_find {t' : Keyed key} (hkeys : t.rows.map key = t'.rows.map key)
    (hfind : ∀ k, t.find k = t'.find k) : t = t' := by
  have hlength : t.rows.length = t'.rows.length := by simpa using congrArg List.length hkeys
  refine ext (ext_getElem hlength fun i hi hi' => ?_)
  have hkey : key t.rows[i] = key t'.rows[i] := by
    have hget : (t.rows.map key)[i]? = (t'.rows.map key)[i]? := by rw [hkeys]
    simpa [hi, hi'] using hget
  have hrow := mem_rows_iff.mp (getElem_mem hi)
  rw [hfind, hkey, mem_rows_iff.mp (getElem_mem hi')] at hrow
  exact (Option.some.inj hrow).symm

theorem keys_upsert (h : t.find (key row) ≠ none) :
    (t.upsert row).rows.map key = t.rows.map key := by
  obtain ⟨old, hold⟩ := ne_none_iff_exists'.mp h
  have hmem : key row ∈ t.rows.map key :=
    List.mem_map.mpr ⟨old, mem_rows hold, key_eq hold⟩
  rw [upsert, dif_pos hmem, replace, modify, List.map_map]
  refine map_congr_left fun other _ => ?_
  rw [Function.comp_apply]
  split
  · rename_i heq
    exact heq.symm
  · rfl

theorem upsert_of_find (h : t.find (key row) = some row) : t.upsert row = t := by
  refine ext_of_find (keys_upsert (by simp [h])) fun k => ?_
  rw [find_upsert]
  split
  · rename_i hkey
    rw [← hkey, h]
  · rfl

/-- `INSERT … ON CONFLICT DO NOTHING`: the row comes last, where there is none with its key. -/
def insertIgnore (t : Keyed key) (row : ρ) : Keyed key :=
  if h : key row ∈ t.rows.map key then t
  else
    { rows := t.rows ++ [row]
      nodup := by
        rw [map_append]
        exact nodup_append_comm.mp (nodup_cons.mpr ⟨h, t.nodup⟩) }

theorem mem_insertIgnore {other : ρ} :
    other ∈ (t.insertIgnore row).rows ↔
      other ∈ t.rows ∨ (key row ∉ t.rows.map key ∧ other = row) := by
  rw [insertIgnore]
  split
  · rename_i hmem
    simp [hmem]
  · rename_i hmem
    simp [hmem]

end Keyed

end Sone
