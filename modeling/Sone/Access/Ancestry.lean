import Sone.Access.Claims
import Mathlib.Data.List.Infix

/-!
# Two ways up a page tree

The listing side walks from a page to the root in the database: a recursive query
(`Tables.ancestry`) that follows `parent_page_id` and counts the depth upward. The document
side reads the path the page row already carries, `ancestor_ids` root first with the page
appended, and works with positions in it.

`Database.mem_ancestry_iff` characterises the recursive query by the relation
`Database.Above` (a page, a page above it, and how far), and `Database.Above.idxOf_path`
says how the two agree: what is at depth `d` of the walk is `d` places before the end of
the path. The restriction is where this matters. `Tables.ClearsFence` says that a rule was
made at or below every restricted page of the path; the walk decides it by a depth
(`Database.depth_le_fence_iff`), the location by a position (`Database.isFenced_eq_false_iff`).
-/

namespace Sone

open List Option

/-! ### The recursive query -/

/-- A row of the `ancestry` CTE. -/
structure AncestryRow where
  id : Uuid
  parentPageId : Option Uuid
  workspaceId : Uuid
  restricted : Bool
  /-- Counted upward from the page. -/
  depth : ℕ

/-- A page as a row of the `ancestry` CTE. -/
def PageRow.atDepth (page : PageRow) (depth : ℕ) : AncestryRow :=
  ⟨page.id, page.parentPageId, page.workspaceId, page.restricted, depth⟩

namespace Tables

variable (db : Tables)

/-- The recursive term: the parents of the rows found last. -/
def ancestryStep (working : List AncestryRow) : List AncestryRow :=
  working.flatMap fun a =>
    (db.pages.filter fun p => some p.id = a.parentPageId).map fun p => p.atDepth (a.depth + 1)

/-- The evaluation of the recursive query: the rows found last, then what they lead to. The
number bounds the rounds; `Database.mem_ancestry_iff` shows that no walk meets the bound
`Tables.ancestry` gives it. -/
def ancestryFrom : ℕ → List AncestryRow → List AncestryRow
  | 0, _ => []
  | n + 1, working => working ++ ancestryFrom n (db.ancestryStep working)

/-- The `ancestry` CTE. -/
def ancestry (pageId : Uuid) : List AncestryRow :=
  db.ancestryFrom (db.pages.length + 1)
    ((db.pages.filter fun p => p.id = pageId).map fun p => p.atDepth 0)

/-- The `fence` CTE: where the restriction starts, as a depth. -/
def fence (pageId : Uuid) : Option ℕ :=
  (((db.ancestry pageId).filter (·.restricted)).map (·.depth)).min?

/-- **The fence.** A rule made on a page reaches another only if it was made at or below
every restricted page on the other's path. -/
def ClearsFence (page : PageRow) (scopePageId : Uuid) : Prop :=
  ∀ r ∈ db.pages, r.restricted = true → r.id ∈ page.path →
    page.path.idxOf r.id ≤ page.path.idxOf scopePageId

instance (page : PageRow) (scopePageId : Uuid) : Decidable (db.ClearsFence page scopePageId) :=
  inferInstanceAs (Decidable (∀ r ∈ db.pages, _))

def IsRestricted (page : PageRow) : Prop :=
  ∃ r ∈ db.pages, r.restricted = true ∧ r.id ∈ page.path

instance (page : PageRow) : Decidable (db.IsRestricted page) :=
  inferInstanceAs (Decidable (∃ r ∈ db.pages, _))

private theorem mem_ancestryStep_iff {a : AncestryRow} {working : List AncestryRow} :
    a ∈ db.ancestryStep working ↔ ∃ b ∈ working, ∃ p ∈ db.pages,
      some p.id = b.parentPageId ∧ p.atDepth (b.depth + 1) = a := by
  simp [ancestryStep, and_assoc]

private theorem mem_ancestryFrom_iff {a : AncestryRow} {n : ℕ} {working : List AncestryRow} :
    a ∈ db.ancestryFrom n working ↔ ∃ k < n, a ∈ db.ancestryStep^[k] working := by
  induction n generalizing working with
  | zero => simp [ancestryFrom]
  | succ n ih =>
    rw [ancestryFrom, mem_append, ih]
    constructor
    · rintro (h | ⟨k, hk, h⟩)
      · exact ⟨0, by omega, h⟩
      · exact ⟨k + 1, by omega, h⟩
    · rintro ⟨k, hk, h⟩
      cases k with
      | zero => exact .inl h
      | succ k => exact .inr ⟨k, by omega, h⟩

end Tables

namespace Database

variable {db : Database} {p q r : PageRow} {d e : ℕ} {x : Uuid}

/-! ### The relation between a page and what is above it -/

/-- `db.Above p q d`: the page `q` is `d` steps above the page `p`, which counts as above
itself. -/
inductive Above (db : Database) (p : PageRow) : PageRow → ℕ → Prop
  | self : Above db p p 0
  | up {q r : PageRow} {d : ℕ} : Above db p q d → r ∈ db.pages →
      q.parentPageId = some r.id → Above db p r (d + 1)

theorem Above.mem (h : db.Above p q d) (hp : p ∈ db.pages) : q ∈ db.pages := by
  cases h with
  | self => exact hp
  | up _ hr _ => exact hr

theorem ancestorIds_eq_path (hp : p ∈ db.pages) (hq : q ∈ db.pages)
    (hparent : p.parentPageId = some q.id) : p.ancestorIds = q.path := by
  obtain ⟨r, hr, hid, -, hpath⟩ := db.pages_parent p hp q.id hparent
  rwa [db.pages_key r hr q hq hid] at hpath

theorem workspaceId_eq_parent (hp : p ∈ db.pages) (hq : q ∈ db.pages)
    (hparent : p.parentPageId = some q.id) : q.workspaceId = p.workspaceId := by
  obtain ⟨r, hr, hid, hws, -⟩ := db.pages_parent p hp q.id hparent
  rwa [db.pages_key r hr q hq hid] at hws

theorem Above.workspaceId (h : db.Above p q d) (hp : p ∈ db.pages) :
    q.workspaceId = p.workspaceId := by
  induction h with
  | self => rfl
  | up hq hr hparent ih => rw [workspaceId_eq_parent (hq.mem hp) hr hparent, ih]

theorem Above.exists_path_eq (h : db.Above p q d) (hp : p ∈ db.pages) :
    ∃ rest, p.path = q.path ++ rest ∧ rest.length = d := by
  induction h with
  | self => exact ⟨[], by simp⟩
  | @up q r d hq hr hparent ih =>
    obtain ⟨rest, hpath, hlen⟩ := ih
    refine ⟨q.id :: rest, ?_, by simp [hlen]⟩
    rw [hpath, PageRow.path, ancestorIds_eq_path (hq.mem hp) hr hparent, append_assoc,
      singleton_append]

theorem Above.length_ancestorIds (h : db.Above p q d) (hp : p ∈ db.pages) :
    q.ancestorIds.length + d = p.ancestorIds.length := by
  obtain ⟨rest, hpath, hlen⟩ := h.exists_path_eq hp
  have hlength := congrArg List.length hpath
  simp only [PageRow.path, length_append, length_singleton] at hlength
  omega

theorem Above.id_mem_path (h : db.Above p q d) (hp : p ∈ db.pages) : q.id ∈ p.path := by
  obtain ⟨rest, hpath, -⟩ := h.exists_path_eq hp
  rw [hpath]
  simp [PageRow.path]

theorem Above.trans (h : db.Above p q d) (h' : db.Above q r e) : db.Above p r (d + e) := by
  induction h' with
  | self => exact h
  | up _ hr hparent ih => exact ih.up hr hparent

theorem exists_above_of_mem_path (hp : p ∈ db.pages) (hx : x ∈ p.path) :
    ∃ q d, db.Above p q d ∧ q.id = x := by
  -- by induction on the path: the parent's is shorter by one
  induction hn : p.ancestorIds.length generalizing p with
  | zero =>
    have hnil : p.ancestorIds = [] := length_eq_zero_iff.mp hn
    have hid : x = p.id := by simpa [PageRow.path, hnil] using hx
    exact ⟨p, 0, .self, hid.symm⟩
  | succ n ih =>
    by_cases hid : x = p.id
    · exact ⟨p, 0, .self, hid.symm⟩
    · cases hparent : p.parentPageId with
      | none => simp [db.pages_root p hp hparent] at hn
      | some parentId =>
        obtain ⟨r, hr, rfl, -, hpath⟩ := db.pages_parent p hp parentId hparent
        have hxr : x ∈ r.path := by simpa [PageRow.path, hpath, hid] using hx
        have hlen : r.ancestorIds.length = n := by simpa [PageRow.path, hpath] using hn
        obtain ⟨q, d, habove, hq⟩ := ih hr hxr hlen
        have hup : db.Above p r (0 + 1) := Above.self.up hr hparent
        exact ⟨q, 0 + 1 + d, hup.trans habove, hq⟩

theorem Above.depth_unique (h : db.Above p q d) (h' : db.Above p q e) (hp : p ∈ db.pages) :
    d = e := by
  have hd := h.length_ancestorIds hp
  have he := h'.length_ancestorIds hp
  omega

theorem id_notMem_ancestorIds (hp : p ∈ db.pages) : p.id ∉ p.ancestorIds := by
  intro hmem
  cases hparent : p.parentPageId with
  | none => simp [db.pages_root p hp hparent] at hmem
  | some parentId =>
    obtain ⟨r, hr, rfl, -, hpath⟩ := db.pages_parent p hp parentId hparent
    obtain ⟨q, d, habove, hid⟩ := exists_above_of_mem_path hr (hpath ▸ hmem)
    -- the page would be above itself at two distances
    have hround : db.Above p p (0 + 1 + d) :=
      db.pages_key q (habove.mem hr) p hp hid ▸ (Above.self.up hr hparent).trans habove
    have := hround.depth_unique .self hp
    omega

theorem nodup_path (hp : p ∈ db.pages) : p.path.Nodup := by
  -- by induction on the path: what comes before the page itself is the parent's
  induction hn : p.ancestorIds.length generalizing p with
  | zero => simp [PageRow.path, length_eq_zero_iff.mp hn]
  | succ n ih =>
    have hids : p.ancestorIds.Nodup := by
      cases hparent : p.parentPageId with
      | none => simp [db.pages_root p hp hparent]
      | some parentId =>
        obtain ⟨r, hr, -, -, hpath⟩ := db.pages_parent p hp parentId hparent
        have hlen : r.ancestorIds.length = n := by simpa [PageRow.path, hpath] using hn
        exact hpath ▸ ih hr hlen
    rw [PageRow.path, nodup_append']
    refine ⟨hids, nodup_singleton _, ?_⟩
    rw [disjoint_singleton]
    exact id_notMem_ancestorIds hp

theorem length_path_le (hp : p ∈ db.pages) : p.path.length ≤ db.pages.length := by
  have hsub : p.path ⊆ db.pages.map (·.id) := by
    intro x hx
    obtain ⟨q, d, habove, hid⟩ := exists_above_of_mem_path hp hx
    exact List.mem_map.mpr ⟨q, habove.mem hp, hid⟩
  have hle := (subperm_of_subset (nodup_path hp) hsub).length_le
  simpa using hle

theorem Above.idxOf_path (h : db.Above p q d) (hp : p ∈ db.pages) :
    p.path.idxOf q.id = q.ancestorIds.length := by
  obtain ⟨rest, hpath, -⟩ := h.exists_path_eq hp
  have hnotMem := id_notMem_ancestorIds (h.mem hp)
  rw [hpath, PageRow.path, append_assoc, idxOf_append_of_notMem hnotMem]
  simp

theorem Above.depth_le_iff (hq : db.Above p q d) (hr : db.Above p r e) (hp : p ∈ db.pages) :
    d ≤ e ↔ p.path.idxOf r.id ≤ p.path.idxOf q.id := by
  have hqlen := hq.length_ancestorIds hp
  have hrlen := hr.length_ancestorIds hp
  rw [hq.idxOf_path hp, hr.idxOf_path hp]
  omega

/-! ### What the walk returns -/

private theorem mem_iterate_ancestryStep_iff {a : AncestryRow} (hp : p ∈ db.pages) :
    a ∈ db.ancestryStep^[d] ((db.pages.filter fun q => q.id = p.id).map fun q => q.atDepth 0) ↔
      ∃ q, db.Above p q d ∧ q.atDepth d = a := by
  induction d generalizing a with
  | zero =>
    simp only [Function.iterate_zero, id_eq, List.mem_map, mem_filter, decide_eq_true_iff]
    constructor
    · rintro ⟨q, ⟨hq, hid⟩, rfl⟩
      exact ⟨q, db.pages_key q hq p hp hid ▸ .self, rfl⟩
    · rintro ⟨q, habove, rfl⟩
      cases habove with
      | self => exact ⟨p, ⟨hp, rfl⟩, rfl⟩
  | succ d ih =>
    rw [Function.iterate_succ_apply', Tables.mem_ancestryStep_iff]
    constructor
    · rintro ⟨b, hb, r, hr, hparent, rfl⟩
      obtain ⟨q, habove, rfl⟩ := ih.mp hb
      exact ⟨r, habove.up hr hparent.symm, rfl⟩
    · rintro ⟨r, habove, rfl⟩
      cases habove with
      | @up q _ _ hq hr hparent =>
        exact ⟨q.atDepth d, ih.mpr ⟨q, hq, rfl⟩, r, hr, hparent.symm, rfl⟩

theorem mem_ancestry_iff {a : AncestryRow} (hp : p ∈ db.pages) :
    a ∈ db.ancestry p.id ↔ ∃ q d, db.Above p q d ∧ q.atDepth d = a := by
  rw [Tables.ancestry, Tables.mem_ancestryFrom_iff]
  constructor
  · rintro ⟨d, -, h⟩
    obtain ⟨q, habove, rfl⟩ := (mem_iterate_ancestryStep_iff hp).mp h
    exact ⟨q, d, habove, rfl⟩
  · rintro ⟨q, d, habove, rfl⟩
    have hbound := length_path_le hp
    have hdepth := habove.length_ancestorIds hp
    simp only [PageRow.path, length_append, length_singleton] at hbound
    exact ⟨d, by omega, (mem_iterate_ancestryStep_iff hp).mpr ⟨q, habove, rfl⟩⟩

/-! ### The restriction, by depth and by position -/

theorem exists_restricted_ancestry_iff (hp : p ∈ db.pages) :
    (∃ a ∈ db.ancestry p.id, a.restricted = true) ↔ db.IsRestricted p := by
  constructor
  · rintro ⟨a, ha, hr⟩
    obtain ⟨q, d, habove, rfl⟩ := (mem_ancestry_iff hp).mp ha
    exact ⟨q, habove.mem hp, hr, habove.id_mem_path hp⟩
  · rintro ⟨r, hr, hrestricted, hmem⟩
    obtain ⟨q, d, habove, hid⟩ := exists_above_of_mem_path hp hmem
    have hqr : q = r := db.pages_key q (habove.mem hp) r hr hid
    exact ⟨q.atDepth d, (mem_ancestry_iff hp).mpr ⟨q, d, habove, rfl⟩, hqr ▸ hrestricted⟩

/-- **The fence as a depth.** A page above is at most as far up as the deepest restricted
one exactly where a rule made on it clears the fence. -/
theorem depth_le_fence_iff (h : db.Above p q d) (hp : p ∈ db.pages) :
    d ≤ (db.fence p.id).getD d ↔ db.ClearsFence p q.id := by
  cases hfence : db.fence p.id with
  | none =>
    simp only [getD_none, le_refl, true_iff]
    intro r hr hrestricted hmem
    obtain ⟨a, ha, har⟩ :=
      (exists_restricted_ancestry_iff hp).mpr ⟨r, hr, hrestricted, hmem⟩
    rw [Tables.fence, List.min?_eq_none_iff, map_eq_nil_iff] at hfence
    exact absurd har (by simpa using filter_eq_nil_iff.mp hfence a ha)
  | some depth =>
    rw [Tables.fence, List.min?_eq_some_iff] at hfence
    simp only [List.mem_map, mem_filter, forall_exists_index, and_imp] at hfence
    obtain ⟨⟨a, ⟨ha, har⟩, rfl⟩, hmin⟩ := hfence
    obtain ⟨s, e, hs, rfl⟩ := (mem_ancestry_iff hp).mp ha
    simp only [getD_some]
    constructor
    · intro hle r hr hrestricted hmem
      -- no restricted page is met at a smaller depth than the fence
      obtain ⟨t, f, ht, hid⟩ := exists_above_of_mem_path hp hmem
      obtain rfl : t = r := db.pages_key t (ht.mem hp) r hr hid
      have hf : e ≤ f :=
        hmin f (t.atDepth f) ((mem_ancestry_iff hp).mpr ⟨t, f, ht, rfl⟩) hrestricted rfl
      exact (h.depth_le_iff ht hp).mp (le_trans hle hf)
    · intro hclear
      exact (h.depth_le_iff hs hp).mpr (hclear s (hs.mem hp) har (hs.id_mem_path hp))

theorem idxOf?_eq_some_idxOf {l : List Uuid} (h : x ∈ l) :
    l.idxOf? x = some (l.idxOf x) := by
  induction l with
  | nil => simp at h
  | cons y l ih =>
    by_cases hxy : y = x
    · subst hxy
      simp [List.idxOf?_cons]
    · have hmem : x ∈ l := by
        rcases mem_cons.mp h with rfl | h
        · exact absurd rfl hxy
        · exact h
      simp [List.idxOf?_cons, hxy, ih hmem]

theorem loadPageLocation_eq (hp : p ∈ db.pages) :
    loadPageLocation db.toTables p.id =
      some ⟨p.id, p.workspaceId, p.ancestorIds, restrictedAt db.toTables p.path⟩ := by
  have hhead : (db.pages.filter fun q => q.id = p.id).head? = some p := by
    have hmem : p ∈ db.pages.filter fun q => q.id = p.id := by simp [hp]
    obtain ⟨q, rest, hfilter⟩ := exists_cons_of_ne_nil (ne_nil_of_mem hmem)
    have hq : q ∈ db.pages.filter fun q => q.id = p.id := by simp [hfilter]
    simp only [mem_filter, decide_eq_true_iff] at hq
    rw [hfilter, List.head?_cons, db.pages_key q hq.1 p hp hq.2]
  simp only [loadPageLocation, hhead, map_some]

theorem restrictedAt_eq_none_iff :
    restrictedAt db.toTables p.path = none ↔ ¬ db.IsRestricted p := by
  rw [restrictedAt, map_eq_none_iff, firstByRankDesc_eq_none_iff,
    filter_eq_nil_iff]
  simp only [decide_eq_true_iff, Tables.IsRestricted, not_exists, not_and]
  exact ⟨fun h r hr hrestricted hmem => h r hr hmem hrestricted,
    fun h r hr hmem hrestricted => h r hr hrestricted hmem⟩

/-- **The fence as a position.** On the location of a page, a rule made on its path is not
fenced exactly where it clears the fence. -/
theorem isFenced_eq_false_iff (hx : x ∈ p.path) :
    PageLocation.isFenced ⟨p.id, p.workspaceId, p.ancestorIds, restrictedAt db.toTables p.path⟩ x
      = false ↔ db.ClearsFence p x := by
  have hpath : PageLocation.path
      ⟨p.id, p.workspaceId, p.ancestorIds, restrictedAt db.toTables p.path⟩ = p.path := rfl
  rw [PageLocation.isFenced, hpath]
  cases hfirst : firstByRankDesc (fun r : PageRow => p.path.idxOf r.id)
      (db.pages.filter fun r => r.id ∈ p.path ∧ r.restricted) with
  | none =>
    have hnone : restrictedAt db.toTables p.path = none := by
      rw [restrictedAt, hfirst, map_none]
    simp only [hnone, bind_none, true_iff]
    intro r hr hrestricted hmem
    exact absurd ⟨r, hr, hrestricted, hmem⟩ (restrictedAt_eq_none_iff.mp hnone)
  | some f =>
    obtain ⟨hf, hmax⟩ := firstByRankDesc_spec hfirst
    obtain ⟨hfpages, hfmem, hfrestricted⟩ : f ∈ db.pages ∧ f.id ∈ p.path ∧ f.restricted = true := by
      simpa using hf
    have hsome : restrictedAt db.toTables p.path = some f.id := by
      rw [restrictedAt, hfirst, map_some]
    simp only [hsome, bind_some, idxOf?_eq_some_idxOf hfmem, idxOf?_eq_some_idxOf hx,
      decide_eq_false_iff_not, not_lt]
    constructor
    · intro hle r hr hrestricted hmem
      exact le_trans (hmax r (by simp [hr, hrestricted, hmem])) hle
    · intro hclear
      exact hclear f hfpages hfrestricted hfmem

end Database

end Sone
