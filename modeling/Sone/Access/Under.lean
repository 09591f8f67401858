import Sone.Access.Visible

/-!
# What a page passes on to the pages in it

Somebody who is let into a page is not let into every page in it. A page in another is kept from
them by its own restriction, unless they are a page admin of the workspace or are granted
something on it; and a grant that was made for the page above alone does not go further down
(`AccessClaims.StopsAt`). There is nothing else (`effectiveRole_child_ne_none_iff`): a cap lowers
a role and takes none away.
-/

namespace Sone

open List

def PageRow.location (db : Tables) (page : PageRow) : PageLocation :=
  ⟨page.id, page.workspaceId, page.ancestorIds, restrictedAt db page.path⟩

namespace AccessClaims

variable (claims : AccessClaims)

/-- The claims **stop at** a page: all that they give there is grants made for it alone. -/
def StopsAt (page : PageLocation) : Prop :=
  claims.levelOn page = none ∧ ∀ grant ∈ claims.grants,
    page.inScope grant.scopePageId grant.includeSubtree = true →
      page.isFenced grant.scopePageId = false → grant.includeSubtree = false

instance (page : PageLocation) : Decidable (claims.StopsAt page) :=
  inferInstanceAs (Decidable (_ ∧ _))

def HasGrantOn (pageId : Uuid) : Prop := ∃ grant ∈ claims.grants, grant.scopePageId = pageId

instance (pageId : Uuid) : Decidable (claims.HasGrantOn pageId) :=
  inferInstanceAs (Decidable (∃ grant ∈ claims.grants, _))

end AccessClaims

namespace Database

variable {db : Database} {host page : PageRow} {claims : AccessClaims} {scopePageId : Uuid}

/-! ### The restrictions on the path of a page in another -/

theorem isRestricted_child_iff (hhost : host ∈ db.pages) (hpage : page ∈ db.pages)
    (hparent : page.parentPageId = some host.id) :
    db.IsRestricted page ↔ page.restricted = true ∨ db.IsRestricted host := by
  have hpath : page.path = host.path ++ [page.id] := by
    rw [PageRow.path, ancestorIds_eq_path hpage hhost hparent]
  constructor
  · rintro ⟨r, hr, hrestricted, hmem⟩
    rw [hpath, mem_append, mem_singleton] at hmem
    rcases hmem with hmem | hid
    · exact .inr ⟨r, hr, hrestricted, hmem⟩
    · exact .inl (db.pages_key r hr page hpage hid ▸ hrestricted)
  · rintro (hrestricted | ⟨r, hr, hrestricted, hmem⟩)
    · exact ⟨page, hpage, hrestricted, by simp [PageRow.path]⟩
    · exact ⟨r, hr, hrestricted, hpath ▸ mem_append_left _ hmem⟩

theorem clearsFence_child_iff (hhost : host ∈ db.pages) (hpage : page ∈ db.pages)
    (hparent : page.parentPageId = some host.id) (hscope : scopePageId ∈ host.path) :
    db.ClearsFence page scopePageId ↔
      page.restricted = false ∧ db.ClearsFence host scopePageId := by
  have hpath : page.path = host.path ++ [page.id] := by
    rw [PageRow.path, ancestorIds_eq_path hpage hhost hparent]
  have hnot : page.id ∉ host.path := by
    rw [← ancestorIds_eq_path hpage hhost hparent]
    exact id_notMem_ancestorIds hpage
  constructor
  · intro hclear
    constructor
    · by_contra hrestricted
      rw [Bool.not_eq_false] at hrestricted
      have hle := hclear page hpage hrestricted (by simp [PageRow.path])
      rw [hpath, idxOf_append_of_notMem hnot, idxOf_append_of_mem hscope] at hle
      have hlt := idxOf_lt_length_of_mem hscope
      omega
    · intro r hr hrestricted hmem
      have hle := hclear r hr hrestricted (hpath ▸ mem_append_left _ hmem)
      rwa [hpath, idxOf_append_of_mem hmem, idxOf_append_of_mem hscope] at hle
  · rintro ⟨hfree, hclear⟩ r hr hrestricted hmem
    rw [hpath, mem_append, mem_singleton] at hmem
    rcases hmem with hmem | hid
    · rw [hpath, idxOf_append_of_mem hmem, idxOf_append_of_mem hscope]
      exact hclear r hr hrestricted hmem
    · rw [db.pages_key r hr page hpage hid, hfree] at hrestricted
      cases hrestricted

theorem clearsFence_self (hpage : page ∈ db.pages) : db.ClearsFence page page.id := by
  intro r hr hrestricted hmem
  have hlt := idxOf_lt_length_of_mem hmem
  have hlast := (Above.self : db.Above page page 0).idxOf_path hpage
  rw [PageRow.path, length_append, length_singleton] at hlt
  rw [hlast]
  exact Nat.lt_succ_iff.mp hlt

/-! ### What claims give there -/

theorem levelOn_ne_none_iff :
    claims.levelOn (page.location db.toTables) ≠ none ↔
      claims.pageLevel = some .admin ∨ (claims.pageLevel ≠ none ∧ ¬ db.IsRestricted page) := by
  rw [AccessClaims.levelOn, ← restrictedAt_eq_none_iff]
  by_cases hadmin : claims.pageLevel = some .admin
  · simp [hadmin]
  · by_cases hfree : restrictedAt db.toTables page.path = none
    · simp [hadmin, hfree, PageRow.location]
    · simp [hadmin, hfree, PageRow.location]

theorem reaches_iff {includeSubtree : Bool} :
    (page.location db.toTables).inScope scopePageId includeSubtree = true ∧
        (page.location db.toTables).isFenced scopePageId = false ↔
      (scopePageId = page.id ∨ (includeSubtree = true ∧ scopePageId ∈ page.ancestorIds)) ∧
        db.ClearsFence page scopePageId := by
  have hscope : (page.location db.toTables).inScope scopePageId includeSubtree = true ↔
      scopePageId = page.id ∨ (includeSubtree = true ∧ scopePageId ∈ page.ancestorIds) := by
    rw [PageLocation.inScope, Bool.or_eq_true, Bool.and_eq_true, decide_eq_true_iff,
      contains_iff_mem]
    rfl
  rw [hscope]
  refine and_congr_right fun hcovers => isFenced_eq_false_iff ?_
  rcases hcovers with rfl | ⟨-, hmem⟩
  · simp [PageRow.path]
  · exact mem_append_left _ hmem

theorem grantsOn_ne_nil_iff :
    claims.grantsOn (page.location db.toTables) ≠ [] ↔ ∃ grant ∈ claims.grants,
      (grant.scopePageId = page.id ∨
        (grant.includeSubtree = true ∧ grant.scopePageId ∈ page.ancestorIds)) ∧
      db.ClearsFence page grant.scopePageId := by
  rw [AccessClaims.grantsOn, Ne, map_eq_nil_iff, filter_eq_nil_iff]
  push Not
  refine exists_congr fun grant => and_congr_right fun _ => ?_
  rw [Bool.and_eq_true, Bool.not_eq_true', reaches_iff]

theorem not_stopsAt_iff :
    ¬ claims.StopsAt (page.location db.toTables) ↔
      claims.levelOn (page.location db.toTables) ≠ none ∨ ∃ grant ∈ claims.grants,
        grant.includeSubtree = true ∧ grant.scopePageId ∈ page.path ∧
          db.ClearsFence page grant.scopePageId := by
  rw [AccessClaims.StopsAt, not_and_or]
  refine or_congr Iff.rfl ?_
  push Not
  refine exists_congr fun grant => and_congr_right fun _ => ?_
  rw [← and_assoc, reaches_iff, Bool.ne_false_iff, PageRow.path, mem_append,
    mem_singleton]
  constructor
  · rintro ⟨⟨hcovers, hclear⟩, hsub⟩
    exact ⟨hsub, (hcovers.imp id And.right).symm, hclear⟩
  · rintro ⟨hsub, hmem, hclear⟩
    exact ⟨⟨hmem.symm.imp id fun hmem => ⟨hsub, hmem⟩, hclear⟩, hsub⟩

/-- **Who is let into a page** is let into a page in it exactly where they are a page admin, or
have a grant on that page, or it is not restricted and what they have does not stop above it. -/
theorem effectiveRole_child_ne_none_iff (hhost : host ∈ db.pages) (hpage : page ∈ db.pages)
    (hparent : page.parentPageId = some host.id)
    (hrole : effectiveRole claims (host.location db.toTables) ≠ none) :
    effectiveRole claims (page.location db.toTables) ≠ none ↔
      claims.pageLevel = some .admin ∨ claims.HasGrantOn page.id ∨
        (page.restricted = false ∧ ¬ claims.StopsAt (host.location db.toTables)) := by
  have hworkspace : page.workspaceId = claims.workspaceId :=
    (workspaceId_eq_parent hpage hhost hparent).symm.trans (effectiveRole_ne_none_iff.mp hrole).1
  have hancestors := ancestorIds_eq_path hpage hhost hparent
  rw [effectiveRole_ne_none_iff, levelOn_ne_none_iff, grantsOn_ne_nil_iff, not_stopsAt_iff,
    levelOn_ne_none_iff, isRestricted_child_iff hhost hpage hparent, hancestors]
  constructor
  · rintro ⟨-, (hadmin | ⟨hlevel, hfree⟩) | ⟨grant, hgrant, hid | ⟨hsub, hmem⟩, hclear⟩⟩
    · exact .inl hadmin
    · rw [not_or, Bool.not_eq_true] at hfree
      exact .inr (.inr ⟨hfree.1, .inl (.inr ⟨hlevel, hfree.2⟩)⟩)
    · exact .inr (.inl ⟨grant, hgrant, hid⟩)
    · obtain ⟨hfree, habove⟩ := (clearsFence_child_iff hhost hpage hparent hmem).mp hclear
      exact .inr (.inr ⟨hfree, .inr ⟨grant, hgrant, hsub, hmem, habove⟩⟩)
  · refine fun h => ⟨hworkspace, ?_⟩
    rcases h with hadmin | ⟨grant, hgrant, hid⟩ |
      ⟨hfree, (hadmin | ⟨hlevel, habove⟩) | ⟨grant, hgrant, hsub, hmem, habove⟩⟩
    · exact .inl (.inl hadmin)
    · exact .inr ⟨grant, hgrant, .inl hid, hid ▸ clearsFence_self hpage⟩
    · exact .inl (.inl hadmin)
    · refine .inl (.inr ⟨hlevel, ?_⟩)
      rw [not_or, hfree]
      exact ⟨Bool.false_ne_true, habove⟩
    · exact .inr ⟨grant, hgrant, .inr ⟨hsub, hmem⟩,
        (clearsFence_child_iff hhost hpage hparent hmem).mpr ⟨hfree, habove⟩⟩

end Database

end Sone
