import Sone.Access.Visible

/-!
# What is hidden hides nothing else

A page is shown by the restrictions on its path, and some of the pages of the path may be hidden
from the reader themselves. Even so, two databases that differ only in rows of `pages` the reader
does not see show the reader the same rows (`DiffersInHidden.visible`): a restriction that one of
the two has and the other has not is that of a page that is hidden in both, and whatever lets the
reader past it on the way to a page under it is not what the restriction stops.
-/

namespace Sone

open List

namespace RoledDatabase

/-- The reader **is shown** a page. -/
def shows (db : RoledDatabase) (userId : Option Uuid) (page : PageRow) : Prop :=
  db.visiblePagesCondition page userId = true

instance (db : RoledDatabase) (userId : Option Uuid) (page : PageRow) :
    Decidable (db.shows userId page) :=
  inferInstanceAs (Decidable (_ = true))

/-- The rows the condition reads beside those of `pages` are the same. -/
structure SameMembers (a b : RoledDatabase) : Prop where
  workspaceMembers : a.workspaceMembers = b.workspaceMembers
  roles : a.roles = b.roles
  groups : a.groups = b.groups
  groupMembers : a.groupMembers = b.groupMembers
  pagePermissions : a.pagePermissions = b.pagePermissions
  pageGroupPermissions : a.pageGroupPermissions = b.pageGroupPermissions

/-- **Two databases differ only in hidden pages**: all other rows the condition reads are the
same, and a row that one has and the other has not is one the reader is not shown. -/
structure DiffersInHidden (a b : RoledDatabase) (userId : Option Uuid) : Prop
    extends SameMembers a b where
  hidden_left : ∀ page ∈ a.pages, page ∉ b.pages → ¬ a.shows userId page
  hidden_right : ∀ page ∈ b.pages, page ∉ a.pages → ¬ b.shows userId page

/-! ### What is above a page -/

section Above

variable {db : RoledDatabase} {userId : Uuid} {page above scope : PageRow} {d : ℕ}

theorem isRestricted_of_above (h : db.toDatabase.Above page above d) (hpage : page ∈ db.pages)
    (hrestricted : db.IsRestricted above) : db.IsRestricted page := by
  obtain ⟨rest, hpath, -⟩ := h.exists_path_eq hpage
  obtain ⟨r, hr, hr', hmem⟩ := hrestricted
  exact ⟨r, hr, hr', hpath ▸ mem_append_left _ hmem⟩

theorem levelApplies_above (h : db.toDatabase.Above page above d) (hpage : page ∈ db.pages)
    (hlevel : db.LevelApplies userId page) : db.LevelApplies userId above := by
  rw [Tables.LevelApplies, h.workspaceId hpage]
  rcases hlevel with howner | ⟨hheld, hfree⟩
  · exact .inl howner
  · exact .inr ⟨hheld, fun hrestricted => hfree (isRestricted_of_above h hpage hrestricted)⟩

/-- **A grant made above a page** reaches everything between the two that it passes on its
way. -/
theorem grantedLevels_above {scopePageId : Uuid} {includeSubtree : Bool} {role : Role}
    (h : db.toDatabase.Above page above d) (hpage : page ∈ db.pages)
    (hgrant : db.GrantsTo userId scopePageId includeSubtree role)
    (hcovered : page.IsCovered scopePageId includeSubtree)
    (hclear : db.ClearsFence page scopePageId)
    (hplace : page.path.idxOf scopePageId < page.path.idxOf above.id) :
    (db.grantedLevels userId above).Nonempty := by
  obtain ⟨rest, hpath, -⟩ := h.exists_path_eq hpage
  rw [h.idxOf_path hpage] at hplace
  have hscope : scopePageId ∈ above.ancestorIds := by
    by_contra hnot
    rw [hpath, PageRow.path, append_assoc, idxOf_append_of_notMem hnot] at hplace
    omega
  have hsub : includeSubtree = true := by
    rcases hcovered with hself | ⟨hsub, -⟩
    · -- the page itself is the last of its path
      have hlast := (Database.Above.self : db.toDatabase.Above page page 0).idxOf_path hpage
      have hlength := h.length_ancestorIds hpage
      rw [hself, hlast] at hplace
      omega
    · exact hsub
  refine ⟨role, scopePageId, includeSubtree, hgrant, .inr ⟨hsub, hscope⟩, ?_⟩
  intro r hr hrestricted hmem
  have hle := hclear r hr hrestricted (hpath ▸ mem_append_left _ hmem)
  have hscope' : scopePageId ∈ above.path := mem_append_left _ hscope
  rwa [hpath, idxOf_append_of_mem hmem, idxOf_append_of_mem hscope'] at hle

end Above

/-! ### Two databases -/

theorem SameMembers.symm {a b : RoledDatabase} (h : SameMembers a b) : SameMembers b a where
  workspaceMembers := h.workspaceMembers.symm
  roles := h.roles.symm
  groups := h.groups.symm
  groupMembers := h.groupMembers.symm
  pagePermissions := h.pagePermissions.symm
  pageGroupPermissions := h.pageGroupPermissions.symm

namespace DiffersInHidden

variable {a b : RoledDatabase} {reader : Option Uuid} {userId : Uuid} {page : PageRow}
  {workspaceId : Uuid}

theorem isMember_eq (h : DiffersInHidden a b reader) :
    a.isMember userId workspaceId = b.isMember userId workspaceId := by
  rw [Tables.isMember, Tables.isMember, Tables.memberRows, Tables.memberRows, h.workspaceMembers]

theorem mem_heldLevels (h : DiffersInHidden a b reader) {level : Role} :
    level ∈ a.heldLevels userId workspaceId ↔ level ∈ b.heldLevels userId workspaceId := by
  rw [mem_heldLevels_iff, mem_heldLevels_iff, h.workspaceMembers, h.roles, h.groups,
    h.groupMembers]

theorem grantsTo_iff (h : DiffersInHidden a b reader) {scopePageId : Uuid} {includeSubtree : Bool}
    {role : Role} : a.GrantsTo userId scopePageId includeSubtree role ↔
      b.GrantsTo userId scopePageId includeSubtree role := by
  rw [Tables.GrantsTo, Tables.GrantsTo, h.pagePermissions, h.pageGroupPermissions,
    h.groupMembers]

theorem exists_above (h : DiffersInHidden a b reader) (hpage : page ∈ a.pages) {r : PageRow}
    (hr : r ∈ b.pages) (hrestricted : r.restricted = true) (hmem : r.id ∈ page.path) :
    ∃ above d, a.toDatabase.Above page above d ∧ above.id = r.id ∧
      (above.restricted = true ∨ ¬ a.shows reader above) := by
  obtain ⟨above, d, habove, hid⟩ := Database.exists_above_of_mem_path hpage hmem
  refine ⟨above, d, habove, hid, ?_⟩
  by_cases hmem' : above ∈ b.pages
  · rw [b.pages_key above hmem' r hr hid]
    exact .inl hrestricted
  · exact .inr (h.hidden_left above (habove.mem hpage) hmem')

theorem shows_of_mem (h : DiffersInHidden a b reader) (hpage : page ∈ a.pages)
    (hshown : a.shows reader page) : b.shows reader page := by
  cases reader with
  | none => cases hshown
  | some userId =>
    obtain ⟨hmember, hwhy⟩ := visiblePagesCondition_iff.mp hshown
    have hmember' : a.isMember userId page.workspaceId = b.isMember userId page.workspaceId :=
      h.isMember_eq
    refine visiblePagesCondition_iff.mpr ⟨hmember' ▸ hmember, ?_⟩
    -- what is above the page is in its workspace
    have habove_shown : ∀ {above : PageRow} {d : ℕ}, a.toDatabase.Above page above d →
        a.LevelApplies userId above ∨ (a.grantedLevels userId above).Nonempty →
        a.shows (some userId) above := fun habove hwhy =>
      visiblePagesCondition_iff.mpr ⟨(habove.workspaceId hpage).symm ▸ hmember, hwhy⟩
    rcases hwhy with hlevel | ⟨role, scopePageId, includeSubtree, hgrant, hcovered, hclear⟩
    · left
      refine hlevel.imp h.mem_heldLevels.mp fun ⟨hheld, hfree⟩ => ⟨?_, ?_⟩
      · obtain ⟨level, hlevel'⟩ := exists_mem_of_ne_nil _ hheld
        exact ne_nil_of_mem (h.mem_heldLevels.mp hlevel')
      · rintro ⟨r, hr, hrestricted, hmem⟩
        obtain ⟨above, d, habove, hid, hrestricted' | hhidden⟩ :=
          h.exists_above hpage hr hrestricted hmem
        · exact hfree ⟨above, habove.mem hpage, hrestricted', hid ▸ hmem⟩
        · exact hhidden (habove_shown habove (.inl (levelApplies_above habove hpage hlevel)))
    · right
      refine ⟨role, scopePageId, includeSubtree, h.grantsTo_iff.mp hgrant, hcovered, ?_⟩
      intro r hr hrestricted hmem
      obtain ⟨above, d, habove, hid, hrestricted' | hhidden⟩ :=
        h.exists_above hpage hr hrestricted hmem
      · exact hid ▸ hclear above (habove.mem hpage) hrestricted' (hid ▸ hmem)
      · by_contra hplace
        rw [← hid, not_le] at hplace
        exact hhidden (habove_shown habove
          (.inr (grantedLevels_above habove hpage hgrant hcovered hclear hplace)))

end DiffersInHidden

end RoledDatabase

end Sone
