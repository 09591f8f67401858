import Sone.Access.Resolve

/-!
# Which pages a listing shows

`visiblePagesCondition` of `pages/access.ts` is pasted into every query that lists pages:
the tree, the search, the favourites, the rollups and the backlinks. It asks in SQL what
`effectiveRole` answers over loaded claims, and a place where the two differ shows a title
to somebody who may not open the page, or hides a page from somebody who may.

`visiblePagesCondition_iff` and `effectiveRole_ne_none_iff` bring both into one form: a
member sees a page on which the level held applies (`Tables.LevelApplies`) or something is
granted (`Tables.grantedLevels`). The condition joins the role of the membership before it
looks at the roles of groups, so the two agree by the foreign key of
`workspace_members.role_id` (`RoledDatabase`).
-/

namespace Sone

open List

/-- **The database** with the foreign key of `workspace_members.role_id`, a column that may
not be null. -/
structure RoledDatabase extends Database where
  members_role : ∀ m ∈ workspaceMembers, ∃ r ∈ roles, r.id = m.roleId

/-- `array_position`: from 1, and null where the element is not in the array. -/
def arrayPosition (path : List Uuid) (x : Uuid) : Option ℕ := (path.idxOf? x).map (· + 1)

namespace Tables

variable (db : Tables) (page : PageRow) (userId : Uuid)

def restrictedOnPath : List PageRow := db.pages.filter fun r => r.id ∈ page.path ∧ r.restricted

def fencePositions : List ℕ :=
  (db.restrictedOnPath page).filterMap fun r => arrayPosition page.path r.id

/-- `grantIsBelowFence`: a comparison with null is not true. -/
def grantIsBelowFence (scopePageId : Uuid) : Bool :=
  (arrayPosition page.path scopePageId).any fun at' =>
    (db.fencePositions page).max?.getD 1 ≤ at'

def isWorkspaceMemberCondition : Bool :=
  db.workspaceMembers.any fun wmm =>
    wmm.workspaceId = page.workspaceId ∧ wmm.userId = userId

/-- `workspaceLevelCondition`: a test of the level of the membership's role, and of every
role a group of the person's holds. -/
def workspaceLevelCondition (test : Option Role → Bool) : Bool :=
  db.workspaceMembers.any fun wm =>
    (wm.workspaceId = page.workspaceId ∧ wm.userId = userId) ∧
      db.roles.any fun wr => wr.id = wm.roleId ∧
        (test wr.pageLevel || db.groupMembers.any fun wgm => wgm.userId = userId ∧
          db.groups.any fun wg => (wg.id = wgm.groupId ∧ wg.workspaceId = page.workspaceId) ∧
            db.roles.any fun wgr => some wgr.id = wg.roleId ∧ test wgr.pageLevel)

def fullAccessCondition : Bool :=
  db.workspaceLevelCondition page userId fun level => level = some .admin

def anyPageLevelCondition : Bool :=
  db.workspaceLevelCondition page userId fun level => level.isSome

def coversCondition (scopePageId : Uuid) (includeSubtree : Bool) : Bool :=
  scopePageId = page.id || (includeSubtree && page.ancestorIds.contains scopePageId)

/-- `visiblePagesCondition`: nobody sees anything, and a member sees a page by the level
they hold, by a grant of their own or by one of a group's. -/
def visiblePagesCondition : Option Uuid → Bool
  | none => false
  | some userId =>
    db.isWorkspaceMemberCondition page userId &&
      ((db.restrictedOnPath page).isEmpty && db.anyPageLevelCondition page userId ||
        db.fullAccessCondition page userId ||
        (db.pagePermissions.any fun pp => pp.userId = userId ∧
          coversCondition page pp.pageId pp.includeSubtree ∧
          db.grantIsBelowFence page pp.pageId) ||
        db.pageGroupPermissions.any fun gp => db.groupMembers.any fun gm =>
          (gm.groupId = gp.groupId ∧ gm.userId = userId) ∧
          coversCondition page gp.pageId gp.includeSubtree ∧
          db.grantIsBelowFence page gp.pageId)

end Tables

namespace RoledDatabase

variable {db : RoledDatabase} {page : PageRow} {userId scopePageId : Uuid}
  {test : Option Role → Bool}

theorem isWorkspaceMemberCondition_iff :
    db.isWorkspaceMemberCondition page userId = true ↔
      db.isMember userId page.workspaceId = true := by
  simp [Tables.isWorkspaceMemberCondition, Tables.isMember, Tables.memberRows]

theorem coversCondition_iff {includeSubtree : Bool} :
    Tables.coversCondition page scopePageId includeSubtree = true ↔
      page.IsCovered scopePageId includeSubtree := by
  simp [Tables.coversCondition, PageRow.IsCovered]

theorem mem_restrictedOnPath_iff {r : PageRow} :
    r ∈ db.restrictedOnPath page ↔ r ∈ db.pages ∧ r.restricted = true ∧ r.id ∈ page.path := by
  simp [Tables.restrictedOnPath, and_comm]

theorem arrayPosition_of_mem {x : Uuid} (hx : x ∈ page.path) :
    arrayPosition page.path x = some (page.path.idxOf x + 1) := by
  rw [arrayPosition, Database.idxOf?_eq_some_idxOf hx, Option.map_some]

theorem mem_fencePositions_iff {n : ℕ} :
    n ∈ db.fencePositions page ↔
      ∃ r ∈ db.pages, r.restricted = true ∧ r.id ∈ page.path ∧ page.path.idxOf r.id + 1 = n := by
  simp only [Tables.fencePositions, mem_filterMap, mem_restrictedOnPath_iff]
  constructor
  · rintro ⟨r, ⟨hr, hrestricted, hmem⟩, hn⟩
    rw [arrayPosition_of_mem hmem] at hn
    exact ⟨r, hr, hrestricted, hmem, Option.some.inj hn⟩
  · rintro ⟨r, hr, hrestricted, hmem, rfl⟩
    exact ⟨r, ⟨hr, hrestricted, hmem⟩, arrayPosition_of_mem hmem⟩

/-- **The fence as an array position.** A grant made on the path is below the fence where it
clears it. -/
theorem grantIsBelowFence_iff (hx : scopePageId ∈ page.path) :
    db.grantIsBelowFence page scopePageId = true ↔ db.ClearsFence page scopePageId := by
  simp only [Tables.grantIsBelowFence, arrayPosition_of_mem hx, Option.any_some,
    decide_eq_true_iff]
  cases hmax : (db.fencePositions page).max? with
  | none =>
    -- nothing on the path is restricted, and every position is 1 or more
    rw [List.max?_eq_none_iff] at hmax
    refine iff_of_true (Nat.succ_le_succ (Nat.zero_le _)) fun r hr hrestricted hmem => ?_
    have hposition := mem_fencePositions_iff.mpr ⟨r, hr, hrestricted, hmem, rfl⟩
    rw [hmax] at hposition
    exact absurd hposition not_mem_nil
  | some fence =>
    obtain ⟨hfence, hle⟩ := List.max?_eq_some_iff.mp hmax
    obtain ⟨f, hf, hfrestricted, hfmem, rfl⟩ := mem_fencePositions_iff.mp hfence
    constructor
    · intro hclear r hr hrestricted hmem
      have hr' := hle _ (mem_fencePositions_iff.mpr ⟨r, hr, hrestricted, hmem, rfl⟩)
      exact Nat.le_of_succ_le_succ (hr'.trans hclear)
    · intro hclear
      exact Nat.succ_le_succ (hclear f hf hfrestricted hfmem)

theorem mem_memberRows_iff {workspaceId : Uuid} {wm : WorkspaceMemberRow} :
    wm ∈ db.memberRows userId workspaceId ↔
      wm ∈ db.workspaceMembers ∧ wm.workspaceId = workspaceId ∧ wm.userId = userId := by
  simp [Tables.memberRows]

theorem mem_heldLevels_iff {level : Role} {workspaceId : Uuid} :
    level ∈ db.heldLevels userId workspaceId ↔
      ∃ wm ∈ db.workspaceMembers, (wm.workspaceId = workspaceId ∧ wm.userId = userId) ∧
        ((∃ wr ∈ db.roles, wr.id = wm.roleId ∧ wr.pageLevel = some level) ∨
          ∃ wgm ∈ db.groupMembers, wgm.userId = userId ∧
            ∃ wg ∈ db.groups, (wg.id = wgm.groupId ∧ wg.workspaceId = workspaceId) ∧
              ∃ wgr ∈ db.roles, some wgr.id = wg.roleId ∧ wgr.pageLevel = some level) := by
  simp only [Tables.heldLevels, Tables.heldRows, mem_filterMap, mem_append,
    Tables.heldByMembership, Tables.heldByGroups]
  constructor
  · rintro ⟨held, hheld | hheld, hlevel⟩
    · simp only [mem_flatMap, List.mem_map, mem_filter, decide_eq_true_iff,
        mem_memberRows_iff] at hheld
      obtain ⟨wm, ⟨hwm, hmember⟩, wr, ⟨hwr, hid⟩, rfl⟩ := hheld
      exact ⟨wm, hwm, hmember, .inl ⟨wr, hwr, hid, hlevel⟩⟩
    · split_ifs at hheld with hnone
      · exact absurd hheld not_mem_nil
      · obtain ⟨wm, hrow⟩ := exists_mem_of_ne_nil _ (mt List.isEmpty_iff.mpr hnone)
        obtain ⟨hwm, hmember⟩ := mem_memberRows_iff.mp hrow
        simp only [mem_flatMap, List.mem_map, mem_filter, decide_eq_true_iff] at hheld
        obtain ⟨wgm, ⟨hwgm, huser⟩, wg, ⟨hwg, hgroup⟩, wgr, ⟨hwgr, hrole⟩, rfl⟩ := hheld
        exact ⟨wm, hwm, hmember,
          .inr ⟨wgm, hwgm, huser, wg, hwg, hgroup, wgr, hwgr, hrole, hlevel⟩⟩
  · rintro ⟨wm, hwm, hmember, ⟨wr, hwr, hid, hlevel⟩ |
      ⟨wgm, hwgm, huser, wg, hwg, hgroup, wgr, hwgr, hrole, hlevel⟩⟩
    · refine ⟨⟨wr.key, wr.pageLevel, wr.rights⟩, .inl ?_, hlevel⟩
      simp only [mem_flatMap, List.mem_map, mem_filter, decide_eq_true_iff,
        mem_memberRows_iff]
      exact ⟨wm, ⟨hwm, hmember⟩, wr, ⟨hwr, hid⟩, rfl⟩
    · have hsome : ¬(db.memberRows userId workspaceId).isEmpty = true := by
        rw [List.isEmpty_iff]
        exact ne_nil_of_mem (mem_memberRows_iff.mpr ⟨hwm, hmember⟩)
      refine ⟨⟨none, wgr.pageLevel, wgr.rights⟩, .inr ?_, hlevel⟩
      rw [if_neg hsome]
      simp only [mem_flatMap, List.mem_map, mem_filter, decide_eq_true_iff]
      exact ⟨wgm, ⟨hwgm, huser⟩, wg, ⟨hwg, hgroup⟩, wgr, ⟨hwgr, hrole⟩, rfl⟩

/-- **The level condition** finds the levels held. -/
theorem workspaceLevelCondition_iff (htest : test none = false) :
    db.workspaceLevelCondition page userId test = true ↔
      ∃ level ∈ db.heldLevels userId page.workspaceId, test (some level) = true := by
  have hlevel : ∀ {r : RoleRow}, test r.pageLevel = true → ∃ level, r.pageLevel = some level := by
    intro r hr
    rcases hr' : r.pageLevel with _ | level
    · rw [hr', htest] at hr
      exact absurd hr (by simp)
    · exact ⟨level, rfl⟩
  simp only [Tables.workspaceLevelCondition, List.any_eq_true, decide_eq_true_iff,
    Bool.or_eq_true]
  constructor
  · rintro ⟨wm, hwm, hmember, wr, hwr, hid, htested |
      ⟨wgm, hwgm, huser, wg, hwg, hgroup, wgr, hwgr, hrole, htested⟩⟩
    · obtain ⟨level, hpage⟩ := hlevel htested
      exact ⟨level, mem_heldLevels_iff.mpr ⟨wm, hwm, hmember, .inl ⟨wr, hwr, hid, hpage⟩⟩,
        hpage ▸ htested⟩
    · obtain ⟨level, hpage⟩ := hlevel htested
      exact ⟨level, mem_heldLevels_iff.mpr ⟨wm, hwm, hmember,
        .inr ⟨wgm, hwgm, huser, wg, hwg, hgroup, wgr, hwgr, hrole, hpage⟩⟩, hpage ▸ htested⟩
  · rintro ⟨level, hheld, htested⟩
    obtain ⟨wm, hwm, hmember, ⟨wr, hwr, hid, hpage⟩ |
      ⟨wgm, hwgm, huser, wg, hwg, hgroup, wgr, hwgr, hrole, hpage⟩⟩ :=
      mem_heldLevels_iff.mp hheld
    · exact ⟨wm, hwm, hmember, wr, hwr, hid, .inl (hpage ▸ htested)⟩
    · -- the membership has a role to join, whatever it gives
      obtain ⟨wr, hwr, hid⟩ := db.members_role wm hwm
      exact ⟨wm, hwm, hmember, wr, hwr, hid,
        .inr ⟨wgm, hwgm, huser, wg, hwg, hgroup, wgr, hwgr, hrole, hpage ▸ htested⟩⟩

theorem grantConditions_iff :
    ((db.pagePermissions.any fun pp => pp.userId = userId ∧
        Tables.coversCondition page pp.pageId pp.includeSubtree ∧
        db.grantIsBelowFence page pp.pageId) = true ∨
      (db.pageGroupPermissions.any fun gp => db.groupMembers.any fun gm =>
        (gm.groupId = gp.groupId ∧ gm.userId = userId) ∧
          Tables.coversCondition page gp.pageId gp.includeSubtree ∧
          db.grantIsBelowFence page gp.pageId) = true) ↔
      (db.grantedLevels userId page).Nonempty := by
  simp only [List.any_eq_true, decide_eq_true_iff, coversCondition_iff]
  have hreach : ∀ {scope sub}, page.IsCovered scope sub →
      (db.grantIsBelowFence page scope = true ↔ db.ClearsFence page scope) :=
    fun hcovered => grantIsBelowFence_iff (Database.mem_path_of_isCovered hcovered)
  constructor
  · rintro (⟨pp, hpp, huser, hcovered, hbelow⟩ |
      ⟨gp, hgp, gm, hgm, ⟨hgroup, huser⟩, hcovered, hbelow⟩)
    · exact ⟨pp.role, pp.pageId, pp.includeSubtree, .inl ⟨pp, hpp, huser, rfl, rfl, rfl⟩,
        hcovered, (hreach hcovered).mp hbelow⟩
    · exact ⟨gp.role, gp.pageId, gp.includeSubtree,
        .inr ⟨gp, hgp, gm, hgm, hgroup, huser, rfl, rfl, rfl⟩, hcovered,
        (hreach hcovered).mp hbelow⟩
  · rintro ⟨role, scope, sub, ⟨pp, hpp, huser, rfl, rfl, rfl⟩ |
      ⟨gp, hgp, gm, hgm, hgroup, huser, rfl, rfl, rfl⟩, hcovered, hclear⟩
    · exact .inl ⟨pp, hpp, huser, hcovered, (hreach hcovered).mpr hclear⟩
    · exact .inr ⟨gp, hgp, gm, hgm, ⟨hgroup, huser⟩, hcovered, (hreach hcovered).mpr hclear⟩

/-- **What a listing shows** to somebody: to a member, what the level held applies to and
what is granted. -/
theorem visiblePagesCondition_iff :
    db.visiblePagesCondition page (some userId) = true ↔
      db.isMember userId page.workspaceId = true ∧
        (db.LevelApplies userId page ∨ (db.grantedLevels userId page).Nonempty) := by
  have hfull : db.fullAccessCondition page userId = true ↔
      .admin ∈ db.heldLevels userId page.workspaceId := by
    rw [Tables.fullAccessCondition, workspaceLevelCondition_iff rfl]
    simp
  have hany : db.anyPageLevelCondition page userId = true ↔
      db.heldLevels userId page.workspaceId ≠ [] := by
    rw [Tables.anyPageLevelCondition, workspaceLevelCondition_iff rfl, ← isEmpty_eq_false_iff,
      isEmpty_eq_false_iff_exists_mem]
    simp
  have hfree : (db.restrictedOnPath page).isEmpty = true ↔ ¬db.IsRestricted page := by
    rw [List.isEmpty_iff, eq_nil_iff_forall_not_mem]
    simp only [mem_restrictedOnPath_iff, Tables.IsRestricted]
    push Not
    rfl
  rw [Tables.visiblePagesCondition, Bool.and_eq_true, isWorkspaceMemberCondition_iff,
    Bool.or_eq_true, Bool.or_eq_true, Bool.or_eq_true, or_assoc, grantConditions_iff,
    Bool.and_eq_true, hfull, hany, hfree, Tables.LevelApplies]
  tauto

def withCaps (db : RoledDatabase) (caps : List PageCapRow) : RoledDatabase :=
  { db with pageCaps := caps }

def withoutGrantsOn (db : RoledDatabase) (scopePageId : Uuid) : RoledDatabase :=
  { db with
    pagePermissions := db.pagePermissions.filter fun pp => pp.pageId ≠ scopePageId
    pageGroupPermissions := db.pageGroupPermissions.filter fun gp => gp.pageId ≠ scopePageId }

theorem grantedLevels_withoutGrantsOn (hfenced : ¬db.ClearsFence page scopePageId) :
    (db.withoutGrantsOn scopePageId).grantedLevels userId page = db.grantedLevels userId page := by
  ext role
  constructor
  · rintro ⟨scope, sub, ⟨pp, hpp, h⟩ | ⟨gp, hgp, h⟩, hcovered, hclear⟩
    · exact ⟨scope, sub, .inl ⟨pp, mem_of_mem_filter hpp, h⟩, hcovered, hclear⟩
    · exact ⟨scope, sub, .inr ⟨gp, mem_of_mem_filter hgp, h⟩, hcovered, hclear⟩
  · rintro ⟨scope, sub, hgrant, hcovered, hclear⟩
    have hne : scope ≠ scopePageId := fun h => hfenced (h ▸ hclear)
    obtain ⟨pp, hpp, huser, rfl, rfl, rfl⟩ |
      ⟨gp, hgp, gm, hgm, hgroup, huser, rfl, rfl, rfl⟩ := hgrant
    · exact ⟨_, _, .inl ⟨pp, mem_filter.mpr ⟨hpp, by simpa using hne⟩, huser, rfl, rfl, rfl⟩,
        hcovered, hclear⟩
    · exact ⟨_, _, .inr ⟨gp, mem_filter.mpr ⟨hgp, by simpa using hne⟩, gm, hgm, hgroup,
        huser, rfl, rfl, rfl⟩, hcovered, hclear⟩

end RoledDatabase

/-- The role the claims of an account in a page's workspace give on the page. -/
def claimsRole (db : Tables) (principal : Principal) (userId pageId : Uuid) :
    Except String (Option Role) :=
  match loadPageLocation db pageId with
  | none => .ok none
  | some location => do
    let claims ← accountClaims db principal userId location.workspaceId
    return claims.bind fun claims => effectiveRole claims location

namespace RoledDatabase

variable {db : RoledDatabase} {page : PageRow} {userId scopePageId : Uuid} {principal : Principal}
  {role : Option Role}

theorem claimsRole_eq {granted capped : Option Role} (hp : page ∈ db.pages)
    (hgranted : IsWidest (db.grantedLevels userId page) granted)
    (hcapped : IsTightest (db.cappingLevels page) capped) :
    claimsRole db.toTables principal userId page.id =
      (loadWorkspaceStanding db.toTables userId page.workspaceId).map fun standing =>
        if standing.isMember then
          ceiled (widen (levelGiven (db.IsRestricted page) standing.pageLevel) granted)
            (if standing.pageLevel = some .admin then none else capped)
        else none := by
  simp only [claimsRole, Database.loadPageLocation_eq hp, accountClaims]
  cases loadWorkspaceStanding db.toTables userId page.workspaceId with
  | error message => rfl
  | ok standing =>
    cases hmember : standing.isMember with
    | false => simp [hmember, bind, Except.bind, pure, Except.pure, Except.map]
    | true =>
      simp only [hmember, bind, Except.bind, pure, Except.pure, Except.map, Bool.not_true,
        Bool.false_eq_true, if_false, if_true, Option.bind_some, Except.ok.injEq]
      exact Database.effectiveRole_eq_ceiled_widen hp rfl rfl rfl hgranted hcapped

/-- **A role is given** to a member, by what the level held applies to and by what is
granted. Caps do not matter for that. -/
theorem claimsRole_ne_none_iff (hp : page ∈ db.pages)
    (hrole : claimsRole db.toTables principal userId page.id = .ok role) :
    role ≠ none ↔ db.isMember userId page.workspaceId = true ∧
      (db.LevelApplies userId page ∨ (db.grantedLevels userId page).Nonempty) := by
  obtain ⟨granted, hgranted⟩ : ∃ granted, IsWidest (db.grantedLevels userId page) granted :=
    ⟨_, Database.isWidest_grantRows hp⟩
  rw [claimsRole_eq hp hgranted (Database.isTightest_capRows hp)] at hrole
  cases hstanding : loadWorkspaceStanding db.toTables userId page.workspaceId with
  | error message => simp [hstanding, Except.map] at hrole
  | ok standing =>
    have hlevel := loadWorkspaceStanding_pageLevel hstanding
    have hmember := loadWorkspaceStanding_isMember hstanding
    rw [hstanding] at hrole
    obtain rfl := Except.ok.inj hrole
    rw [← hgranted.ne_none_iff, ← Database.levelGiven_ne_none_iff hlevel, ← hmember]
    by_cases hm : standing.isMember = true
    · simp only [hm, if_true, ne_eq, ceiled_eq_none_iff, widen_eq_none_iff, true_and]
      tauto
    · simp [hm]

/-- A section restricted for a guest, with a subtree grant made above the restriction and one
made at it. -/
def fencedDatabase : RoledDatabase where
  workspaces := [⟨1, none⟩]
  users := [⟨7, none, "Gast", true, none⟩]
  roles := [⟨4, none, some "guest", none, []⟩]
  workspaceMembers := [⟨1, 7, 4, false⟩]
  pages := [⟨10, 1, none, [], false⟩, ⟨11, 1, some 10, [10], true⟩,
    ⟨12, 1, some 11, [10, 11], false⟩]
  pagePermissions := [⟨10, 7, .editor, true⟩, ⟨11, 7, .viewer, true⟩]
  pageCaps := [⟨10, .viewer, true⟩]
  pages_key := by decide
  pages_workspace := by decide
  pages_root := by decide
  pages_parent := by simp [PageRow.path]
  members_role := by decide

end RoledDatabase

end Sone
