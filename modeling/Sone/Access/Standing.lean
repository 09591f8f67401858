import Sone.Access.Tables
import Mathlib.Data.List.Dedup

/-!
# What somebody holds in a workspace

`loadWorkspaceStanding` of `auth/standing.ts`: the page level a workspace gives somebody by
default, the rights they hold, and whether they own the place. A person's own role and the
roles of their groups combine as the maximum of the levels and the union of the rights.

The page level it loads is the widest of the levels held (`Tables.heldLevels`,
`loadWorkspaceStanding_pageLevel`), and it throws in one situation only: a member who holds
neither a role key nor a level nor the workspace, on a database that has lost its system
roles (`Tables.StandingUnreadable`).
-/

namespace Sone

/-- `Right` in `@sone/core`: what a role can hold besides a page level. -/
inductive Right where
  | peopleManage
  | groupsManage
  | workspaceSettings
  | rolesManage
  deriving DecidableEq, Repr

/-- A name in `RIGHTS`; unknown names are dropped rather than carried. -/
def Right.ofName? : String → Option Right
  | "people.manage" => some .peopleManage
  | "groups.manage" => some .groupsManage
  | "workspace.settings" => some .workspaceSettings
  | "roles.manage" => some .rolesManage
  | _ => none

/-- `WorkspaceRole`: the four system roles. -/
inductive WorkspaceRole where
  | owner
  | admin
  | member
  | guest
  deriving DecidableEq, Repr

/-- A key in `SYSTEM_KEYS`. -/
def WorkspaceRole.ofKey? : String → Option WorkspaceRole
  | "owner" => some .owner
  | "admin" => some .admin
  | "member" => some .member
  | "guest" => some .guest
  | _ => none

structure WorkspaceStanding where
  role : Option WorkspaceRole
  isMember : Bool
  pageLevel : Option Role
  rights : List Right
  isOwner : Bool
  deriving DecidableEq

/-- `NOT_A_MEMBER`. -/
def notAMember : WorkspaceStanding where
  role := none
  isMember := false
  pageLevel := none
  rights := []
  isOwner := false

namespace Tables

variable (db : Tables) (userId workspaceId : Uuid)

/-! ### The query's common table expressions -/

/-- The `member` CTE. -/
def memberRows : List WorkspaceMemberRow :=
  db.workspaceMembers.filter fun m => m.workspaceId = workspaceId ∧ m.userId = userId

/-- A row of the `held` CTE. -/
structure HeldRow where
  key : Option String
  pageLevel : Option Role
  rights : List String

/-- The first half of the `held` CTE: the role of the membership. -/
def heldByMembership : List HeldRow :=
  (db.memberRows userId workspaceId).flatMap fun me =>
    (db.roles.filter fun r => r.id = me.roleId).map fun r => ⟨r.key, r.pageLevel, r.rights⟩

/-- The second half: the roles of the person's groups in this workspace, which count only
where the person is a member. -/
def heldByGroups : List HeldRow :=
  if (db.memberRows userId workspaceId).isEmpty then [] else
    (db.groupMembers.filter fun gm => gm.userId = userId).flatMap fun gm =>
      (db.groups.filter fun g => g.id = gm.groupId ∧ g.workspaceId = workspaceId).flatMap
        fun g => (db.roles.filter fun r => some r.id = g.roleId).map
          fun r => ⟨none, r.pageLevel, r.rights⟩

/-- The `held` CTE. -/
def heldRows : List HeldRow :=
  db.heldByMembership userId workspaceId ++ db.heldByGroups userId workspaceId

def isMember : Bool := !(db.memberRows userId workspaceId).isEmpty

/-- Whether the membership owns the workspace. -/
def isOwner : Bool := ((db.memberRows userId workspaceId).head?.map (·.isOwner)).getD false

def roleKey : Option String := (db.heldRows userId workspaceId).findSome? (·.key)

/-- The levels held, of which the query orders by what each allows and takes the first. -/
def heldLevels : List Role := (db.heldRows userId workspaceId).filterMap (·.pageLevel)

def hasSystemRoles : Bool := db.roles.any fun r => r.workspaceId.isNone

/-- The one state a standing cannot be read in: a member who holds no key, no level and
not the workspace itself, on a database that has lost its system roles. -/
def StandingUnreadable : Prop :=
  db.isMember userId workspaceId = true ∧ db.roleKey userId workspaceId = none ∧
    db.heldLevels userId workspaceId = [] ∧ db.isOwner userId workspaceId = false ∧
    db.hasSystemRoles = false

instance : Decidable (db.StandingUnreadable userId workspaceId) :=
  inferInstanceAs (Decidable (_ ∧ _ ∧ _ ∧ _ ∧ _))

end Tables

/-- The message of the error a broken installation is reported with. -/
def systemRolesMissing : String :=
  "the system roles are missing from this database, so nobody has any access. " ++
  "They are seeded by migration 0058 and asserted at boot; a database that " ++
  "lost them was probably truncated or restored in part (ADR-0087)."

def loadWorkspaceStanding (db : Tables) (userId workspaceId : Uuid) :
    Except String WorkspaceStanding :=
  if !db.isMember userId workspaceId then .ok notAMember else
    let roleKey := db.roleKey userId workspaceId
    let pageLevel := firstByRankDesc Role.caseRank (db.heldLevels userId workspaceId)
    let isOwner := db.isOwner userId workspaceId
    if (roleKey = none ∧ pageLevel = none ∧ isOwner = false) ∧ db.hasSystemRoles = false then
      .error systemRolesMissing
    else .ok {
      role := roleKey.bind WorkspaceRole.ofKey?
      isMember := true
      -- every value of the column's enumeration is in `ROLE_ORDER`
      pageLevel := pageLevel.filter fun level => roleOrder.contains level
      rights := ((db.heldRows userId workspaceId).flatMap
        fun held => held.rights.filterMap Right.ofName?).dedup
      isOwner }

section Standing

variable {db : Tables} {userId workspaceId : Uuid} {standing : WorkspaceStanding}

private theorem filter_contains_roleOrder (level : Option Role) :
    (level.filter fun l => roleOrder.contains l) = level := by
  rcases level with _ | level
  · rfl
  · cases level <;> rfl

theorem loadWorkspaceStanding_eq_error_iff {message : String} :
    loadWorkspaceStanding db userId workspaceId = .error message ↔
      db.StandingUnreadable userId workspaceId ∧ message = systemRolesMissing := by
  cases hmem : db.isMember userId workspaceId with
  | false => simp [loadWorkspaceStanding, Tables.StandingUnreadable, hmem]
  | true =>
    simp only [loadWorkspaceStanding, hmem, Bool.not_true, Bool.false_eq_true, if_false,
      firstByRankDesc_eq_none_iff, Tables.StandingUnreadable, true_and]
    split
    · rename_i h
      rw [Except.error.injEq, eq_comm]
      tauto
    · rename_i h
      simp only [reduceCtorEq, false_iff]
      tauto

theorem loadWorkspaceStanding_isMember
    (h : loadWorkspaceStanding db userId workspaceId = .ok standing) :
    standing.isMember = db.isMember userId workspaceId := by
  cases hmem : db.isMember userId workspaceId with
  | false =>
    simp only [loadWorkspaceStanding, hmem, Bool.not_false, if_true, Except.ok.injEq] at h
    simp [← h, notAMember]
  | true =>
    simp only [loadWorkspaceStanding, hmem, Bool.not_true, Bool.false_eq_true, if_false] at h
    split at h
    · simp at h
    · rw [← Except.ok.inj h]

theorem heldLevels_eq_nil (h : db.isMember userId workspaceId = false) :
    db.heldLevels userId workspaceId = [] := by
  have hrows : db.memberRows userId workspaceId = [] := by
    simpa [Tables.isMember] using h
  simp [Tables.heldLevels, Tables.heldRows, Tables.heldByMembership, Tables.heldByGroups, hrows]

theorem loadWorkspaceStanding_pageLevel
    (h : loadWorkspaceStanding db userId workspaceId = .ok standing) :
    IsWidest {level | level ∈ db.heldLevels userId workspaceId} standing.pageLevel := by
  cases hmem : db.isMember userId workspaceId with
  | false =>
    simp only [loadWorkspaceStanding, hmem, Bool.not_false, if_true, Except.ok.injEq] at h
    simp [← h, notAMember, heldLevels_eq_nil hmem]
  | true =>
    simp only [loadWorkspaceStanding, hmem, Bool.not_true, Bool.false_eq_true, if_false] at h
    split at h
    · simp at h
    · rw [← Except.ok.inj h]
      simp only [filter_contains_roleOrder]
      exact isWidest_firstByRankDesc Role.caseRank_le_caseRank _

end Standing

end Sone
