import Sone.Access.Role

/-!
# The tables access is decided from

The rows the access queries read, with the columns they read, and the database as the
schema constrains it. A `Tables` value is any collection of rows: the queries run on it.
A `Database` carries what the schema and the one writer of `pages.ancestor_ids` guarantee,
so that later results need not assume it: page ids are unique, a page's workspace exists,
and `ancestor_ids` is the parent's path (root first, excluding the page itself).
-/

namespace Sone

/-- A `uuid` column. -/
abbrev Uuid := ℕ

/-- A `timestamptz` column, in milliseconds. -/
abbrev Time := ℕ

/-- `workspaces`. -/
structure WorkspaceRow where
  id : Uuid
  /-- Whose personal workspace this is. -/
  personalFor : Option Uuid

/-- `users`. -/
structure UserRow where
  id : Uuid
  email : Option String
  displayName : String
  isGuest : Bool
  disabledAt : Option Time
  deriving DecidableEq

/-- `sessions`. -/
structure SessionRow where
  id : Uuid
  userId : Uuid
  tokenHash : String
  revokedAt : Option Time
  expiresAt : Time
  lastSeenAt : Time

/-- `roles`: a system role has a key and no workspace, a custom role the reverse. -/
structure RoleRow where
  id : Uuid
  workspaceId : Option Uuid
  key : Option String
  /-- What a page carrying no rules of its own gives whoever holds the role. -/
  pageLevel : Option Role
  rights : List String

/-- `workspace_members`. -/
structure WorkspaceMemberRow where
  workspaceId : Uuid
  userId : Uuid
  roleId : Uuid
  isOwner : Bool

/-- `groups`. -/
structure GroupRow where
  id : Uuid
  workspaceId : Uuid
  roleId : Option Uuid

/-- `group_members`. -/
structure GroupMemberRow where
  groupId : Uuid
  userId : Uuid

/-- `pages`. -/
structure PageRow where
  id : Uuid
  workspaceId : Uuid
  parentPageId : Option Uuid
  /-- Root first, excluding the page itself. -/
  ancestorIds : List Uuid
  /-- Whether the page withholds the workspace default. -/
  restricted : Bool
  deriving DecidableEq

/-- `page_permissions`: a grant to a person. -/
structure PagePermissionRow where
  pageId : Uuid
  userId : Uuid
  role : Role
  includeSubtree : Bool

/-- `page_group_permissions`: a grant to a group. -/
structure PageGroupPermissionRow where
  pageId : Uuid
  groupId : Uuid
  role : Role
  includeSubtree : Bool

/-- `page_caps`: a ceiling. -/
structure PageCapRow where
  pageId : Uuid
  maxLevel : Role
  includeSubtree : Bool

/-- `share_tokens`: a share link. -/
structure ShareTokenRow where
  id : Uuid
  workspaceId : Uuid
  scopePageId : Uuid
  includeSubtree : Bool
  role : Role
  revokedAt : Option Time
  expiresAt : Option Time

/-- `share_sessions`: an anonymous visitor of a share link. -/
structure ShareSessionRow where
  id : Uuid
  shareTokenId : Uuid
  displayName : String
  expiresAt : Time

/-- The rows of every table the access queries read. -/
structure Tables where
  workspaces : List WorkspaceRow := []
  users : List UserRow := []
  sessions : List SessionRow := []
  roles : List RoleRow := []
  workspaceMembers : List WorkspaceMemberRow := []
  groups : List GroupRow := []
  groupMembers : List GroupMemberRow := []
  pages : List PageRow := []
  pagePermissions : List PagePermissionRow := []
  pageGroupPermissions : List PageGroupPermissionRow := []
  pageCaps : List PageCapRow := []
  shareTokens : List ShareTokenRow := []
  shareSessions : List ShareSessionRow := []

/-- What the surroundings of a query supply besides the rows: the clock, the hash the
tokens are stored under, and the second-factor gate the server installs at start. -/
structure Env where
  now : Time
  hashToken : String → String
  /-- `secondFactorGate()`: absent on an instance that requires nothing. The path
  argument is left out because the resolvers of claims pass the empty one. -/
  secondFactorGate : Option (Uuid → Option String) := none

/-- Whether the installed gate refuses the account: it returned a reason, and in the
source's `if (gate && (await gate(…)))` an empty reason does not count as one. -/
def Env.gateBlocks (env : Env) (userId : Uuid) : Bool :=
  match env.secondFactorGate with
  | none => false
  | some gate => (gate userId).any fun reason => reason ≠ ""

/-- A page's path: its ancestors root first, then the page itself. -/
def PageRow.path (page : PageRow) : List Uuid := page.ancestorIds ++ [page.id]

/-- **The database**: the rows, with what the schema and the page writer guarantee about
them. -/
structure Database extends Tables where
  /-- The primary key of `pages`. -/
  pages_key : ∀ p ∈ pages, ∀ q ∈ pages, p.id = q.id → p = q
  /-- The foreign key of `pages.workspace_id`. -/
  pages_workspace : ∀ p ∈ pages, ∃ w ∈ workspaces, w.id = p.workspaceId
  /-- A page without a parent has no ancestors. -/
  pages_root : ∀ p ∈ pages, p.parentPageId = none → p.ancestorIds = []
  /-- A page with a parent is in the parent's workspace, and its ancestors are the
  parent's path. -/
  pages_parent : ∀ p ∈ pages, ∀ parentId, p.parentPageId = some parentId →
    ∃ q ∈ pages, q.id = parentId ∧ q.workspaceId = p.workspaceId ∧ p.ancestorIds = q.path

end Sone
