import Sone.Access.Resolve

/-!
# Who may read the history of a page

`mayReadPage` of `http/pages.ts` guards the version list, the text of a version, the
comparison of two and the backlinks. It loads the page itself and hands `effectiveRole` a
location of its own making: the query selects `restricted`, and the location is filled from
`restricted_at`, a column the row does not have. What `effectiveRole` sees there is
undefined, which is neither null nor a page of the path.

`effectiveRoleOf` is `effectiveRole` over a location in which the value may be missing. On a
location as the loader makes it, the two are one (`effectiveRoleOf_toBuilt`). On one where it
is missing, a level below `admin` gives nothing and no grant is fenced
(`effectiveRoleOf_ne_none_iff`), so the guard refuses members an ordinary page and serves a
restricted one to a grant from above. `admits_mayReadPage_iff` says when neither shows.
-/

namespace Sone

/-- `PageLocation`, built by a caller from a row: what the row lacks is undefined, which is
the outer `none`. -/
structure BuiltLocation where
  id : Uuid
  workspaceId : Uuid
  ancestorIds : List Uuid
  restrictedAt : Option (Option Uuid)
  deriving DecidableEq, Repr

/-- A location that was loaded lacks nothing. -/
def PageLocation.toBuilt (page : PageLocation) : BuiltLocation :=
  ⟨page.id, page.workspaceId, page.ancestorIds, some page.restrictedAt⟩

namespace BuiltLocation

variable (page : BuiltLocation)

/-- The path, root first, with the page itself last. -/
def path : List Uuid := page.ancestorIds ++ [page.id]

def inScope (scopePageId : Uuid) (includeSubtree : Bool) : Bool :=
  scopePageId = page.id || (includeSubtree && page.ancestorIds.contains scopePageId)

/-- `fence`: `path.indexOf` finds no undefined, and what it does not find counts as no
fence. -/
def fence : Option ℕ :=
  match page.restrictedAt with
  | none => none
  | some none => none
  | some (some id) => page.path.idxOf? id

/-- Whether a grant made on a page stops at the restriction. -/
def isFenced (scopePageId : Uuid) : Bool :=
  match page.fence with
  | none => false
  | some fence =>
    match page.path.idxOf? scopePageId with
    | none => true
    | some at' => at' < fence

end BuiltLocation

/-- `effectiveRole`, over a location of a caller's making: `restrictedAt === null` is false
of what is undefined. -/
def effectiveRoleOf (claims : AccessClaims) (page : BuiltLocation) : Option Role :=
  if page.workspaceId ≠ claims.workspaceId then none else
    let best : Option Role :=
      if claims.pageLevel = some .admin then consider none .admin
      else if page.restrictedAt = some none then claims.pageLevel.bind (consider none)
      else none
    let best := claims.grants.foldl (fun best grant =>
      if !page.inScope grant.scopePageId grant.includeSubtree then best
      else if page.isFenced grant.scopePageId then best
      else consider best grant.role) best
    best.map fun best =>
      if claims.pageLevel = some .admin then best else
        claims.caps.foldl (fun best cap =>
          if page.inScope cap.scopePageId cap.includeSubtree && !atLeast cap.maxLevel best
          then cap.maxLevel else best) best

/-- `ctx.fail`: the status and the code a request is refused with. -/
structure HttpRefusal where
  status : ℕ
  code : String
  deriving DecidableEq, Repr

def claimsOrNull (env : Env) (db : Tables) (sessionToken : Option String) (workspaceId : Uuid) :
    Except String (Option AccessClaims) :=
  match sessionToken.filter (· ≠ "") with
  | none => .ok none
  | some token => resolveSessionClaims env db token workspaceId

/-- `mayReadPage`: refused, or admitted. The column `archived_at` is given beside the rows. -/
def mayReadPage (env : Env) (db : Tables) (archivedAt : Uuid → Option Time)
    (sessionToken : Option String) (pageId : Uuid) : Except String (Except HttpRefusal Unit) :=
  match (db.pages.filter fun p => p.id = pageId ∧ archivedAt p.id = none).head? with
  | none => .ok (.error ⟨404, "not_found"⟩)
  | some page =>
    if (sessionToken.filter (· ≠ "")).isNone then .ok (.error ⟨401, "not_authenticated"⟩)
    else do
      let claims ← claimsOrNull env db sessionToken page.workspaceId
      let role := claims.bind fun claims =>
        -- the row has `restricted`, and no `restricted_at`
        effectiveRoleOf claims ⟨page.id, page.workspaceId, page.ancestorIds, none⟩
      if role = none then
        -- not a member is indistinguishable from the page not existing
        return .error ⟨404, "not_found"⟩
      return .ok ()

/-! ### What a missing restriction does -/

section Missing

variable {claims : AccessClaims} {page : PageLocation} {scopePageId : Uuid}

theorem effectiveRoleOf_toBuilt :
    effectiveRoleOf claims page.toBuilt = effectiveRole claims page := by
  have hfenced : ∀ scope, page.toBuilt.isFenced scope = page.isFenced scope := by
    intro scope
    rw [BuiltLocation.isFenced, BuiltLocation.fence, PageLocation.isFenced, PageLocation.toBuilt]
    rcases page.restrictedAt with _ | id
    · rfl
    · rfl
  have hscope : ∀ scope sub, page.toBuilt.inScope scope sub = page.inScope scope sub :=
    fun _ _ => rfl
  simp only [effectiveRoleOf, effectiveRole, hfenced, hscope]
  simp [PageLocation.toBuilt]

/-- The location `mayReadPage` makes of a page. -/
def PageLocation.withoutRestriction (page : PageLocation) : BuiltLocation :=
  ⟨page.id, page.workspaceId, page.ancestorIds, none⟩

/-- **Where the restriction is missing** a level below `admin` is withheld everywhere, and no
grant is. -/
theorem effectiveRoleOf_withoutRestriction :
    effectiveRoleOf claims page.withoutRestriction =
      effectiveRole { claims with pageLevel := claims.pageLevel.filter (· = .admin) }
        { page with restrictedAt := none } := by
  have hadmin : claims.pageLevel.filter (· = .admin) = some .admin ↔
      claims.pageLevel = some .admin := by
    rcases claims.pageLevel with _ | level
    · simp
    · cases level <;> simp [Option.filter]
  have hlevel : (if claims.pageLevel = some .admin then consider none .admin
      else if page.withoutRestriction.restrictedAt = some none then
        claims.pageLevel.bind (consider none) else none) =
      if claims.pageLevel.filter (· = .admin) = some .admin then consider none .admin
      else if ({ page with restrictedAt := none } : PageLocation).restrictedAt = none then
        (claims.pageLevel.filter (· = .admin)).bind (consider none) else none := by
    by_cases h : claims.pageLevel = some .admin
    · simp only [hadmin, if_pos h]
    · have hnone : claims.pageLevel.filter (· = .admin) = none := by
        rcases hl : claims.pageLevel with _ | level
        · rfl
        · have hne : level ≠ .admin := fun heq => h (hl.trans (congrArg some heq))
          simp [Option.filter, hne]
      simp [h, hnone, PageLocation.withoutRestriction]
  rw [effectiveRoleOf, effectiveRole, hlevel]
  simp only [hadmin]
  rfl

/-- With the restriction missing, `admin` and any grant in scope give a role. -/
theorem effectiveRoleOf_ne_none_iff :
    effectiveRoleOf claims page.withoutRestriction ≠ none ↔
      page.workspaceId = claims.workspaceId ∧ (claims.pageLevel = some .admin ∨
        ∃ g ∈ claims.grants, page.inScope g.scopePageId g.includeSubtree = true) := by
  have hlevel : (claims.pageLevel.filter (· = .admin)) ≠ none ↔
      claims.pageLevel = some .admin := by
    rcases claims.pageLevel with _ | level
    · simp
    · cases level <;> simp [Option.filter]
  rw [effectiveRoleOf_withoutRestriction, effectiveRole_ne_none_iff, AccessClaims.levelOn,
    if_pos (.inr rfl), hlevel, AccessClaims.grantsOn, ne_eq, List.map_eq_nil_iff,
    List.filter_eq_nil_iff]
  simp only [PageLocation.isFenced, Option.bind_none]
  push Not
  simp [PageLocation.inScope]

/-- **The caller reads the page alike** by the guard and by their claims: they are a page
admin of the workspace, or on an unrestricted page have no level or a grant in scope, or on
a restricted one have no grant in scope or one that is not fenced. -/
def AccessClaims.ReadsAlike (claims : AccessClaims) (page : PageLocation) : Prop :=
  claims.pageLevel = some .admin ∨
    if page.restrictedAt = none then
      claims.pageLevel ≠ none →
        ∃ g ∈ claims.grants, page.inScope g.scopePageId g.includeSubtree = true
    else
      (∃ g ∈ claims.grants, page.inScope g.scopePageId g.includeSubtree = true) →
        ∃ g ∈ claims.grants, page.inScope g.scopePageId g.includeSubtree = true ∧
          page.isFenced g.scopePageId = false

theorem effectiveRoleOf_ne_none_iff_iff (hws : page.workspaceId = claims.workspaceId) :
    (effectiveRoleOf claims page.withoutRestriction ≠ none ↔ effectiveRole claims page ≠ none) ↔
      claims.ReadsAlike page := by
  have hgrants : claims.grantsOn page ≠ [] ↔
      ∃ g ∈ claims.grants, page.inScope g.scopePageId g.includeSubtree = true ∧
        page.isFenced g.scopePageId = false := by
    rw [AccessClaims.grantsOn, ne_eq, List.map_eq_nil_iff, List.filter_eq_nil_iff]
    push Not
    simp
  rw [effectiveRoleOf_ne_none_iff, effectiveRole_ne_none_iff, hgrants, AccessClaims.levelOn,
    AccessClaims.ReadsAlike]
  simp only [hws, true_and]
  by_cases hadmin : claims.pageLevel = some .admin
  · simp [hadmin]
  · by_cases hfree : page.restrictedAt = none
    · have hnotFenced : ∀ scope, page.isFenced scope = false := fun scope => by
        rw [PageLocation.isFenced, hfree, Option.bind_none]
      simp only [hadmin, hfree, hnotFenced, if_true, or_true, and_true, false_or]
      tauto
    · simp only [hadmin, hfree, if_false, or_false, ne_eq, not_true_eq_false, false_or]
      refine ⟨fun h => h.mp, fun h => ⟨h, ?_⟩⟩
      rintro ⟨g, hg, hscope, -⟩
      exact ⟨g, hg, hscope⟩

end Missing

/-! ### The guard -/

namespace Database

variable {env : Env} {db : Database} {archivedAt : Uuid → Option Time}
  {sessionToken : Option String} {page : PageRow} {claims : AccessClaims}
  {location : PageLocation}

theorem exists_of_claimsOrNull {tables : Tables} {workspaceId : Uuid}
    (h : claimsOrNull env tables sessionToken workspaceId = .ok (some claims)) :
    ∃ session : ResolvedSession, accountClaims tables
      (accountPrincipal session.user.isGuest session.user.userId session.user.displayName)
      session.user.userId workspaceId = .ok (some claims) := by
  rw [claimsOrNull] at h
  rcases htoken : sessionToken.filter (· ≠ "") with _ | token
  · rw [htoken] at h
    exact absurd (Except.ok.inj h) (by simp)
  · rw [htoken] at h
    simp only [resolveSessionClaims] at h
    rcases hsession : resolveSession env tables token with _ | session
    · simp [hsession] at h
    · simp only [hsession] at h
      split_ifs at h with hgate
      · simp at h
      · exact ⟨session, h⟩

theorem workspaceId_of_claimsOrNull {workspaceId : Uuid}
    (h : claimsOrNull env db.toTables sessionToken workspaceId = .ok (some claims)) :
    claims.workspaceId = workspaceId := by
  obtain ⟨session, hclaims⟩ := exists_of_claimsOrNull h
  exact (eq_of_accountClaims hclaims).2

/-- **What the guard answers** somebody with claims. -/
theorem mayReadPage_eq (hp : page ∈ db.pages) (harchived : archivedAt page.id = none)
    (hclaims : claimsOrNull env db.toTables sessionToken page.workspaceId = .ok (some claims))
    (hlocation : loadPageLocation db.toTables page.id = some location) :
    mayReadPage env db.toTables archivedAt sessionToken page.id = .ok (.ok ()) ↔
      effectiveRoleOf claims location.withoutRestriction ≠ none := by
  have hhead : (db.pages.filter fun p => p.id = page.id ∧ archivedAt p.id = none).head? =
      some page := by
    refine head?_eq_some_of_forall (List.ne_nil_of_mem (a := page) ?_) fun q hq => ?_
    · simp [hp, harchived]
    · obtain ⟨hq, hid, -⟩ : q ∈ db.pages ∧ q.id = page.id ∧ archivedAt q.id = none := by
        simpa using hq
      exact db.pages_key q hq page hp hid
  have htoken : (sessionToken.filter (· ≠ "")).isNone = false := by
    rcases htoken : sessionToken.filter (· ≠ "") with _ | token
    · rw [claimsOrNull, htoken] at hclaims
      exact absurd (Except.ok.inj hclaims) (by simp)
    · rfl
  rw [loadPageLocation_eq hp, Option.some.injEq] at hlocation
  subst hlocation
  simp only [mayReadPage, hhead, htoken, hclaims, Bool.false_eq_true, if_false, bind, Except.bind,
    Option.bind_some, PageLocation.withoutRestriction]
  split_ifs with hnone
  · simp [hnone, pure, Except.pure]
  · simp [hnone, pure, Except.pure]

/-- **When the guard is right.** For every caller with claims in the workspace of a page that
is not archived, `mayReadPage` admits exactly those whom the claims give a role, if and only
if the caller reads the page alike. -/
theorem admits_mayReadPage_iff (env : Env) (db : Database) (archivedAt : Uuid → Option Time)
    (sessionToken : Option String) (page : PageRow) (claims : AccessClaims)
    (location : PageLocation) (hp : page ∈ db.pages) (harchived : archivedAt page.id = none)
    (hclaims : claimsOrNull env db.toTables sessionToken page.workspaceId = .ok (some claims))
    (hlocation : loadPageLocation db.toTables page.id = some location) :
    (mayReadPage env db.toTables archivedAt sessionToken page.id = .ok (.ok ()) ↔
        effectiveRole claims location ≠ none) ↔ claims.ReadsAlike location := by
  have hws : location.workspaceId = claims.workspaceId := by
    rw [loadPageLocation_eq hp, Option.some.injEq] at hlocation
    rw [workspaceId_of_claimsOrNull hclaims, ← hlocation]
  rw [mayReadPage_eq hp harchived hclaims hlocation, effectiveRoleOf_ne_none_iff_iff hws]

/-! ### Two callers the guard is wrong about -/

/-- A section restricted under an open page: account 7 is a member who may edit, and account 8
is a guest with a grant on the open page that reaches its subtree. -/
def historyDatabase : Database where
  workspaces := [⟨1, none⟩]
  users := [⟨7, none, "Mara", false, none⟩, ⟨8, none, "Gast", true, none⟩]
  sessions := [⟨70, 7, "seven", none, 1000, 0⟩, ⟨80, 8, "eight", none, 1000, 0⟩]
  roles := [⟨3, none, some "member", some .editor, []⟩, ⟨4, none, some "guest", none, []⟩]
  workspaceMembers := [⟨1, 7, 3, false⟩, ⟨1, 8, 4, false⟩]
  pages := [⟨10, 1, none, [], false⟩, ⟨11, 1, some 10, [10], true⟩]
  pagePermissions := [⟨10, 8, .editor, true⟩]
  pages_key := by decide
  pages_workspace := by decide
  pages_root := by decide
  pages_parent := by simp [PageRow.path]

/-- The moment the two callers ask, with tokens stored as they are. -/
def historyEnv : Env where
  now := 0
  hashToken := id

/-- **The guard is wrong** about a member, who is refused a page they may edit, and about a
guest, who is served a restricted page their grant does not reach. -/
theorem not_admits_mayReadPage :
    (mayReadPage historyEnv historyDatabase.toTables (fun _ => none) (some "seven") 10 =
        .ok (.error ⟨404, "not_found"⟩) ∧
      documentAccess historyEnv historyDatabase.toTables "seven" 10 = .ok (some .editor)) ∧
    (mayReadPage historyEnv historyDatabase.toTables (fun _ => none) (some "eight") 11 =
        .ok (.ok ()) ∧
      documentAccess historyEnv historyDatabase.toTables "eight" 11 = .ok none) ∧
    ¬∀ (env : Env) (db : Database) (archivedAt : Uuid → Option Time)
      (sessionToken : Option String) (page : PageRow) (claims : AccessClaims)
      (location : PageLocation), page ∈ db.pages → archivedAt page.id = none →
      claimsOrNull env db.toTables sessionToken page.workspaceId = .ok (some claims) →
      loadPageLocation db.toTables page.id = some location →
      (mayReadPage env db.toTables archivedAt sessionToken page.id = .ok (.ok ()) ↔
        effectiveRole claims location ≠ none) := by
  refine ⟨by decide, by decide, fun h => ?_⟩
  have hmember := h historyEnv historyDatabase (fun _ => none) (some "seven")
    ⟨10, 1, none, [], false⟩
    ⟨.user 7 "Mara", 1, some .member, some .editor, [], []⟩ ⟨10, 1, [], none⟩
    (by decide) rfl (by decide) (by decide)
  exact absurd (hmember.mpr (by decide)) (by decide)

theorem admits_mayReadPage_iff_member :
    (mayReadPage historyEnv historyDatabase.toTables (fun _ => none) (some "seven") 10 =
        .ok (.ok ()) ↔
      effectiveRole ⟨.user 7 "Mara", 1, some .member, some .editor, [], []⟩
        ⟨10, 1, [], none⟩ ≠ none) ↔
      AccessClaims.ReadsAlike ⟨.user 7 "Mara", 1, some .member, some .editor, [], []⟩
        ⟨10, 1, [], none⟩ :=
  admits_mayReadPage_iff historyEnv historyDatabase (fun _ => none) (some "seven")
    ⟨10, 1, none, [], false⟩ _ _ (by decide) rfl (by decide) (by decide)

end Database

end Sone
