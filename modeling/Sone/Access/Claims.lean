import Sone.Access.Standing

/-!
# Claims, and what they allow on a page

`auth/claims.ts`: every credential is reduced to `AccessClaims`, a snapshot of what somebody
holds in one workspace, and every decision about a document is `effectiveRole`, a pure
function of the claims and the page's location.

`effectiveRole` is three loops over the claims. `effectiveRole_eq_ceiled` and
`effectiveRole_of_admin` say what they compute: the widest of the level the workspace gives
and the levels of the grants that reach the page (`AccessClaims.levelsOn`), under the
tightest of the caps on the page (`AccessClaims.capsOn`), which does not apply to a
workspace's page admins.
-/

namespace Sone

open List

/-! ### Claims -/

/-- `Principal`: who holds the claims. -/
inductive Principal where
  | user (userId : Uuid) (displayName : String)
  | guest (userId : Uuid) (displayName : String)
  | anonymous (sessionId : Uuid) (displayName : String)
  deriving DecidableEq, Repr

/-- Whether the principal's kind is `user`. -/
def Principal.isUser : Principal → Bool
  | user _ _ => true
  | _ => false

inductive GrantSource where
  | shareToken (tokenId : Uuid)
  | pagePermission
  | pageGroupPermission
  deriving DecidableEq, Repr

structure Grant where
  scopePageId : Uuid
  includeSubtree : Bool
  role : Role
  source : GrantSource
  deriving DecidableEq, Repr

/-- `Cap`: a ceiling on a page and, when it says so, everything under it. -/
structure Cap where
  scopePageId : Uuid
  includeSubtree : Bool
  maxLevel : Role
  deriving DecidableEq, Repr

structure AccessClaims where
  principal : Principal
  workspaceId : Uuid
  workspaceRole : Option WorkspaceRole
  pageLevel : Option Role
  grants : List Grant
  caps : List Cap
  deriving DecidableEq, Repr

structure PageLocation where
  id : Uuid
  workspaceId : Uuid
  ancestorIds : List Uuid
  /-- The deepest page on the path that withholds the workspace default. -/
  restrictedAt : Option Uuid
  deriving DecidableEq, Repr

/-! ### Resolving a credential to claims -/

/-- `SESSION_IDLE_DAYS`, in milliseconds. -/
def sessionIdle : Time := 14 * 86400000

structure SessionUser where
  userId : Uuid
  email : Option String
  displayName : String
  isGuest : Bool
  deriving DecidableEq, Repr

/-- What `resolveSession` returns. -/
structure ResolvedSession where
  user : SessionUser
  sessionId : Uuid
  deriving DecidableEq, Repr

/-- `resolveSession`: the account and the session row a token stands for, or nothing for
anything unusable. -/
def resolveSession (env : Env) (db : Tables) (token : String) : Option ResolvedSession :=
  ((db.sessions.filter fun s => s.tokenHash = env.hashToken token ∧ s.revokedAt = none ∧
      env.now < s.expiresAt ∧ env.now < s.lastSeenAt + sessionIdle).flatMap fun s =>
    (db.users.filter fun u => u.id = s.userId ∧ u.disabledAt = none).map fun u =>
      ⟨⟨u.id, u.email, u.displayName, u.isGuest⟩, s.id⟩).head?

/-- `pageGrantsFor`: every page grant somebody holds in a workspace, their own and their
groups'. -/
def pageGrantsFor (db : Tables) (userId workspaceId : Uuid) : List Grant :=
  ((db.pagePermissions.filter fun pp => pp.userId = userId).flatMap fun pp =>
    (db.pages.filter fun p => p.id = pp.pageId ∧ p.workspaceId = workspaceId).map fun _ =>
      ⟨pp.pageId, pp.includeSubtree, pp.role, .pagePermission⟩) ++
  db.pageGroupPermissions.flatMap fun gp =>
    (db.groupMembers.filter fun gm => gm.groupId = gp.groupId ∧ gm.userId = userId).flatMap
      fun _ => (db.pages.filter fun p => p.id = gp.pageId ∧ p.workspaceId = workspaceId).map
        fun _ => ⟨gp.pageId, gp.includeSubtree, gp.role, .pageGroupPermission⟩

/-- `pageCapsFor`: every ceiling set in a workspace. -/
def pageCapsFor (db : Tables) (workspaceId : Uuid) : List Cap :=
  db.pageCaps.flatMap fun c =>
    (db.pages.filter fun p => p.id = c.pageId ∧ p.workspaceId = workspaceId).map fun _ =>
      ⟨c.pageId, c.includeSubtree, c.maxLevel⟩

def accountPrincipal (isGuest : Bool) (userId : Uuid) (displayName : String) : Principal :=
  if isGuest then .guest userId displayName else .user userId displayName

/-- The claims of an account in a workspace: what `resolveSessionClaims` and
`revalidateClaims` both build once they have an account. -/
def accountClaims (db : Tables) (principal : Principal) (userId workspaceId : Uuid) :
    Except String (Option AccessClaims) := do
  let standing ← loadWorkspaceStanding db userId workspaceId
  if !standing.isMember then return none
  return some {
    principal
    workspaceId
    workspaceRole := standing.role
    pageLevel := standing.pageLevel
    grants := pageGrantsFor db userId workspaceId
    caps := pageCapsFor db workspaceId }

theorem eq_of_accountClaims {db : Tables} {principal : Principal} {userId workspaceId : Uuid}
    {claims : AccessClaims}
    (h : accountClaims db principal userId workspaceId = .ok (some claims)) :
    claims.principal = principal ∧ claims.workspaceId = workspaceId := by
  rw [accountClaims] at h
  rcases hstanding : loadWorkspaceStanding db userId workspaceId with message | standing
  · simp [hstanding, bind, Except.bind] at h
  · simp only [hstanding, bind, Except.bind, pure, Except.pure] at h
    split_ifs at h with hmember
    · simp at h
    · obtain rfl := Option.some.inj (Except.ok.inj h)
      exact ⟨rfl, rfl⟩

def resolveSessionClaims (env : Env) (db : Tables) (sessionToken : String)
    (workspaceId : Uuid) : Except String (Option AccessClaims) :=
  match resolveSession env db sessionToken with
  | none => .ok none
  | some session =>
    if env.gateBlocks session.user.userId then .ok none else
      accountClaims db
        (accountPrincipal session.user.isGuest session.user.userId session.user.displayName)
        session.user.userId workspaceId

/-- `ConnectionCredential`: what a connection keeps of the token it authenticated with. -/
inductive ConnectionCredential where
  | session (sessionId : Uuid)
  | share (shareTokenId shareSessionId : Uuid)
  deriving DecidableEq, Repr

/-- `revalidateClaims`: claims re-resolved from the credential of a connection. -/
def revalidateClaims (env : Env) (db : Tables) (credential : ConnectionCredential)
    (workspaceId : Uuid) : Except String (Option AccessClaims) :=
  match credential with
  | .session sessionId =>
    let rows := (db.sessions.filter fun s => s.id = sessionId ∧ s.revokedAt = none ∧
        env.now < s.expiresAt).flatMap fun s =>
      (db.users.filter fun u => u.id = s.userId ∧ u.disabledAt = none).flatMap fun u =>
        (db.workspaceMembers.filter fun m => m.userId = u.id ∧ m.workspaceId = workspaceId).map
          fun _ => u
    match rows.head? with
    | none => .ok none
    | some row =>
      if env.gateBlocks row.id then .ok none else
        accountClaims db (accountPrincipal row.isGuest row.id row.displayName) row.id
          workspaceId
  | .share shareTokenId shareSessionId =>
    let rows := (db.shareTokens.filter fun st => st.id = shareTokenId ∧ st.revokedAt = none ∧
        (st.expiresAt = none ∨ st.expiresAt.any fun at' => env.now < at')).flatMap fun st =>
      (db.shareSessions.filter fun ss => ss.shareTokenId = st.id ∧ ss.id = shareSessionId ∧
        env.now < ss.expiresAt).map fun ss => (st, ss)
    match rows.head? with
    | none => .ok none
    | some (st, ss) =>
      if st.workspaceId ≠ workspaceId then .ok none else
        .ok (some {
          principal := .anonymous shareSessionId ss.displayName
          workspaceId
          workspaceRole := none
          pageLevel := none
          grants := [⟨st.scopePageId, st.includeSubtree, st.role, .shareToken shareTokenId⟩]
          caps := pageCapsFor db st.workspaceId })

/-! ### Where a page is -/

/-- `restrictedAtSql`: the deepest restricted page among a page's ancestors and itself. -/
def restrictedAt (db : Tables) (path : List Uuid) : Option Uuid :=
  (firstByRankDesc (fun r => path.idxOf r.id)
    (db.pages.filter fun r => r.id ∈ path ∧ r.restricted)).map (·.id)

def loadPageLocation (db : Tables) (pageId : Uuid) : Option PageLocation :=
  (db.pages.filter fun p => p.id = pageId).head?.map fun p =>
    ⟨p.id, p.workspaceId, p.ancestorIds, restrictedAt db p.path⟩

/-! ### What claims allow -/

/-- `consider`: keep the role if it is at least the best so far. -/
def consider (best : Option Role) (role : Role) : Option Role :=
  match best with
  | none => some role
  | some b => if atLeast role b then some role else some b

theorem consider_eq_considerLevel (best : Option Role) (role : Role) :
    consider best role = considerLevel best role := by
  cases best <;> simp [consider, considerLevel]

namespace PageLocation

/-- The path, root first, with the page itself last. -/
def path (page : PageLocation) : List Uuid := page.ancestorIds ++ [page.id]

def inScope (page : PageLocation) (scopePageId : Uuid) (includeSubtree : Bool) : Bool :=
  scopePageId = page.id || (includeSubtree && page.ancestorIds.contains scopePageId)

/-- Whether a grant made on a page stops at the restriction: it was made above where the
restriction starts. -/
def isFenced (page : PageLocation) (scopePageId : Uuid) : Bool :=
  match page.restrictedAt.bind fun id => page.path.idxOf? id with
  | none => false
  | some fence =>
    match page.path.idxOf? scopePageId with
    | none => true
    | some at' => at' < fence

end PageLocation

/-- `effectiveRole`: the role claims give on a page, or nothing. -/
def effectiveRole (claims : AccessClaims) (page : PageLocation) : Option Role :=
  if page.workspaceId ≠ claims.workspaceId then none else
    let best : Option Role :=
      if claims.pageLevel = some .admin then consider none .admin
      else if page.restrictedAt = none then claims.pageLevel.bind (consider none)
      else none
    let best := claims.grants.foldl (fun best grant =>
      if !page.inScope grant.scopePageId grant.includeSubtree then best
      else if page.isFenced grant.scopePageId then best
      else consider best grant.role) best
    best.map fun best =>
      if claims.pageLevel = some .admin then best else
        claims.caps.foldl (fun best cap =>
          if page.inScope cap.scopePageId cap.includeSubtree && !atLeast cap.maxLevel best
          then cap.maxLevel else best) best

namespace AccessClaims

variable (claims : AccessClaims) (page : PageLocation)

/-- The level the workspace gives on the page: withheld by a restriction unless it is
`admin`. -/
def levelOn : Option Role :=
  if claims.pageLevel = some .admin ∨ page.restrictedAt = none then claims.pageLevel else none

def grantsOn : List Role :=
  (claims.grants.filter fun g =>
    page.inScope g.scopePageId g.includeSubtree && !page.isFenced g.scopePageId).map (·.role)

def capsOn : List Role :=
  (claims.caps.filter fun c => page.inScope c.scopePageId c.includeSubtree).map (·.maxLevel)

/-- Everything the claims give on the page, before any cap. -/
def levelsOn : Set Role :=
  {role | claims.levelOn page = some role ∨ role ∈ claims.grantsOn page}

end AccessClaims

section EffectiveRole

variable {claims : AccessClaims} {page : PageLocation} {best cap : Option Role}

private theorem foldl_grants (grants : List Grant) (best : Option Role) :
    grants.foldl (fun best grant =>
      if !page.inScope grant.scopePageId grant.includeSubtree then best
      else if page.isFenced grant.scopePageId then best
      else consider best grant.role) best =
    ((grants.filter fun g => page.inScope g.scopePageId g.includeSubtree &&
      !page.isFenced g.scopePageId).map (·.role)).foldl considerLevel best := by
  rw [foldl_map, foldl_filter]
  congr 1
  funext best grant
  cases page.inScope grant.scopePageId grant.includeSubtree <;>
    cases page.isFenced grant.scopePageId <;> simp [consider_eq_considerLevel]

private theorem foldl_caps (caps : List Cap) (best : Role) :
    caps.foldl (fun best cap =>
      if page.inScope cap.scopePageId cap.includeSubtree && !atLeast cap.maxLevel best
      then cap.maxLevel else best) best =
    ((caps.filter fun c => page.inScope c.scopePageId c.includeSubtree).map
      (·.maxLevel)).foldl lowerLevel best := by
  rw [foldl_map, foldl_filter]
  congr 1
  funext best cap
  have hatLeast : atLeast cap.maxLevel best = decide (best ≤ cap.maxLevel) := by
    rw [Bool.eq_iff_iff, atLeast_iff, decide_eq_true_iff]
  cases page.inScope cap.scopePageId cap.includeSubtree with
  | false => simp
  | true =>
    simp only [Bool.true_and, if_true, lowerLevel, hatLeast]
    by_cases h : best ≤ cap.maxLevel <;> simp [h]

private theorem isWidest_best :
    IsWidest (claims.levelsOn page) ((claims.grantsOn page).foldl considerLevel
      (claims.levelOn page)) :=
  (isWidest_setOf_eq_some (claims.levelOn page)).foldl (claims.grantsOn page)

private theorem effectiveRole_eq (hws : page.workspaceId = claims.workspaceId) :
    effectiveRole claims page =
      ((claims.grantsOn page).foldl considerLevel (claims.levelOn page)).map fun best =>
        if claims.pageLevel = some .admin then best
        else (claims.capsOn page).foldl lowerLevel best := by
  have hlevel : (if claims.pageLevel = some .admin then consider none .admin
      else if page.restrictedAt = none then claims.pageLevel.bind (consider none)
      else none) = claims.levelOn page := by
    unfold AccessClaims.levelOn
    by_cases hadmin : claims.pageLevel = some .admin
    · simp [hadmin, consider]
    · by_cases hfree : page.restrictedAt = none
      · cases h : claims.pageLevel <;> simp_all [consider]
      · simp [hadmin, hfree]
  simp only [effectiveRole, hws, ne_eq, not_true_eq_false, if_false, hlevel, foldl_grants,
    foldl_caps]
  rfl

theorem effectiveRole_of_workspaceId_ne (h : page.workspaceId ≠ claims.workspaceId) :
    effectiveRole claims page = none := by
  simp [effectiveRole, h]

theorem effectiveRole_of_admin (hws : page.workspaceId = claims.workspaceId)
    (hadmin : claims.pageLevel = some .admin) (hbest : IsWidest (claims.levelsOn page) best) :
    effectiveRole claims page = best := by
  rw [effectiveRole_eq hws, ← hbest.unique isWidest_best]
  simp [hadmin]

theorem effectiveRole_eq_ceiled (hws : page.workspaceId = claims.workspaceId)
    (hadmin : claims.pageLevel ≠ some .admin) (hbest : IsWidest (claims.levelsOn page) best)
    (hcap : IsTightest {level | level ∈ claims.capsOn page} cap) :
    effectiveRole claims page = ceiled best cap := by
  rw [effectiveRole_eq hws, ← hbest.unique isWidest_best]
  rcases best with _ | level
  · rfl
  · simp only [hadmin, if_false, Option.map_some]
    exact foldl_lowerLevel level hcap

theorem effectiveRole_ne_none_iff :
    effectiveRole claims page ≠ none ↔
      page.workspaceId = claims.workspaceId ∧
        (claims.levelOn page ≠ none ∨ claims.grantsOn page ≠ []) := by
  by_cases hws : page.workspaceId = claims.workspaceId
  · have hlevels : (claims.levelsOn page).Nonempty ↔
        claims.levelOn page ≠ none ∨ claims.grantsOn page ≠ [] := by
      rw [Option.ne_none_iff_exists', ← isEmpty_eq_false_iff,
        isEmpty_eq_false_iff_exists_mem, ← exists_or]
      rfl
    rw [effectiveRole_eq hws, ne_eq, Option.map_eq_none_iff, ← ne_eq, isWidest_best.ne_none_iff,
      hlevels]
    simp [hws]
  · simp [effectiveRole_of_workspaceId_ne hws, hws]

end EffectiveRole

/-! ### Opening a document -/

structure AuthError where
  message : String
  code : String
  deriving DecidableEq, Repr

/-- One error for "no access" and "insufficient access": telling them apart would say which
pages exist. -/
def notAuthorised : AuthError := ⟨"not authorised for this page", "invalid_credentials"⟩

def requireRole (claims : AccessClaims) (page : PageLocation) (need : Role) :
    Except AuthError Role :=
  match effectiveRole claims page with
  | none => .error notAuthorised
  | some have' => if atLeast have' need then .ok have' else .error notAuthorised

def authorizeDocumentOpen (db : Tables) (claims : AccessClaims) (pageId : Uuid) (need : Role) :
    Except AuthError (Role × PageLocation) :=
  match loadPageLocation db pageId with
  | none => .error notAuthorised
  | some page => (requireRole claims page need).map fun role => (role, page)

theorem requireRole_viewer {claims : AccessClaims} {page : PageLocation} {role : Role} :
    requireRole claims page .viewer = .ok role ↔ effectiveRole claims page = some role := by
  cases h : effectiveRole claims page with
  | none => simp [requireRole, h]
  | some have' =>
    have hviewer : Role.viewer ≤ have' := by cases have' <;> decide
    simp [requireRole, h, hviewer]

end Sone
