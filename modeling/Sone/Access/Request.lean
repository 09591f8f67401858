import Sone.Access.Claims
import Sone.Transition.Outcome
import Mathlib.Data.List.Perm.Basic

/-!
# A request with several credentials

`claimsForRequest` (`http/auth.ts`): the claims of a request that carries a session cookie,
any number of share links, or both. A session that gives claims in the workspace answers
alone; otherwise the grants of every link that reaches the workspace are merged under the
claims of the first.

The links of one workspace carry the same caps and no level of the workspace, so merging
their grants gives on every page the widest of what each gives
(`isWidest_effectiveRole_merged`). `Request.roles` collects what the credentials give one by
one, a link that requires an account being given the account the cookie stands for.
`claimsForRequest_law` is how the answer relates to them: it is the widest of them where the
session is never lesser than the links (`Request.NeverLesser`, the ground the source states
for letting it answer alone), it does not depend on the order of the links, and it grows
with the credentials. Without claims of its own, a request has what a link that admits it gives, and
nothing else (`exists_roleOn_iff_of_links`).
-/

namespace Sone

open Option List Bool

/-- `share_tokens`, with the columns a link is resolved by. -/
structure ShareLinkRow extends ShareTokenRow where
  tokenHash : String
  passwordHash : Option String
  allowAnonymous : Bool

structure RequestTables extends Tables where
  shareLinks : List ShareLinkRow := []

/-- The surroundings, with the cast of a text to a `uuid`: a text that is none fails the
statement. -/
structure RequestEnv extends Env where
  uuid? : String → Option Uuid

/-- The credentials a request carries: the cookies, parsed. -/
structure Request where
  /-- `sessionTokenFrom`. -/
  sessionToken : Option String
  /-- `shareTokensFrom`. -/
  shareTokens : List String
  /-- `shareUnlocksFrom`: share tokens with the share session each was unlocked by. -/
  unlocks : List (String × String)
  deriving DecidableEq

namespace Request

/-- The session token, where the cookie is there and not empty. -/
def cookie (request : Request) : Option String := request.sessionToken.filter (· ≠ "")

/-- `unlocks.get(token)`: the last pair of a token counts. -/
def unlock (request : Request) (token : String) : Option String :=
  request.unlocks.reverse.lookup token

end Request

/-- `ShareTokenResolution`, with its claims. -/
structure LinkResolution where
  claims : AccessClaims
  passwordRequired : Bool
  signInRequired : Bool
  deriving DecidableEq, Repr

/-- The id in the claims of a visitor no row was written for: the empty string in the
source, which is the id of no row. -/
def noShareSession : Uuid := 0

/-- Claims that give nothing, for a link that still requires something. -/
def emptyLinkClaims (workspaceId : Uuid) : AccessClaims where
  principal := .anonymous noShareSession ""
  workspaceId
  workspaceRole := none
  pageLevel := none
  grants := []
  caps := []

/-- Claims of a visitor: the link's one grant, under the caps of its workspace. -/
def visitorClaims (db : RequestTables) (row : ShareLinkRow) : AccessClaims where
  principal := .anonymous noShareSession "Guest"
  workspaceId := row.workspaceId
  workspaceRole := none
  pageLevel := none
  grants := [⟨row.scopePageId, row.includeSubtree, row.role, .shareToken row.id⟩]
  caps := pageCapsFor db.toTables row.workspaceId

/-- Whether a share session is a live one of the link; the statement fails on a text that is
no `uuid`. -/
def isLiveShareSession (env : RequestEnv) (db : RequestTables) (shareSessionId : String)
    (shareTokenId : Uuid) : Except String Bool :=
  match env.uuid? shareSessionId with
  | none => .error "invalid input syntax for type uuid"
  | some id => .ok (db.shareSessions.any fun ss =>
      ss.id = id ∧ ss.shareTokenId = shareTokenId ∧ env.now < ss.expiresAt)

/-- Whether the password of a link is still required: a live share session of the link is
the proof that it was given. -/
def isLocked (env : RequestEnv) (db : RequestTables) (row : ShareLinkRow) :
    Option String → Except String Bool
  | none => .ok row.passwordHash.isSome
  | some shareSessionId =>
    if row.passwordHash.isSome then
      (isLiveShareSession env db shareSessionId row.id).map fun unlocked => !unlocked
    else .ok false

/-- The share session that was presented, asked for again. -/
def isStillThere (env : RequestEnv) (db : RequestTables) (row : ShareLinkRow) :
    Option String → Except String Bool
  | none => .ok false
  | some shareSessionId => isLiveShareSession env db shareSessionId row.id

/-- The row of a link that is neither revoked nor expired. -/
def findLink (env : RequestEnv) (db : RequestTables) (shareToken : String) :
    Option ShareLinkRow :=
  (db.shareLinks.filter fun row => row.tokenHash = env.hashToken shareToken ∧
    row.revokedAt = none ∧
      (row.expiresAt = none ∨ row.expiresAt.any fun at' => env.now < at')).head?

/-- `resolveShareTokenClaims` as a request resolves a link: with no password and no name,
and not as a visit, so nothing is written. -/
def resolveShareTokenClaims (env : RequestEnv) (db : RequestTables) (shareToken : String)
    (existingShareSessionId : Option String) (signedIn : Bool) :
    Except String (Option LinkResolution) :=
  match findLink env db shareToken with
  | none => .ok none
  | some row => do
    let locked ← isLocked env db row existingShareSessionId
    if locked then .ok (some ⟨emptyLinkClaims row.workspaceId, true, false⟩)
    else if !row.allowAnonymous && !signedIn then
      .ok (some ⟨emptyLinkClaims row.workspaceId, false, true⟩)
    else
      -- what it finds is not used where the request is no visit
      let _ ← isStillThere env db row existingShareSessionId
      .ok (some ⟨visitorClaims db row, false, false⟩)

def accountPresent (env : RequestEnv) (db : RequestTables) (token : Option String) : Bool :=
  match token with
  | none => false
  | some token => (resolveSession env.toEnv db.toTables token).isSome

/-- What `claimsForRequest` answers. -/
inductive RequestAnswer where
  | ok (claims : AccessClaims)
  | anonymous
  | rejected
  deriving DecidableEq, Repr

/-- One turn of the loop over the links: the claims of the first that counts, and the grants
of all so far. -/
def mergeLink (env : RequestEnv) (db : RequestTables) (request : Request) (workspaceId : Uuid)
    (signedIn : Bool) (merged : Option AccessClaims × List Grant) (shareToken : String) :
    Except String (Option AccessClaims × List Grant) := do
  let resolved ← resolveShareTokenClaims env db shareToken (request.unlock shareToken) signedIn
  match resolved with
  | none => .ok merged
  | some resolved =>
    if !resolved.passwordRequired && !resolved.signInRequired &&
        resolved.claims.workspaceId == workspaceId then
      .ok (merged.1.or (some resolved.claims), merged.2 ++ resolved.claims.grants)
    else .ok merged

def Request.ownClaims (env : RequestEnv) (db : RequestTables) (request : Request)
    (workspaceId : Uuid) : Except String (Option AccessClaims) :=
  match request.cookie with
  | none => .ok none
  | some token => resolveSessionClaims env.toEnv db.toTables token workspaceId

def answerMerged : Option AccessClaims × List Grant → RequestAnswer
  | (some base, grants) => .ok { base with grants }
  | (none, _) => .rejected

def claimsForRequest (env : RequestEnv) (db : RequestTables) (request : Request)
    (workspaceId : Uuid) : Except String RequestAnswer :=
  if request.cookie = none ∧ request.shareTokens = [] then .ok .anonymous
  else do
    let own ← request.ownClaims env db workspaceId
    match own with
    | some claims => .ok (.ok claims)
    | none =>
      let signedIn := accountPresent env db request.cookie
      let merged ← request.shareTokens.foldlM (mergeLink env db request workspaceId signedIn)
        (none, [])
      .ok (answerMerged merged)

def RequestAnswer.roleOn (page : PageLocation) : RequestAnswer → Option Role
  | ok claims => effectiveRole claims page
  | anonymous | rejected => none

def RequestAnswer.IsOk (answer : RequestAnswer) : Prop := ∃ claims, answer = .ok claims

/-! ### Merging links -/

section Merge

variable {env : RequestEnv} {db : RequestTables} {request : Request} {workspaceId : Uuid}
  {signedIn : Bool} {page : PageLocation}

/-- The claims a link counts with in the workspace, where it does: none where it is unknown,
still requires something, or belongs elsewhere. -/
def linkClaims (env : RequestEnv) (db : RequestTables) (request : Request) (workspaceId : Uuid)
    (signedIn : Bool) (shareToken : String) : Except String (Option AccessClaims) :=
  (resolveShareTokenClaims env db shareToken (request.unlock shareToken) signedIn).map
    fun resolved => resolved.bind fun resolved =>
      if !resolved.passwordRequired && !resolved.signInRequired &&
        resolved.claims.workspaceId == workspaceId then some resolved.claims else none

def countingLinks (env : RequestEnv) (db : RequestTables) (request : Request)
    (workspaceId : Uuid) (signedIn : Bool) (shareTokens : List String) : List AccessClaims :=
  shareTokens.filterMap fun shareToken =>
    (linkClaims env db request workspaceId signedIn shareToken).toOption.join

theorem mem_countingLinks {claims : AccessClaims} {shareTokens : List String} :
    claims ∈ countingLinks env db request workspaceId signedIn shareTokens ↔
      ∃ shareToken ∈ shareTokens,
        linkClaims env db request workspaceId signedIn shareToken = .ok (some claims) := by
  simp only [countingLinks, mem_filterMap]
  refine exists_congr fun shareToken => and_congr_right fun _ => ?_
  cases linkClaims env db request workspaceId signedIn shareToken with
  | error message => simp [Except.toOption]
  | ok claims' => simp [Except.toOption]

theorem mergeLink_eq (merged : Option AccessClaims × List Grant) (shareToken : String) :
    mergeLink env db request workspaceId signedIn merged shareToken =
      (linkClaims env db request workspaceId signedIn shareToken).map fun claims =>
        (merged.1.or claims, merged.2 ++ (claims.map (·.grants)).getD []) := by
  unfold mergeLink linkClaims
  cases resolveShareTokenClaims env db shareToken (request.unlock shareToken) signedIn with
  | error message => rfl
  | ok resolved =>
    cases resolved with
    | none => simp [bind, Except.bind, Except.map]
    | some resolved =>
      simp only [bind, Except.bind, Except.map, bind_some]
      split
      · rfl
      · simp

/-- **What the loop over the links ends in**, where no link fails. -/
theorem foldlM_mergeLink {shareTokens : List String}
    (h : ∀ shareToken ∈ shareTokens,
      ∃ claims, linkClaims env db request workspaceId signedIn shareToken = .ok claims)
    (merged : Option AccessClaims × List Grant) :
    shareTokens.foldlM (mergeLink env db request workspaceId signedIn) merged =
      .ok (merged.1.or
          (countingLinks env db request workspaceId signedIn shareTokens).head?,
        merged.2 ++ (countingLinks env db request workspaceId signedIn shareTokens).flatMap
          (·.grants)) := by
  induction shareTokens generalizing merged with
  | nil => simp [countingLinks, pure, Except.pure]
  | cons shareToken shareTokens ih =>
    rw [forall_mem_cons] at h
    obtain ⟨⟨claims, hclaims⟩, hrest⟩ := h
    rw [foldlM_cons, mergeLink_eq, hclaims]
    simp only [bind, Except.bind, Except.map, ih hrest]
    cases claims with
    | none => simp [countingLinks, hclaims, Except.toOption]
    | some claims => simp [countingLinks, hclaims, Except.toOption]

theorem exists_of_resolveShareTokenClaims {shareToken : String} {existing : Option String}
    {resolved : LinkResolution}
    (h : resolveShareTokenClaims env db shareToken existing signedIn = .ok (some resolved))
    (hpassword : resolved.passwordRequired = false) (hsignIn : resolved.signInRequired = false) :
    ∃ row, findLink env db shareToken = some row ∧ isLocked env db row existing = .ok false ∧
      (row.allowAnonymous = true ∨ signedIn = true) ∧ resolved.claims = visitorClaims db row := by
  unfold resolveShareTokenClaims at h
  split at h
  · simp at h
  · rename_i row hrow
    obtain ⟨locked, hlocked, h⟩ := bind_eq_ok_iff.mp h
    split at h
    · obtain rfl := some.inj (Except.ok.inj h)
      simp at hpassword
    rename_i hopen
    split at h
    · obtain rfl := some.inj (Except.ok.inj h)
      simp at hsignIn
    · rename_i hadmits
      obtain ⟨_, -, h⟩ := bind_eq_ok_iff.mp h
      obtain rfl := some.inj (Except.ok.inj h)
      exact ⟨row, hrow, by simpa [hopen] using hlocked,
        by simpa [imp_iff_not_or] using hadmits, rfl⟩

theorem exists_of_linkClaims {shareToken : String} {claims : AccessClaims}
    (h : linkClaims env db request workspaceId signedIn shareToken = .ok (some claims)) :
    ∃ row, findLink env db shareToken = some row ∧
      isLocked env db row (request.unlock shareToken) = .ok false ∧
      (row.allowAnonymous = true ∨ signedIn = true) ∧ row.workspaceId = workspaceId ∧
        claims = visitorClaims db row := by
  obtain ⟨_, hresolved, hbind⟩ := map_eq_ok_iff.mp h
  obtain ⟨resolved, rfl, hcounts⟩ := bind_eq_some_iff.mp hbind
  split at hcounts
  · rename_i hcounting
    obtain rfl := some.inj hcounts
    simp only [and_eq_true, not_eq_true', beq_iff_eq] at hcounting
    obtain ⟨⟨hpassword, hsignIn⟩, hworkspace⟩ := hcounting
    obtain ⟨row, hrow, hopen, hadmits, hclaims⟩ :=
      exists_of_resolveShareTokenClaims hresolved hpassword hsignIn
    rw [hclaims] at hworkspace
    exact ⟨row, hrow, hopen, hadmits, hworkspace, hclaims⟩
  · simp at hcounts

/-- Claims **of a link** in a workspace: no level of the workspace, and its caps. -/
structure AccessClaims.IsOfLink (db : RequestTables) (workspaceId : Uuid)
    (claims : AccessClaims) : Prop where
  caps : claims.caps = pageCapsFor db.toTables workspaceId
  pageLevel : claims.pageLevel = none
  workspaceId : claims.workspaceId = workspaceId

theorem isOfLink_of_linkClaims {shareToken : String} {claims : AccessClaims}
    (h : linkClaims env db request workspaceId signedIn shareToken = .ok (some claims)) :
    claims.IsOfLink db workspaceId := by
  obtain ⟨row, -, -, -, rfl, rfl⟩ := exists_of_linkClaims h
  exact ⟨rfl, rfl, rfl⟩

theorem AccessClaims.IsOfLink.effectiveRole_eq {claims : AccessClaims} {granted : Option Role}
    (h : claims.IsOfLink db workspaceId) (hpage : page.workspaceId = workspaceId)
    (hgranted : IsWidest {role | role ∈ claims.grantsOn page} granted) :
    effectiveRole claims page =
      ceiled granted (firstByRankAsc Role.rank (claims.capsOn page)) := by
  refine effectiveRole_eq_ceiled (hpage.trans h.workspaceId.symm) (by simp [h.pageLevel]) ?_
    (isTightest_firstByRankAsc (fun _ _ => Role.rank_le_rank) _)
  have hlevels : claims.levelsOn page = {role | role ∈ claims.grantsOn page} := by
    ext role
    simp [AccessClaims.levelsOn, AccessClaims.levelOn, h.pageLevel]
  exact hlevels ▸ hgranted

/-- **Merged links.** The grants of several links of a workspace, under the claims of any of
them, give on a page the widest of what the links give there. -/
theorem isWidest_effectiveRole_merged {links : List AccessClaims} {base : AccessClaims}
    (hlinks : ∀ claims ∈ links, claims.IsOfLink db workspaceId)
    (hbase : base.IsOfLink db workspaceId) :
    IsWidest {role | ∃ claims ∈ links, effectiveRole claims page = some role}
      (effectiveRole { base with grants := links.flatMap (·.grants) } page) := by
  set merged : AccessClaims := { base with grants := links.flatMap (·.grants) }
  have hmerged : merged.IsOfLink db workspaceId :=
    ⟨hbase.caps, hbase.pageLevel, hbase.workspaceId⟩
  by_cases hpage : page.workspaceId = workspaceId
  · -- every link of the workspace has the same caps on the page
    have hcaps : ∀ claims ∈ links, claims.capsOn page = merged.capsOn page := by
      intro claims hclaims
      rw [AccessClaims.capsOn, AccessClaims.capsOn, (hlinks claims hclaims).caps, hmerged.caps]
    have hgrants : ∀ role, role ∈ merged.grantsOn page ↔
        ∃ claims ∈ links, role ∈ claims.grantsOn page := by
      intro role
      simp only [merged, AccessClaims.grantsOn, List.mem_map, mem_filter, mem_flatMap]
      grind
    have hwidest := fun claims : AccessClaims =>
      isWidest_firstByRankDesc (fun _ _ => Role.rank_le_rank) (claims.grantsOn page)
    have hgiven : IsWidest {role | ∃ claims ∈ {claims | claims ∈ links},
        role ∈ {role | role ∈ claims.grantsOn page}}
        (firstByRankDesc Role.rank (merged.grantsOn page)) := by
      have hset : {role | ∃ claims ∈ {claims | claims ∈ links},
          role ∈ {role | role ∈ claims.grantsOn page}} = {role | role ∈ merged.grantsOn page} :=
        Set.ext fun role => (hgrants role).symm
      exact hset ▸ hwidest merged
    have hceiled := (IsWidest.of_family (fun claims _ => hwidest claims) hgiven).ceiled
      (firstByRankAsc Role.rank (merged.capsOn page))
    rw [hmerged.effectiveRole_eq hpage (hwidest merged)]
    convert hceiled using 1
    ext role
    constructor
    · rintro ⟨claims, hclaims, hrole⟩
      rw [(hlinks claims hclaims).effectiveRole_eq hpage (hwidest claims),
        hcaps claims hclaims] at hrole
      cases hgranted : firstByRankDesc Role.rank (claims.grantsOn page) with
      | none => simp [hgranted, ceiled] at hrole
      | some granted => exact ⟨granted, ⟨claims, hclaims, hgranted⟩, hgranted ▸ hrole⟩
    · rintro ⟨granted, ⟨claims, hclaims, hgranted⟩, hrole⟩
      refine ⟨claims, hclaims, ?_⟩
      rw [(hlinks claims hclaims).effectiveRole_eq hpage (hwidest claims), hcaps claims hclaims,
        hgranted, hrole]
  · rw [effectiveRole_of_workspaceId_ne (hmerged.workspaceId.symm ▸ hpage)]
    refine Set.eq_empty_iff_forall_notMem.mpr ?_
    rintro role ⟨claims, hclaims, hrole⟩
    rw [effectiveRole_of_workspaceId_ne ((hlinks claims hclaims).workspaceId.symm ▸ hpage)] at hrole
    simp at hrole

/-! ### What the credentials give one by one -/

namespace Request

/-- The claims of the request's links that count, the account the cookie stands for being
present. -/
def links (env : RequestEnv) (db : RequestTables) (request : Request) (workspaceId : Uuid) :
    List AccessClaims :=
  countingLinks env db request workspaceId (accountPresent env db request.cookie)
    request.shareTokens

/-- The roles the credentials give on a page, one by one. -/
def roles (env : RequestEnv) (db : RequestTables) (request : Request) (workspaceId : Uuid)
    (page : PageLocation) : Set Role :=
  {role | (∃ own, request.ownClaims env db workspaceId = .ok (some own) ∧
      effectiveRole own page = some role) ∨
    ∃ claims ∈ request.links env db workspaceId, effectiveRole claims page = some role}

/-- **The session is never lesser**: where it gives claims in the workspace, it gives on the
page at least what each of the links does. -/
def NeverLesser (env : RequestEnv) (db : RequestTables) (request : Request) (workspaceId : Uuid)
    (page : PageLocation) : Prop :=
  ∀ own, request.ownClaims env db workspaceId = .ok (some own) →
    ∀ claims ∈ request.links env db workspaceId, ∀ role ∈ effectiveRole claims page,
      ∃ ownRole ∈ effectiveRole own page, role ≤ ownRole

/-- No credential of the request makes a statement fail. -/
structure IsValid (env : RequestEnv) (db : RequestTables) (request : Request)
    (workspaceId : Uuid) : Prop where
  own : ∃ own, request.ownClaims env db workspaceId = .ok own
  links : ∀ shareToken ∈ request.shareTokens, ∃ claims, linkClaims env db request workspaceId
    (accountPresent env db request.cookie) shareToken = .ok claims

/-- A request **carries more credentials** than another: its links and unlocked links, and
the session, or one where the other has none. -/
structure Extends (request' request : Request) : Prop where
  cookie : request.cookie = none ∨ request'.cookie = request.cookie
  shareTokens : request.shareTokens ⊆ request'.shareTokens
  unlocks : ∀ shareToken ∈ request.shareTokens, request.unlock shareToken = none ∨
    request'.unlock shareToken = request.unlock shareToken

end Request

/-- **What a valid request is answered**: the claims of the session, the merged links, or a
refusal. -/
theorem claimsForRequest_cases (hvalid : request.IsValid env db workspaceId) :
    ∃ answer, claimsForRequest env db request workspaceId = .ok answer ∧
      ((∃ own, request.ownClaims env db workspaceId = .ok (some own) ∧ answer = .ok own) ∨
        request.ownClaims env db workspaceId = .ok none ∧
          ((request.links env db workspaceId = [] ∧ ¬ answer.IsOk) ∨
            ∃ base ∈ request.links env db workspaceId, answer = .ok { base with
              grants := (request.links env db workspaceId).flatMap (·.grants) })) := by
  obtain ⟨own, hown⟩ := hvalid.own
  unfold claimsForRequest
  by_cases hnothing : request.cookie = none ∧ request.shareTokens = []
  · have hlinks : request.links env db workspaceId = [] := by
      rw [Request.links, hnothing.2]
      rfl
    have hnone : request.ownClaims env db workspaceId = .ok none := by
      rw [Request.ownClaims, hnothing.1]
    exact ⟨.anonymous, if_pos hnothing,
      .inr ⟨hnone, .inl ⟨hlinks, by simp [RequestAnswer.IsOk]⟩⟩⟩
  rw [if_neg hnothing, hown]
  cases own with
  | some own => exact ⟨.ok own, rfl, .inl ⟨own, rfl, rfl⟩⟩
  | none =>
    have hmerged := foldlM_mergeLink hvalid.links (none, [])
    refine ⟨_, bind_eq_ok_iff.mpr ⟨none, rfl, bind_eq_ok_iff.mpr ⟨_, hmerged, rfl⟩⟩,
      .inr ⟨rfl, ?_⟩⟩
    rw [← Request.links]
    cases hlinks : request.links env db workspaceId with
    | nil => exact .inl ⟨rfl, by simp [RequestAnswer.IsOk, answerMerged]⟩
    | cons base rest => exact .inr ⟨base, by simp, rfl⟩

theorem RequestAnswer.roleOn_eq_none {answer : RequestAnswer} (h : ¬ answer.IsOk) :
    answer.roleOn page = none := by
  cases answer with
  | ok claims => exact absurd ⟨claims, rfl⟩ h
  | anonymous | rejected => rfl

theorem isOfLink_of_mem_links {claims : AccessClaims}
    (h : claims ∈ request.links env db workspaceId) : claims.IsOfLink db workspaceId := by
  obtain ⟨shareToken, -, hclaims⟩ := mem_countingLinks.mp h
  exact isOfLink_of_linkClaims hclaims

theorem isWidest_of_links {answer : RequestAnswer}
    (h : (request.links env db workspaceId = [] ∧ ¬ answer.IsOk) ∨
      ∃ base ∈ request.links env db workspaceId, answer = .ok { base with
        grants := (request.links env db workspaceId).flatMap (·.grants) }) :
    IsWidest {role | ∃ claims ∈ request.links env db workspaceId,
      effectiveRole claims page = some role} (answer.roleOn page) := by
  rcases h with ⟨hlinks, hrefused⟩ | ⟨base, hbase, rfl⟩
  · simp [RequestAnswer.roleOn_eq_none hrefused, hlinks]
  · exact isWidest_effectiveRole_merged (fun _ => isOfLink_of_mem_links)
      (isOfLink_of_mem_links hbase)

/-- **The most permissive of the credentials**, where the session is never lesser. -/
theorem isWidest_roles (hvalid : request.IsValid env db workspaceId) {answer : RequestAnswer}
    (hanswer : claimsForRequest env db request workspaceId = .ok answer)
    (hground : request.NeverLesser env db workspaceId page) :
    IsWidest (request.roles env db workspaceId page) (answer.roleOn page) := by
  obtain ⟨_, h, hcases⟩ := claimsForRequest_cases hvalid
  obtain rfl := Except.ok.inj (hanswer.symm.trans h)
  rcases hcases with ⟨own, hown, rfl⟩ | ⟨hown, hlinks⟩
  · have hbelow : ∀ role ∈ request.roles env db workspaceId page,
        ∃ ownRole ∈ effectiveRole own page, role ≤ ownRole := by
      rintro role (⟨own', hown', hrole⟩ | ⟨claims, hclaims, hrole⟩)
      · obtain rfl : own = own' := by simpa [hown] using hown'
        exact ⟨role, hrole, le_rfl⟩
      · exact hground own hown claims hclaims role hrole
    rw [RequestAnswer.roleOn]
    cases hrole : effectiveRole own page with
    | none =>
      refine Set.eq_empty_iff_forall_notMem.mpr fun role hmem => ?_
      obtain ⟨ownRole, hownRole, -⟩ := hbelow role hmem
      simp [hrole] at hownRole
    | some ownRole =>
      refine ⟨.inl ⟨own, hown, hrole⟩, fun role hmem => ?_⟩
      obtain ⟨_, hownRole, hle⟩ := hbelow role hmem
      rw [hrole, mem_some_iff] at hownRole
      exact hownRole ▸ hle
  · have hset : request.roles env db workspaceId page =
        {role | ∃ claims ∈ request.links env db workspaceId,
          effectiveRole claims page = some role} := by
      ext role
      simp [Request.roles, hown]
    exact hset ▸ isWidest_of_links hlinks

/-! ### More credentials -/

theorem resolveShareTokenClaims_extends {shareToken : String} {existing existing' : Option String}
    {signedIn' : Bool} {resolved : LinkResolution} {out : Option LinkResolution}
    (h : resolveShareTokenClaims env db shareToken existing signedIn = .ok (some resolved))
    (hpassword : resolved.passwordRequired = false) (hsignIn : resolved.signInRequired = false)
    (hexisting : existing = none ∨ existing' = existing)
    (hsignedIn : signedIn = true → signedIn' = true)
    (h' : resolveShareTokenClaims env db shareToken existing' signedIn' = .ok out) :
    out = some resolved := by
  unfold resolveShareTokenClaims at h h'
  cases hrow : findLink env db shareToken with
  | none => simp [hrow] at h
  | some row =>
    simp only [hrow] at h h'
    obtain ⟨locked, hlocked, h⟩ := bind_eq_ok_iff.mp h
    obtain ⟨locked', hlocked', h'⟩ := bind_eq_ok_iff.mp h'
    have hopen : locked = false := by
      by_contra hlock
      simp only [not_eq_false] at hlock
      rw [if_pos hlock] at h
      obtain rfl := some.inj (Except.ok.inj h)
      simp at hpassword
    have hopen' : locked' = false := by
      rcases hexisting with rfl | rfl
      · -- a link that is open without any proof has no password
        have hnone : row.passwordHash.isSome = false := by
          simpa [isLocked, hopen] using hlocked
        cases existing' with
        | none => simpa [isLocked, hnone, eq_comm] using hlocked'
        | some shareSessionId => simpa [isLocked, hnone, eq_comm] using hlocked'
      · exact (Except.ok.inj (hlocked'.symm.trans hlocked)).trans hopen
    rw [if_neg (by simp [hopen])] at h
    rw [if_neg (by simp [hopen'])] at h'
    split at h
    · obtain rfl := some.inj (Except.ok.inj h)
      simp at hsignIn
    · rename_i hadmits
      have hadmits' : ¬ (!row.allowAnonymous && !signedIn') = true := by
        cases signedIn <;> cases signedIn' <;> simp_all
      rw [if_neg hadmits'] at h'
      obtain ⟨_, -, h⟩ := bind_eq_ok_iff.mp h
      obtain ⟨_, -, h'⟩ := bind_eq_ok_iff.mp h'
      exact (Except.ok.inj h').symm.trans (Except.ok.inj h)

/-- **A link that counts** counts beside more credentials, with the same claims. -/
theorem linkClaims_extends {request' : Request} {signedIn' : Bool} {shareToken : String}
    {claims : AccessClaims} {out : Option AccessClaims}
    (h : linkClaims env db request workspaceId signedIn shareToken = .ok (some claims))
    (hunlock : request.unlock shareToken = none ∨
      request'.unlock shareToken = request.unlock shareToken)
    (hsignedIn : signedIn = true → signedIn' = true)
    (h' : linkClaims env db request' workspaceId signedIn' shareToken = .ok out) :
    out = some claims := by
  obtain ⟨_, hresolved, hbind⟩ := map_eq_ok_iff.mp h
  obtain ⟨resolved, rfl, hcounts⟩ := bind_eq_some_iff.mp hbind
  obtain ⟨_, hresolved', hbind'⟩ := map_eq_ok_iff.mp h'
  have hrequired : resolved.passwordRequired = false ∧ resolved.signInRequired = false := by
    split at hcounts
    · rename_i hcounting
      simp only [and_eq_true, not_eq_true'] at hcounting
      exact hcounting.1
    · simp at hcounts
  obtain rfl := resolveShareTokenClaims_extends hresolved hrequired.1 hrequired.2 hunlock
    hsignedIn hresolved'
  exact hbind'.symm.trans hcounts

theorem Request.Extends.links_subset {request' : Request} (h : request'.Extends request)
    (hvalid' : request'.IsValid env db workspaceId) :
    request.links env db workspaceId ⊆ request'.links env db workspaceId := by
  intro claims hclaims
  obtain ⟨shareToken, hmem, hcounts⟩ := mem_countingLinks.mp hclaims
  have hmem' := h.shareTokens hmem
  obtain ⟨out, hout⟩ := hvalid'.links shareToken hmem'
  have hsignedIn : accountPresent env db request.cookie = true →
      accountPresent env db request'.cookie = true := by
    rcases h.cookie with hnone | hsame
    · simp [hnone, accountPresent]
    · rw [hsame]
      exact id
  obtain rfl := linkClaims_extends hcounts (h.unlocks shareToken hmem) hsignedIn hout
  exact mem_countingLinks.mpr ⟨shareToken, hmem', hout⟩

/-- **More credentials never mean less**, where the session is the same or is never lesser
than the links. -/
theorem claimsForRequest_mono {request' : Request} (hextends : request'.Extends request)
    (hvalid : request.IsValid env db workspaceId) (hvalid' : request'.IsValid env db workspaceId)
    (hground : request'.cookie = request.cookie ∨ request'.NeverLesser env db workspaceId page)
    {answer answer' : RequestAnswer}
    (hanswer : claimsForRequest env db request workspaceId = .ok answer)
    (hanswer' : claimsForRequest env db request' workspaceId = .ok answer') :
    (answer.IsOk → answer'.IsOk) ∧
      ∀ role ∈ answer.roleOn page, ∃ role' ∈ answer'.roleOn page, role ≤ role' := by
  obtain ⟨_, h, hcases⟩ := claimsForRequest_cases hvalid
  obtain rfl := Except.ok.inj (hanswer.symm.trans h)
  obtain ⟨_, h', hcases'⟩ := claimsForRequest_cases hvalid'
  obtain rfl := Except.ok.inj (hanswer'.symm.trans h')
  have hsubset := hextends.links_subset hvalid'
  rcases hcases with ⟨own, hown, rfl⟩ | ⟨hown, hlinks⟩
  · -- the session answers alone, and it is the session of the other request
    have hcookie : request'.cookie = request.cookie := by
      refine hextends.cookie.resolve_left fun hnone => ?_
      simp [Request.ownClaims, hnone] at hown
    have hown' : request'.ownClaims env db workspaceId = .ok (some own) := by
      rw [Request.ownClaims, hcookie]
      exact hown
    rcases hcases' with ⟨own', hown'', rfl⟩ | ⟨hown'', -⟩
    · obtain rfl : own = own' := by simpa [hown'] using hown''
      exact ⟨id, fun role hrole => ⟨role, hrole, le_rfl⟩⟩
    · simp [hown'] at hown''
  · have hwidest : IsWidest {role | ∃ claims ∈ request.links env db workspaceId,
        effectiveRole claims page = some role} (answer.roleOn page) := isWidest_of_links hlinks
    rcases hcases' with ⟨own', hown', rfl⟩ | ⟨-, hlinks'⟩
    · refine ⟨fun _ => ⟨own', rfl⟩, fun role hrole => ?_⟩
      have hnever : request'.NeverLesser env db workspaceId page := by
        refine hground.resolve_left fun hcookie => ?_
        rw [Request.ownClaims, hcookie] at hown'
        rw [Request.ownClaims, hown'] at hown
        simp at hown
      rw [mem_def.mp hrole] at hwidest
      obtain ⟨claims, hclaims, hgives⟩ := (isWidest_some.mp hwidest).1
      exact hnever own' hown' claims (hsubset hclaims) role hgives
    · have hwidest' : IsWidest {role | ∃ claims ∈ request'.links env db workspaceId,
          effectiveRole claims page = some role} (answer'.roleOn page) :=
        isWidest_of_links hlinks'
      refine ⟨fun hok => ?_, hwidest.mono hwidest' ?_⟩
      · obtain ⟨base, hbase, -⟩ := hlinks.resolve_left fun hrefused => hrefused.2 hok
        obtain ⟨base', -, rfl⟩ := hlinks'.resolve_left fun hrefused => by
          simpa [hrefused.1] using hsubset hbase
        exact ⟨_, rfl⟩
      · rintro role ⟨claims, hclaims, hrole⟩
        exact ⟨claims, hsubset hclaims, hrole⟩

theorem Request.IsValid.perm {shareTokens : List String}
    (hvalid : request.IsValid env db workspaceId) (h : request.shareTokens.Perm shareTokens) :
    { request with shareTokens }.IsValid env db workspaceId :=
  ⟨hvalid.own, fun shareToken hmem => hvalid.links shareToken (h.mem_iff.mpr hmem)⟩

/-- **The order of the links does not matter.** -/
theorem claimsForRequest_perm {shareTokens : List String}
    (hvalid : request.IsValid env db workspaceId) (h : request.shareTokens.Perm shareTokens)
    {answer answer' : RequestAnswer}
    (hanswer : claimsForRequest env db request workspaceId = .ok answer)
    (hanswer' : claimsForRequest env db { request with shareTokens } workspaceId = .ok answer') :
    (answer'.IsOk ↔ answer.IsOk) ∧ answer'.roleOn page = answer.roleOn page := by
  have hvalid' := hvalid.perm h
  have hextends : { request with shareTokens }.Extends request :=
    ⟨.inr rfl, fun _ hmem => h.mem_iff.mp hmem, fun _ _ => .inr rfl⟩
  have hextends' : request.Extends { request with shareTokens } :=
    ⟨.inr rfl, fun _ hmem => h.mem_iff.mpr hmem, fun _ _ => .inr rfl⟩
  have hmono : (answer.IsOk → answer'.IsOk) ∧
      ∀ role ∈ answer.roleOn page, ∃ role' ∈ answer'.roleOn page, role ≤ role' :=
    claimsForRequest_mono hextends hvalid hvalid' (.inl rfl) hanswer hanswer'
  have hmono' : (answer'.IsOk → answer.IsOk) ∧
      ∀ role ∈ answer'.roleOn page, ∃ role' ∈ answer.roleOn page, role ≤ role' :=
    claimsForRequest_mono hextends' hvalid' hvalid (.inl rfl) hanswer' hanswer
  refine ⟨⟨hmono'.1, hmono.1⟩, Option.ext fun role => ⟨fun hrole => ?_, fun hrole => ?_⟩⟩
  · obtain ⟨role', hrole', hle⟩ := hmono'.2 role hrole
    obtain ⟨role'', hrole'', hle'⟩ := hmono.2 role' hrole'
    obtain rfl := mem_unique hrole hrole''
    exact le_antisymm hle hle' ▸ hrole'
  · obtain ⟨role', hrole', hle⟩ := hmono.2 role hrole
    obtain ⟨role'', hrole'', hle'⟩ := hmono'.2 role' hrole'
    obtain rfl := mem_unique hrole hrole''
    exact le_antisymm hle hle' ▸ hrole'

/-- **The law of several credentials.** A valid request is answered; the role it is given on
a page is the most permissive of those its credentials give there, where its session is
never lesser than its links; the order of the links does not matter; and a valid request
that carries more is refused no sooner and given no less, where its session is the same or
never lesser than its links. -/
theorem claimsForRequest_law (hvalid : request.IsValid env db workspaceId) :
    ∃ answer, claimsForRequest env db request workspaceId = .ok answer ∧
      (request.NeverLesser env db workspaceId page →
        IsWidest (request.roles env db workspaceId page) (answer.roleOn page)) ∧
      (∀ shareTokens, request.shareTokens.Perm shareTokens →
        ∃ answer', claimsForRequest env db { request with shareTokens } workspaceId = .ok answer' ∧
          (answer'.IsOk ↔ answer.IsOk) ∧ answer'.roleOn page = answer.roleOn page) ∧
      ∀ request' : Request, request'.Extends request → request'.IsValid env db workspaceId →
        request'.cookie = request.cookie ∨ request'.NeverLesser env db workspaceId page →
          ∃ answer', claimsForRequest env db request' workspaceId = .ok answer' ∧
            (answer.IsOk → answer'.IsOk) ∧
              ∀ role ∈ answer.roleOn page, ∃ role' ∈ answer'.roleOn page, role ≤ role' := by
  obtain ⟨answer, hanswer, -⟩ := claimsForRequest_cases hvalid
  refine ⟨answer, hanswer, isWidest_roles hvalid hanswer, fun shareTokens hperm => ?_,
    fun request' hextends hvalid' hground => ?_⟩
  · obtain ⟨answer', hanswer', -⟩ := claimsForRequest_cases (hvalid.perm hperm)
    exact ⟨answer', hanswer', claimsForRequest_perm hvalid hperm hanswer hanswer'⟩
  · obtain ⟨answer', hanswer', -⟩ := claimsForRequest_cases hvalid'
    exact ⟨answer', hanswer',
      claimsForRequest_mono hextends hvalid hvalid' hground hanswer hanswer'⟩

/-! ### What a visitor is given -/

/-- **A link admits a request**: it is the live link of one of its tokens and of the workspace, no
password is left to be given, and who has no account is let in. -/
structure Request.Admits (env : RequestEnv) (db : RequestTables) (request : Request)
    (workspaceId : Uuid) (row : ShareLinkRow) : Prop where
  token : ∃ shareToken ∈ request.shareTokens, findLink env db shareToken = some row ∧
    isLocked env db row (request.unlock shareToken) = .ok false
  account : row.allowAnonymous = true ∨ accountPresent env db request.cookie = true
  workspaceId : row.workspaceId = workspaceId

theorem Request.mem_links (hvalid : request.IsValid env db workspaceId) {claims : AccessClaims} :
    claims ∈ request.links env db workspaceId ↔
      ∃ row, request.Admits env db workspaceId row ∧ claims = visitorClaims db row := by
  rw [Request.links, mem_countingLinks]
  constructor
  · rintro ⟨shareToken, hmem, h⟩
    obtain ⟨row, hrow, hopen, hadmits, hworkspace, rfl⟩ := exists_of_linkClaims h
    exact ⟨row, ⟨⟨shareToken, hmem, hrow, hopen⟩, hadmits, hworkspace⟩, rfl⟩
  · rintro ⟨row, ⟨⟨shareToken, hmem, hrow, hopen⟩, hadmits, hworkspace⟩, rfl⟩
    obtain ⟨out, hout⟩ := hvalid.links shareToken hmem
    refine ⟨shareToken, hmem, ?_⟩
    have hletIn : (!row.allowAnonymous && !accountPresent env db request.cookie) = false := by
      rcases hadmits with h | h <;> simp [h]
    rw [linkClaims, resolveShareTokenClaims, hrow] at hout ⊢
    simp only [hopen, bind, Except.bind, hletIn] at hout ⊢
    rcases hstill : isStillThere env db row (request.unlock shareToken) with message | _
    · simp [hstill, Except.map] at hout
    · simp [Except.map, visitorClaims, hworkspace]

theorem forall_of_foldlM_mergeLink {shareTokens : List String}
    {merged out : Option AccessClaims × List Grant}
    (h : shareTokens.foldlM (mergeLink env db request workspaceId signedIn) merged = .ok out) :
    ∀ shareToken ∈ shareTokens,
      ∃ claims, linkClaims env db request workspaceId signedIn shareToken = .ok claims := by
  induction shareTokens generalizing merged with
  | nil => simp
  | cons shareToken shareTokens ih =>
    rw [foldlM_cons, mergeLink_eq] at h
    obtain ⟨_, hfirst, hrest⟩ := bind_eq_ok_iff.mp h
    obtain ⟨claims, hclaims, -⟩ := map_eq_ok_iff.mp hfirst
    exact forall_mem_cons.mpr ⟨⟨claims, hclaims⟩, ih hrest⟩

theorem isValid_of_claimsForRequest {answer : RequestAnswer}
    (hown : request.ownClaims env db workspaceId = .ok none)
    (h : claimsForRequest env db request workspaceId = .ok answer) :
    request.IsValid env db workspaceId := by
  refine ⟨⟨none, hown⟩, ?_⟩
  unfold claimsForRequest at h
  split_ifs at h with hnothing
  · simp [hnothing.2]
  · obtain ⟨own, hown', h⟩ := bind_eq_ok_iff.mp h
    obtain rfl : none = own := Except.ok.inj (hown.symm.trans hown')
    obtain ⟨_, hmerged, -⟩ := bind_eq_ok_iff.mp h
    exact forall_of_foldlM_mergeLink hmerged

theorem exists_effectiveRole_visitorClaims_iff {row : ShareLinkRow} {level : Role} :
    (∃ role ∈ effectiveRole (visitorClaims db row) page, level ≤ role) ↔
      page.workspaceId = row.workspaceId ∧
        (page.inScope row.scopePageId row.includeSubtree = true ∧
          page.isFenced row.scopePageId = false ∧ level ≤ row.role) ∧
        ∀ cap ∈ pageCapsFor db.toTables row.workspaceId,
          page.inScope cap.scopePageId cap.includeSubtree = true → level ≤ cap.maxLevel := by
  by_cases hpage : page.workspaceId = row.workspaceId
  · have hlink : (visitorClaims db row).IsOfLink db row.workspaceId := ⟨rfl, rfl, rfl⟩
    have hwidest := isWidest_firstByRankDesc (fun _ _ => Role.rank_le_rank)
      ((visitorClaims db row).grantsOn page)
    have htightest := isTightest_firstByRankAsc (fun _ _ => Role.rank_le_rank)
      ((visitorClaims db row).capsOn page)
    rw [hlink.effectiveRole_eq hpage hwidest, exists_ge_ceiled_iff, hwidest.exists_ge_iff,
      htightest.forall_le_iff]
    refine (and_congr ?_ ?_).trans ⟨fun h => ⟨hpage, h⟩, And.right⟩
    · simp only [AccessClaims.grantsOn, visitorClaims]
      grind
    · simp only [AccessClaims.capsOn, visitorClaims]
      grind
  · rw [effectiveRole_of_workspaceId_ne hpage]
    simp [hpage]

/-- **What a request without claims of its own is given.** On a page it has a level exactly where
the page is of the workspace, a link that admits the request reaches the page with at least the
level, and no ceiling on the page is below it. -/
theorem exists_roleOn_iff_of_links {answer : RequestAnswer} {level : Role}
    (hown : request.ownClaims env db workspaceId = .ok none)
    (hanswer : claimsForRequest env db request workspaceId = .ok answer) :
    (∃ role ∈ answer.roleOn page, level ≤ role) ↔ page.workspaceId = workspaceId ∧
      (∃ row, request.Admits env db workspaceId row ∧
        page.inScope row.scopePageId row.includeSubtree = true ∧
          page.isFenced row.scopePageId = false ∧ level ≤ row.role) ∧
      ∀ cap ∈ pageCapsFor db.toTables workspaceId,
        page.inScope cap.scopePageId cap.includeSubtree = true → level ≤ cap.maxLevel := by
  have hvalid := isValid_of_claimsForRequest hown hanswer
  obtain ⟨_, h, hcases⟩ := claimsForRequest_cases hvalid
  obtain rfl := Except.ok.inj (hanswer.symm.trans h)
  have hlinks := hcases.resolve_left fun ⟨own, hown', _⟩ => by simp [hown] at hown'
  rw [(isWidest_of_links hlinks.2).exists_ge_iff]
  constructor
  · rintro ⟨role, ⟨claims, hclaims, hrole⟩, hle⟩
    obtain ⟨row, hadmits, rfl⟩ := (Request.mem_links hvalid).mp hclaims
    obtain ⟨hpage, hreach, hcaps⟩ :=
      exists_effectiveRole_visitorClaims_iff.mp ⟨role, hrole, hle⟩
    rw [hadmits.workspaceId] at hpage hcaps
    exact ⟨hpage, ⟨row, hadmits, hreach⟩, hcaps⟩
  · rintro ⟨hpage, ⟨row, hadmits, hreach⟩, hcaps⟩
    rw [← hadmits.workspaceId] at hpage hcaps
    obtain ⟨role, hrole, hle⟩ :=
      exists_effectiveRole_visitorClaims_iff.mpr ⟨hpage, hreach, hcaps⟩
    exact ⟨role, ⟨_, (Request.mem_links hvalid).mpr ⟨row, hadmits, rfl⟩, hrole⟩, hle⟩

end Merge

/-! ### A link that requires an account -/

def Request.alone (request : Request) : List Request :=
  (request.cookie.map fun token => { request with
    sessionToken := some token, shareTokens := [] }).toList ++
  request.shareTokens.map fun shareToken => { request with
    sessionToken := none, shareTokens := [shareToken] }

/-- Account 8, which is no member of workspace 1, and a link to its page 10 that lets
accounts edit. -/
def linkTables : RequestTables where
  workspaces := [⟨1, none⟩]
  users := [⟨8, none, "Lars", false, none⟩]
  sessions := [⟨80, 8, "eight", none, 1000, 0⟩]
  pages := [⟨10, 1, none, [], false⟩]
  shareLinks := [⟨⟨5, 1, 10, true, .editor, none, none⟩, "named link", none, false⟩]

/-- Tokens stored as they are, and no text that is a `uuid`. -/
def linkEnv : RequestEnv where
  now := 0
  hashToken := id
  uuid? := fun _ => none

/-- Lars opens the link, signed in. -/
def larsRequest : Request := ⟨some "eight", ["named link"], []⟩

theorem claimsForRequest_law_lars :
    ∃ answer, claimsForRequest linkEnv linkTables larsRequest 1 = .ok answer ∧
      IsWidest (larsRequest.roles linkEnv linkTables 1 ⟨10, 1, [], none⟩)
        (answer.roleOn ⟨10, 1, [], none⟩) := by
  have hvalid : larsRequest.IsValid linkEnv linkTables 1 :=
    ⟨⟨none, by decide⟩, by
      intro shareToken hmem
      obtain rfl : shareToken = "named link" := by simpa [larsRequest] using hmem
      exact ⟨some (visitorClaims linkTables
        ⟨⟨5, 1, 10, true, .editor, none, none⟩, "named link", none, false⟩), by decide⟩⟩
  obtain ⟨answer, hanswer, hwidest, -⟩ :=
    @claimsForRequest_law linkEnv linkTables larsRequest 1 ⟨10, 1, [], none⟩ hvalid
  refine ⟨answer, hanswer, hwidest fun own hown => ?_⟩
  have hnone : larsRequest.ownClaims linkEnv linkTables 1 = .ok none := by decide
  simp [hnone] at hown

theorem exists_roleOn_iff_of_links_lars :
    ∃ row, larsRequest.Admits linkEnv linkTables 1 row ∧ Role.editor ≤ row.role := by
  have hgiven := (@exists_roleOn_iff_of_links linkEnv linkTables larsRequest 1 ⟨10, 1, [], none⟩
    (.ok (visitorClaims linkTables ⟨⟨5, 1, 10, true, .editor, none, none⟩, "named link", none,
      false⟩)) .editor (by decide) (by decide)).mp ⟨.editor, by decide, le_rfl⟩
  obtain ⟨row, hadmits, -, -, hle⟩ := hgiven.2.1
  exact ⟨row, hadmits, hle⟩

/-- **Neither credential alone** gives Lars anything; together they let him edit. -/
theorem not_isWidest_alone : ¬ ∀ (env : RequestEnv) (db : RequestTables) (request : Request)
    (workspaceId : Uuid) (page : PageLocation) (answer : RequestAnswer),
    claimsForRequest env db request workspaceId = .ok answer →
      IsWidest {role | ∃ alone ∈ request.alone, ∃ answer',
        claimsForRequest env db alone workspaceId = .ok answer' ∧
          answer'.roleOn page = some role} (answer.roleOn page) := by
  intro h
  obtain ⟨⟨alone, halone, answer', hanswer', hrole⟩, -⟩ :
      IsGreatest {role | ∃ alone ∈ larsRequest.alone, ∃ answer',
        claimsForRequest linkEnv linkTables alone 1 = .ok answer' ∧
          answer'.roleOn ⟨10, 1, [], none⟩ = some role} Role.editor :=
    h linkEnv linkTables larsRequest 1 ⟨10, 1, [], none⟩ (.ok (visitorClaims linkTables
      ⟨⟨5, 1, 10, true, .editor, none, none⟩, "named link", none, false⟩)) (by decide)
  have hrefused : ∀ alone ∈ larsRequest.alone,
      claimsForRequest linkEnv linkTables alone 1 = .ok .rejected := by decide
  rw [hrefused alone halone, Except.ok.injEq] at hanswer'
  simp [← hanswer', RequestAnswer.roleOn] at hrole

end Sone
