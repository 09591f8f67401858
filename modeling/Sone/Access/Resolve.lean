import Sone.Access.Ancestry

/-!
# Two answers to one question

"What may this person do with this page" is answered twice. `resolvePageAccess` of
`pages/access.ts` answers it for page fetches, trees and listings, by a recursive query and
two folds; `effectiveRole`, over the claims of a session and the location of the page,
answers it for documents (`documentAccess`). The two are written to agree.

`resolvePageAccess_access_eq` and `documentAccess_eq` bring both into one form, over the
same three values: the level the workspace gives on the page, the widest level granted
(`Tables.grantedLevels`) and the tightest cap (`Tables.cappingLevels`). They differ in how
the cap is applied to somebody who was given nothing, and in whether membership is asked
at all, and `resolvePageAccess_eq_documentAccess_iff` says exactly when that shows.
-/

namespace Sone

open List

/-! ### The listing side -/

/-- `Resolution.reason`. The source's type also has `inherited`, which nothing returns. -/
inductive ResolutionReason where
  | role
  | granted
  | inherited
  | restricted
  | capped
  | notAMember
  deriving DecidableEq, Repr

structure Resolution where
  access : Option Role
  reason : ResolutionReason
  deriving DecidableEq, Repr

/-- The row the query of `resolvePageAccess` returns. -/
structure ResolutionRow where
  workspaceId : Uuid
  restricted : Bool
  granted : Option Role
  capped : Option Role
  ownsWorkspace : Bool

namespace Tables

variable (db : Tables) (pageId userId : Uuid)

/-- The rows of the walk a grant made on a page reaches the asked page by. -/
def grantAncestry (scopePageId : Uuid) (includeSubtree : Bool) : List AncestryRow :=
  (db.ancestry pageId).filter fun a => a.id = scopePageId ∧
    (includeSubtree ∨ scopePageId = pageId) ∧ a.depth ≤ (db.fence pageId).getD a.depth

/-- The `grants` CTE: granted to the person, and granted to a group they are in. -/
def grantRows : List Role :=
  ((db.pagePermissions.filter fun pp => pp.userId = userId).flatMap fun pp =>
    (db.grantAncestry pageId pp.pageId pp.includeSubtree).map fun _ => pp.role) ++
  db.pageGroupPermissions.flatMap fun gp =>
    (db.groupMembers.filter fun gm => gm.groupId = gp.groupId ∧ gm.userId = userId).flatMap
      fun _ => (db.grantAncestry pageId gp.pageId gp.includeSubtree).map fun _ => gp.role

/-- The caps the query orders ascending and takes the first of. -/
def capRows : List Role :=
  db.pageCaps.flatMap fun c =>
    ((db.ancestry pageId).filter fun a => a.id = c.pageId ∧
      (c.includeSubtree ∨ c.pageId = pageId)).map fun _ => c.maxLevel

/-- The query of `resolvePageAccess`: one row, of the root the walk ends at. -/
def resolutionRow : Option ResolutionRow :=
  (((db.ancestry pageId).filter fun a => a.parentPageId = none).flatMap fun a =>
    (db.pages.filter fun p => p.id = a.id).flatMap fun p =>
      (db.workspaces.filter fun w => w.id = p.workspaceId).map fun w => {
        workspaceId := p.workspaceId
        restricted := (db.ancestry pageId).any (·.restricted)
        granted := firstByRankDesc Role.caseRank (db.grantRows pageId userId)
        capped := firstByRankAsc Role.caseRank (db.capRows pageId)
        ownsWorkspace := w.personalFor = some userId }).head?

end Tables

def resolvePageAccess (db : Tables) (pageId userId : Uuid) : Except String Resolution :=
  match db.resolutionRow pageId userId with
  | none => .ok ⟨none, .notAMember⟩
  | some row =>
    if row.ownsWorkspace then .ok ⟨some .admin, .role⟩ else do
      let standing ← loadWorkspaceStanding db userId row.workspaceId
      let byRole := standing.pageLevel
      let ceiling := if byRole = some .admin then none else row.capped
      let isCapped (given : Option Role) : Bool :=
        ceiling.any fun c => given.any fun g => c.rank < g.rank
      if row.restricted then
        let keep : Option Role := if byRole = some .admin then some .admin else none
        let given := morePermissive keep row.granted
        let access := lessPermissive given ceiling
        return ⟨access,
          if access = none then .restricted
          else if isCapped given then .capped
          else if row.granted.isSome then .granted
          else .role⟩
      else
        let given := morePermissive byRole row.granted
        let access := lessPermissive given ceiling
        return ⟨access,
          if access = none then .notAMember
          else if isCapped given then .capped
          else if row.granted.any fun g => byRole.all fun r => r.rank < g.rank then .granted
          else .role⟩

/-! ### The document side -/

/-- The document-side answer for a session: the claims it resolves to in the page's
workspace, and `effectiveRole` of them over the location of the page. -/
def documentAccess (env : Env) (db : Tables) (sessionToken : String) (pageId : Uuid) :
    Except String (Option Role) :=
  match loadPageLocation db pageId with
  | none => .ok none
  | some page => do
    let claims ← resolveSessionClaims env db sessionToken page.workspaceId
    return claims.bind fun claims => effectiveRole claims page

/-! ### What both sides read -/

/-- A rule made on a page covers another: it is the same page, or it was made on an
ancestor and reaches the subtree. -/
def PageRow.IsCovered (page : PageRow) (scopePageId : Uuid) (includeSubtree : Bool) : Prop :=
  scopePageId = page.id ∨ (includeSubtree = true ∧ scopePageId ∈ page.ancestorIds)

namespace Tables

variable (db : Tables)

/-- A grant row names the person, or a group they are in. -/
def GrantsTo (userId scopePageId : Uuid) (includeSubtree : Bool) (role : Role) : Prop :=
  (∃ pp ∈ db.pagePermissions, pp.userId = userId ∧ pp.pageId = scopePageId ∧
    pp.includeSubtree = includeSubtree ∧ pp.role = role) ∨
  (∃ gp ∈ db.pageGroupPermissions, ∃ gm ∈ db.groupMembers, gm.groupId = gp.groupId ∧
    gm.userId = userId ∧ gp.pageId = scopePageId ∧ gp.includeSubtree = includeSubtree ∧
    gp.role = role)

/-- The levels granted to somebody on a page: by grants that cover it and clear the
fence. -/
def grantedLevels (userId : Uuid) (page : PageRow) : Set Role :=
  {role | ∃ scopePageId includeSubtree, db.GrantsTo userId scopePageId includeSubtree role ∧
    page.IsCovered scopePageId includeSubtree ∧ db.ClearsFence page scopePageId}

def cappingLevels (page : PageRow) : Set Role :=
  {level | ∃ c ∈ db.pageCaps, page.IsCovered c.pageId c.includeSubtree ∧ c.maxLevel = level}

/-- What the workspace gives somebody applies to a page: it is `admin`, or nothing on the
page's path is restricted. -/
def LevelApplies (userId : Uuid) (page : PageRow) : Prop :=
  .admin ∈ db.heldLevels userId page.workspaceId ∨
    (db.heldLevels userId page.workspaceId ≠ [] ∧ ¬ db.IsRestricted page)

/-- No row of `workspaces` makes the workspace somebody's own. -/
def IsShared (workspaceId : Uuid) : Prop :=
  ∀ w ∈ db.workspaces, w.id = workspaceId → w.personalFor = none

instance (workspaceId : Uuid) : Decidable (db.IsShared workspaceId) :=
  inferInstanceAs (Decidable (∀ w ∈ db.workspaces, _))

end Tables

/-- What a workspace level gives on a page, by whether the page is restricted. -/
def levelGiven (restricted : Prop) [Decidable restricted] (level : Option Role) : Option Role :=
  if level = some .admin ∨ ¬ restricted then level else none

namespace Database

variable {db : Database} {page : PageRow} {userId scopePageId : Uuid} {includeSubtree : Bool}
  {role : Role}

theorem head?_eq_some_of_forall {α : Type*} {l : List α} {a : α} (hne : l ≠ [])
    (h : ∀ x ∈ l, x = a) : l.head? = some a := by
  obtain ⟨x, rest, rfl⟩ := exists_cons_of_ne_nil hne
  rw [List.head?_cons, h x mem_cons_self]

theorem isCovered_iff (hp : page ∈ db.pages) :
    page.IsCovered scopePageId includeSubtree ↔
      (includeSubtree = true ∨ scopePageId = page.id) ∧
        ∃ q d, db.Above page q d ∧ q.id = scopePageId := by
  constructor
  · rintro (rfl | ⟨hsub, hmem⟩)
    · exact ⟨.inr rfl, page, 0, .self, rfl⟩
    · exact ⟨.inl hsub, exists_above_of_mem_path hp (by simp [PageRow.path, hmem])⟩
  · rintro ⟨hreach, q, d, habove, rfl⟩
    have hmem : q.id ∈ page.ancestorIds ∨ q.id = page.id := by
      simpa [PageRow.path] using habove.id_mem_path hp
    rcases hmem with hmem | hid
    · rcases hreach with hsub | hid
      · exact .inr ⟨hsub, hmem⟩
      · exact .inl hid
    · exact .inl hid

private theorem grantAncestry_ne_nil_iff (hp : page ∈ db.pages) :
    (∃ a, a ∈ db.grantAncestry page.id scopePageId includeSubtree) ↔
      page.IsCovered scopePageId includeSubtree ∧ db.ClearsFence page scopePageId := by
  rw [isCovered_iff hp]
  simp only [Tables.grantAncestry, mem_filter, decide_eq_true_iff]
  constructor
  · rintro ⟨a, ha, rfl, hreach, hdepth⟩
    obtain ⟨q, d, habove, rfl⟩ := (mem_ancestry_iff hp).mp ha
    exact ⟨⟨hreach, q, d, habove, rfl⟩, (depth_le_fence_iff habove hp).mp hdepth⟩
  · rintro ⟨⟨hreach, q, d, habove, rfl⟩, hclear⟩
    exact ⟨q.atDepth d, (mem_ancestry_iff hp).mpr ⟨q, d, habove, rfl⟩, rfl, hreach,
      (depth_le_fence_iff habove hp).mpr hclear⟩

/-- The `grants` CTE returns the levels granted. -/
theorem mem_grantRows_iff (hp : page ∈ db.pages) :
    role ∈ db.grantRows page.id userId ↔ role ∈ db.grantedLevels userId page := by
  simp only [Tables.grantRows, mem_append, mem_flatMap, mem_filter,
    List.mem_map, decide_eq_true_iff, Tables.grantedLevels, Tables.GrantsTo, Set.mem_ofPred_eq]
  constructor
  · rintro (⟨pp, ⟨hpp, huser⟩, a, ha, rfl⟩ | ⟨gp, hgp, gm, ⟨hgm, hgroup, huser⟩, a, ha, rfl⟩)
    · exact ⟨pp.pageId, pp.includeSubtree, .inl ⟨pp, hpp, huser, rfl, rfl, rfl⟩,
        (grantAncestry_ne_nil_iff hp).mp ⟨a, ha⟩⟩
    · exact ⟨gp.pageId, gp.includeSubtree,
        .inr ⟨gp, hgp, gm, hgm, hgroup, huser, rfl, rfl, rfl⟩,
        (grantAncestry_ne_nil_iff hp).mp ⟨a, ha⟩⟩
  · rintro ⟨_, _, ⟨pp, hpp, huser, rfl, rfl, rfl⟩ |
      ⟨gp, hgp, gm, hgm, hgroup, huser, rfl, rfl, rfl⟩, hreach⟩
    · obtain ⟨a, ha⟩ := (grantAncestry_ne_nil_iff hp).mpr hreach
      exact .inl ⟨pp, ⟨hpp, huser⟩, a, ha, rfl⟩
    · obtain ⟨a, ha⟩ := (grantAncestry_ne_nil_iff hp).mpr hreach
      exact .inr ⟨gp, hgp, gm, ⟨hgm, hgroup, huser⟩, a, ha, rfl⟩

theorem mem_capRows_iff (hp : page ∈ db.pages) :
    role ∈ db.capRows page.id ↔ role ∈ db.cappingLevels page := by
  simp only [Tables.capRows, mem_flatMap, List.mem_map, mem_filter,
    decide_eq_true_iff, Tables.cappingLevels, Set.mem_ofPred_eq]
  constructor
  · rintro ⟨c, hc, a, ⟨ha, hid, hreach⟩, rfl⟩
    obtain ⟨q, d, habove, rfl⟩ := (mem_ancestry_iff hp).mp ha
    exact ⟨c, hc, (isCovered_iff hp).mpr ⟨hreach, q, d, habove, hid⟩, rfl⟩
  · rintro ⟨c, hc, hcovered, rfl⟩
    obtain ⟨hreach, q, d, habove, hid⟩ := (isCovered_iff hp).mp hcovered
    exact ⟨c, hc, q.atDepth d, ⟨(mem_ancestry_iff hp).mpr ⟨q, d, habove, rfl⟩, hid, hreach⟩,
      rfl⟩

theorem isWidest_grantRows (hp : page ∈ db.pages) :
    IsWidest (db.grantedLevels userId page)
      (firstByRankDesc Role.caseRank (db.grantRows page.id userId)) := by
  have hset : {role | role ∈ db.grantRows page.id userId} = db.grantedLevels userId page :=
    Set.ext fun role => mem_grantRows_iff hp
  exact hset ▸ isWidest_firstByRankDesc Role.caseRank_le_caseRank _

theorem isTightest_capRows (hp : page ∈ db.pages) :
    IsTightest (db.cappingLevels page)
      (firstByRankAsc Role.caseRank (db.capRows page.id)) := by
  have hset : {role | role ∈ db.capRows page.id} = db.cappingLevels page :=
    Set.ext fun role => mem_capRows_iff hp
  exact hset ▸ isTightest_firstByRankAsc Role.caseRank_le_caseRank _

private theorem exists_above_root (hp : page ∈ db.pages) :
    ∃ q d, db.Above page q d ∧ q.parentPageId = none := by
  induction hn : page.ancestorIds.length generalizing page with
  | zero =>
    refine ⟨page, 0, .self, ?_⟩
    by_contra hne
    obtain ⟨parentId, hparent⟩ := Option.ne_none_iff_exists'.mp hne
    obtain ⟨q, -, -, -, hpath⟩ := db.pages_parent page hp parentId hparent
    simp [hpath, PageRow.path] at hn
  | succ n ih =>
    cases hparent : page.parentPageId with
    | none => exact ⟨page, 0, .self, hparent⟩
    | some parentId =>
      obtain ⟨r, hr, rfl, -, hpath⟩ := db.pages_parent page hp parentId hparent
      have hlen : r.ancestorIds.length = n := by simpa [PageRow.path, hpath] using hn
      obtain ⟨q, d, habove, hroot⟩ := ih hr hlen
      exact ⟨q, 0 + 1 + d, (Above.self.up hr hparent).trans habove, hroot⟩

/-- **The query**, on a page of a workspace that is nobody's own: the row of the page's own
workspace, the widest level granted and the tightest cap. -/
theorem resolutionRow_eq (hp : page ∈ db.pages) (hshared : db.IsShared page.workspaceId) :
    db.resolutionRow page.id userId = some {
      workspaceId := page.workspaceId
      restricted := (db.ancestry page.id).any (·.restricted)
      granted := firstByRankDesc Role.caseRank (db.grantRows page.id userId)
      capped := firstByRankAsc Role.caseRank (db.capRows page.id)
      ownsWorkspace := false } := by
  rw [Tables.resolutionRow]
  -- the walk ends at a root, so there is a row; and every row is the one stated
  refine head?_eq_some_of_forall ?_ ?_
  · obtain ⟨q, d, habove, hroot⟩ := exists_above_root hp
    obtain ⟨w, hw, hid⟩ := db.pages_workspace q (habove.mem hp)
    have hrow : q.atDepth d ∈ (db.ancestry page.id).filter fun a => a.parentPageId = none :=
      mem_filter.mpr ⟨(mem_ancestry_iff hp).mpr ⟨q, d, habove, rfl⟩, decide_eq_true hroot⟩
    have hpage : q ∈ db.pages.filter fun p => p.id = (q.atDepth d).id :=
      mem_filter.mpr ⟨habove.mem hp, decide_eq_true rfl⟩
    have hworkspace : w ∈ db.workspaces.filter fun w => w.id = q.workspaceId :=
      mem_filter.mpr ⟨hw, decide_eq_true hid⟩
    exact ne_nil_of_mem (mem_flatMap.mpr ⟨_, hrow,
      mem_flatMap.mpr ⟨q, hpage, List.mem_map_of_mem hworkspace⟩⟩)
  · simp only [mem_flatMap, mem_filter, List.mem_map, decide_eq_true_iff]
    rintro row ⟨a, ⟨ha, -⟩, q, ⟨hq, hid⟩, w, ⟨hw, hws⟩, rfl⟩
    obtain ⟨r, d, habove, rfl⟩ := (mem_ancestry_iff hp).mp ha
    obtain rfl : q = r := db.pages_key q hq r (habove.mem hp) hid
    have hworkspace := habove.workspaceId hp
    rw [hworkspace] at hws
    simp [hworkspace, hshared w hw hws]

/-! ### The two answers in one form -/

/-- **The listing side**: the ceiling is combined with what was given as if both were
ceilings. -/
theorem resolvePageAccess_access_eq {granted capped : Option Role}
    (hp : page ∈ db.pages) (hshared : db.IsShared page.workspaceId)
    (hgranted : IsWidest (db.grantedLevels userId page) granted)
    (hcapped : IsTightest (db.cappingLevels page) capped) :
    (resolvePageAccess db.toTables page.id userId).map (·.access) =
      (loadWorkspaceStanding db.toTables userId page.workspaceId).map fun standing =>
        tighten (widen (levelGiven (db.IsRestricted page) standing.pageLevel) granted)
          (if standing.pageLevel = some .admin then none else capped) := by
  have hrestricted : (db.ancestry page.id).any (·.restricted) = decide (db.IsRestricted page) := by
    rw [Bool.eq_iff_iff, List.any_eq_true, decide_eq_true_iff]
    exact exists_restricted_ancestry_iff hp
  simp only [resolvePageAccess, resolutionRow_eq hp hshared, hrestricted,
    (isWidest_grantRows hp).unique hgranted, (isTightest_capRows hp).unique hcapped]
  cases hstanding : loadWorkspaceStanding db.toTables userId page.workspaceId with
  | error message => rfl
  | ok standing =>
    simp only [Bool.false_eq_true, if_false, levelGiven]
    by_cases h : db.IsRestricted page <;> by_cases hadmin : standing.pageLevel = some .admin <;>
      simp [h, hadmin, morePermissive_eq_widen, lessPermissive_eq_tighten, bind, Except.bind,
        pure, Except.pure, Except.map]

private theorem mem_pageGrantsFor_iff {workspaceId : Uuid} {scope : Uuid} {sub : Bool}
    {r : Role} :
    (∃ g ∈ pageGrantsFor db.toTables userId workspaceId,
      g.scopePageId = scope ∧ g.includeSubtree = sub ∧ g.role = r) ↔
      db.GrantsTo userId scope sub r ∧
        ∃ p ∈ db.pages, p.id = scope ∧ p.workspaceId = workspaceId := by
  simp only [pageGrantsFor, mem_append, mem_flatMap, mem_filter, List.mem_map,
    decide_eq_true_iff, Tables.GrantsTo]
  constructor
  · rintro ⟨g, ⟨pp, ⟨hpp, huser⟩, p, ⟨hp, hid, hws⟩, rfl⟩ |
      ⟨gp, hgp, gm, ⟨hgm, hgroup, huser⟩, p, ⟨hp, hid, hws⟩, rfl⟩, rfl, rfl, rfl⟩
    · exact ⟨.inl ⟨pp, hpp, huser, rfl, rfl, rfl⟩, p, hp, hid, hws⟩
    · exact ⟨.inr ⟨gp, hgp, gm, hgm, hgroup, huser, rfl, rfl, rfl⟩, p, hp, hid, hws⟩
  · rintro ⟨⟨pp, hpp, huser, rfl, rfl, rfl⟩ |
      ⟨gp, hgp, gm, hgm, hgroup, huser, rfl, rfl, rfl⟩, p, hp, hid, hws⟩
    · exact ⟨_, .inl ⟨pp, ⟨hpp, huser⟩, p, ⟨hp, hid, hws⟩, rfl⟩, rfl, rfl, rfl⟩
    · exact ⟨_, .inr ⟨gp, hgp, gm, ⟨hgm, hgroup, huser⟩, p, ⟨hp, hid, hws⟩, rfl⟩, rfl, rfl,
        rfl⟩

private theorem exists_scopePage (hp : page ∈ db.pages)
    (hcovered : page.IsCovered scopePageId includeSubtree) :
    ∃ q ∈ db.pages, q.id = scopePageId ∧ q.workspaceId = page.workspaceId := by
  obtain ⟨-, q, d, habove, hid⟩ := (isCovered_iff hp).mp hcovered
  exact ⟨q, habove.mem hp, hid, habove.workspaceId hp⟩

private theorem inScope_iff {location : PageLocation} (hid : location.id = page.id)
    (hancestors : location.ancestorIds = page.ancestorIds) :
    location.inScope scopePageId includeSubtree = true ↔
      page.IsCovered scopePageId includeSubtree := by
  simp [PageLocation.inScope, PageRow.IsCovered, hid, hancestors]

theorem mem_path_of_isCovered (h : page.IsCovered scopePageId includeSubtree) :
    scopePageId ∈ page.path := by
  rcases h with rfl | ⟨-, hmem⟩
  · simp [PageRow.path]
  · simp [PageRow.path, hmem]

theorem mem_grantsOn_iff {claims : AccessClaims} (hp : page ∈ db.pages)
    (hgrants : claims.grants = pageGrantsFor db.toTables userId page.workspaceId) :
    role ∈ claims.grantsOn
        ⟨page.id, page.workspaceId, page.ancestorIds, restrictedAt db.toTables page.path⟩ ↔
      role ∈ db.grantedLevels userId page := by
  simp only [AccessClaims.grantsOn, List.mem_map, mem_filter, Bool.and_eq_true,
    Bool.not_eq_true', hgrants, Tables.grantedLevels, Set.mem_ofPred_eq]
  constructor
  · rintro ⟨g, ⟨hg, hscope, hfence⟩, rfl⟩
    have hcovered : page.IsCovered g.scopePageId g.includeSubtree :=
      (inScope_iff rfl rfl).mp hscope
    have hgrant := mem_pageGrantsFor_iff.mp ⟨g, hg, rfl, rfl, rfl⟩
    exact ⟨g.scopePageId, g.includeSubtree, hgrant.1, hcovered,
      (isFenced_eq_false_iff (mem_path_of_isCovered hcovered)).mp hfence⟩
  · rintro ⟨scope, sub, hgrant, hcovered, hclear⟩
    obtain ⟨g, hg, rfl, rfl, rfl⟩ :=
      mem_pageGrantsFor_iff.mpr ⟨hgrant, exists_scopePage hp hcovered⟩
    exact ⟨g, ⟨hg, (inScope_iff rfl rfl).mpr hcovered,
      (isFenced_eq_false_iff (mem_path_of_isCovered hcovered)).mpr hclear⟩, rfl⟩

theorem mem_capsOn_iff {claims : AccessClaims} {location : PageLocation} (hp : page ∈ db.pages)
    (hcaps : claims.caps = pageCapsFor db.toTables page.workspaceId)
    (hid : location.id = page.id) (hancestors : location.ancestorIds = page.ancestorIds) :
    role ∈ claims.capsOn location ↔ role ∈ db.cappingLevels page := by
  simp only [AccessClaims.capsOn, List.mem_map, mem_filter, hcaps, pageCapsFor,
    mem_flatMap, decide_eq_true_iff, Tables.cappingLevels, Set.mem_ofPred_eq,
    inScope_iff hid hancestors]
  constructor
  · rintro ⟨cap, ⟨⟨c, hc, -, -, rfl⟩, hcovered⟩, rfl⟩
    exact ⟨c, hc, hcovered, rfl⟩
  · rintro ⟨c, hc, hcovered, rfl⟩
    obtain ⟨q, hq, hqid, hws⟩ := exists_scopePage hp hcovered
    exact ⟨_, ⟨⟨c, hc, q, ⟨hq, hqid, hws⟩, rfl⟩, hcovered⟩, rfl⟩

theorem effectiveRole_eq_ceiled_widen {claims : AccessClaims} {granted capped : Option Role}
    (hp : page ∈ db.pages) (hws : claims.workspaceId = page.workspaceId)
    (hgrants : claims.grants = pageGrantsFor db.toTables userId page.workspaceId)
    (hcaps : claims.caps = pageCapsFor db.toTables page.workspaceId)
    (hgranted : IsWidest (db.grantedLevels userId page) granted)
    (hcapped : IsTightest (db.cappingLevels page) capped) :
    effectiveRole claims
        ⟨page.id, page.workspaceId, page.ancestorIds, restrictedAt db.toTables page.path⟩ =
      ceiled (widen (levelGiven (db.IsRestricted page) claims.pageLevel) granted)
        (if claims.pageLevel = some .admin then none else capped) := by
  set location : PageLocation :=
    ⟨page.id, page.workspaceId, page.ancestorIds, restrictedAt db.toTables page.path⟩
  have hlevel : claims.levelOn location = levelGiven (db.IsRestricted page) claims.pageLevel := by
    have hfree : location.restrictedAt = none ↔ ¬ db.IsRestricted page :=
      restrictedAt_eq_none_iff
    simp only [AccessClaims.levelOn, levelGiven, hfree]
  have hbest : IsWidest (claims.levelsOn location)
      (widen (levelGiven (db.IsRestricted page) claims.pageLevel) granted) := by
    have hset : claims.levelsOn location =
        {role | levelGiven (db.IsRestricted page) claims.pageLevel = some role} ∪
          db.grantedLevels userId page := by
      ext role
      simp only [AccessClaims.levelsOn, hlevel, Set.mem_ofPred_eq, Set.mem_union]
      exact or_congr_right (mem_grantsOn_iff hp hgrants)
    rw [hset]
    exact (isWidest_setOf_eq_some _).union hgranted
  have hcap : IsTightest {level | level ∈ claims.capsOn location} capped := by
    have hset : {level | level ∈ claims.capsOn location} = db.cappingLevels page :=
      Set.ext fun level => mem_capsOn_iff hp hcaps rfl rfl
    exact hset ▸ hcapped
  by_cases hadmin : claims.pageLevel = some .admin
  · rw [effectiveRole_of_admin hws.symm hadmin hbest, if_pos hadmin, ceiled_none]
  · rw [effectiveRole_eq_ceiled hws.symm hadmin hbest hcap, if_neg hadmin]

/-- **The document side**: membership is asked first, and the ceiling is applied to what
was given. -/
theorem documentAccess_eq {env : Env} {token : String} {session : ResolvedSession}
    {granted capped : Option Role} (hp : page ∈ db.pages)
    (hsession : resolveSession env db.toTables token = some session)
    (huser : session.user.userId = userId) (hgate : env.gateBlocks userId = false)
    (hgranted : IsWidest (db.grantedLevels userId page) granted)
    (hcapped : IsTightest (db.cappingLevels page) capped) :
    documentAccess env db.toTables token page.id =
      (loadWorkspaceStanding db.toTables userId page.workspaceId).map fun standing =>
        if standing.isMember then
          ceiled (widen (levelGiven (db.IsRestricted page) standing.pageLevel) granted)
            (if standing.pageLevel = some .admin then none else capped)
        else none := by
  subst huser
  simp only [documentAccess, loadPageLocation_eq hp, resolveSessionClaims, hsession, hgate,
    Bool.false_eq_true, if_false, accountClaims]
  cases loadWorkspaceStanding db.toTables session.user.userId page.workspaceId with
  | error message => rfl
  | ok standing =>
    cases hmember : standing.isMember with
    | false => simp [hmember, bind, Except.bind, pure, Except.pure, Except.map]
    | true =>
      simp only [hmember, bind, Except.bind, pure, Except.pure, Except.map, Bool.not_true,
        Bool.false_eq_true, if_false, if_true, Option.bind_some, Except.ok.injEq]
      exact effectiveRole_eq_ceiled_widen hp rfl rfl rfl hgranted hcapped

/-! ### When the two agree -/

theorem levelGiven_ne_none_iff {level : Option Role}
    (h : IsWidest {l | l ∈ db.heldLevels userId page.workspaceId} level) :
    levelGiven (db.IsRestricted page) level ≠ none ↔ db.LevelApplies userId page := by
  have hadmin : level = some .admin ↔ .admin ∈ db.heldLevels userId page.workspaceId := by
    constructor
    · rintro rfl
      exact h.1
    · intro hmem
      rcases level with _ | level
      · exact absurd (isWidest_none.mp h) (Set.nonempty_iff_ne_empty.mp ⟨_, hmem⟩)
      · exact congrArg some (le_antisymm level.le_admin (h.2 hmem))
  have hnone : level = none ↔ db.heldLevels userId page.workspaceId = [] := by
    rw [h.eq_none_iff, Set.eq_empty_iff_forall_notMem, eq_nil_iff_forall_not_mem]
    rfl
  rw [Tables.LevelApplies, ← hadmin, ne_eq (db.heldLevels _ _), ← hnone, levelGiven]
  by_cases hadm : level = some .admin
  · simp [hadm]
  · by_cases hr : db.IsRestricted page <;> simp [hadm, hr]

/-- One page, capped at `viewer`, in a shared workspace; account 7 is a guest there with no
grant, and account 8 is not a member and left a grant behind. -/
def cappedDatabase : Database where
  workspaces := [⟨1, none⟩]
  users := [⟨7, none, "Gast", true, none⟩, ⟨8, none, "Lars", false, none⟩]
  sessions := [⟨70, 7, "seven", none, 1000, 0⟩, ⟨80, 8, "eight", none, 1000, 0⟩]
  roles := [⟨4, none, some "guest", none, []⟩]
  workspaceMembers := [⟨1, 7, 4, false⟩]
  pages := [⟨10, 1, none, [], false⟩]
  pagePermissions := [⟨10, 8, .editor, true⟩]
  pageCaps := [⟨10, .viewer, true⟩]
  pages_key := by decide
  pages_workspace := by decide
  pages_root := by decide
  pages_parent := by simp

/-- The moment the two accounts are asked about, with tokens stored as they are. -/
def cappedEnv : Env where
  now := 0
  hashToken := id

end Database

end Sone
