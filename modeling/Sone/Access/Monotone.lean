import Sone.Access.Ancestry

/-!
# Which way a change moves the role

An administrator changes one row: a grant, a cap, a page's restriction, somebody's page level.
Each of them moves `effectiveRole` (`auth/claims.ts`) one way only, on every page.

The loops are not followed again. A role is given where something given reaches it and no cap is
below it (`gives_iff`), and a change is compared by what it does to these two (`Covers`).
-/

namespace Sone

open List Bool

/-- At most as much: nothing at all is the least. -/
def AtMost (a b : Option Role) : Prop := ∀ x ∈ a, ∃ y ∈ b, x ≤ y

/-! ### One change -/

/-- More is given: a grant more, one for the subtree too, one with a higher role, or a higher page
level. -/
inductive Loosened (claims : AccessClaims) : AccessClaims → Prop
  | grantAdded {before after : List Grant} (grant : Grant) (h : claims.grants = before ++ after) :
      Loosened claims { claims with grants := before ++ grant :: after }
  | grantToSubtree {before after : List Grant} {grant : Grant}
      (h : claims.grants = before ++ grant :: after) :
      Loosened claims
        { claims with grants := before ++ { grant with includeSubtree := true } :: after }
  | grantRaised {before after : List Grant} {grant : Grant} {role : Role}
      (h : claims.grants = before ++ grant :: after) (hle : grant.role ≤ role) :
      Loosened claims { claims with grants := before ++ { grant with role } :: after }
  | pageLevelRaised {level : Option Role} (hle : AtMost claims.pageLevel level) :
      Loosened claims { claims with pageLevel := level }

/-- More is withheld: a cap more, a lower one, or one for the subtree too. -/
inductive Tightened (claims : AccessClaims) : AccessClaims → Prop
  | capAdded {before after : List Cap} (cap : Cap) (h : claims.caps = before ++ after) :
      Tightened claims { claims with caps := before ++ cap :: after }
  | capLowered {before after : List Cap} {cap : Cap} {maxLevel : Role}
      (h : claims.caps = before ++ cap :: after) (hle : maxLevel ≤ cap.maxLevel) :
      Tightened claims { claims with caps := before ++ { cap with maxLevel } :: after }
  | capToSubtree {before after : List Cap} {cap : Cap}
      (h : claims.caps = before ++ cap :: after) :
      Tightened claims
        { claims with caps := before ++ { cap with includeSubtree := true } :: after }

/-- The restriction is nearer to the page: there was none, or it was at or above on the path. -/
inductive Narrowed (page : PageLocation) : PageLocation → Prop
  | added (id : Uuid) (h : page.restrictedAt = none) :
      Narrowed page { page with restrictedAt := some id }
  | deeper {old new : Uuid} (h : page.restrictedAt = some old) (hold : old ∈ page.path)
      (hnew : new ∈ page.path) (hle : page.path.idxOf old ≤ page.path.idxOf new) :
      Narrowed page { page with restrictedAt := some new }

/-! ### What claims give -/

namespace PageLocation

variable (page : PageLocation)

def IsReachedBy (grant : Grant) : Prop :=
  page.inScope grant.scopePageId grant.includeSubtree = true ∧
    page.isFenced grant.scopePageId = false

def IsCappedBy (cap : Cap) : Prop :=
  page.inScope cap.scopePageId cap.includeSubtree = true

variable {page}

theorem inScope_true {scopePageId : Uuid} {includeSubtree : Bool}
    (h : page.inScope scopePageId includeSubtree = true) :
    page.inScope scopePageId true = true := by
  rw [inScope, or_eq_true, and_eq_true] at h ⊢
  exact h.imp_right fun ⟨_, hmem⟩ => ⟨rfl, hmem⟩

end PageLocation

namespace AccessClaims

variable (claims : AccessClaims) (page : PageLocation)

def Reaches (role : Role) : Prop :=
  (∃ level ∈ claims.levelOn page, role ≤ level) ∨
    ∃ grant ∈ claims.grants, page.IsReachedBy grant ∧ role ≤ grant.role

/-- No cap on the page is below the role, or none applies. -/
def IsLeft (role : Role) : Prop :=
  claims.pageLevel = some .admin ∨ ∀ cap ∈ claims.caps, page.IsCappedBy cap → role ≤ cap.maxLevel

def Gives (role : Role) : Prop := ∃ given ∈ effectiveRole claims page, role ≤ given

variable {claims page}

theorem reaches_iff {role : Role} :
    claims.Reaches page role ↔ ∃ level ∈ claims.levelsOn page, role ≤ level := by
  simp only [Reaches, levelsOn, grantsOn, PageLocation.IsReachedBy, Set.mem_ofPred_eq, or_and_right,
    exists_or, List.mem_map, mem_filter, and_eq_true, not_eq_true', Option.mem_def]
  refine or_congr Iff.rfl ⟨?_, ?_⟩
  · rintro ⟨grant, hmem, hreached, hle⟩
    exact ⟨_, ⟨grant, ⟨hmem, hreached⟩, rfl⟩, hle⟩
  · rintro ⟨_, ⟨grant, ⟨hmem, hreached⟩, rfl⟩, hle⟩
    exact ⟨grant, hmem, hreached, hle⟩

/-- **What claims give**: what they reach in their workspace, and no cap there is below. -/
theorem gives_iff {role : Role} :
    claims.Gives page role ↔ page.workspaceId = claims.workspaceId ∧ claims.Reaches page role ∧
      claims.IsLeft page role := by
  by_cases hws : page.workspaceId = claims.workspaceId
  · obtain ⟨best, hbest⟩ : ∃ best, IsWidest (claims.levelsOn page) best :=
      ⟨_, (isWidest_setOf_eq_some (claims.levelOn page)).foldl (claims.grantsOn page)⟩
    rw [reaches_iff, ← hbest.exists_ge_iff, IsLeft, Gives]
    by_cases hadmin : claims.pageLevel = some .admin
    · rw [effectiveRole_of_admin hws hadmin hbest]
      simp [hws, hadmin]
    · have hcap := isTightest_firstByRankAsc (fun _ _ => Role.rank_le_rank) (claims.capsOn page)
      have hcaps : (∀ level ∈ {x | x ∈ claims.capsOn page}, role ≤ level) ↔
          ∀ cap ∈ claims.caps, page.IsCappedBy cap → role ≤ cap.maxLevel := by
        simp only [capsOn, PageLocation.IsCappedBy, Set.mem_ofPred_eq, List.forall_mem_map,
          mem_filter, and_imp]
      rw [effectiveRole_eq_ceiled hws hadmin hbest hcap, exists_ge_ceiled_iff, hcap.forall_le_iff,
        hcaps, or_iff_right hadmin, and_iff_right hws]
  · simp [Gives, effectiveRole_of_workspaceId_ne hws, hws]

/-! ### One of two claims gives more -/

/-- Whatever the first claims reach and leave on the first page, the second do on the second. -/
structure Covers (claims : AccessClaims) (page : PageLocation) (claims' : AccessClaims)
    (page' : PageLocation) : Prop where
  workspace : page.workspaceId = claims.workspaceId → page'.workspaceId = claims'.workspaceId
  reaches : ∀ role, claims.Reaches page role → claims'.Reaches page' role
  isLeft : ∀ role, claims.IsLeft page role → claims'.IsLeft page' role

variable {claims' : AccessClaims} {page' : PageLocation}

theorem Covers.atMost (h : Covers claims page claims' page') :
    AtMost (effectiveRole claims page) (effectiveRole claims' page') := by
  intro role hrole
  have hgives : claims.Gives page role := ⟨role, hrole, le_refl role⟩
  obtain ⟨hws, hreaches, hleft⟩ := gives_iff.mp hgives
  exact gives_iff.mpr ⟨h.workspace hws, h.reaches role hreaches, h.isLeft role hleft⟩

theorem Reaches.mono_grants {role : Role}
    (hlevel : claims'.pageLevel = claims.pageLevel)
    (hgrants : ∀ grant ∈ claims.grants, page.IsReachedBy grant →
      ∃ grant' ∈ claims'.grants, page.IsReachedBy grant' ∧ grant.role ≤ grant'.role)
    (h : claims.Reaches page role) : claims'.Reaches page role := by
  rcases h with hgiven | ⟨grant, hmem, hreached, hle⟩
  · rw [levelOn, ← hlevel] at hgiven
    exact .inl hgiven
  · obtain ⟨grant', hmem', hreached', hle'⟩ := hgrants grant hmem hreached
    exact .inr ⟨grant', hmem', hreached', hle.trans hle'⟩

theorem covers_grants {grants : List Grant}
    (hgrants : ∀ grant ∈ claims.grants, page.IsReachedBy grant →
      ∃ grant' ∈ grants, page.IsReachedBy grant' ∧ grant.role ≤ grant'.role) :
    Covers claims page { claims with grants } page where
  workspace hws := hws
  reaches _ := Reaches.mono_grants rfl hgrants
  isLeft _ hleft := hleft

theorem covers_pageLevel {level : Option Role} (hle : AtMost claims.pageLevel level) :
    Covers claims page { claims with pageLevel := level } page := by
  -- an administrator stays one
  have hadmin : claims.pageLevel = some .admin → level = some .admin := by
    intro h
    obtain ⟨role, rfl, hrole⟩ := hle .admin h
    exact congrArg some (le_antisymm (Role.le_admin role) hrole)
  refine ⟨fun hws => hws, fun role hreaches => ?_, fun role hleft => ?_⟩
  · rcases hreaches with ⟨given, hgiven, hrole⟩ | hgrant
    · rw [levelOn] at hgiven
      split_ifs at hgiven with happlies
      · obtain ⟨raised, hraised, hgr⟩ := hle given hgiven
        refine .inl ⟨raised, ?_, hrole.trans hgr⟩
        rw [levelOn, if_pos (happlies.imp_left hadmin)]
        exact hraised
      · cases hgiven
    · exact .inr hgrant
  · exact hleft.imp_left hadmin

theorem covers_caps {caps : List Cap}
    (hcaps : ∀ cap ∈ claims.caps, page.IsCappedBy cap →
      ∃ cap' ∈ caps, page.IsCappedBy cap' ∧ cap'.maxLevel ≤ cap.maxLevel) :
    Covers { claims with caps } page claims page := by
  refine ⟨fun hws => hws, fun role hreaches => hreaches, fun role hleft => hleft.imp_right ?_⟩
  intro hall cap hmem hcapped
  obtain ⟨cap', hmem', hcapped', hle⟩ := hcaps cap hmem hcapped
  exact (hall cap' hmem' hcapped').trans hle

theorem covers_restrictedAt {restrictedAt : Option Uuid}
    (hfree : restrictedAt = none → page.restrictedAt = none)
    (hfence : ∀ scopePageId, page.isFenced scopePageId = true →
      PageLocation.isFenced { page with restrictedAt } scopePageId = true) :
    Covers claims { page with restrictedAt } claims page := by
  refine ⟨fun hws => hws, fun role hreaches => ?_, fun role hleft => hleft⟩
  rcases hreaches with ⟨given, hgiven, hrole⟩ | ⟨grant, hmem, ⟨hscope, hopen⟩, hrole⟩
  · refine .inl ⟨given, ?_, hrole⟩
    rw [levelOn] at hgiven ⊢
    split_ifs at hgiven with happlies
    · rw [if_pos (happlies.imp_right hfree)]
      exact hgiven
    · cases hgiven
  · refine .inr ⟨grant, hmem, ⟨hscope, ?_⟩, hrole⟩
    rw [← not_eq_true] at hopen ⊢
    exact fun hfenced => hopen (hfence _ hfenced)

/-! ### Each change -/

private theorem exists_of_mem_middle {α : Type} {before after : List α} {x : α} (x' : α)
    {P : α → α → Prop} (hrefl : ∀ y, P y y) (hx : P x x') {y : α}
    (hmem : y ∈ before ++ x :: after) :
    ∃ y' ∈ before ++ x' :: after, P y y' := by
  rcases mem_append.mp hmem with hbefore | hrest
  · exact ⟨y, mem_append_left _ hbefore, hrefl y⟩
  · rcases mem_cons.mp hrest with rfl | hafter
    · exact ⟨x', mem_append_right _ mem_cons_self, hx⟩
    · exact ⟨y, mem_append_right _ (mem_cons_of_mem _ hafter), hrefl y⟩

theorem covers_grant {before after : List Grant} {grant grant' : Grant}
    (h : claims.grants = before ++ grant :: after)
    (hwider : page.IsReachedBy grant → page.IsReachedBy grant' ∧ grant.role ≤ grant'.role) :
    Covers claims page { claims with grants := before ++ grant' :: after } page := by
  refine covers_grants fun given hmem hreached => ?_
  obtain ⟨given', hmem', hgiven'⟩ := exists_of_mem_middle grant'
    (P := fun a b => page.IsReachedBy a → page.IsReachedBy b ∧ a.role ≤ b.role)
    (fun a ha => ⟨ha, le_refl _⟩) hwider (h ▸ hmem)
  exact ⟨given', hmem', hgiven' hreached⟩

theorem covers_cap {before after : List Cap} {cap cap' : Cap}
    (h : claims.caps = before ++ cap :: after)
    (htighter : page.IsCappedBy cap → page.IsCappedBy cap' ∧ cap'.maxLevel ≤ cap.maxLevel) :
    Covers { claims with caps := before ++ cap' :: after } page claims page := by
  refine covers_caps fun old hmem hcapped => ?_
  obtain ⟨new, hmem', hnew⟩ := exists_of_mem_middle cap'
    (P := fun a b => page.IsCappedBy a → page.IsCappedBy b ∧ b.maxLevel ≤ a.maxLevel)
    (fun a ha => ⟨ha, le_refl _⟩) htighter (h ▸ hmem)
  exact ⟨new, hmem', hnew hcapped⟩

theorem isFenced_deeper {old new scopePageId : Uuid} (h : page.restrictedAt = some old)
    (hold : old ∈ page.path) (hnew : new ∈ page.path)
    (hle : page.path.idxOf old ≤ page.path.idxOf new) (hfenced : page.isFenced scopePageId = true) :
    PageLocation.isFenced { page with restrictedAt := some new } scopePageId = true := by
  have hat : ∀ {id}, id ∈ page.path → page.path.idxOf? id = some (page.path.idxOf id) :=
    fun hid => Database.idxOf?_eq_some_idxOf hid
  have hpath : PageLocation.path { page with restrictedAt := some new } = page.path := rfl
  simp only [PageLocation.isFenced, h, hpath, Option.bind_some, hat hold, hat hnew] at hfenced ⊢
  rcases hscope : page.path.idxOf? scopePageId with _ | place
  · rfl
  · rw [hscope] at hfenced
    have hlt : place < page.path.idxOf old := of_decide_eq_true hfenced
    exact decide_eq_true (hlt.trans_le hle)

theorem covers_of_loosened (h : Loosened claims claims') : Covers claims page claims' page := by
  rcases h with ⟨grant, h⟩ | h | ⟨h, hle⟩ | hle
  · refine covers_grants fun given hmem hreached => ⟨given, ?_, hreached, le_refl _⟩
    rw [h] at hmem
    exact mem_append.mpr ((mem_append.mp hmem).imp_right (mem_cons_of_mem _))
  · exact covers_grant h fun hgrant => ⟨⟨PageLocation.inScope_true hgrant.1, hgrant.2⟩, le_refl _⟩
  · exact covers_grant h fun hgrant => ⟨hgrant, hle⟩
  · exact covers_pageLevel hle

theorem covers_of_tightened (h : Tightened claims claims') : Covers claims' page claims page := by
  rcases h with ⟨cap, h⟩ | ⟨h, hle⟩ | h
  · refine covers_caps fun old hmem hcapped => ⟨old, ?_, hcapped, le_refl _⟩
    rw [h] at hmem
    exact mem_append.mpr ((mem_append.mp hmem).imp_right (mem_cons_of_mem _))
  · exact covers_cap h fun hcap => ⟨hcap, hle⟩
  · exact covers_cap h fun hcap => ⟨PageLocation.inScope_true hcap, le_refl _⟩

theorem covers_of_narrowed (h : Narrowed page page') : Covers claims page' claims page := by
  rcases h with ⟨id, h⟩ | ⟨h, hold, hnew, hle⟩
  · refine covers_restrictedAt (fun h => nomatch h) fun scopePageId hfenced => ?_
    simp [PageLocation.isFenced, h] at hfenced
  · exact covers_restrictedAt (fun h => nomatch h) fun _ => isFenced_deeper h hold hnew hle

end AccessClaims

/-- **`effectiveRole` is monotone**: no change that gives more lowers it, none that withholds more
raises it, and an administrator has every right in their workspace. -/
theorem effectiveRole_monotone (claims : AccessClaims) (page : PageLocation) :
    (∀ claims', Loosened claims claims' →
      AtMost (effectiveRole claims page) (effectiveRole claims' page)) ∧
    (∀ claims', Tightened claims claims' →
      AtMost (effectiveRole claims' page) (effectiveRole claims page)) ∧
    (∀ page', Narrowed page page' →
      AtMost (effectiveRole claims page') (effectiveRole claims page)) ∧
    (claims.pageLevel = some .admin → page.workspaceId = claims.workspaceId →
      effectiveRole claims page = some .admin) := by
  refine ⟨fun _ h => (AccessClaims.covers_of_loosened h).atMost,
    fun _ h => (AccessClaims.covers_of_tightened h).atMost,
    fun _ h => (AccessClaims.covers_of_narrowed h).atMost, fun hadmin hws => ?_⟩
  have hreaches : claims.Reaches page .admin :=
    .inl ⟨.admin, by simp [AccessClaims.levelOn, hadmin]⟩
  obtain ⟨given, hgiven, hle⟩ := AccessClaims.gives_iff.mpr ⟨hws, hreaches, .inl hadmin⟩
  rw [le_antisymm (Role.le_admin given) hle] at hgiven
  exact hgiven

end Sone
