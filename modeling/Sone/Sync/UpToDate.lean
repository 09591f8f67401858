import Sone.Sync.Shrinks
import Sone.Sync.Revocation

/-!
# A settled workspace is up to date

`upToDate_of_reachesWhen`: in every run of the machine `revocation` none of whose steps
misses a change, every connection of a settled workspace holds claims resolved after the last
access change and has no document open that they forbid.

`Inv` is the invariant. While a notification is outstanding, or a pass is to be followed by
another, it says little: the next pass will look at every connection. Otherwise `Current`
holds. A connection of the workspace is then still to be resolved by the pass under way
(`Ahead`), or its claims are current and each of its documents is granted or still to be
checked (`Checks`).
-/

namespace Sone

open Option Function

namespace Revocation

variable {s s' : Revocation} {id : ℕ} {ids : List ℕ} {auth : Authentication}
  {conn : IndexedConnection} {doc : OpenDocument} {claims : AccessClaims}

/-! ### The invariant -/

/-- The document is one that the pass under way is still to check against the claims. -/
def Checks (s : Revocation) (id : ℕ) (claims : AccessClaims) (doc : OpenDocument) : Prop :=
  ∃ p ∈ s.pass, p.current = id ∧ ∃ first read todo, p.stage = .checking claims first read todo ∧
    ∃ d ∈ first :: todo, d.handle = doc.handle ∧ d.room = doc.room

/-- **The invariant between changes**, while no further pass is to come: what was read is
what there is to read, and every connection of the workspace is up to date but for what the
pass under way is still to do. -/
structure Current (s : Revocation) : Prop where
  since : ∀ p ∈ s.pass, ∀ credential workspaceId since,
    p.stage = .resolving credential workspaceId (some since) → since = s.version
  role : ∀ p ∈ s.pass, ∀ claims doc role todo,
    p.stage = .checking claims doc (some role) todo → role = Connection.currentRole s.db claims doc
  conns : ∀ id, ∀ auth ∈ s.live id, s.Ahead id ∨ s.claimsSince id = s.version ∧
    ∀ doc ∈ (s.conns id).documents.list,
      openGrant s.db auth.claims doc.room ≠ none ∨ s.Checks id auth.claims doc

/-- **The invariant.** -/
structure Inv (s : Revocation) : Prop where
  grouped : ∀ id, id ∈ s.group ↔ s.workspaceId ∈ (s.conns id).byWorkspace
  filed : ∀ id, (s.conns id).FiledByClaims
  /-- The workspace a pass resolves claims for is one the connection is filed under. -/
  resolving : ∀ p ∈ s.pass, ∀ credential workspaceId since,
    p.stage = .resolving credential workspaceId since →
      (s.conns p.current).closed = false → workspaceId ∈ (s.conns p.current).byWorkspace
  idle : s.pass = none → s.again = false
  current : ¬ s.Renews → s.Current

theorem mem_live : auth ∈ s.live id ↔ (s.conns id).closed = false ∧
    (s.conns id).socketClosed = false ∧ auth ∈ (s.conns id).auth ∧
      auth.claims.workspaceId = s.workspaceId := by
  rw [live]
  cases (s.conns id).closed <;> cases (s.conns id).socketClosed <;>
    simp [mem_def, filter_eq_some_iff]

theorem Inv.mem_group (h : s.Inv) (hlive : auth ∈ s.live id) : id ∈ s.group := by
  obtain ⟨hopen, -, hauth, hworkspace⟩ := mem_live.mp hlive
  rw [h.grouped id, ← hworkspace]
  exact h.filed id hopen auth hauth

theorem Inv.upToDate (h : s.Inv) (hsettled : s.Settled) (id : ℕ) : s.UpToDate id := by
  obtain ⟨-, hpass, hnotices⟩ := hsettled
  have hquiet : ¬ s.Renews := by simp [Renews, hnotices, h.idle hpass]
  intro auth hauth
  rcases (h.current hquiet).conns id auth hauth with ⟨p, hp, -⟩ | ⟨hsince, hdocs⟩
  · simp [hpass] at hp
  · refine ⟨hsince, fun doc hdoc => ?_⟩
    rcases hdocs doc hdoc with hgranted | ⟨p, hp, -⟩
    · exact hgranted
    · simp [hpass] at hp

/-! ### A connection set -/

theorem put_conns_self : (s.put id conn).conns id = conn := update_self ..

theorem put_conns_of_ne {other : ℕ} (h : other ≠ id) :
    (s.put id conn).conns other = s.conns other := update_of_ne h ..

theorem mem_put_group (h : ∀ id, id ∈ s.group ↔ s.workspaceId ∈ (s.conns id).byWorkspace)
    (other : ℕ) : other ∈ (s.put id conn).group ↔
      s.workspaceId ∈ ((s.put id conn).conns other).byWorkspace := by
  by_cases hother : other = id
  · subst hother
    rw [put_conns_self]
    simp only [put]
    split
    · rename_i hmem
      split
      · simp_all
      · simp [hmem]
    · simp_all
  · rw [put_conns_of_ne hother, ← h other]
    simp only [put]
    split
    · split
      · rfl
      · simp [hother]
    · simp [hother]

/-- **Setting a connection** keeps the invariant where it keeps the connection filed, and
whatever else changes with it keeps the rest. -/
theorem Inv.put (h : s.Inv) {tasks : List Task} {claimsSince : ℕ → ℕ} {pass : Option Pass}
    (hfiled : conn.FiledByClaims)
    (hgrows : conn.closed = false →
      (s.conns id).closed = false ∧ (s.conns id).byWorkspace ⊆ conn.byWorkspace)
    (hresolving : ∀ p ∈ pass, ∀ credential workspaceId since,
      p.stage = .resolving credential workspaceId since →
        (s.conns p.current).closed = false → workspaceId ∈ (s.conns p.current).byWorkspace)
    (hidle : pass = none → s.again = false)
    (hcurrent : ¬ s.Renews → Current { s.put id conn with tasks, claimsSince, pass }) :
    Inv { s.put id conn with tasks, claimsSince, pass } where
  grouped := mem_put_group h.grouped
  filed := by
    intro other
    by_cases hother : other = id
    · subst hother
      simp only [put_conns_self]
      exact hfiled
    · simp only [put_conns_of_ne hother]
      exact h.filed other
  resolving := by
    intro p hp credential workspaceId since hstage
    by_cases hother : p.current = id
    · simp only [hother, put_conns_self]
      intro hopen
      obtain ⟨hopen', hsub⟩ := hgrows hopen
      rw [← hother] at hopen' hsub
      exact hsub (hresolving p hp credential workspaceId since hstage hopen')
    · simp only [put_conns_of_ne hother]
      exact hresolving p hp credential workspaceId since hstage
  idle := hidle
  current := hcurrent

theorem mem_live_of_keeps (hkeeps : (s.conns id).Keeps conn)
    (hlive : auth ∈ (s.put id conn).live id) : auth ∈ s.live id := by
  obtain ⟨hopen, hsocket, hauth, hworkspace⟩ := mem_live.mp hlive
  rw [put_conns_self] at hopen hsocket hauth
  refine mem_live.mpr ⟨(hkeeps.filed hopen).1, hkeeps.socketClosed hsocket, ?_, hworkspace⟩
  rw [← hkeeps.auth]
  exact hauth

theorem live_put_of_ne {other : ℕ} (h : other ≠ id) :
    (s.put id conn).live other = s.live other := by
  simp only [live, put_conns_of_ne h]
  rfl

theorem Current.put_keeps (h : s.Current) (hkeeps : (s.conns id).Keeps conn)
    {tasks : List Task} : Current { s.put id conn with tasks } where
  since := h.since
  role := h.role
  conns := by
    intro other auth hauth
    by_cases hother : other = id
    · subst hother
      rcases h.conns other auth (mem_live_of_keeps hkeeps hauth) with hahead | ⟨hsince, hdocs⟩
      · exact .inl hahead
      · refine .inr ⟨hsince, fun doc hdoc => ?_⟩
        simp only [put_conns_self] at hdoc
        obtain ⟨old, hold, hhandle, hroom⟩ := hkeeps.documents doc hdoc
        rcases hdocs old hold with hgranted | ⟨p, hp, hcurrent, first, read, todo, hstage, hd⟩
        · exact .inl (hroom ▸ hgranted)
        · rw [hhandle, hroom] at hd
          exact .inr ⟨p, hp, hcurrent, first, read, todo, hstage, hd⟩
    · simp only [put_conns_of_ne hother]
      exact h.conns other auth ((live_put_of_ne hother) ▸ hauth)

theorem Inv.put_keeps (h : s.Inv) (hkeeps : (s.conns id).Keeps conn) {tasks : List Task} :
    Inv { s.put id conn with tasks } :=
  h.put ((h.filed id).of_keeps hkeeps)
    (fun hopen => ⟨(hkeeps.filed hopen).1, (hkeeps.filed hopen).2.ge⟩) h.resolving h.idle
    fun hquiet => (h.current hquiet).put_keeps hkeeps

/-! ### Documents registered, connections admitted -/

theorem Inv.register (h : s.Inv) {requestId : ℕ} {asked : AskedName} {role : Role}
    {tasks : List Task}
    (hok : ¬ s.Renews → ¬ s.Ahead id → ∀ auth ∈ s.live id,
      openGrant s.db auth.claims asked ≠ none) :
    Inv { s.put id ((s.conns id).update ((s.conns id).register requestId asked role)) with
      tasks } := by
  refine h.put (h.filed id) (fun hopen => ⟨hopen, subset_rfl⟩) h.resolving h.idle ?_
  intro hquiet
  have hcurrent := h.current hquiet
  refine ⟨hcurrent.since, hcurrent.role, fun other auth hauth => ?_⟩
  by_cases hother : other = id
  · subst hother
    have hlive : auth ∈ s.live other := by
      rw [mem_live, put_conns_self] at hauth
      exact mem_live.mpr hauth
    by_cases hahead : s.Ahead other
    · exact .inl hahead
    · -- no pass will look at the connection again, so the document has to be granted now
      obtain ⟨hsince, hdocs⟩ := (hcurrent.conns other auth hlive).resolve_left hahead
      refine .inr ⟨hsince, fun doc hdoc => ?_⟩
      simp only [put_conns_self] at hdoc
      rcases OpenDocuments.mem_add.mp hdoc with hold | rfl
      · exact hdocs doc hold
      · exact .inl (hok hquiet hahead auth hlive)
  · simp only [put_conns_of_ne hother]
    exact hcurrent.conns other auth ((live_put_of_ne hother) ▸ hauth)

theorem Inv.authenticate (h : s.Inv) {credential : ConnectionCredential} {since : ℕ}
    {tasks : List Task}
    (hok : ¬ s.Renews → ¬ s.Ahead id → (s.conns id).closed = false →
      (s.conns id).socketClosed = false → claims.workspaceId = s.workspaceId →
        since = s.version ∧ ∀ doc ∈ (s.conns id).documents.list,
          openGrant s.db claims doc.room ≠ none) :
    Inv { s.put id ((s.conns id).authenticate claims credential) with
      tasks, claimsSince := Function.update s.claimsSince id since } := by
  refine h.put ?_ ?_ h.resolving h.idle ?_
  · intro _ auth hauth
    obtain rfl : ⟨claims, credential⟩ = auth := some.inj hauth
    exact Finset.mem_insert_self _ _
  · exact fun hopen => ⟨hopen, Finset.subset_insert _ _⟩
  · intro hquiet
    have hcurrent := h.current hquiet
    refine ⟨hcurrent.since, hcurrent.role, fun other auth hauth => ?_⟩
    by_cases hother : other = id
    · subst hother
      rw [mem_live, put_conns_self] at hauth
      obtain ⟨hopen, hsocket, hauth, hworkspace⟩ := hauth
      obtain rfl : ⟨claims, credential⟩ = auth := some.inj hauth
      by_cases hahead : s.Ahead other
      · exact .inl hahead
      · obtain ⟨hsince, hdocs⟩ := hok hquiet hahead hopen hsocket hworkspace
        refine .inr ⟨(update_self ..).trans hsince, fun doc hdoc => .inl ?_⟩
        simp only [put_conns_self] at hdoc
        exact hdocs doc hdoc
    · simp only [put_conns_of_ne hother, update_of_ne hother]
      exact hcurrent.conns other auth ((live_put_of_ne hother) ▸ hauth)

/-! ### Passes that begin and end -/

theorem begin_resolving (h : ∀ id, (s.conns id).FiledByClaims) {p : Pass} (hp : p ∈ s.begin ids)
    {credential : ConnectionCredential} {workspaceId : Uuid} {since : Option ℕ}
    (hstage : p.stage = .resolving credential workspaceId since) :
    since = none ∧ ((s.conns p.current).closed = false →
      workspaceId ∈ (s.conns p.current).byWorkspace) := by
  cases ids with
  | nil => simp [begin] at hp
  | cons id remaining =>
    obtain rfl := mem_some_iff.mp hp
    simp only [startRevalidation] at hstage
    split at hstage
    · simp at hstage
    · rename_i auth hauth
      obtain ⟨-, rfl, rfl⟩ := Stage.resolving.inj hstage
      exact ⟨rfl, fun hopen => h id hopen auth hauth⟩

theorem begin_not_checking {p : Pass} (hp : p ∈ s.begin ids) {read : Option (Option Role)}
    {todo : List OpenDocument} : p.stage ≠ .checking claims doc read todo := by
  cases ids with
  | nil => simp [begin] at hp
  | cons id remaining =>
    obtain rfl := mem_some_iff.mp hp
    simp only [startRevalidation]
    split <;> simp

theorem ahead_begin (hid : id ∈ ids) (hlive : auth ∈ s.live id) :
    ∃ p ∈ s.begin ids, id ∈ p.remaining ∨ id = p.current ∧ p.stage.isResolving = true := by
  cases ids with
  | nil => simp at hid
  | cons first remaining =>
    refine ⟨_, rfl, ?_⟩
    rcases List.mem_cons.mp hid with rfl | hrest
    · obtain ⟨-, -, hauth, -⟩ := mem_live.mp hlive
      refine .inr ⟨rfl, ?_⟩
      simp only [startRevalidation, mem_def.mp hauth, Stage.isResolving]
    · exact .inl hrest

/-- **A pass begins**: every connection of the workspace is ahead of it, or up to date. -/
theorem Inv.begin (h : s.Inv) {notices : ℕ} {again : Bool}
    (hidle : s.begin ids = none → again = false)
    (hids : 0 < notices ∨ again = true ∨ ∀ id, ∀ auth ∈ s.live id, id ∈ ids ∨
      s.claimsSince id = s.version ∧ ∀ doc ∈ (s.conns id).documents.list,
        openGrant s.db auth.claims doc.room ≠ none) :
    Inv { s with notices, again, pass := s.begin ids } where
  grouped := h.grouped
  filed := h.filed
  resolving := fun p hp credential workspaceId since hstage =>
    (begin_resolving h.filed hp hstage).2
  idle := hidle
  current := by
    intro hquiet
    refine ⟨fun p hp credential workspaceId since hstage => ?_,
      fun p hp claims doc role todo hstage => absurd hstage (begin_not_checking hp),
      fun id auth hauth => ?_⟩
    · have hnone := (begin_resolving h.filed hp hstage).1
      simp at hnone
    · have hids := (or_assoc.mpr hids).resolve_left hquiet
      rcases hids id auth hauth with hid | ⟨hsince, hdocs⟩
      · exact .inl (ahead_begin hid hauth)
      · exact .inr ⟨hsince, fun doc hdoc => .inl (hdocs doc hdoc)⟩

theorem Inv.endPass (h : s.Inv) (hdone : ¬ s.Renews → ∀ id, s.UpToDate id) : s.endPass.Inv := by
  rw [Revocation.endPass]
  split
  · -- once more, over everybody filed under the workspace now
    exact h.begin (fun _ => rfl)
      (.inr (.inr fun id auth hauth => .inl (h.mem_group hauth)))
  · rename_i hagain
    refine ⟨h.grouped, h.filed, by simp, fun _ => by simpa using hagain, fun hquiet => ?_⟩
    refine ⟨by simp, by simp, fun id auth hauth => .inr ?_⟩
    obtain ⟨hsince, hdocs⟩ := hdone hquiet id auth hauth
    exact ⟨hsince, fun doc hdoc => .inl (hdocs doc hdoc)⟩

/-! ### The steps of a pass -/

section Pass

variable {who : ℕ} {stage : Stage} {remaining : List ℕ}

theorem ahead_iff (hpass : s.pass = some ⟨who, stage, remaining⟩) :
    s.Ahead id ↔ id ∈ remaining ∨ id = who ∧ stage.isResolving = true := by
  simp [Ahead, hpass]

theorem checks_iff (hpass : s.pass = some ⟨who, stage, remaining⟩) :
    s.Checks id claims doc ↔ who = id ∧ ∃ first read todo,
      stage = .checking claims first read todo ∧
        ∃ d ∈ first :: todo, d.handle = doc.handle ∧ d.room = doc.room := by
  simp [Checks, hpass]

theorem Current.upToDate (h : s.Current) (hpass : s.pass = some ⟨who, stage, remaining⟩)
    (hstage : ∀ claims first read todo, stage ≠ .checking claims first read todo)
    (hahead : ¬ s.Ahead id) : s.UpToDate id := by
  intro auth hauth
  obtain ⟨hsince, hdocs⟩ := (h.conns id auth hauth).resolve_left hahead
  refine ⟨hsince, fun doc hdoc => (hdocs doc hdoc).resolve_right fun hchecks => ?_⟩
  obtain ⟨-, first, read, todo, hchecking, -⟩ := (checks_iff hpass).mp hchecks
  exact hstage _ _ _ _ hchecking

theorem Current.elsewhere (h : s.Current) (hpass : s.pass = some ⟨who, stage, remaining⟩)
    (hid : id ≠ who) (hauth : auth ∈ s.live id) :
    id ∈ remaining ∨ s.claimsSince id = s.version ∧
      ∀ doc ∈ (s.conns id).documents.list, openGrant s.db auth.claims doc.room ≠ none := by
  rcases h.conns id auth hauth with hahead | ⟨hsince, hdocs⟩
  · exact .inl (((ahead_iff hpass).mp hahead).resolve_right fun hfirst => hid hfirst.1)
  · refine .inr ⟨hsince, fun doc hdoc => (hdocs doc hdoc).resolve_right fun hchecks => ?_⟩
    exact hid ((checks_iff hpass).mp hchecks).1.symm

theorem Current.conns_elsewhere (h : s.Current) (hpass : s.pass = some ⟨who, stage, remaining⟩)
    {next : Stage} (hnext : s'.pass = some ⟨who, next, remaining⟩) (hid : id ≠ who)
    (hauth : auth ∈ s.live id) :
    s'.Ahead id ∨ s.claimsSince id = s.version ∧ ∀ doc ∈ (s.conns id).documents.list,
      openGrant s.db auth.claims doc.room ≠ none ∨ s'.Checks id auth.claims doc := by
  rcases h.elsewhere hpass hid hauth with hrest | ⟨hsince, hdocs⟩
  · exact .inl ((ahead_iff hnext).mpr (.inl hrest))
  · exact .inr ⟨hsince, fun doc hdoc => .inl (hdocs doc hdoc)⟩

theorem UpToDate.current (h : s.UpToDate id) (hauth : auth ∈ s.live id) {pass : Option Pass} :
    s.claimsSince id = s.version ∧ ∀ doc ∈ (s.conns id).documents.list,
      openGrant s.db auth.claims doc.room ≠ none ∨
        Checks { s with pass } id auth.claims doc := by
  obtain ⟨hsince, hdocs⟩ := h auth hauth
  exact ⟨hsince, fun doc hdoc => .inl (hdocs doc hdoc)⟩

theorem Inv.setStage (h : s.Inv) (hpass : s.pass = some ⟨who, stage, remaining⟩)
    {next : Stage}
    (hresolving : ∀ credential workspaceId since, next = .resolving credential workspaceId since →
      ∃ since', stage = .resolving credential workspaceId since')
    (hcurrent : ¬ s.Renews → Current { s with pass := some ⟨who, next, remaining⟩ }) :
    Inv { s with pass := some ⟨who, next, remaining⟩ } where
  grouped := h.grouped
  filed := h.filed
  resolving := by
    rintro p hp credential workspaceId since hstage
    obtain rfl := mem_some_iff.mp hp
    obtain ⟨since', hbefore⟩ := hresolving credential workspaceId since hstage
    exact h.resolving _ hpass credential workspaceId since' hbefore
  idle := by simp
  current := hcurrent

theorem Inv.claimsRead (h : s.Inv) {credential : ConnectionCredential} {workspaceId : Uuid}
    (hpass : s.pass = some ⟨who, .resolving credential workspaceId none, remaining⟩) :
    Inv { s with
      pass := some ⟨who, .resolving credential workspaceId (some s.version), remaining⟩ } := by
  refine h.setStage hpass ?_ fun hquiet => ?_
  · intro credential' workspaceId' since hstage
    obtain ⟨rfl, rfl, -⟩ := Stage.resolving.inj hstage
    exact ⟨none, rfl⟩
  · refine ⟨by simp, by simp, fun id auth hauth => ?_⟩
    by_cases hahead : s.Ahead id
    · refine .inl ((ahead_iff rfl).mpr ?_)
      exact (ahead_iff hpass).mp hahead
    · exact .inr (((h.current hquiet).upToDate hpass (by simp) hahead).current hauth)

theorem Inv.claimsFail (h : s.Inv) {credential : ConnectionCredential} {workspaceId : Uuid}
    {since : Option ℕ}
    (hpass : s.pass = some ⟨who, .resolving credential workspaceId since, remaining⟩)
    (hok : ¬ s.Renews → s.UpToDate who) :
    Inv { s with pass := some ⟨who, .returned, remaining⟩ } := by
  refine h.setStage hpass (by simp) fun hquiet => ?_
  refine ⟨by simp, by simp, fun id auth hauth => ?_⟩
  by_cases hid : id = who
  · subst hid
    exact .inr ((hok hquiet).current hauth)
  · exact (h.current hquiet).conns_elsewhere hpass rfl hid hauth

theorem Inv.pageRead (h : s.Inv) {todo : List OpenDocument}
    (hpass : s.pass = some ⟨who, .checking claims doc none todo, remaining⟩) :
    Inv { s with pass := some ⟨who,
      .checking claims doc (some (Connection.currentRole s.db claims doc)) todo, remaining⟩ } := by
  refine h.setStage hpass (by simp) fun hquiet => ?_
  refine ⟨by simp, ?_, fun id auth hauth => ?_⟩
  · rintro p hp claims' doc' role todo' hstage
    obtain rfl := mem_some_iff.mp hp
    obtain ⟨rfl, rfl, hrole, -⟩ := Stage.checking.inj hstage
    exact (some.inj hrole).symm
  · rcases (h.current hquiet).conns id auth hauth with hahead | ⟨hsince, hdocs⟩
    · refine .inl ((ahead_iff rfl).mpr ?_)
      exact (ahead_iff hpass).mp hahead
    · refine .inr ⟨hsince, fun d hd => (hdocs d hd).imp_right fun hchecks => ?_⟩
      obtain ⟨hcurrent, first, read, todo', hstage, hd'⟩ := (checks_iff hpass).mp hchecks
      obtain ⟨rfl, rfl, rfl, rfl⟩ := Stage.checking.inj hstage
      exact (checks_iff rfl).mpr ⟨hcurrent, _, _, _, rfl, hd'⟩

theorem Inv.revoke (h : s.Inv) {credential : ConnectionCredential} {workspaceId : Uuid}
    {since : Option ℕ}
    (hpass : s.pass = some ⟨who, .resolving credential workspaceId since, remaining⟩) :
    Inv { s.put who ((s.conns who).update (s.conns who).revoke) with
      pass := some ⟨who, .returned, remaining⟩ } := by
  have hkeeps : (s.conns who).Keeps ((s.conns who).update (s.conns who).revoke) :=
    .update (Connection.shrinks_revoke _)
  refine h.put ((h.filed who).of_keeps hkeeps) (fun hopen => ⟨hopen, subset_rfl⟩) ?_
    (by simp) fun hquiet => ?_
  · rintro p hp credential workspaceId since hstage
    obtain rfl := mem_some_iff.mp hp
    simp at hstage
  · refine ⟨by simp, by simp, fun id auth hauth => ?_⟩
    by_cases hid : id = who
    · -- its socket is closed
      subst hid
      obtain ⟨-, hsocket, -⟩ := mem_live.mp hauth
      simp only [put_conns_self] at hsocket
      exact absurd hsocket (by simp [IndexedConnection.update, Connection.revoke])
    · simp only [put_conns_of_ne hid]
      exact (h.current hquiet).conns_elsewhere hpass rfl hid ((live_put_of_ne hid) ▸ hauth)

theorem startChecks_ne_resolving {docs : List OpenDocument} {credential : ConnectionCredential}
    {workspaceId : Uuid} {since : Option ℕ} :
    startChecks claims docs ≠ .resolving credential workspaceId since := by
  cases docs <;> simp [startChecks]

theorem startChecks_eq_checking {docs todo : List OpenDocument} {first : OpenDocument}
    {read : Option (Option Role)} {claims' : AccessClaims}
    (h : startChecks claims docs = .checking claims' first read todo) :
    claims' = claims ∧ read = none ∧ docs = first :: todo := by
  cases docs with
  | nil => simp [startChecks] at h
  | cons doc docs =>
    obtain ⟨rfl, rfl, rfl, rfl⟩ := Stage.checking.inj h
    exact ⟨rfl, rfl, rfl⟩

theorem exists_startChecks {docs : List OpenDocument} {d : OpenDocument} (hd : d ∈ docs) :
    ∃ first read todo, startChecks claims docs = .checking claims first read todo ∧
      d ∈ first :: todo := by
  cases docs with
  | nil => simp at hd
  | cons doc docs => exact ⟨_, _, _, rfl, hd⟩

/-- **The claims of a connection are resolved**: they are as old as the last change, and
every open document is still to be checked against them. -/
theorem Inv.claimsAnswered (h : s.Inv) {credential : ConnectionCredential} {since : ℕ}
    (hpass : s.pass =
      some ⟨who, .resolving credential claims.workspaceId (some since), remaining⟩) :
    Inv { s.put who ((s.conns who).update
        { (s.conns who).toConnection with
          auth := (s.conns who).auth.map fun auth => { auth with claims } }) with
      claimsSince := Function.update s.claimsSince who since
      pass := some ⟨who, startChecks claims (s.conns who).documents.list, remaining⟩ } := by
  refine h.put ?_ (fun hopen => ⟨hopen, subset_rfl⟩) ?_ (by simp) fun hquiet => ?_
  · intro hopen auth hauth
    obtain ⟨old, -, rfl⟩ := map_eq_some_iff.mp hauth
    exact h.resolving _ hpass _ _ _ rfl hopen
  · rintro p hp credential workspaceId since hstage
    obtain rfl := mem_some_iff.mp hp
    exact absurd hstage startChecks_ne_resolving
  · have hcurrent := h.current hquiet
    refine ⟨?_, ?_, fun id auth hauth => ?_⟩
    · rintro p hp credential workspaceId since hstage
      obtain rfl := mem_some_iff.mp hp
      exact absurd hstage startChecks_ne_resolving
    · rintro p hp claims' doc role todo hstage
      obtain rfl := mem_some_iff.mp hp
      obtain ⟨-, hread, -⟩ := startChecks_eq_checking hstage
      simp at hread
    · by_cases hid : id = who
      · -- its documents are all still to be checked against the claims it was given
        subst hid
        obtain ⟨-, -, hauth, -⟩ := mem_live.mp hauth
        simp only [put_conns_self] at hauth
        obtain ⟨old, -, rfl⟩ := map_eq_some_iff.mp hauth
        refine .inr ⟨?_, fun doc hdoc => .inr ?_⟩
        · exact (update_self ..).trans (hcurrent.since _ hpass _ _ _ rfl)
        · simp only [put_conns_self] at hdoc
          obtain ⟨first, read, todo, hstage, hd⟩ := exists_startChecks hdoc
          exact (checks_iff rfl).mpr ⟨rfl, first, read, todo, hstage, doc, hd, rfl, rfl⟩
      · simp only [put_conns_of_ne hid, update_of_ne hid]
        exact hcurrent.conns_elsewhere hpass rfl hid ((live_put_of_ne hid) ▸ hauth)

theorem openGrant_of_checking {role : Role} {todo : List OpenDocument}
    (hpass : s.pass = some ⟨who, .checking claims doc (some (some role)) todo, remaining⟩)
    (hrole : some role = Connection.currentRole s.db claims doc) (hlive : auth ∈ s.live who)
    (hopen : ∃ old ∈ (s.conns who).documents.list, old.handle = doc.handle)
    (hkept : s.keepsInternal = false) : openGrant s.db claims doc.room = some role := by
  rw [openGrant_eq_some_iff]
  refine ⟨hrole.symm, fun hinternal => ?_⟩
  have hisSome : (s.live who).isSome = true := isSome_iff_exists.mpr ⟨auth, hlive⟩
  have hany : ((s.conns who).documents.list.any fun d => d.handle = doc.handle) = true := by
    simpa using hopen
  simp only [keepsInternal, hpass, hisSome, hinternal, hany, Bool.and_true, Bool.true_and,
    Bool.or_eq_false_iff, Bool.not_eq_false', isNone_eq_false_iff] at hkept
  exact ⟨hkept.1, isSome_iff_ne_none.mp hkept.2⟩

/-- **A document is checked**: it is closed, or one its claims do not forbid, unless internal
comments are kept. -/
theorem Inv.pageAnswered (h : s.Inv) {role : Option Role} {todo : List OpenDocument}
    (hpass : s.pass = some ⟨who, .checking claims doc (some role) todo, remaining⟩)
    (hok : ¬ s.Renews → s.keepsInternal = false) :
    Inv { s.put who ((s.conns who).update ((s.conns who).applyRole doc role)) with
      pass := some ⟨who, startChecks claims todo, remaining⟩ } := by
  have hkeeps : (s.conns who).Keeps
      ((s.conns who).update ((s.conns who).applyRole doc role)) :=
    .update (Connection.shrinks_applyRole doc role)
  refine h.put ((h.filed who).of_keeps hkeeps) (fun hopen => ⟨hopen, subset_rfl⟩) ?_
    (by simp) fun hquiet => ?_
  · rintro p hp credential workspaceId since hstage
    obtain rfl := mem_some_iff.mp hp
    exact absurd hstage startChecks_ne_resolving
  have hcurrent := h.current hquiet
  have hrole := hcurrent.role _ hpass _ _ _ _ rfl
  refine ⟨?_, ?_, fun id auth hauth => ?_⟩
  · rintro p hp credential workspaceId since hstage
    obtain rfl := mem_some_iff.mp hp
    exact absurd hstage startChecks_ne_resolving
  · rintro p hp claims' doc role todo hstage
    obtain rfl := mem_some_iff.mp hp
    obtain ⟨-, hread, -⟩ := startChecks_eq_checking hstage
    simp at hread
  by_cases hid : id = who
  · subst hid
    have hlive := mem_live_of_keeps hkeeps hauth
    rcases hcurrent.conns id auth hlive with hahead | ⟨hsince, hdocs⟩
    · refine .inl ((ahead_iff rfl).mpr (.inl ?_))
      exact ((ahead_iff hpass).mp hahead).resolve_right (by simp [Stage.isResolving])
    · refine .inr ⟨hsince, fun d hd => ?_⟩
      simp only [put_conns_self] at hd
      obtain ⟨old, hold, hhandle, hroom⟩ := hkeeps.documents d hd
      rcases hdocs old hold with hgranted | hchecks
      · exact .inl (hroom ▸ hgranted)
      obtain ⟨-, first, read, todo', hstage, x, hx, hxhandle, hxroom⟩ :=
        (checks_iff hpass).mp hchecks
      obtain ⟨hclaims, rfl, rfl, rfl⟩ := Stage.checking.inj hstage
      rcases List.mem_cons.mp hx with rfl | hx
      · -- the document that was checked
        cases role with
        | none =>
          exact absurd (hhandle.symm.trans hxhandle.symm)
            (Connection.handle_ne_of_mem_applyRole_none hd)
        | some role =>
          have hstands := openGrant_of_checking hpass hrole hlive ⟨old, hold, hxhandle.symm⟩
            (hok hquiet)
          rw [hxroom, hroom, hclaims] at hstands
          exact .inl (ne_of_eq_of_ne hstands (by simp))
      · -- one that is still to be checked
        obtain ⟨first, read, rest, hstage', hx'⟩ := exists_startChecks hx
        refine .inr ((checks_iff rfl).mpr ⟨rfl, first, read, rest, hclaims ▸ hstage', x, hx',
          ?_, ?_⟩)
        · exact hxhandle.trans hhandle
        · exact hxroom.trans hroom
  · simp only [put_conns_of_ne hid]
    exact hcurrent.conns_elsewhere hpass rfl hid ((live_put_of_ne hid) ▸ hauth)

theorem Inv.nextConnection (h : s.Inv) (hpass : s.pass = some ⟨who, .returned, remaining⟩) :
    (s.nextConnection remaining).Inv := by
  cases remaining with
  | nil =>
    refine h.endPass fun hquiet id => (h.current hquiet).upToDate hpass (by simp) fun hahead => ?_
    rcases (ahead_iff hpass).mp hahead with hrest | ⟨-, hstage⟩
    · simp at hrest
    · simp [Stage.isResolving] at hstage
  | cons first rest =>
    have hbegin : Inv { s with
        notices := s.notices, again := s.again, pass := s.begin (first :: rest) } := by
      refine h.begin (by simp [Revocation.begin]) ?_
      by_cases hquiet : s.Renews
      · exact hquiet.elim .inl fun hagain => .inr (.inl hagain)
      · refine .inr (.inr fun id auth hauth => ?_)
        by_cases hahead : s.Ahead id
        · exact .inl (((ahead_iff hpass).mp hahead).resolve_right (by simp [Stage.isResolving]))
        · exact .inr ((h.current hquiet).upToDate hpass (by simp) hahead auth hauth)
    exact hbegin

theorem Inv.pageFails (h : s.Inv) {read : Option (Option Role)} {todo : List OpenDocument}
    (hpass : s.pass = some ⟨who, .checking claims doc read todo, remaining⟩)
    (hok : ¬ s.Renews → ∀ id ∈ who :: remaining, s.UpToDate id) : s.endPass.Inv := by
  refine h.endPass fun hquiet id => ?_
  by_cases hid : id ∈ who :: remaining
  · exact hok hquiet id hid
  · rw [List.mem_cons, not_or] at hid
    intro auth hauth
    exact ((h.current hquiet).elsewhere hpass hid.1 hauth).resolve_left hid.2

end Pass

/-! ### Runs -/

theorem Inv.accessChanges (h : s.Inv) (db : Tables) :
    Inv { s with db, version := s.version + 1, notices := s.notices + 1 } where
  grouped := h.grouped
  filed := h.filed
  resolving := h.resolving
  idle := h.idle
  current := fun hquiet => absurd (.inl (Nat.succ_pos _)) hquiet

theorem Inv.deliver (h : s.Inv) :
    ({ s with notices := s.notices - 1 } : Revocation).revalidateWorkspace.Inv := by
  rw [Revocation.revalidateWorkspace]
  split
  · rename_i hpass
    refine ⟨h.grouped, h.filed, h.resolving, fun hnone => ?_, fun hquiet => ?_⟩
    · simp only at hnone hpass
      simp [hnone] at hpass
    · exact absurd (.inr rfl) hquiet
  · rename_i hpass
    exact h.begin (fun _ => h.idle (by simpa using hpass))
      (.inr (.inr fun id auth hauth => .inl (h.mem_group hauth)))

theorem Inv.setTasks (h : s.Inv) (tasks : List Task) : Inv { s with tasks } :=
  ⟨h.grouped, h.filed, h.resolving, h.idle, fun hquiet =>
    ⟨(h.current hquiet).since, (h.current hquiet).role, (h.current hquiet).conns⟩⟩

theorem Inv.taskResumes (h : s.Inv) {task : Task} {answer : Answer}
    (hok : ¬ s.Misses (.taskResumes task answer))
    (hstep : s.step (.taskResumes task answer) = some s') : s'.Inv := by
  simp only [step, ite_none_right_eq_some, map_eq_some_iff] at hstep
  obtain ⟨-, ⟨conn, next⟩, hresume, rfl⟩ := hstep
  rcases IndexedConnection.resume_cases hresume with ⟨claims, credential, hauthenticates, rfl⟩ |
    ⟨requestId, asked, role, hregisters, rfl⟩ |
      ⟨hauthenticates, -, sent, socketClosed, rfl, hsocket⟩
  · simp only [hauthenticates]
    refine (h.setTasks (s.tasks.erase task)).authenticate
      fun hquiet hahead hopen hsocket hworkspace => ?_
    have hfresh : ¬ (task.since ≠ some s.version ∨ ∃ doc ∈ (s.conns task.conn).documents.list,
        openGrant s.db claims doc.room = none) := fun hstale =>
      hok ⟨hquiet, hahead, .inr ⟨claims, hauthenticates, hopen, hsocket, hworkspace, hstale⟩⟩
    rw [not_or, not_not] at hfresh
    refine ⟨by rw [hfresh.1]; rfl, fun doc hdoc hforbidden => hfresh.2 ⟨doc, hdoc, hforbidden⟩⟩
  · have hnone : task.handler.authenticates answer = none := by
      cases hhandler : task.handler <;> simp_all [Handler.registers, Handler.authenticates]
    simp only [hnone]
    refine (h.setTasks (s.tasks.erase task)).register fun hquiet hahead auth hauth hforbidden => ?_
    exact hok ⟨hquiet, hahead, .inl ⟨asked, hregisters, auth, hauth, hforbidden⟩⟩
  · simp only [hauthenticates]
    exact (h.setTasks (s.tasks.erase task)).put_keeps (.update (.tell hsocket))

theorem Inv.step {e : RevocationEvent} (h : s.Inv) (hok : ¬ s.Misses e)
    (hstep : revocation.step s e = some s') : s'.Inv := by
  cases e with
  | accessChanges db =>
    obtain rfl := some.inj hstep
    exact h.accessChanges db
  | deliver =>
    simp only [revocation, Revocation.step, ite_none_left_eq_some, Option.some.injEq]
      at hstep
    obtain ⟨-, rfl⟩ := hstep
    exact h.deliver
  | auth id payload =>
    simp only [revocation, Revocation.step, ite_none_left_eq_some, Option.some.injEq]
      at hstep
    obtain ⟨-, rfl⟩ := hstep
    exact h.put_keeps (IndexedConnection.keeps_handleAuth payload)
  | «open» id requestId asked =>
    simp only [revocation, Revocation.step, ite_none_left_eq_some, Option.some.injEq]
      at hstep
    obtain ⟨-, rfl⟩ := hstep
    exact h.put_keeps (IndexedConnection.keeps_handleOpen requestId asked)
  | closeDocument id handle =>
    simp only [revocation, Revocation.step, ite_none_left_eq_some, Option.some.injEq]
      at hstep
    obtain ⟨-, rfl⟩ := hstep
    exact h.put_keeps (.update (Connection.shrinks_handleCloseDocument handle))
  | socketCloses id =>
    simp only [revocation, Revocation.step, ite_none_left_eq_some, Option.some.injEq]
      at hstep
    obtain ⟨-, rfl⟩ := hstep
    exact h.put_keeps IndexedConnection.keeps_onClose
  | taskReads task =>
    simp only [revocation, Revocation.step, ite_none_right_eq_some, Option.some.injEq]
      at hstep
    obtain ⟨-, rfl⟩ := hstep
    exact h.setTasks _
  | taskResumes task answer => exact h.taskResumes hok hstep
  | claimsRead =>
    simp only [revocation, Revocation.step] at hstep
    split at hstep
    · rename_i hpass
      obtain rfl := some.inj hstep
      exact h.claimsRead hpass
    · simp at hstep
  | claimsAnswered claims =>
    simp only [revocation, Revocation.step] at hstep
    split at hstep
    · rename_i hpass
      obtain rfl := some.inj hstep
      exact h.revoke hpass
    · rename_i hpass
      rw [ite_none_right_eq_some] at hstep
      obtain ⟨rfl, hstep⟩ := hstep
      obtain rfl := some.inj hstep
      exact h.claimsAnswered hpass
    · simp at hstep
  | claimsFail =>
    simp only [revocation, Revocation.step] at hstep
    split at hstep
    · rename_i hpass
      obtain rfl := some.inj hstep
      refine h.claimsFail hpass fun hquiet => ?_
      by_contra hnot
      exact hok ⟨hquiet, _, hpass, hnot⟩
    · simp at hstep
  | pageRead =>
    simp only [revocation, Revocation.step] at hstep
    split at hstep
    · rename_i hpass
      obtain rfl := some.inj hstep
      exact h.pageRead hpass
    · simp at hstep
  | pageAnswered =>
    simp only [revocation, Revocation.step] at hstep
    split at hstep
    · rename_i hpass
      obtain rfl := some.inj hstep
      refine h.pageAnswered hpass fun hquiet => ?_
      by_contra hkept
      exact hok ⟨hquiet, by simpa using hkept⟩
    · simp at hstep
  | pageFails =>
    simp only [revocation, Revocation.step] at hstep
    split at hstep
    · rename_i hpass
      obtain rfl := some.inj hstep
      refine h.pageFails hpass fun hquiet id hid => ?_
      by_contra hnot
      exact hok ⟨hquiet, _, hpass, id, hid, hnot⟩
    · simp at hstep
  | connectionDone =>
    simp only [revocation, Revocation.step] at hstep
    split at hstep
    · rename_i hpass
      obtain rfl := some.inj hstep
      exact h.nextConnection hpass
    · simp at hstep

/-- **A settled workspace is up to date** in every run none of whose steps misses a change:
every connection of the workspace holds claims resolved after the last access change and has
no document open that they forbid. -/
theorem upToDate_of_reachesWhen (h : revocation.ReachesWhen (fun s e => ¬ s.Misses e) s)
    (hsettled : s.Settled) (id : ℕ) : s.UpToDate id := by
  have hinv : s.Inv := by
    refine h.invariant ?_ fun _ _ _ hinv hok hstep => hinv.step hok hstep
    rintro _ ⟨workspaceId, db, cookies, rfl⟩
    refine ⟨by simp [IndexedConnection.accepted], ?_, by simp, fun _ => rfl, fun _ => ?_⟩
    · simp [IndexedConnection.FiledByClaims, IndexedConnection.accepted]
    · refine ⟨by simp, by simp, fun id auth hauth => ?_⟩
      obtain ⟨-, -, hauth, -⟩ := mem_live.mp hauth
      simp [IndexedConnection.accepted] at hauth
  exact hinv.upToDate hsettled id

/-! ### A run that misses nothing, and one that misses a change -/

instance (s : Revocation) (id : ℕ) : Decidable (s.UpToDate id) :=
  inferInstanceAs (Decidable (∀ auth ∈ s.live id, _ ∧ ∀ doc ∈ (s.conns id).documents.list, _))

instance (s : Revocation) : Decidable s.Renews := inferInstanceAs (Decidable (_ ∨ _))

instance (s : Revocation) (id : ℕ) : Decidable (s.Ahead id) :=
  inferInstanceAs (Decidable (∃ p ∈ s.pass, _ ∨ _))

instance (s : Revocation) : (e : RevocationEvent) → Decidable (s.Misses e)
  | .taskResumes task answer => inferInstanceAs (Decidable (_ ∧ _ ∧
      ((∃ asked ∈ task.handler.registers answer, ∃ auth ∈ s.live task.conn, _) ∨
        ∃ claims ∈ task.handler.authenticates answer, _ ∧ _ ∧ _ ∧
          (_ ∨ ∃ doc ∈ (s.conns task.conn).documents.list, _))))
  | .claimsFail => inferInstanceAs (Decidable (_ ∧ ∃ p ∈ s.pass, _))
  | .pageFails => inferInstanceAs (Decidable (_ ∧ ∃ p ∈ s.pass,
      ∃ id ∈ p.current :: p.remaining, _))
  | .pageAnswered => inferInstanceAs (Decidable (_ ∧ _))
  | .accessChanges _ | .deliver | .auth _ _ | .open _ _ _ | .closeDocument _ _
  | .socketCloses _ | .taskReads _ | .claimsRead | .claimsAnswered _ | .pageRead
  | .connectionDone => inferInstanceAs (Decidable False)

/-- The workspace of the one editor, before anybody connects. -/
def quiet : Revocation where
  workspaceId := 1
  db := Connection.oneEditor
  version := 0
  notices := 0
  conns := fun _ => .accepted (some "seven")
  group := []
  claimsSince := fun _ => 0
  tasks := []
  again := false
  pass := none

theorem quiet_init : revocation.init quiet := ⟨1, _, fun _ => some "seven", rfl⟩

/-- What the editor's token stands for in that workspace. -/
def editorClaims : AccessClaims := Connection.editorAuth.claims

example : resolveSessionClaims Connection.atStart Connection.oneEditor "seven" 1 =
    .ok (some editorClaims) := by decide

/-- The editor authenticates, and opens the page while it is being restricted. -/
def restrictedWhileOpening : List RevocationEvent :=
  [.auth 0 ⟨none, 1, none⟩, .taskReads ⟨0, .resolvingSession "seven" 1, none⟩,
    .taskResumes ⟨0, .resolvingSession "seven" 1, some 0⟩ (.sessionClaims editorClaims),
    .taskResumes ⟨0, .resolvingSessionId editorClaims, some 0⟩ (.sessionId (some 70)),
    .open 0 1 ⟨10, false⟩,
    .taskResumes ⟨0, .authorizing 1 ⟨10, false⟩ editorClaims, none⟩ (.authorized .editor),
    .accessChanges { Connection.oneEditor with pages := [⟨10, 1, none, [], true⟩] },
    .taskResumes ⟨0, .loading 1 ⟨10, false⟩ .editor, none⟩ .room, .deliver, .claimsRead,
    .claimsAnswered (some editorClaims), .pageRead, .pageAnswered, .connectionDone]

theorem upToDate_of_reachesWhen_restrictedWhileOpening :
    ∃ s, revocation.ReachesWhen (fun s e => ¬ s.Misses e) s ∧ (s.live 0).isSome = true ∧
      s.version = 1 ∧ s.UpToDate 0 := by
  have hreach : ∃ s, revocation.ReachesWhen (fun s e => ¬ s.Misses e) s ∧
      (s.live 0).isSome = true ∧ s.version = 1 ∧ s.tasks = [] ∧ s.pass.isNone = true ∧
        s.notices = 0 :=
    Machine.exists_reachesWhen_of_runWhen restrictedWhileOpening quiet_init (by decide)
  obtain ⟨s, hs, hlive, hversion, htasks, hpass, hnotices⟩ := hreach
  exact ⟨s, hs, hlive, hversion,
    upToDate_of_reachesWhen hs ⟨htasks, isNone_iff_eq_none.mp hpass, hnotices⟩ 0⟩

/-- **A change is missed** by a connection whose claims were resolved before it and which is
filed after the pass it set off. -/
theorem not_upToDate : ¬ ∀ s, revocation.Reaches s → s.Settled → ∀ id, s.UpToDate id := by
  intro h
  have hreach : ∃ s, revocation.Reaches s ∧ s.tasks = [] ∧ s.pass.isNone = true ∧
      s.notices = 0 ∧ ¬ s.UpToDate 0 :=
    Machine.exists_reachesWhen_of_runWhen
      [.auth 0 ⟨none, 1, none⟩, .taskReads ⟨0, .resolvingSession "seven" 1, none⟩,
        .taskResumes ⟨0, .resolvingSession "seven" 1, some 0⟩ (.sessionClaims editorClaims),
        .accessChanges { Connection.oneEditor with workspaceMembers := [] }, .deliver,
        .taskResumes ⟨0, .resolvingSessionId editorClaims, some 0⟩ (.sessionId (some 70))]
      quiet_init (by decide)
  obtain ⟨s, hs, htasks, hpass, hnotices, hnot⟩ := hreach
  exact hnot (h s hs ⟨htasks, isNone_iff_eq_none.mp hpass, hnotices⟩ 0)

end Revocation

end Sone
