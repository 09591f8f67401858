import Sone.Sync.Handles

/-!
# What a revalidation checks again, and what it does not

`handleOpen` applies two rules: the page has to be readable, and for a page's internal
comments the principal has to be a user to whom the workspace gives its pages by default
(`openGrant_eq_some_iff`). `revalidateConnection` resolves the claims again and goes through
the open documents with the first rule only (`mem_revalidateConnection`): its records carry
the page and not what was asked for.

`granted_revalidateConnection_iff` says exactly when that is enough.
-/

namespace Sone

open List Option

theorem openGrant_eq_some_iff {db : Tables} {claims : AccessClaims} {asked : AskedName}
    {role : Role} :
    openGrant db claims asked = some role ↔
      (loadPageLocation db asked.pageId).bind (effectiveRole claims) = some role ∧
        (asked.internal = true → claims.principal.isUser = true ∧ claims.pageLevel ≠ none) := by
  unfold openGrant authorizeDocumentOpen
  cases hpage : loadPageLocation db asked.pageId with
  | none => simp
  | some page =>
    simp only [bind_some]
    cases hrole : requireRole claims page .viewer with
    | error message =>
      have hne : effectiveRole claims page ≠ some role := fun h => by
        rw [requireRole_viewer.mpr h] at hrole
        simp at hrole
      simp [Except.map, hne]
    | ok role' =>
      rw [requireRole_viewer.mp hrole]
      cases hinternal : asked.internal with
      | false => simp [Except.map]
      | true =>
        simp only [Except.map, Bool.true_and, Bool.or_eq_true, Bool.not_eq_true',
          isNone_iff_eq_none, ite_none_left_eq_some, not_or, Bool.not_eq_false,
          forall_const, ne_eq, Option.some.injEq]
        exact and_comm

namespace Connection

variable {conn : Connection} {doc doc' : OpenDocument} {env : Env} {db : Tables}
  {claims : AccessClaims}

/-- Every open document is one that `handleOpen` would grant on the database state, with
the role recorded for it. -/
def Granted (conn : Connection) (db : Tables) : Prop :=
  ∀ doc ∈ conn.documents.list, ∃ auth ∈ conn.auth,
    openGrant db auth.claims doc.room = some doc.role

/-- **The condition.** Of the internal comments that stay open, because the claims resolved
now still give something on their page, the principal is a user whose `pageLevel` is not
null. Where the claims cannot be resolved nothing is checked, and the documents have to be
granted as they are. -/
def InternalStands (conn : Connection) (env : Env) (db : Tables) : Prop :=
  match conn.auth with
  | none => conn.documents.list = []
  | some auth =>
    match revalidateClaims env db auth.credential auth.claims.workspaceId with
    | .error _ => conn.Granted db
    | .ok none => True
    | .ok (some claims) => ∀ doc ∈ conn.documents.list, doc.room.internal = true →
        currentRole db claims doc ≠ none →
        claims.principal.isUser = true ∧ claims.pageLevel ≠ none

/-! ### The loop over the open documents -/

theorem mem_revalidateDocument (hdoc : doc ∈ conn.documents.list) :
    doc' ∈ (revalidateDocument db claims conn doc).documents.list ↔
      (doc' ∈ conn.documents.list ∧ doc'.handle ≠ doc.handle) ∨
        ∃ role, currentRole db claims doc = some role ∧ doc' = { doc with role } := by
  have hown : ∀ role, (∃ d ∈ conn.documents.list, d.handle = doc.handle ∧
      doc' = { d with role }) ↔ doc' = { doc with role } := by
    intro role
    constructor
    · rintro ⟨d, hd, hhandle, rfl⟩
      rw [OpenDocuments.eq_of_handle_eq hd hdoc hhandle]
    · intro heq
      exact ⟨doc, hdoc, rfl, heq⟩
  unfold revalidateDocument applyRole
  cases hrole : currentRole db claims doc with
  | none => simp [closeDocument, mem_handleCloseDocument]
  | some role =>
    simp only [Option.some.injEq, exists_eq_left']
    by_cases hsame : role = doc.role
    · subst hsame
      simp only [ne_eq, not_true_eq_false, if_false]
      by_cases hhandle : doc'.handle = doc.handle
      · constructor
        · intro h
          exact .inr (OpenDocuments.eq_of_handle_eq h hdoc hhandle)
        · rintro (⟨-, hne⟩ | rfl)
          · exact absurd hhandle hne
          · exact hdoc
      · constructor
        · intro h
          exact .inl ⟨h, hhandle⟩
        · rintro (⟨h, -⟩ | rfl)
          · exact h
          · exact hdoc
    · rw [if_pos hsame, changeRole, OpenDocuments.mem_setRole, hown]

/-- **The loop**: of the documents it went through, those that are still readable stay, with
their role of now. -/
theorem mem_foldl_revalidateDocument {docs : List OpenDocument}
    (hnodup : (docs.map (·.handle)).Nodup) (hopen : ∀ doc ∈ docs, doc ∈ conn.documents.list) :
    doc' ∈ (docs.foldl (revalidateDocument db claims) conn).documents.list ↔
      (doc' ∈ conn.documents.list ∧ doc'.handle ∉ docs.map (·.handle)) ∨
        ∃ doc ∈ docs, ∃ role, currentRole db claims doc = some role ∧
          doc' = { doc with role } := by
  -- the handles are distinct, so one pass leaves the documents still to come alone
  induction docs generalizing conn with
  | nil => simp
  | cons doc docs ih =>
    obtain ⟨hfresh, hnodup⟩ := nodup_cons.mp hnodup
    have hdoc := hopen doc mem_cons_self
    have hrest : ∀ d ∈ docs, d ∈ (revalidateDocument db claims conn doc).documents.list := by
      intro d hd
      refine (mem_revalidateDocument hdoc).mpr (.inl ⟨hopen d (mem_cons_of_mem _ hd), ?_⟩)
      intro hsame
      exact hfresh (List.mem_map.mpr ⟨d, hd, hsame⟩)
    rw [foldl_cons, ih hnodup hrest, mem_revalidateDocument hdoc]
    simp only [map_cons, mem_cons, not_or, exists_eq_or_imp]
    constructor
    · rintro (⟨⟨h, hne⟩ | h, hnot⟩ | h)
      · exact .inl ⟨h, hne, hnot⟩
      · exact .inr (.inl h)
      · exact .inr (.inr h)
    · rintro (⟨h, hne, hnot⟩ | ⟨role, hrole, rfl⟩ | h)
      · exact .inl ⟨.inl ⟨h, hne⟩, hnot⟩
      · exact .inl ⟨.inr ⟨role, hrole, rfl⟩, hfresh⟩
      · exact .inr h

theorem mem_revalidateConnection {auth : Authentication} (hauth : conn.auth = some auth)
    (hclaims : revalidateClaims env db auth.credential auth.claims.workspaceId =
      .ok (some claims)) :
    doc' ∈ (conn.revalidateConnection env db).documents.list ↔
      ∃ doc ∈ conn.documents.list, ∃ role, currentRole db claims doc = some role ∧
        doc' = { doc with role } := by
  simp only [revalidateConnection, hauth, hclaims]
  refine Iff.trans (mem_foldl_revalidateDocument conn.documents.nodup fun doc hdoc => hdoc) ?_
  constructor
  · rintro (⟨hdoc, hnot⟩ | h)
    · exact absurd (List.mem_map_of_mem hdoc) hnot
    · exact h
  · exact .inr

theorem documents_revalidateConnection_none {auth : Authentication}
    (hauth : conn.auth = some auth)
    (hclaims : revalidateClaims env db auth.credential auth.claims.workspaceId = .ok none) :
    (conn.revalidateConnection env db).documents.list = [] := by
  have hloop : ∀ (docs : List OpenDocument) (conn : Connection),
      ∀ doc ∈ (docs.foldl closeDocument conn).documents.list,
        doc ∈ conn.documents.list ∧ doc.handle ∉ docs.map (·.handle) := by
    intro docs
    induction docs with
    | nil => simp
    | cons closed docs ih =>
      intro conn doc hdoc
      obtain ⟨hdoc, hnot⟩ := ih _ doc hdoc
      rw [closeDocument, mem_handleCloseDocument] at hdoc
      exact ⟨hdoc.1, by simp [hdoc.2, hnot]⟩
  simp only [revalidateConnection, hauth, hclaims, revoke, send_documents]
  refine eq_nil_iff_forall_not_mem.mpr fun doc hdoc => ?_
  obtain ⟨hdoc, hnot⟩ := hloop _ _ doc hdoc
  exact hnot (List.mem_map_of_mem hdoc)

theorem auth_revalidateConnection {auth : Authentication} (hauth : conn.auth = some auth)
    (hclaims : revalidateClaims env db auth.credential auth.claims.workspaceId =
      .ok (some claims)) :
    (conn.revalidateConnection env db).auth = some { auth with claims } := by
  simp only [revalidateConnection, hauth, hclaims]
  rw [foldl_auth _ fun conn doc => revalidateDocument_auth]

/-- **A revalidation leaves only what opening would grant**, with the role it would grant,
exactly when the condition holds. -/
theorem granted_revalidateConnection_iff (conn : Connection) (env : Env) (db : Tables) :
    (conn.revalidateConnection env db).Granted db ↔ conn.InternalStands env db := by
  rw [InternalStands]
  cases hauth : conn.auth with
  | none =>
    have hsame : conn.revalidateConnection env db = conn := by
      simp [revalidateConnection, hauth]
    simp [hsame, Granted, hauth, eq_nil_iff_forall_not_mem]
  | some auth =>
    simp only
    cases hclaims : revalidateClaims env db auth.credential auth.claims.workspaceId with
    | error message =>
      have hsame : conn.revalidateConnection env db = conn := by
        simp [revalidateConnection, hauth, hclaims]
      simp only [hsame]
    | ok claims =>
      cases claims with
      | none =>
        simp [Granted, documents_revalidateConnection_none hauth hclaims]
      | some claims =>
        simp only [Granted, mem_revalidateConnection hauth hclaims,
          auth_revalidateConnection hauth hclaims, mem_def, Option.some.injEq,
          exists_eq_left', openGrant_eq_some_iff]
        constructor
        · intro h doc hdoc hinternal hreadable
          obtain ⟨role, hrole⟩ := ne_none_iff_exists'.mp hreadable
          exact (h _ ⟨doc, hdoc, role, hrole, rfl⟩).2 hinternal
        · rintro h _ ⟨doc, hdoc, role, hrole, rfl⟩
          refine ⟨hrole, fun hinternal => h doc hdoc hinternal ?_⟩
          simp [hrole]

/-! ### A guest who keeps the internal comments -/

/-- The editor's own grant on the page, and the role of a guest in place of the member's. -/
def demotedEditor : Tables :=
  { oneEditor with
    roles := [⟨4, none, some "member", some .editor, []⟩, ⟨5, none, some "guest", none, []⟩]
    workspaceMembers := [⟨1, 7, 5, false⟩]
    pagePermissions := [⟨10, 7, .editor, true⟩] }

/-- The moment everything here happens. -/
def atStart : Env where
  now := 0
  hashToken := id

/-- **The internal comments stay open** for an editor who was made a guest and holds a grant
on the page, and who could not open them any more. -/
theorem not_granted_revalidateConnection :
    ¬ ∀ (conn : Connection) (env : Env) (db : Tables),
      (conn.revalidateConnection env db).Granted db := by
  intro h
  have hgranted := h ((authenticated editorAuth).handleOpen 1 ⟨10, true⟩ oneEditor true true)
    atStart demotedEditor
  have hopen : ⟨1, ⟨10, true⟩, .editor⟩ ∈ (((authenticated editorAuth).handleOpen 1 ⟨10, true⟩
      oneEditor true true).revalidateConnection atStart demotedEditor).documents.list := by
    decide
  obtain ⟨auth, hauth, hgrant⟩ := hgranted _ hopen
  have hguest : (((authenticated editorAuth).handleOpen 1 ⟨10, true⟩ oneEditor true
      true).revalidateConnection atStart demotedEditor).auth.map (·.claims.pageLevel) =
        some none := by
    decide
  obtain ⟨-, hstands⟩ := openGrant_eq_some_iff.mp hgrant
  rw [mem_def.mp hauth, map_some, Option.some.injEq] at hguest
  exact (hstands rfl).2 hguest

end Connection

end Sone
