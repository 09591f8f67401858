import Sone.Transition.Machine
import Sone.Sync.Connection

/-!
# Names and handles of a connection

A request has at most one open handle, and `handlesByPage` is to say which. The machine
`syncConnection` is one authenticated connection under completed opens, closes,
revalidations and the disconnect, each against any database state.

`handleCloseDocument` clears the entry of the page's id, and a page's internal comments
share that id with the page: closing the comments of a page takes away the entry of the
page and leaves their own (`ClosesInternal`). `names_of_reachesWhen` says that the two maps
agree in every run without that.
-/

namespace Sone

open Function

inductive ConnectionEvent where
  | open (requestId : ℕ) (asked : AskedName) (db : Tables) (answered roomLoads : Bool)
  | close (handle : ℕ)
  | revalidate (env : Env) (db : Tables)
  | disconnect

namespace Connection

def step (conn : Connection) : ConnectionEvent → Connection
  | .open requestId asked db answered roomLoads =>
    conn.handleOpen requestId asked db answered roomLoads
  | .close handle => conn.handleCloseDocument handle
  | .revalidate env db => conn.revalidateConnection env db
  | .disconnect => conn.onClose

end Connection

/-- **The machine of a connection's documents.** -/
def syncConnection : Machine Connection ConnectionEvent where
  init conn := ∃ auth, conn = .authenticated auth
  step conn e := some (conn.step e)

namespace Connection

/-! ### The invariant, and the steps that break it -/

/-- `handlesByPage` maps exactly the names of the open documents, to their handles. -/
def NamesAgree (conn : Connection) : Prop :=
  ∀ name handle, conn.handlesByPage name = some handle ↔
    ∃ doc ∈ conn.documents.list, doc.room = name ∧ doc.handle = handle

/-- What a revalidation resolves its claims to closes the document: the credential is gone,
or its claims give nothing on the page. -/
def ClosedBy (db : Tables) (doc : OpenDocument) : Except String (Option AccessClaims) → Prop
  | .error _ => False
  | .ok none => True
  | .ok (some claims) => currentRole db claims doc = none

/-- Revalidating against a database state closes the document. -/
def Revoked (conn : Connection) (env : Env) (db : Tables) (doc : OpenDocument) : Prop :=
  ∃ auth ∈ conn.auth,
    ClosedBy db doc (revalidateClaims env db auth.credential auth.claims.workspaceId)

/-- A document of internal comments is closed, by the client or by a revalidation. -/
def ClosesInternal (conn : Connection) : ConnectionEvent → Prop
  | .close handle => ∃ doc ∈ conn.documents.list, doc.handle = handle ∧ doc.room.internal = true
  | .revalidate env db => ∃ doc ∈ conn.documents.list, doc.room.internal = true ∧
      conn.Revoked env db doc
  | _ => False

instance (db : Tables) (doc : OpenDocument) :
    (resolved : Except String (Option AccessClaims)) → Decidable (ClosedBy db doc resolved)
  | .error _ => inferInstanceAs (Decidable False)
  | .ok none => inferInstanceAs (Decidable True)
  | .ok (some claims) => inferInstanceAs (Decidable (currentRole db claims doc = none))

instance (conn : Connection) (env : Env) (db : Tables) (doc : OpenDocument) :
    Decidable (conn.Revoked env db doc) :=
  inferInstanceAs (Decidable (∃ auth ∈ conn.auth, _))

instance (conn : Connection) : (e : ConnectionEvent) → Decidable (conn.ClosesInternal e)
  | .open .. => inferInstanceAs (Decidable False)
  | .close handle => inferInstanceAs (Decidable (∃ doc ∈ conn.documents.list,
      doc.handle = handle ∧ doc.room.internal = true))
  | .revalidate env db => inferInstanceAs (Decidable (∃ doc ∈ conn.documents.list,
      doc.room.internal = true ∧ conn.Revoked env db doc))
  | .disconnect => inferInstanceAs (Decidable False)

variable {conn : Connection} {doc : OpenDocument} {handle : ℕ} {role : Role}

@[simp] theorem send_documents (frame : ServerFrame) :
    (conn.send frame).documents = conn.documents := rfl

@[simp] theorem send_auth (frame : ServerFrame) : (conn.send frame).auth = conn.auth := rfl

@[simp] theorem handleCloseDocument_auth : (conn.handleCloseDocument handle).auth = conn.auth := by
  rw [handleCloseDocument]
  split <;> rfl

@[simp] theorem mem_handleCloseDocument :
    doc ∈ (conn.handleCloseDocument handle).documents.list ↔
      doc ∈ conn.documents.list ∧ doc.handle ≠ handle := by
  rw [handleCloseDocument]
  split
  · rename_i hget
    have hnone : ∀ doc ∈ conn.documents.list, doc.handle ≠ handle := by
      simpa using List.find?_eq_none.mp hget
    exact ⟨fun hdoc => ⟨hdoc, hnone doc hdoc⟩, fun hdoc => hdoc.1⟩
  · exact OpenDocuments.mem_remove

theorem NamesAgree.send (h : conn.NamesAgree) (frame : ServerFrame) :
    (conn.send frame).NamesAgree := h

theorem NamesAgree.get_eq_some (h : conn.NamesAgree) (hdoc : doc ∈ conn.documents.list) :
    (conn.handlesByPage doc.room).bind conn.documents.get = some doc := by
  rw [(h doc.room doc.handle).mpr ⟨doc, hdoc, rfl, rfl⟩, Option.bind_some,
    OpenDocuments.get_eq_some_iff]
  exact ⟨hdoc, rfl⟩

theorem NamesAgree.eq_of_room_eq {doc' : OpenDocument} (h : conn.NamesAgree)
    (hdoc : doc ∈ conn.documents.list) (hdoc' : doc' ∈ conn.documents.list)
    (hroom : doc.room = doc'.room) : doc = doc' := by
  have hget := h.get_eq_some hdoc
  rw [hroom, h.get_eq_some hdoc'] at hget
  exact (Option.some.inj hget).symm

theorem NamesAgree.register {requestId : ℕ} {asked : AskedName} (h : conn.NamesAgree)
    (hnew : (conn.handlesByPage asked).bind conn.documents.get = none) :
    (conn.register requestId asked role).NamesAgree := by
  have hclosed : ∀ doc ∈ conn.documents.list, doc.room ≠ asked := by
    rintro doc hdoc rfl
    rw [h.get_eq_some hdoc] at hnew
    simp at hnew
  intro name handle
  simp only [Connection.register, OpenDocuments.mem_add]
  by_cases hname : name = asked
  · -- the name asked for has the new document and no other
    subst hname
    rw [update_self]
    constructor
    · intro heq
      exact ⟨_, .inr rfl, rfl, Option.some.inj heq⟩
    · rintro ⟨doc, hdoc | rfl, hroom, rfl⟩
      · exact absurd hroom (hclosed doc hdoc)
      · rfl
  · rw [update_of_ne hname, h name handle]
    constructor
    · rintro ⟨doc, hdoc, hroom⟩
      exact ⟨doc, .inl hdoc, hroom⟩
    · rintro ⟨doc, hdoc | rfl, hroom, hhandle⟩
      · exact ⟨doc, hdoc, hroom, hhandle⟩
      · exact absurd hroom.symm hname

theorem NamesAgree.handleCloseDocument (h : conn.NamesAgree)
    (hpage : ∀ doc ∈ conn.documents.list, doc.handle = handle → doc.room.internal = false) :
    (conn.handleCloseDocument handle).NamesAgree := by
  intro name h'
  simp only [mem_handleCloseDocument]
  rw [Connection.handleCloseDocument]
  split
  · rename_i hget
    have hnone : ∀ doc ∈ conn.documents.list, doc.handle ≠ handle := by
      simpa using List.find?_eq_none.mp hget
    rw [h name h']
    constructor
    · rintro ⟨doc, hdoc, hroom⟩
      exact ⟨doc, ⟨hdoc, hnone doc hdoc⟩, hroom⟩
    · rintro ⟨doc, ⟨hdoc, -⟩, hroom⟩
      exact ⟨doc, hdoc, hroom⟩
  · rename_i closed hget
    obtain ⟨hclosed, hhandle⟩ := OpenDocuments.get_eq_some_iff.mp hget
    -- the entry of the page's id is the document's own
    have hroom : closed.room = ⟨closed.pageId, false⟩ := by
      rw [← hpage closed hclosed hhandle]
      rfl
    rw [← hroom]
    by_cases hname : name = closed.room
    · subst hname
      simp only [update_self, reduceCtorEq, false_iff, not_exists, not_and]
      rintro doc ⟨hdoc, hne⟩ hsame -
      exact hne (h.eq_of_room_eq hdoc hclosed hsame ▸ hhandle)
    · simp only [update_of_ne hname, h name h']
      constructor
      · rintro ⟨doc, hdoc, rfl, rfl⟩
        refine ⟨doc, ⟨hdoc, fun hsame => hname ?_⟩, rfl, rfl⟩
        rw [OpenDocuments.eq_of_handle_eq hdoc hclosed (hsame.trans hhandle.symm)]
      · rintro ⟨doc, ⟨hdoc, -⟩, hrest⟩
        exact ⟨doc, hdoc, hrest⟩

theorem NamesAgree.changeRole (h : conn.NamesAgree) :
    (conn.changeRole doc role).NamesAgree := by
  intro name handle
  simp only [Connection.changeRole, OpenDocuments.mem_setRole, h name handle]
  constructor
  · rintro ⟨d, hd, hroom, hhandle⟩
    by_cases hsame : d.handle = doc.handle
    · exact ⟨{ d with role }, .inr ⟨d, hd, hsame, rfl⟩, hroom, hhandle⟩
    · exact ⟨d, .inl ⟨hd, hsame⟩, hroom, hhandle⟩
  · rintro ⟨_, ⟨hd, -⟩ | ⟨d, hd, -, rfl⟩, hroom, hhandle⟩
    · exact ⟨_, hd, hroom, hhandle⟩
    · exact ⟨d, hd, hroom, hhandle⟩

/-! ### A revalidation, document by document -/

/-- The documents of a connection in the middle of a revalidation are those it started
with, as far as handles and rooms go. -/
def Within (docs : List OpenDocument) (conn : Connection) : Prop :=
  ∀ doc ∈ conn.documents.list, ∀ old ∈ docs, doc.handle = old.handle → doc.room = old.room

private theorem NamesAgree.foldl {docs : List OpenDocument}
    (body : Connection → OpenDocument → Connection) (h : conn.NamesAgree)
    (hwithin : conn.Within docs)
    (hbody : ∀ conn doc, doc ∈ docs → body conn doc = conn ∨
      (∃ role, body conn doc = conn.changeRole doc role) ∨
      (doc.room.internal = false ∧ ∃ frame,
        body conn doc = (conn.send frame).handleCloseDocument doc.handle)) :
    (docs.foldl body conn).NamesAgree := by
  have hboth : (docs.foldl body conn).NamesAgree ∧ (docs.foldl body conn).Within docs := by
    refine List.foldlRecOn docs body (motive := fun conn => conn.NamesAgree ∧ conn.Within docs)
      ⟨h, hwithin⟩ ?_
    rintro conn ⟨hagree, hwithin⟩ doc hdoc
    rcases hbody conn doc hdoc with heq | ⟨role, heq⟩ | ⟨hpage, frame, heq⟩
    · rw [heq]
      exact ⟨hagree, hwithin⟩
    · rw [heq]
      refine ⟨hagree.changeRole, fun d hd old hold hhandle => ?_⟩
      rcases OpenDocuments.mem_setRole.mp hd with ⟨hd, -⟩ | ⟨d', hd', -, rfl⟩
      · exact hwithin d hd old hold hhandle
      · exact hwithin d' hd' old hold hhandle
    · rw [heq]
      refine ⟨(hagree.send frame).handleCloseDocument fun d hd hhandle => ?_, ?_⟩
      · rw [hwithin d hd doc hdoc hhandle]
        exact hpage
      · intro d hd
        exact hwithin d (mem_handleCloseDocument.mp hd).1
  exact hboth.1

theorem NamesAgree.revalidateConnection {env : Env} {db : Tables} (h : conn.NamesAgree)
    (hnone : ¬ conn.ClosesInternal (.revalidate env db)) :
    (conn.revalidateConnection env db).NamesAgree := by
  have hwithin : conn.Within conn.documents.list := fun doc hdoc old hold hhandle => by
    rw [OpenDocuments.eq_of_handle_eq hdoc hold hhandle]
  cases hauth : conn.auth with
  | none =>
    simp only [Connection.revalidateConnection, hauth]
    exact h
  | some auth =>
    have hpage : ∀ doc ∈ conn.documents.list,
        ClosedBy db doc (revalidateClaims env db auth.credential auth.claims.workspaceId) →
        doc.room.internal = false := by
      intro doc hdoc hrevoked
      by_contra hinternal
      exact hnone ⟨doc, hdoc, by simpa using hinternal, auth, hauth, hrevoked⟩
    cases hclaims : revalidateClaims env db auth.credential auth.claims.workspaceId with
    | error message =>
      simp only [Connection.revalidateConnection, hauth, hclaims]
      exact h
    | ok claims =>
      simp only [Connection.revalidateConnection, hauth, hclaims]
      cases claims with
      | none =>
        simp only [hclaims] at hpage
        exact h.foldl closeDocument hwithin fun conn doc hdoc =>
          .inr (.inr ⟨hpage doc hdoc trivial, _, rfl⟩)
      | some claims =>
        simp only [hclaims] at hpage
        refine NamesAgree.foldl (revalidateDocument db claims) h hwithin fun conn doc hdoc => ?_
        unfold revalidateDocument applyRole
        cases hrole : currentRole db claims doc with
        | none => exact .inr (.inr ⟨hpage doc hdoc hrole, _, rfl⟩)
        | some role =>
          by_cases hsame : role = doc.role
          · exact .inl (by simp [hsame])
          · exact .inr (.inl ⟨role, by simp [hsame]⟩)

/-! ### Runs -/

/-- **Opening** sends a frame, or registers a document under a name that was not open. -/
theorem handleOpen_cases (conn : Connection) (requestId : ℕ) (asked : AskedName) (db : Tables)
    (answered roomLoads : Bool) :
    (∃ sent socketClosed, conn.handleOpen requestId asked db answered roomLoads =
        { conn with sent, socketClosed }) ∨
      ((conn.handlesByPage asked).bind conn.documents.get = none ∧ ∃ role,
        conn.handleOpen requestId asked db answered roomLoads =
          conn.register requestId asked role) := by
  rw [Connection.handleOpen]
  split
  · exact .inl ⟨_, _, rfl⟩
  split
  · exact .inl ⟨_, _, rfl⟩
  split
  · exact .inl ⟨_, _, rfl⟩
  rename_i hnew
  split
  · exact .inl ⟨_, _, rfl⟩
  split
  · exact .inl ⟨_, _, rfl⟩
  split
  · exact .inl ⟨_, _, rfl⟩
  · exact .inr ⟨hnew, _, rfl⟩

theorem NamesAgree.handleOpen {requestId : ℕ} {asked : AskedName} {db : Tables}
    {answered roomLoads : Bool} (h : conn.NamesAgree) :
    (conn.handleOpen requestId asked db answered roomLoads).NamesAgree := by
  rcases handleOpen_cases conn requestId asked db answered roomLoads with
    ⟨sent, socketClosed, heq⟩ | ⟨hnew, role, heq⟩
  · rw [heq]
    exact h
  · rw [heq]
    exact h.register hnew

theorem NamesAgree.onClose : conn.onClose.NamesAgree := by
  intro name handle
  simp [Connection.onClose]

theorem NamesAgree.step {e : ConnectionEvent} (h : conn.NamesAgree)
    (hok : ¬ conn.ClosesInternal e) : (conn.step e).NamesAgree := by
  cases e with
  | «open» requestId asked db answered roomLoads => exact h.handleOpen
  | close handle =>
    refine h.handleCloseDocument fun doc hdoc hhandle => ?_
    by_contra hinternal
    exact hok ⟨doc, hdoc, hhandle, by simpa using hinternal⟩
  | revalidate env db => exact h.revalidateConnection hok
  | disconnect => exact NamesAgree.onClose

theorem handleOpen_auth {requestId : ℕ} {asked : AskedName} {db : Tables}
    {answered roomLoads : Bool} :
    (conn.handleOpen requestId asked db answered roomLoads).auth = conn.auth := by
  rcases handleOpen_cases conn requestId asked db answered roomLoads with
    ⟨sent, socketClosed, heq⟩ | ⟨-, role, heq⟩
  · rw [heq]
  · rw [heq]
    rfl

theorem foldl_auth {docs : List OpenDocument}
    (body : Connection → OpenDocument → Connection)
    (hbody : ∀ conn doc, (body conn doc).auth = conn.auth) :
    (docs.foldl body conn).auth = conn.auth :=
  List.foldlRecOn docs body (motive := fun conn' => conn'.auth = conn.auth) rfl
    fun conn' ih doc _ => (hbody conn' doc).trans ih

theorem revalidateDocument_auth {db : Tables} {claims : AccessClaims} :
    (revalidateDocument db claims conn doc).auth = conn.auth := by
  unfold revalidateDocument applyRole
  split
  · rw [closeDocument, handleCloseDocument_auth, send_auth]
  · split
    · rfl
    · rfl

theorem step_auth_isSome {e : ConnectionEvent} (h : conn.auth.isSome) :
    (conn.step e).auth.isSome := by
  cases e with
  | «open» requestId asked db answered roomLoads =>
    rw [Connection.step, handleOpen_auth]
    exact h
  | close handle =>
    rw [Connection.step, handleCloseDocument_auth]
    exact h
  | revalidate env db =>
    obtain ⟨auth, hauth⟩ := Option.isSome_iff_exists.mp h
    simp only [Connection.step, Connection.revalidateConnection, hauth]
    cases revalidateClaims env db auth.credential auth.claims.workspaceId with
    | error message => exact h
    | ok claims =>
      cases claims with
      | none =>
        simp only [revoke, send_auth]
        rw [foldl_auth closeDocument fun conn doc => by
          rw [closeDocument, handleCloseDocument_auth, send_auth]]
        exact h
      | some claims =>
        simp only
        rw [foldl_auth _ fun conn doc => revalidateDocument_auth]
        rfl
  | disconnect => exact h

theorem namesAgree_of_reachesWhen
    (h : syncConnection.ReachesWhen (fun conn e => ¬ conn.ClosesInternal e) conn) :
    conn.NamesAgree ∧ conn.auth.isSome := by
  refine h.invariant (I := fun conn => conn.NamesAgree ∧ conn.auth.isSome) ?_ ?_
  · rintro conn ⟨auth, rfl⟩
    exact ⟨fun name handle => by simp [authenticated], rfl⟩
  · intro conn e conn' ⟨hagree, hauth⟩ hok hstep
    obtain rfl := Option.some.inj hstep
    exact ⟨hagree.step hok, step_auth_isSome hauth⟩

/-- **Names and handles agree** in every run that closes no internal comments: a name has at
most one open handle, `handlesByPage` is the map from names to handles, and asking for an
open name again is answered with its handle and changes nothing else, exactly while the
connection has room for another document. -/
theorem names_of_reachesWhen
    (h : syncConnection.ReachesWhen (fun conn e => ¬ conn.ClosesInternal e) conn) :
    (∀ doc ∈ conn.documents.list, ∀ doc' ∈ conn.documents.list, doc.room = doc'.room →
        doc.handle = doc'.handle) ∧
      conn.NamesAgree ∧
      ∀ doc ∈ conn.documents.list, ∀ requestId db answered roomLoads,
        conn.handleOpen requestId doc.room db answered roomLoads =
            conn.send (.openAck requestId doc.handle doc.role) ↔
          conn.documents.list.length < maxDocumentsPerConnection := by
  obtain ⟨hagree, hauth⟩ := namesAgree_of_reachesWhen h
  obtain ⟨auth, hauth⟩ := Option.isSome_iff_exists.mp hauth
  refine ⟨fun doc hdoc doc' hdoc' hroom => ?_, hagree, ?_⟩
  · rw [hagree.eq_of_room_eq hdoc hdoc' hroom]
  · intro doc hdoc requestId db answered roomLoads
    by_cases hfull : maxDocumentsPerConnection ≤ conn.documents.list.length
    · simp [Connection.handleOpen, hauth, hfull, Connection.send]
    · simp [Connection.handleOpen, hauth, hfull, hagree.get_eq_some hdoc, Nat.lt_of_not_le]

/-! ### A page closed through its comments -/

def oneEditor : Tables where
  workspaces := [⟨1, none⟩]
  users := [⟨7, none, "Ida", false, none⟩]
  sessions := [⟨70, 7, "seven", none, 1000, 0⟩]
  roles := [⟨4, none, some "member", some .editor, []⟩]
  workspaceMembers := [⟨1, 7, 4, false⟩]
  pages := [⟨10, 1, none, [], false⟩]

def editorAuth : Authentication where
  claims := ⟨.user 7 "Ida", 1, some .member, some .editor, [], []⟩
  credential := .session 70

/-- **Closing a page's comments forgets the page**: opened again, it gets a second handle
beside its first, and the name of the comments still has the handle that was closed. -/
theorem not_names : ∃ conn, syncConnection.Reaches conn ∧
    ¬ ((∀ doc ∈ conn.documents.list, ∀ doc' ∈ conn.documents.list, doc.room = doc'.room →
          doc.handle = doc'.handle) ∧
        conn.NamesAgree ∧
        ∀ doc ∈ conn.documents.list, ∀ requestId db answered roomLoads,
          conn.handleOpen requestId doc.room db answered roomLoads =
            conn.send (.openAck requestId doc.handle doc.role)) := by
  have hreach : ∃ conn, syncConnection.Reaches conn ∧
      ¬ (∀ doc ∈ conn.documents.list, ∀ doc' ∈ conn.documents.list, doc.room = doc'.room →
          doc.handle = doc'.handle) :=
    Machine.exists_reachesWhen_of_runWhen
      [.open 1 ⟨10, false⟩ oneEditor true true, .open 2 ⟨10, true⟩ oneEditor true true,
        .close 2, .open 3 ⟨10, false⟩ oneEditor true true]
      ⟨editorAuth, rfl⟩ (by decide)
  obtain ⟨conn, hconn, hnot⟩ := hreach
  exact ⟨conn, hconn, fun h => hnot h.1⟩

/-- Both names of a page open, and the page closed and opened again. -/
theorem names_of_reachesWhen_reopened :
    ∃ conn, syncConnection.ReachesWhen (fun conn e => ¬ conn.ClosesInternal e) conn ∧
      conn.documents.list.map (·.handle) = [2, 3] ∧ conn.NamesAgree := by
  have hreach : ∃ conn,
      syncConnection.ReachesWhen (fun conn e => ¬ conn.ClosesInternal e) conn ∧
        conn.documents.list.map (·.handle) = [2, 3] :=
    Machine.exists_reachesWhen_of_runWhen
      [.open 1 ⟨10, false⟩ oneEditor true true, .open 2 ⟨10, true⟩ oneEditor true true,
        .close 1, .open 3 ⟨10, false⟩ oneEditor true true,
        .revalidate ⟨0, id, none⟩ oneEditor]
      ⟨editorAuth, rfl⟩ (by decide)
  obtain ⟨conn, hconn, hhandles⟩ := hreach
  exact ⟨conn, hconn, hhandles, (names_of_reachesWhen hconn).2.1⟩

end Connection

end Sone
