import Sone.Access.Claims

/-!
# A sync connection and its documents

The part of `sync/server.ts` that keeps one connection's open documents: `handleOpen`,
`handleCloseDocument`, `revalidateConnection` and `onClose`, each run to completion, with
the subscribers the connection has in its rooms.

A client asks for a page, or for a page's internal comments. The second is the page's id
with a suffix, and the decoder accepts nothing else (`readInternalRequest` and the check on
it in `sync/protocol.ts`), so a request is a page id and a flag (`AskedName`). The room of a
request is keyed the same way: by the page's id, or by the id derived from it.

Two maps describe the open documents, `documents` by handle and `handlesByPage` by request.
The first is a structure that cannot hold a handle twice (`OpenDocuments`).
-/

namespace Sone

open List

/-- What a client asks to open: a page, or a page's internal comments. -/
structure AskedName where
  pageId : Uuid
  internal : Bool
  deriving DecidableEq, Repr

/-- `OpenDocument`. The room is held as the request it answers, which says which page it
belongs to and whether it holds the page's internal comments. -/
structure OpenDocument where
  handle : ℕ
  room : AskedName
  role : Role
  deriving DecidableEq, Repr

def OpenDocument.pageId (doc : OpenDocument) : Uuid := doc.room.pageId

/-- **The documents of a connection**, in the order they were opened: no two have one
handle, and the next handle is new. -/
structure OpenDocuments where
  list : List OpenDocument
  nextHandle : ℕ
  lt_nextHandle : ∀ doc ∈ list, doc.handle < nextHandle
  nodup : (list.map (·.handle)).Nodup

namespace OpenDocuments

variable {docs : OpenDocuments} {doc doc' : OpenDocument} {handle : ℕ} {role : Role}

/-- No document open yet; handles count from 1. -/
def empty : OpenDocuments := ⟨[], 1, by simp, by simp⟩

def get (docs : OpenDocuments) (handle : ℕ) : Option OpenDocument :=
  docs.list.find? fun doc => doc.handle = handle

/-- `allocateHandle`, and `documents.set` under the handle. -/
def add (docs : OpenDocuments) (room : AskedName) (role : Role) : OpenDocuments where
  list := docs.list ++ [⟨docs.nextHandle, room, role⟩]
  nextHandle := docs.nextHandle + 1
  lt_nextHandle := by
    simp only [mem_append, mem_singleton]
    rintro doc (hdoc | rfl)
    · exact Nat.lt_succ_of_lt (docs.lt_nextHandle doc hdoc)
    · exact Nat.lt_succ_self _
  nodup := by
    rw [map_append, nodup_append']
    refine ⟨docs.nodup, by simp, ?_⟩
    simp only [map_cons, map_nil, disjoint_singleton, List.mem_map, not_exists,
      not_and]
    exact fun doc hdoc => Nat.ne_of_lt (docs.lt_nextHandle doc hdoc)

/-- `documents.delete`. -/
def remove (docs : OpenDocuments) (handle : ℕ) : OpenDocuments where
  list := docs.list.filter fun doc => doc.handle ≠ handle
  nextHandle := docs.nextHandle
  lt_nextHandle := fun doc hdoc => docs.lt_nextHandle doc (mem_of_mem_filter hdoc)
  nodup := docs.nodup.sublist (filter_sublist.map _)

def clear (docs : OpenDocuments) : OpenDocuments := ⟨[], docs.nextHandle, by simp, by simp⟩

private theorem map_handle_setRole (list : List OpenDocument) (handle : ℕ) (role : Role) :
    (list.map fun doc => if doc.handle = handle then { doc with role } else doc).map
      (·.handle) = list.map (·.handle) := by
  rw [List.map_map]
  refine map_congr_left fun doc _ => ?_
  simp only [Function.comp_apply]
  split <;> rfl

/-- `doc.role = role`, on the document with the handle. -/
def setRole (docs : OpenDocuments) (handle : ℕ) (role : Role) : OpenDocuments where
  list := docs.list.map fun doc => if doc.handle = handle then { doc with role } else doc
  nextHandle := docs.nextHandle
  lt_nextHandle := by
    intro doc hdoc
    obtain ⟨old, hold, rfl⟩ := List.mem_map.mp hdoc
    split
    · exact docs.lt_nextHandle old hold
    · exact docs.lt_nextHandle old hold
  nodup := by
    rw [map_handle_setRole]
    exact docs.nodup

theorem eq_of_handle_eq (h : doc ∈ docs.list) (h' : doc' ∈ docs.list)
    (hhandle : doc.handle = doc'.handle) : doc = doc' :=
  inj_on_of_nodup_map docs.nodup h h' hhandle

theorem get_eq_some_iff : docs.get handle = some doc ↔ doc ∈ docs.list ∧ doc.handle = handle := by
  constructor
  · intro h
    exact ⟨List.mem_of_find?_eq_some h, by simpa using List.find?_some h⟩
  · rintro ⟨hdoc, rfl⟩
    cases hget : docs.get doc.handle with
    | none => exact absurd (List.find?_eq_none.mp hget doc hdoc) (by simp)
    | some other =>
      have hother : other.handle = doc.handle := by simpa using List.find?_some hget
      rw [eq_of_handle_eq (List.mem_of_find?_eq_some hget) hdoc hother]

@[simp] theorem mem_add {room : AskedName} :
    doc ∈ (docs.add room role).list ↔ doc ∈ docs.list ∨ doc = ⟨docs.nextHandle, room, role⟩ := by
  simp [add]

@[simp] theorem mem_remove :
    doc ∈ (docs.remove handle).list ↔ doc ∈ docs.list ∧ doc.handle ≠ handle := by
  simp [remove]

@[simp] theorem clear_list : docs.clear.list = [] := rfl

@[simp] theorem empty_list : empty.list = [] := rfl

theorem mem_setRole :
    doc' ∈ (docs.setRole handle role).list ↔
      (doc' ∈ docs.list ∧ doc'.handle ≠ handle) ∨
        ∃ doc ∈ docs.list, doc.handle = handle ∧ doc' = { doc with role } := by
  simp only [setRole, List.mem_map]
  constructor
  · rintro ⟨doc, hdoc, rfl⟩
    split
    · rename_i h
      exact .inr ⟨doc, hdoc, h, rfl⟩
    · rename_i h
      exact .inl ⟨hdoc, h⟩
  · rintro (⟨hdoc, hne⟩ | ⟨doc, hdoc, hhandle, rfl⟩)
    · exact ⟨doc', hdoc, by simp [hne]⟩
    · exact ⟨doc, hdoc, by simp [hhandle]⟩

end OpenDocuments

/-- The error codes these handlers answer with. -/
inductive SyncError where
  | protocolViolation
  | notAuthenticated
  | authFailed
  | notAuthorized
  | tooManyDocuments
  | internal
  deriving DecidableEq, Repr

/-- A frame the server sends, without the document bytes some of them carry. -/
inductive ServerFrame where
  | authAck (principal : Principal) (workspaceRole : Option WorkspaceRole)
  | openAck (requestId handle : ℕ) (role : Role)
  | error (requestId : ℕ) (code : SyncError) (detail : String)
  | closed (handle : ℕ) (code : SyncError)
  | roleChanged (handle : ℕ) (role : Role)
  | syncStep1 (handle : ℕ)
  deriving DecidableEq, Repr

/-- A subscriber of a room that belongs to the connection: `${conn.id}:${handle}`. -/
structure RoomSubscriber where
  handle : ℕ
  canWrite : Bool
  deriving DecidableEq, Repr

/-- What a connection authenticated as: set together, and replaced together. -/
structure Authentication where
  claims : AccessClaims
  credential : ConnectionCredential
  deriving DecidableEq

structure Connection where
  auth : Option Authentication
  documents : OpenDocuments
  handlesByPage : AskedName → Option ℕ
  subscribers : AskedName → List RoomSubscriber
  sent : List ServerFrame
  /-- The server closed the socket. -/
  socketClosed : Bool

def maxDocumentsPerConnection : ℕ := 128

/-- What opening a document is answered with on a database state: the role, or nothing
where it is refused. The page has to be readable, and for internal comments the principal
has to be a user to whom the workspace gives its pages by default. -/
def openGrant (db : Tables) (claims : AccessClaims) (asked : AskedName) : Option Role :=
  match authorizeDocumentOpen db claims asked.pageId .viewer with
  | .error _ => none
  | .ok (role, _) =>
    if asked.internal && (!claims.principal.isUser || claims.pageLevel.isNone) then none
    else some role

namespace Connection

def authenticated (auth : Authentication) : Connection where
  auth := some auth
  documents := .empty
  handlesByPage := fun _ => none
  subscribers := fun _ => []
  sent := []
  socketClosed := false

def send (conn : Connection) (frame : ServerFrame) : Connection :=
  { conn with sent := conn.sent ++ [frame] }

/-- The end of `handleOpen`: a handle, a subscriber, the two maps and the frames. -/
def register (conn : Connection) (requestId : ℕ) (asked : AskedName) (role : Role) :
    Connection :=
  let handle := conn.documents.nextHandle
  { conn with
    documents := conn.documents.add asked role
    handlesByPage := Function.update conn.handlesByPage asked (some handle)
    subscribers := Function.update conn.subscribers asked
      (conn.subscribers asked ++ [⟨handle, atLeast role .editor⟩])
    sent := conn.sent ++ [.openAck requestId handle role, .syncStep1 handle] }

/-- `handleOpen`, against a database state. `answered` is whether the authorisation queries
returned at all, `roomLoads` whether the room could be loaded. -/
def handleOpen (conn : Connection) (requestId : ℕ) (asked : AskedName) (db : Tables)
    (answered roomLoads : Bool) : Connection :=
  match conn.auth with
  | none => { conn.send (.error 0 .notAuthenticated "") with socketClosed := true }
  | some auth =>
    if maxDocumentsPerConnection ≤ conn.documents.list.length then
      conn.send (.error requestId .tooManyDocuments "")
    else match (conn.handlesByPage asked).bind conn.documents.get with
    | some doc => conn.send (.openAck requestId doc.handle doc.role)
    | none =>
      if !answered then conn.send (.error requestId .internal "") else
        match openGrant db auth.claims asked with
        | none => conn.send (.error requestId .notAuthorized "")
        | some role =>
          if !roomLoads then conn.send (.error requestId .internal "")
          else conn.register requestId asked role

def handleCloseDocument (conn : Connection) (handle : ℕ) : Connection :=
  match conn.documents.get handle with
  | none => conn
  | some doc =>
    { conn with
      subscribers := Function.update conn.subscribers doc.room
        ((conn.subscribers doc.room).filter fun sub => sub.handle ≠ handle)
      documents := conn.documents.remove handle
      -- by the page's id, whatever was asked for
      handlesByPage := Function.update conn.handlesByPage ⟨doc.pageId, false⟩ none }

def onClose (conn : Connection) : Connection :=
  { conn with
    subscribers := conn.documents.list.foldl (fun subscribers doc =>
      Function.update subscribers doc.room
        ((subscribers doc.room).filter fun sub => sub.handle ≠ doc.handle)) conn.subscribers
    documents := conn.documents.clear
    handlesByPage := fun _ => none }

/-- A document whose role changed keeps its handle and is told. -/
def changeRole (conn : Connection) (doc : OpenDocument) (role : Role) : Connection :=
  { conn with
    documents := conn.documents.setRole doc.handle role
    subscribers := Function.update conn.subscribers doc.room
      ((conn.subscribers doc.room).map fun sub =>
        if sub.handle = doc.handle then { sub with canWrite := atLeast role .editor } else sub)
    sent := conn.sent ++ [.roleChanged doc.handle role] }

/-- The role claims give on the page of a document now. -/
def currentRole (db : Tables) (claims : AccessClaims) (doc : OpenDocument) : Option Role :=
  (loadPageLocation db doc.pageId).bind (effectiveRole claims)

/-- A document that may no longer be seen is closed, and its connection told. -/
def closeDocument (conn : Connection) (doc : OpenDocument) : Connection :=
  (conn.send (.closed doc.handle .notAuthorized)).handleCloseDocument doc.handle

/-- What a revalidation does with a document and the role it has now. -/
def applyRole (conn : Connection) (doc : OpenDocument) : Option Role → Connection
  | none => conn.closeDocument doc
  | some role => if role ≠ doc.role then conn.changeRole doc role else conn

/-- The body of the loop of `revalidateConnection` over the open documents. -/
def revalidateDocument (db : Tables) (claims : AccessClaims) (conn : Connection)
    (doc : OpenDocument) : Connection :=
  conn.applyRole doc (currentRole db claims doc)

/-- What `revalidateConnection` does when the credential itself is gone. -/
def revoke (conn : Connection) : Connection :=
  { (conn.documents.list.foldl closeDocument conn).send (.error 0 .notAuthorized "") with
    socketClosed := true }

/-- `revalidateConnection`, against a database state. -/
def revalidateConnection (conn : Connection) (env : Env) (db : Tables) : Connection :=
  match conn.auth with
  | none => conn
  | some auth =>
    match revalidateClaims env db auth.credential auth.claims.workspaceId with
    | .error _ => conn
    | .ok none => conn.revoke
    | .ok (some claims) =>
      conn.documents.list.foldl (revalidateDocument db claims)
        { conn with auth := some { auth with claims } }

end Connection

end Sone
