import Sone.Client.Protocol
import Sone.Table.Keyed
import Sone.Transition.Machine
import Mathlib.Data.Finset.SDiff

/-!
# The document store of a client

`DocumentStore` (`client/src/store.ts`) keeps the documents a client has open: it asks the server
for a handle, drives the handshake of y-protocols over it, and gives a document up when nobody
holds it any more. `documentStore` is a store with its connection and the server's side of that
connection (`handleOpen` and `handleSync` of `sync/server.ts`): calls from outside, the callbacks
of the connection, and the frames of either side, each delivered in order and at any time. The
server stops in `handleOpen` to authorise and to load the room, and goes on with other frames
meanwhile.

A document is the set of the updates it contains, and so is a room. A state vector is the set it
stands for, and what is encoded against it are the updates that are not in it. Presence and
listeners are left out, which change nothing of what is modelled here, and so is `destroy`, by which
a client gives up all documents at once, unsynced or not.

The maps by handle and by request hold entries, which are named here by their pages: an entry is
not in them any more when its page can be opened again.
-/

namespace Sone.Client

universe u

variable {U : Type u}

inductive SyncMessage (U : Type u) where
  /-- What the sender has. -/
  | step1 (known : Finset U)
  /-- What the receiver lacks. -/
  | step2 (updates : Finset U)
  | update (updates : Finset U)
  deriving DecidableEq

namespace SyncMessage

def isStep1 : SyncMessage U → Bool
  | step1 _ => true
  | _ => false

def isStep2 : SyncMessage U → Bool
  | step2 _ => true
  | _ => false

def updates : SyncMessage U → Finset U
  | step1 _ => ∅
  | step2 updates | update updates => updates

def named : SyncMessage U → Finset U
  | step1 known => known
  | step2 updates | update updates => updates

theorem updates_subset_named (message : SyncMessage U) : message.updates ⊆ message.named := by
  cases message <;> simp [updates, named]

/-- What `readSyncMessage` answers, for a document. -/
def reply [DecidableEq U] (doc : Finset U) : SyncMessage U → Option (SyncMessage U)
  | step1 known => some (step2 (doc \ known))
  | _ => none

theorem reply_eq_some [DecidableEq U] {doc : Finset U} {message answer : SyncMessage U} :
    message.reply doc = some answer ↔
      ∃ known, message = step1 known ∧ answer = step2 (doc \ known) := by
  cases message <;> simp [reply, eq_comm]

end SyncMessage

def ClientFrame.message (handle : ℕ) : ClientFrame (SyncMessage U) → Option (SyncMessage U)
  | sync h message => if h = handle then some message else none
  | _ => none

def ServerFrame.message (handle : ℕ) : ServerFrame (SyncMessage U) → Option (SyncMessage U)
  | sync h message => if h = handle then some message else none
  | _ => none

@[simp] theorem ClientFrame.message_sync {handle h : ℕ} {message message' : SyncMessage U} :
    (ClientFrame.sync h message).message handle = some message' ↔
      h = handle ∧ message = message' := by
  simp [ClientFrame.message]

@[simp] theorem ServerFrame.message_sync {handle h : ℕ} {message message' : SyncMessage U} :
    (ServerFrame.sync h message).message handle = some message' ↔
      h = handle ∧ message = message' := by
  simp [ServerFrame.message]

inductive DocumentStatus where
  | opening
  | syncing
  | synced
  | offline
  | denied
  deriving DecidableEq, Repr

/-- `Entry`, with a record of the updates made locally. -/
structure Entry (U : Type u) where
  pageId : AskedName
  doc : Finset U
  /-- Every local update of the document so far. -/
  edits : Finset U
  refCount : ℕ := 1
  handle : Option ℕ := none
  requestId : Option ℕ := none
  role : Option Role := none
  status : DocumentStatus := .opening
  synced : Bool := false

structure DocumentStore (U : Type u) where
  entries : Keyed (Entry.pageId (U := U))
  byHandle : ℕ → Option AskedName
  byRequest : ℕ → Option AskedName
  nextRequestId : ℕ

structure ServerSide where
  documents : OpenDocuments
  handlesByPage : AskedName → Option ℕ
  /-- The requests whose `handleOpen` waits. -/
  opening : List (ℕ × AskedName)

/-- A document that was destroyed, and what the room of its page had received. -/
structure DestroyedDoc (U : Type u) where
  pageId : AskedName
  doc : Finset U
  received : Finset U

/-- **A store, its connection, and the server.** -/
structure StoreRun (U : Type u) extends DocumentStore U, ServerSide where
  /-- The connection is `ready`. -/
  ready : Bool
  /-- The `readyState` of its socket is open. -/
  isOpen : Bool
  hasConnectedBefore : Bool
  toServer : List (ClientFrame (SyncMessage U))
  toClient : List (ServerFrame (SyncMessage U))
  /-- What the server has received, by page. -/
  rooms : AskedName → Finset U
  destroyed : List (DestroyedDoc U)

/-- What happens to a store, its connection and the server. -/
inductive StoreEvent (U : Type u) where
  /-- `open`; the attribution of the session is written into a new document. -/
  | opens (pageId : AskedName) (attribution : Finset U)
  /-- A local update of a document: an edit, or what the copy kept locally had. -/
  | edits (pageId : AskedName) (update : U)
  /-- `release`, of a handle that holds a reference. -/
  | releases (pageId : AskedName)
  /-- The server acknowledges the credentials on a new connection. -/
  | authenticates
  /-- The socket is closing: nothing can be sent any more. -/
  | breaks
  /-- The connection is not `ready` any more. -/
  | disconnects
  /-- The connection has failed unrecoverably. -/
  | fails (code : String)
  /-- The client takes the next frame. -/
  | clientReceives
  /-- The server takes the next frame; `rateLimited` where `recordUpdate` refuses it. -/
  | serverReceives (rateLimited : Bool)
  /-- A `handleOpen` that waits goes on: access is granted and the room is there. -/
  | serverOpens (index : ℕ) (role : Role)
  /-- A `handleOpen` that waits goes on: access is refused, or the room cannot be loaded. -/
  | serverRefuses (index : ℕ) (code : String)
  /-- A revalidation closes a document. -/
  | serverCloses (handle : ℕ)
  /-- A revalidation changes the role on a document. -/
  | serverChangesRole (handle : ℕ) (role : Role)
  /-- A room receives updates from elsewhere. -/
  | remoteUpdates (asked : AskedName) (updates : Finset U)

/-- A map after `delete`, of a key that may be null. -/
def deleted (map : ℕ → Option AskedName) : Option ℕ → ℕ → Option AskedName
  | none => map
  | some key => Function.update map key none

theorem deleted_eq_some {map : ℕ → Option AskedName} {key : Option ℕ} {k : ℕ}
    {pageId : AskedName} :
    deleted map key k = some pageId ↔ map k = some pageId ∧ key ≠ some k := by
  cases key with
  | none => simp [deleted]
  | some key =>
    by_cases heq : k = key
    · simp [deleted, heq]
    · simp [deleted, heq, Ne.symm heq]

namespace Entry

variable (entry : Entry U)

/-- The end of `onSync`. -/
def settle (message : SyncMessage U) : Entry U :=
  if message.isStep2 then { entry with
    synced := true
    status := .synced }
  else if entry.status = .syncing ∧ entry.synced = true then { entry with status := .synced }
  else entry

theorem exists_settle_eq (message : SyncMessage U) :
    ∃ status, entry.settle message = { entry with
      synced := message.isStep2 || entry.synced
      status } := by
  unfold settle
  cases message.isStep2
  · simp only [Bool.false_eq_true, if_false, Bool.false_or]
    split
    · exact ⟨_, rfl⟩
    · exact ⟨_, rfl⟩
  · exact ⟨_, rfl⟩

@[simp] theorem pageId_settle (message : SyncMessage U) :
    (entry.settle message).pageId = entry.pageId := by
  obtain ⟨status, hsettle⟩ := entry.exists_settle_eq message
  rw [hsettle]

@[simp] theorem edits_settle (message : SyncMessage U) :
    (entry.settle message).edits = entry.edits := by
  obtain ⟨status, hsettle⟩ := entry.exists_settle_eq message
  rw [hsettle]

@[simp] theorem handle_settle (message : SyncMessage U) :
    (entry.settle message).handle = entry.handle := by
  obtain ⟨status, hsettle⟩ := entry.exists_settle_eq message
  rw [hsettle]

end Entry

namespace StoreRun

variable [DecidableEq U] (s : StoreRun U)

/-! ### The connection -/

/-- What `send` of the connection returns. -/
def canSend : Bool := s.ready && s.isOpen

/-- `send` of the connection. -/
def send (frame : ClientFrame (SyncMessage U)) : StoreRun U :=
  { s with toServer := s.toServer ++ if s.canSend then [frame] else [] }

/-- The messages on their way to the server for a handle. -/
def sentOn (handle : ℕ) : List (SyncMessage U) := s.toServer.filterMap (·.message handle)

/-- The messages on their way to the client for a handle. -/
def comingOn (handle : ℕ) : List (SyncMessage U) := s.toClient.filterMap (·.message handle)

/-! ### The store -/

def setEntry (entry : Entry U) : StoreRun U := { s with entries := s.entries.upsert entry }

/-- `byHandle.get`. -/
def holding (handle : ℕ) : Option (Entry U) := (s.byHandle handle).bind s.entries.find

/-- `byRequest.get`. -/
def requested (requestId : ℕ) : Option (Entry U) := (s.byRequest requestId).bind s.entries.find

def requestOpen (entry : Entry U) : StoreRun U :=
  let requestId := s.nextRequestId
  let s := { s with nextRequestId := requestId + 1 }
  if s.canSend then
    { (s.setEntry { entry with requestId := some requestId }).send
        (.openPage requestId entry.pageId) with
      byRequest := Function.update s.byRequest requestId (some entry.pageId) }
  else
    { s.setEntry { entry with
        requestId := none
        status := .opening } with
      byRequest := Function.update s.byRequest requestId none }

/-- `open`. -/
def openPage (pageId : AskedName) (attribution : Finset U) : StoreRun U :=
  match s.entries.find pageId with
  | some entry => s.setEntry { entry with refCount := entry.refCount + 1 }
  | none =>
    let entry : Entry U := { pageId, doc := attribution, edits := attribution }
    (s.setEntry entry).requestOpen entry

/-- `onUpdate` of an entry, for a local update. -/
def onUpdate (entry : Entry U) (update : U) : StoreRun U :=
  let entry := { entry with
    doc := insert update entry.doc
    edits := insert update entry.edits }
  match entry.handle with
  | none => s.setEntry { entry with
      synced := false
      status := .offline }
  | some handle =>
    if s.canSend then (s.setEntry entry).send (.sync handle (.update {update}))
    else s.setEntry { entry with
      synced := false
      status := .offline }

/-- The round of `handleAuthenticated` for a page. -/
def reissue (pageId : AskedName) : StoreRun U :=
  match s.entries.find pageId with
  | none => s
  | some entry =>
    if entry.handle.isSome ∨ entry.requestId.isSome then s
    else s.requestOpen { entry with status := .opening }

def handleAuthenticated : StoreRun U := (s.entries.rows.map (·.pageId)).foldl reissue s

/-- The round of `handleReconnect` for a page. -/
def reopen (pageId : AskedName) : StoreRun U :=
  match s.entries.find pageId with
  | none => s
  | some entry => s.requestOpen { entry with
      handle := none
      requestId := none
      status := .opening }

def clearMaps : StoreRun U :=
  { s with
    byHandle := fun _ => none
    byRequest := fun _ => none }

def handleReconnect : StoreRun U := (s.entries.rows.map (·.pageId)).foldl reopen s.clearMaps

def handleDisconnect : StoreRun U :=
  { s with
    entries := s.entries.modify (fun entry => { entry with
      synced := false
      status := .offline }) fun _ => rfl }

def handleFatal (code : String) : StoreRun U :=
  { s.clearMaps with
    entries := s.entries.modify (fun entry => { entry with
      handle := none
      requestId := none
      role := none
      status := if code = "auth_failed" then .denied else .offline }) fun _ => rfl }

def onOpenAck (requestId handle : ℕ) (role : Role) : StoreRun U :=
  match s.requested requestId with
  | none => s
  | some entry =>
    let s := { s with
      byRequest := Function.update s.byRequest requestId none
      byHandle := Function.update s.byHandle handle (some entry.pageId) }
    (s.setEntry { entry with
      handle := some handle
      role := some role
      status := .syncing }).send (.sync handle (.step1 entry.doc))

def onSync (handle : ℕ) (message : SyncMessage U) : StoreRun U :=
  match s.holding handle with
  | none => s
  | some entry =>
    let s := s.setEntry ({ entry with doc := entry.doc ∪ message.updates }.settle message)
    match message.reply entry.doc with
    | none => s
    | some reply => s.send (.sync handle reply)

def onClosed (handle : ℕ) (reason : String) : StoreRun U :=
  match s.holding handle with
  | none => s
  | some entry =>
    { s.setEntry { entry with
        handle := none
        role := none
        status := if reason = "not_authorized" then .denied else .offline } with
      byHandle := Function.update s.byHandle handle none }

def onRoleChanged (handle : ℕ) (role : Role) : StoreRun U :=
  match s.holding handle with
  | none => s
  | some entry => s.setEntry { entry with role := some role }

def onError (requestId : ℕ) (code : String) : StoreRun U :=
  if requestId = 0 then s
  else match s.requested requestId with
  | none => s
  | some entry =>
    { s.setEntry { entry with
        requestId := none
        status := if code = "not_authorized" then .denied else .offline } with
      byRequest := Function.update s.byRequest requestId none }

def handleFrame : ServerFrame (SyncMessage U) → StoreRun U
  | .openAck requestId handle role => s.onOpenAck requestId handle role
  | .sync handle message => s.onSync handle message
  | .closed handle reason => s.onClosed handle reason
  | .roleChanged handle role => s.onRoleChanged handle role
  | .error requestId code _ => s.onError requestId code
  | _ => s

/-- The end of `releaseEntry`: an entry is taken out of the maps, and its document destroyed. -/
def destroy (entry : Entry U) : StoreRun U :=
  { s with
    byHandle := deleted s.byHandle entry.handle
    byRequest := deleted s.byRequest entry.requestId
    entries := s.entries.filter fun other => other.pageId ≠ entry.pageId
    destroyed := s.destroyed ++ [⟨entry.pageId, entry.doc, s.rooms entry.pageId⟩] }

def releaseEntry (entry : Entry U) : StoreRun U :=
  let entry := { entry with refCount := entry.refCount - 1 }
  if 0 < entry.refCount ∨ entry.synced = false then s.setEntry entry
  else
    let s := match entry.handle with
      | none => s
      | some handle => s.send (.close handle)
    s.destroy entry

/-! ### The server -/

def answer (frame : ServerFrame (SyncMessage U)) : StoreRun U :=
  { s with toClient := s.toClient ++ [frame] }

/-- A room receives updates, and sends what is new to its other subscribers (`onDocUpdate`). -/
def receive (asked : AskedName) (origin : Option ℕ) (updates : Finset U) : StoreRun U :=
  let new := updates \ s.rooms asked
  { s with
    rooms := Function.update s.rooms asked (s.rooms asked ∪ updates)
    toClient := s.toClient ++ if new = ∅ then [] else
      (s.documents.list.filter fun doc => doc.room = asked ∧ origin ≠ some doc.handle).map
        fun doc => .sync doc.handle (.update new) }

/-- `handleOpen`, up to where it waits. -/
def handleOpen (requestId : ℕ) (asked : AskedName) : StoreRun U :=
  if maxDocumentsPerConnection ≤ s.documents.list.length then
    s.answer (.error requestId "too_many_documents" "")
  else match (s.handlesByPage asked).bind s.documents.get with
  | some doc => s.answer (.openAck requestId doc.handle doc.role)
  | none => { s with opening := s.opening ++ [(requestId, asked)] }

/-- The end of `handleOpen`. -/
def register (requestId : ℕ) (asked : AskedName) (role : Role) : StoreRun U :=
  let handle := s.documents.nextHandle
  { s with
    documents := s.documents.add asked role
    handlesByPage := Function.update s.handlesByPage asked (some handle)
    toClient := s.toClient ++
      [.openAck requestId handle role, .sync handle (.step1 (s.rooms asked))] }

/-- `handleSyncMessage` of the room, and what `handleSync` answers then. -/
def handleSyncMessage (doc : OpenDocument) (message : SyncMessage U) : StoreRun U :=
  match message.reply (s.rooms doc.room) with
  | some reply => s.answer (.sync doc.handle reply)
  | none =>
    if atLeast doc.role .editor then s.receive doc.room (some doc.handle) message.updates
    else s.answer (.error 0 "read_only" "")

def handleSync (rateLimited : Bool) (handle : ℕ) (message : SyncMessage U) : StoreRun U :=
  match s.documents.get handle with
  | none => s.answer (.error 0 "unknown_handle" "")
  | some doc =>
    if rateLimited then s.answer (.error 0 "rate_limited" "")
    else s.handleSyncMessage doc message

def handleCloseDocument (handle : ℕ) : StoreRun U :=
  match s.documents.get handle with
  | none => s
  | some doc =>
    { s with
      documents := s.documents.remove handle
      -- by the page's id, whatever was asked for
      handlesByPage := Function.update s.handlesByPage ⟨doc.pageId, false⟩ none }

def onMessage (rateLimited : Bool) : ClientFrame (SyncMessage U) → StoreRun U
  | .openPage requestId asked => s.handleOpen requestId asked
  | .sync handle message => s.handleSync rateLimited handle message
  | .close handle => s.handleCloseDocument handle
  | .ping => s.answer .pong
  | _ => s

/-! ### The machine -/

/-- A new connection is authenticated: `handleAuthenticated`, and `handleReconnect` unless it is
the first. -/
def authenticate : StoreRun U :=
  let again := s.hasConnectedBefore
  let s := { s with
    toServerSide := ⟨.empty, fun _ => none, []⟩
    ready := true
    isOpen := true
    hasConnectedBefore := true
    toServer := []
    toClient := [] }.handleAuthenticated
  if again then s.handleReconnect else s

/-- A connection is lost, with every frame on its way. -/
def disconnect : StoreRun U :=
  { s with
    toServerSide := ⟨.empty, fun _ => none, []⟩
    ready := false
    isOpen := false
    toServer := []
    toClient := [] }.handleDisconnect

def step : StoreEvent U → Option (StoreRun U)
  | .opens pageId attribution => some (s.openPage pageId attribution)
  | .edits pageId update => (s.entries.find pageId).map fun entry => s.onUpdate entry update
  | .releases pageId => (s.entries.find pageId).bind fun entry =>
    if 0 < entry.refCount then some (s.releaseEntry entry) else none
  | .authenticates => if s.ready then none else some s.authenticate
  | .breaks => if s.ready then some { s with isOpen := false } else none
  | .disconnects => if s.ready then some s.disconnect else none
  | .fails code => if s.ready then none else some (s.handleFatal code)
  | .clientReceives =>
    match s.toClient with
    | [] => none
    | frame :: rest =>
      if s.canSend then some { s.handleFrame frame with toClient := rest } else none
  | .serverReceives rateLimited =>
    match s.toServer with
    | [] => none
    | frame :: rest => some { s.onMessage rateLimited frame with toServer := rest }
  | .serverOpens index role => s.opening[index]?.map fun (requestId, asked) =>
    { s with opening := s.opening.eraseIdx index }.register requestId asked role
  | .serverRefuses index code => s.opening[index]?.map fun (requestId, _) =>
    { s with opening := s.opening.eraseIdx index }.answer (.error requestId code "")
  | .serverCloses handle => (s.documents.get handle).map fun _ =>
    (s.answer (.closed handle "not_authorized")).handleCloseDocument handle
  | .serverChangesRole handle role => (s.documents.get handle).map fun _ =>
    { s with documents := s.documents.setRole handle role }.answer (.roleChanged handle role)
  | .remoteUpdates asked updates => some (s.receive asked none updates)

end StoreRun

/-- A store with no document open, not connected yet. -/
def newStore (rooms : AskedName → Finset U) : StoreRun U where
  entries := .empty
  byHandle := fun _ => none
  byRequest := fun _ => none
  nextRequestId := 1
  documents := .empty
  handlesByPage := fun _ => none
  opening := []
  ready := false
  isOpen := false
  hasConnectedBefore := false
  toServer := []
  toClient := []
  rooms := rooms
  destroyed := []

/-- **The machine of a client's documents.** -/
def documentStore (U : Type u) [DecidableEq U] : Machine (StoreRun U) (StoreEvent U) where
  init s := ∃ rooms, s = newStore rooms
  step := StoreRun.step

end Sone.Client
