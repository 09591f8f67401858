import Sone.Sync.Connection
import Mathlib.Data.Finset.Basic

/-!
# The asynchronous handlers of a connection

`handleAuth` and `handleOpen`, cut at their awaits. A handler runs from a message to its
first await, and from the answer of one await to the next or to its end; `Handler` says
where it is suspended and what it holds, `Answer` what an await came back with, and
`IndexedConnection.resume` what the code after it does. Nothing else happens to the
connection in between, and anything may happen to it while a handler is suspended.

The server files an authenticated connection under its workspace and under its account
(`rememberPerson`), and takes it out of both when its socket closes (`forgetPerson`). The
connection remembers what it was filed under, once for each index.
-/

namespace Sone

/-- `accountOf`: the account behind claims, where there is one. -/
def accountOf (claims : AccessClaims) : Option Uuid :=
  match claims.principal with
  | .user userId _ => some userId
  | .guest userId _ => some userId
  | .anonymous _ _ => none

/-- A connection as the server holds it: what it was filed under, where it is filed, and
whether its socket's close was handled. -/
structure IndexedConnection extends Connection where
  cookieSessionToken : Option String
  workspaceId : Option Uuid
  accountId : Option Uuid
  /-- The workspaces whose set in `byWorkspace` holds the connection. -/
  byWorkspace : Finset Uuid
  /-- The accounts whose set in `byUser` holds the connection. -/
  byUser : Finset Uuid
  closed : Bool

/-- `AuthPayload`, as far as `handleAuth` itself reads it. -/
structure AuthPayload where
  sessionToken : Option String
  workspaceId : Uuid
  shareToken : Option String
  deriving DecidableEq, Repr

/-- What `resolveShareTokenClaims` comes back with: nothing, one of the two things that are
still missing, or the claims of a visitor with the ids of the link and the visit. -/
inductive ShareTokenResolution where
  | unknown
  | signInRequired
  | passwordRequired
  | admitted (claims : AccessClaims) (shareTokenId shareSessionId : Uuid)
  deriving DecidableEq, Repr

inductive Handler where
  /-- `handleAuth`, awaiting `resolveSessionClaims`. -/
  | resolvingSession (sessionToken : String) (workspaceId : Uuid)
  /-- `handleAuth`, awaiting `resolveSessionId`. -/
  | resolvingSessionId (claims : AccessClaims)
  /-- `handleAuth`, awaiting `accountPresent`. -/
  | askingAccount (shareToken : String)
  /-- `handleAuth`, awaiting `resolveShareTokenClaims`. -/
  | resolvingShare (shareToken : String) (signedIn : Bool)
  /-- `handleOpen`, awaiting `authorizeDocumentOpen`, which was given these claims. -/
  | authorizing (requestId : ℕ) (asked : AskedName) (claims : AccessClaims)
  /-- `handleOpen`, awaiting `acquireRoom`. -/
  | loading (requestId : ℕ) (asked : AskedName) (role : Role)
  deriving DecidableEq, Repr

/-- What an await comes back with. -/
inductive Answer where
  | sessionClaims (claims : Option AccessClaims)
  | sessionId (session : Option Uuid)
  | account (present : Bool)
  | share (resolution : ShareTokenResolution)
  | authorized (role : Role)
  | room
  /-- It threw, an `AuthError` or something else. -/
  | threw (isAuthError : Bool)
  deriving DecidableEq, Repr

/-- The claims a handler authenticates the connection with, when it goes on with an answer. -/
def Handler.authenticates : Handler → Answer → Option AccessClaims
  | .resolvingSessionId claims, .sessionId (some _) => some claims
  | .resolvingShare _ _, .share (.admitted claims _ _) => some claims
  | _, _ => none

def Handler.registers : Handler → Answer → Option AskedName
  | .loading _ asked _, .room => some asked
  | _, _ => none

namespace IndexedConnection

/-- A connection whose socket was just accepted. -/
def accepted (cookieSessionToken : Option String) : IndexedConnection where
  auth := none
  documents := .empty
  handlesByPage := fun _ => none
  subscribers := fun _ => []
  sent := []
  socketClosed := false
  cookieSessionToken := cookieSessionToken
  workspaceId := none
  accountId := none
  byWorkspace := ∅
  byUser := ∅
  closed := false

def update (conn : IndexedConnection) (next : Connection) : IndexedConnection :=
  { conn with toConnection := next }

def sendError (conn : IndexedConnection) (requestId : ℕ) (code : SyncError) (detail : String) :
    IndexedConnection :=
  conn.update (conn.send (.error requestId code detail))

/-- An error frame, and `socket.close`. -/
def refuse (conn : IndexedConnection) (code : SyncError) (detail : String) :
    IndexedConnection :=
  conn.update { conn.send (.error 0 code detail) with socketClosed := true }

/-- `rememberPerson`, for the claims the connection has just been given. -/
def rememberPerson (conn : IndexedConnection) (claims : AccessClaims) : IndexedConnection :=
  { conn with
    workspaceId := some claims.workspaceId
    byWorkspace := insert claims.workspaceId conn.byWorkspace
    -- a visitor of a link has no account, and keeps what was filed before
    accountId := (accountOf claims).orElse fun _ => conn.accountId
    byUser := (accountOf claims).elim conn.byUser fun userId => insert userId conn.byUser }

def forgetPerson (conn : IndexedConnection) : IndexedConnection :=
  { conn with
    byWorkspace := conn.workspaceId.elim conn.byWorkspace conn.byWorkspace.erase
    workspaceId := none
    byUser := conn.accountId.elim conn.byUser conn.byUser.erase
    accountId := none }

/-- The end of `handleAuth`: the claims, the credential, the frame and the two indexes. -/
def authenticate (conn : IndexedConnection) (claims : AccessClaims)
    (credential : ConnectionCredential) : IndexedConnection :=
  let conn := conn.update { conn.toConnection with auth := some ⟨claims, credential⟩ }
  (conn.update (conn.send (.authAck claims.principal claims.workspaceRole))).rememberPerson
    claims

/-- `handleAuth`, to its first await. -/
def handleAuth (conn : IndexedConnection) (payload : AuthPayload) :
    IndexedConnection × Option Handler :=
  if conn.auth.isSome then (conn.refuse .protocolViolation "already authenticated", none)
  else
    let sessionToken := (payload.sessionToken.orElse fun _ => conn.cookieSessionToken).filter
      (· ≠ "")
    match payload.shareToken.filter (· ≠ ""), sessionToken with
    | none, none => (conn.refuse .authFailed "no credential", none)
    | none, some token => (conn, some (.resolvingSession token payload.workspaceId))
    | some shareToken, _ => (conn, some (.askingAccount shareToken))

/-- `handleOpen`, to its first await, behind the check in `onMessage`. -/
def handleOpen (conn : IndexedConnection) (requestId : ℕ) (asked : AskedName) :
    IndexedConnection × Option Handler :=
  match conn.auth with
  | none => (conn.refuse .notAuthenticated "", none)
  | some auth =>
    if maxDocumentsPerConnection ≤ conn.documents.list.length then
      (conn.sendError requestId .tooManyDocuments "", none)
    else match (conn.handlesByPage asked).bind conn.documents.get with
    | some doc => (conn.update (conn.send (.openAck requestId doc.handle doc.role)), none)
    | none => (conn, some (.authorizing requestId asked auth.claims))

/-- Whether the claims a connection holds keep it from a page's internal comments. -/
def keptFromInternal (conn : IndexedConnection) (asked : AskedName) : Bool :=
  asked.internal && conn.auth.any fun auth =>
    !auth.claims.principal.isUser || auth.claims.pageLevel.isNone

/-- What a handler does with the answer it was waiting for, to its next await or its end;
`none` where the await cannot come back with such an answer. -/
def resume (conn : IndexedConnection) :
    Handler → Answer → Option (IndexedConnection × Option Handler)
  | .resolvingSession _ _, .sessionClaims none => some (conn.refuse .authFailed "", none)
  | .resolvingSession _ _, .sessionClaims (some claims) =>
    some (conn, some (.resolvingSessionId claims))
  | .resolvingSessionId _, .sessionId none => some (conn.refuse .authFailed "", none)
  | .resolvingSessionId claims, .sessionId (some session) =>
    some (conn.authenticate claims (.session session), none)
  | .askingAccount shareToken, .account present =>
    some (conn, some (.resolvingShare shareToken present))
  | .resolvingShare _ _, .share .unknown => some (conn.refuse .authFailed "", none)
  | .resolvingShare _ _, .share .signInRequired =>
    some (conn.refuse .authFailed "sign_in_required", none)
  -- not a failure: the client is to ask, and the socket stays open
  | .resolvingShare _ _, .share .passwordRequired =>
    some (conn.sendError 0 .authFailed "password_required", none)
  | .resolvingShare _ _, .share (.admitted claims shareTokenId shareSessionId) =>
    some (conn.authenticate claims (.share shareTokenId shareSessionId), none)
  | .authorizing requestId asked _, .authorized role =>
    if conn.keptFromInternal asked then
      some (conn.sendError requestId .notAuthorized "", none)
    else some (conn, some (.loading requestId asked role))
  | .authorizing requestId _ _, .threw isAuthError =>
    some (conn.sendError requestId (if isAuthError then .notAuthorized else .internal) "", none)
  | .loading requestId asked role, .room =>
    some (conn.update (conn.register requestId asked role), none)
  | .loading requestId _ _, .threw _ => some (conn.sendError requestId .internal "", none)
  | .resolvingSession _ _, .threw isAuthError | .resolvingSessionId _, .threw isAuthError
  | .askingAccount _, .threw isAuthError | .resolvingShare _ _, .threw isAuthError =>
    some (conn.refuse (if isAuthError then .authFailed else .internal) "", none)
  | _, _ => none

def handleCloseDocument (conn : IndexedConnection) (handle : ℕ) : IndexedConnection :=
  conn.update (conn.toConnection.handleCloseDocument handle)

def onClose (conn : IndexedConnection) : IndexedConnection :=
  { conn.forgetPerson.update conn.toConnection.onClose with closed := true }

/-! ### What a handler that goes on can do -/

/-- **A handler that goes on** authenticates the connection, or registers a document, or leaves
the connection as it is but for what it sends and whether it closes the socket. -/
theorem resume_cases {conn conn' : IndexedConnection} {handler : Handler} {answer : Answer}
    {next : Option Handler} (h : conn.resume handler answer = some (conn', next)) :
    (∃ claims credential, handler.authenticates answer = some claims ∧
        conn' = conn.authenticate claims credential) ∨
      (∃ requestId asked role, handler.registers answer = some asked ∧
        conn' = conn.update (conn.register requestId asked role)) ∨
      (handler.authenticates answer = none ∧ handler.registers answer = none ∧
        ∃ sent socketClosed, conn' = conn.update { conn.toConnection with sent, socketClosed } ∧
          (socketClosed = false → conn.socketClosed = false)) := by
  unfold resume at h
  split at h
  case h_4 | h_9 => -- the session or the visitor is known
    obtain ⟨rfl, -⟩ := Prod.mk.inj (Option.some.inj h)
    exact .inl ⟨_, _, rfl, rfl⟩
  case h_12 => -- the room is loaded
    obtain ⟨rfl, -⟩ := Prod.mk.inj (Option.some.inj h)
    exact .inr (.inl ⟨_, _, _, rfl, rfl⟩)
  case h_10 =>
    refine .inr (.inr ⟨rfl, rfl, ?_⟩)
    split at h
    · obtain ⟨rfl, -⟩ := Prod.mk.inj (Option.some.inj h)
      exact ⟨_, _, rfl, id⟩
    · obtain ⟨rfl, -⟩ := Prod.mk.inj (Option.some.inj h)
      exact ⟨_, _, rfl, id⟩
  case h_18 => simp at h
  all_goals
    obtain ⟨rfl, -⟩ := Prod.mk.inj (Option.some.inj h)
    first
      | exact .inr (.inr ⟨rfl, rfl, _, _, rfl, id⟩)
      | exact .inr (.inr ⟨rfl, rfl, _, _, rfl, by simp⟩)

/-! ### A handler that is not interrupted -/

end IndexedConnection

end Sone
