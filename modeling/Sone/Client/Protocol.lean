import Sone.Sync.Connection

/-!
# The wire protocol, as the client has it

The frames of `client/src/protocol.ts`, decoded. What a sync or awareness frame carries for a
document is a parameter: the connection hands it on without looking at it. A page is named as the
server reads the name.
-/

namespace Sone.Client

universe u

/-- `PROTOCOL_VERSION`. -/
def protocolVersion : ℕ := 1

/-- `DOCUMENT_SCHEMA_VERSION`. -/
def documentSchemaVersion : ℕ := 7

structure AuthPayload where
  protocolVersion : ℕ
  documentSchemaVersion : ℕ
  workspaceId : String
  sessionToken : Option String
  shareToken : Option String
  displayName : Option String
  sharePassword : Option String
  shareSessionId : Option String
  deriving DecidableEq, Repr

structure AuthAck where
  principalKind : String
  displayName : String
  workspaceRole : Option String
  shareSessionId : Option String
  deriving DecidableEq, Repr

inductive ClientFrame (P : Type u) where
  | auth (payload : AuthPayload)
  | openPage (requestId : ℕ) (pageId : AskedName)
  | sync (handle : ℕ) (payload : P)
  | awareness (handle : ℕ) (payload : P)
  | close (handle : ℕ)
  | ping
  deriving DecidableEq, Repr

inductive ServerFrame (P : Type u) where
  | authAck (ack : AuthAck)
  | openAck (requestId handle : ℕ) (role : Role)
  | sync (handle : ℕ) (payload : P)
  | awareness (handle : ℕ) (payload : P)
  | closed (handle : ℕ) (reason : String)
  | roleChanged (handle : ℕ) (role : Role)
  | notify (scope : String)
  | pong
  | error (requestId : ℕ) (code detail : String)
  deriving DecidableEq, Repr

end Sone.Client
