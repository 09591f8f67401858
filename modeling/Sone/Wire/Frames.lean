import Sone.Sync.Rooms
import Sone.Wire.Json

/-!
# The frames of the wire

Two packages have the protocol, each with its own numbers, encoders and decoders: the client
(`client/src/protocol.ts`) and the server (`server/src/sync/protocol.ts`). A frame is the number
of its type and then the fields of that type; the fields are written and read by a library that
is not here, `Lib0`, which is assumed to read back what it wrote (`Lib0.RoundTrips`).

`decodeClientMessage` checks what it reads and says which check failed. `decodeServerFrame` and
`decodeServerMessage` read the same fields, and differ in their numbers and in what they throw.
-/

namespace Sone.Wire

/-! ### Fields -/

/-- How values of a type are written as bytes, and read from the front of some. -/
structure Codec (α : Type) where
  write : α → List UInt8
  /-- The value and the bytes after it, where reading does not throw. -/
  read : List UInt8 → Option (α × List UInt8)

/-- **What is written is read back**, of the values a codec is for. -/
def Codec.RoundTrips {α : Type} (codec : Codec α) (p : α → Prop) : Prop :=
  ∀ (a : α) (rest : List UInt8), p a → codec.read (codec.write a ++ rest) = some (a, rest)

/-- A length or a number that fits: integers above are not told apart. -/
def Safe (n : ℕ) : Prop := n ≤ maxSafeInteger

/-- The three kinds of field of `lib0`. -/
structure Lib0 where
  varUint : Codec ℕ
  varString : Codec String
  varUint8Array : Codec (List UInt8)

/-- Each kind of field is read back. Strings and arrays are written with their length. -/
structure Lib0.RoundTrips (lib : Lib0) : Prop where
  varUint : lib.varUint.RoundTrips Safe
  varString : lib.varString.RoundTrips fun s => Safe s.utf8ByteSize
  varUint8Array : lib.varUint8Array.RoundTrips fun bytes => Safe bytes.length

/-! ### Types and their numbers -/

inductive ClientType where
  | auth
  | «open»
  | sync
  | awareness
  | close
  | ping
  deriving DecidableEq

inductive ServerType where
  | authAck
  | openAck
  | sync
  | awareness
  | closed
  | pong
  | error
  | roleChanged
  | notify
  deriving DecidableEq

def ClientType.all : List ClientType := [.auth, .open, .sync, .awareness, .close, .ping]

def ServerType.all : List ServerType :=
  [.authAck, .openAck, .sync, .awareness, .closed, .pong, .error, .roleChanged, .notify]

/-- `ClientMessage` of the client. -/
def Client.clientMessage : ClientType → ℕ
  | .auth => 0
  | .open => 1
  | .sync => 2
  | .awareness => 3
  | .close => 4
  | .ping => 5

/-- `ServerMessage` of the client. -/
def Client.serverMessage : ServerType → ℕ
  | .authAck => 0
  | .openAck => 1
  | .sync => 2
  | .awareness => 3
  | .closed => 4
  | .pong => 5
  | .error => 6
  | .roleChanged => 7
  | .notify => 8

/-- `ClientMessage` of the server. -/
def Server.clientMessage : ClientType → ℕ
  | .auth => 0
  | .open => 1
  | .sync => 2
  | .awareness => 3
  | .close => 4
  | .ping => 5

/-- `ServerMessage` of the server. -/
def Server.serverMessage : ServerType → ℕ
  | .authAck => 0
  | .openAck => 1
  | .sync => 2
  | .awareness => 3
  | .closed => 4
  | .pong => 5
  | .error => 6
  | .roleChanged => 7
  | .notify => 8

inductive SyncErrorCode where
  | protocolViolation
  | notAuthenticated
  | authFailed
  | notAuthorized
  | readOnly
  | unknownHandle
  | tooManyDocuments
  | messageTooLarge
  | rateLimited
  | internal
  | documentSchemaMismatch
  deriving DecidableEq

/-- `SyncError` -/
def SyncErrorCode.text : SyncErrorCode → String
  | protocolViolation => "protocol_violation"
  | notAuthenticated => "not_authenticated"
  | authFailed => "auth_failed"
  | notAuthorized => "not_authorized"
  | readOnly => "read_only"
  | unknownHandle => "unknown_handle"
  | tooManyDocuments => "too_many_documents"
  | messageTooLarge => "message_too_large"
  | rateLimited => "rate_limited"
  | internal => "internal"
  | documentSchemaMismatch => "document_schema_mismatch"

/-! ### Messages -/

structure AuthPayload where
  protocolVersion : ℕ
  documentSchemaVersion : Option ℕ
  workspaceId : String
  sessionToken : Option String
  shareToken : Option String
  displayName : Option String
  sharePassword : Option String
  shareSessionId : Option String
  deriving DecidableEq

structure AuthAck where
  principalKind : String
  displayName : String
  workspaceRole : Option String
  shareSessionId : Option String
  deriving DecidableEq

inductive ClientMessage where
  | auth (payload : AuthPayload)
  | «open» (requestId : ℕ) (pageId : String)
  | sync (handle : ℕ) (payload : List UInt8)
  | awareness (handle : ℕ) (payload : List UInt8)
  | close (handle : ℕ)
  | ping
  deriving DecidableEq

inductive ServerMessage where
  | authAck (ack : AuthAck)
  | openAck (requestId handle : ℕ) (role : String)
  | sync (handle : ℕ) (payload : List UInt8)
  | awareness (handle : ℕ) (payload : List UInt8)
  | closed (handle : ℕ) (reason : SyncErrorCode)
  | pong
  | error (requestId : ℕ) (code : SyncErrorCode) (detail : String)
  | roleChanged (handle : ℕ) (role : String)
  | notify (scope : String)
  deriving DecidableEq

/-- A message of a server as it is read: `ServerFrame` of the client and `DecodedServerMessage` of
the server, which are alike. What an answer to an Auth holds is not looked at. -/
inductive ServerFrame where
  | authAck (ack : JsValue)
  | openAck (requestId handle : ℕ) (role : String)
  | sync (handle : ℕ) (payload : List UInt8)
  | awareness (handle : ℕ) (payload : List UInt8)
  | closed (handle : ℕ) (reason : String)
  | pong
  | error (requestId : ℕ) (code detail : String)
  | roleChanged (handle : ℕ) (role : String)
  | notify (scope : String)

def optionalField (key : String) (value : Option JsValue) : List (String × JsValue) :=
  (value.map fun value => (key, value)).toList

def whole (n : ℕ) : JsValue := .number (.finite n)

def AuthPayload.toJson (payload : AuthPayload) : JsValue :=
  .object (("protocolVersion", whole payload.protocolVersion) ::
    (optionalField "documentSchemaVersion" (payload.documentSchemaVersion.map whole) ++
    ("workspaceId", .string payload.workspaceId) ::
    (optionalField "sessionToken" (payload.sessionToken.map .string) ++
    (optionalField "shareToken" (payload.shareToken.map .string) ++
    (optionalField "displayName" (payload.displayName.map .string) ++
    (optionalField "sharePassword" (payload.sharePassword.map .string) ++
      optionalField "shareSessionId" (payload.shareSessionId.map .string)))))))

/-- The object an answer to an Auth is. A user without a role in the workspace has `null`. -/
def AuthAck.toJson (ack : AuthAck) : JsValue :=
  .object (("principalKind", .string ack.principalKind) ::
    ("displayName", .string ack.displayName) ::
    ("workspaceRole", (ack.workspaceRole.map .string).getD .null) ::
    optionalField "shareSessionId" (ack.shareSessionId.map .string))

section Encoders

variable (lib : Lib0) (js : Js)

/-- `JSON.stringify(value)`, written as a string. -/
def writeJson (value : JsValue) : List UInt8 :=
  lib.varString.write (String.ofList (Json.stringify js value))

/-! ### The encoders of the client -/

namespace Client

def encodeAuth (payload : AuthPayload) : List UInt8 :=
  lib.varUint.write (clientMessage .auth) ++ writeJson lib js payload.toJson

def encodeOpen (requestId : ℕ) (pageId : String) : List UInt8 :=
  lib.varUint.write (clientMessage .open) ++
    (lib.varUint.write requestId ++ lib.varString.write pageId)

def encodeSync (handle : ℕ) (payload : List UInt8) : List UInt8 :=
  lib.varUint.write (clientMessage .sync) ++
    (lib.varUint.write handle ++ lib.varUint8Array.write payload)

def encodeAwareness (handle : ℕ) (payload : List UInt8) : List UInt8 :=
  lib.varUint.write (clientMessage .awareness) ++
    (lib.varUint.write handle ++ lib.varUint8Array.write payload)

def encodeCloseDocument (handle : ℕ) : List UInt8 :=
  lib.varUint.write (clientMessage .close) ++ lib.varUint.write handle

def encodePing : List UInt8 := lib.varUint.write (clientMessage .ping)

def encode : ClientMessage → List UInt8
  | .auth payload => encodeAuth lib js payload
  | .open requestId pageId => encodeOpen lib requestId pageId
  | .sync handle payload => encodeSync lib handle payload
  | .awareness handle payload => encodeAwareness lib handle payload
  | .close handle => encodeCloseDocument lib handle
  | .ping => encodePing lib

end Client

/-! ### The encoders of the server -/

namespace Server

def encodeAuthAck (ack : AuthAck) : List UInt8 :=
  lib.varUint.write (serverMessage .authAck) ++ writeJson lib js ack.toJson

def encodeOpenAck (requestId handle : ℕ) (role : String) : List UInt8 :=
  lib.varUint.write (serverMessage .openAck) ++
    (lib.varUint.write requestId ++ (lib.varUint.write handle ++ lib.varString.write role))

def encodeSync (handle : ℕ) (payload : List UInt8) : List UInt8 :=
  lib.varUint.write (serverMessage .sync) ++
    (lib.varUint.write handle ++ lib.varUint8Array.write payload)

def encodeAwareness (handle : ℕ) (payload : List UInt8) : List UInt8 :=
  lib.varUint.write (serverMessage .awareness) ++
    (lib.varUint.write handle ++ lib.varUint8Array.write payload)

def encodeClosed (handle : ℕ) (reason : SyncErrorCode) : List UInt8 :=
  lib.varUint.write (serverMessage .closed) ++
    (lib.varUint.write handle ++ lib.varString.write reason.text)

def encodeRoleChanged (handle : ℕ) (role : String) : List UInt8 :=
  lib.varUint.write (serverMessage .roleChanged) ++
    (lib.varUint.write handle ++ lib.varString.write role)

def encodeError (requestId : ℕ) (code : SyncErrorCode) (detail : String) : List UInt8 :=
  lib.varUint.write (serverMessage .error) ++
    (lib.varUint.write requestId ++ (lib.varString.write code.text ++ lib.varString.write detail))

def encodeNotify (scope : String) : List UInt8 :=
  lib.varUint.write (serverMessage .notify) ++ lib.varString.write scope

def encodePong : List UInt8 := lib.varUint.write (serverMessage .pong)

def encode : ServerMessage → List UInt8
  | .authAck ack => encodeAuthAck lib js ack
  | .openAck requestId handle role => encodeOpenAck lib requestId handle role
  | .sync handle payload => encodeSync lib handle payload
  | .awareness handle payload => encodeAwareness lib handle payload
  | .closed handle reason => encodeClosed lib handle reason
  | .pong => encodePong lib
  | .error requestId code detail => encodeError lib requestId code detail
  | .roleChanged handle role => encodeRoleChanged lib handle role
  | .notify scope => encodeNotify lib scope

end Server

end Encoders

/-! ### What the server reads of a client -/

structure ProtocolError where
  message : String
  code : SyncErrorCode := .protocolViolation
  deriving DecidableEq

/-- `PROTOCOL_VERSION` -/
def protocolVersion : ℕ := 1

/-- `SCHEMA_VERSION` -/
def schemaVersion : ℕ := 7

def maxMessageBytes : ℕ := 8 * 1024 * 1024

def isClientSchemaCompatible (clientVersion : JsNumber) : Bool :=
  clientVersion = .finite schemaVersion

def optionalString (value : JsValue) (field : String) (maxLength : ℕ) :
    Except ProtocolError (Option String) :=
  match value with
  | .undefined | .null => .ok none
  | .string s =>
    if s = "" then .ok none
    else if JsString.length s > maxLength then
      .error { message := "auth: " ++ field ++ " exceeds " ++ toString maxLength ++ " characters" }
    else .ok (some s)
  | _ => .error { message := "auth: " ++ field ++ " must be a string" }

def optionalUuid (value : JsValue) (message : String) : Except ProtocolError (Option String) :=
  match value with
  | .undefined | .null => .ok none
  | .string s => if isUuidText s then .ok (some s) else .error { message }
  | _ => .error { message }

/-- `Number(value)` -/
def numberOf (js : Js) : JsValue → JsNumber
  | .number n => n
  | .undefined => .nan
  | .null => .finite 0
  | value => js.toNumber value

/-- `String(documentSchemaVersion ?? 'unknown')` -/
def schemaText (js : Js) (value : JsValue) : String :=
  if value.isNullish then "unknown" else js.toText value

def validateTokens (value : JsValue) : Except ProtocolError (Option String × Option String) := do
  let sessionToken ← optionalString (value.get "sessionToken") "sessionToken" 4096
  let shareToken ← optionalString (value.get "shareToken") "shareToken" 4096
  if sessionToken.isSome && shareToken.isSome then
    throw { message := "auth: sessionToken and shareToken are mutually exclusive" }
  return (sessionToken, shareToken)

/-- What the two sides have to agree on: the protocol and the format of documents. -/
def validateVersions (js : Js) (value : JsValue) : Except ProtocolError Unit := do
  if (value.get "protocolVersion").number? ≠ some (.finite protocolVersion) then
    throw { message := "unsupported protocol version " ++ js.toText (value.get "protocolVersion") ++
      "; server speaks " ++ toString protocolVersion }
  if isClientSchemaCompatible (numberOf js (value.get "documentSchemaVersion")) = false then
    throw {
      message := "client speaks document schema " ++
        schemaText js (value.get "documentSchemaVersion") ++ "; this server speaks " ++
        toString schemaVersion ++ ". Reload the page.",
      code := .documentSchemaMismatch }

def validateAuth (js : Js) (value : JsValue) : Except ProtocolError AuthPayload := do
  if value.isObject = false then throw { message := "auth payload must be an object" }
  validateVersions js value
  match value.get "workspaceId" with
  | .string workspaceId =>
    if isUuidText workspaceId = false then throw { message := "auth: workspaceId is not a uuid" }
    let (sessionToken, shareToken) ← validateTokens value
    let displayName ← optionalString (value.get "displayName") "displayName" 64
    let sharePassword ← optionalString (value.get "sharePassword") "sharePassword" 1024
    let shareSessionId ←
      optionalUuid (value.get "shareSessionId") "auth: shareSessionId is not a uuid"
    return {
      protocolVersion, documentSchemaVersion := some schemaVersion, workspaceId, sessionToken,
      shareToken, displayName, sharePassword, shareSessionId }
  | _ => throw { message := "auth: workspaceId is not a uuid" }

/-- What a frame that ends too early is answered with. -/
def malformed : ProtocolError := { message := "malformed message" }

def readField {α : Type} (codec : Codec α) (data : List UInt8) :
    Except ProtocolError (α × List UInt8) :=
  match codec.read data with
  | some read => .ok read
  | none => .error malformed

section Decoders

variable (lib : Lib0) (js : Js)

def Server.readClientFields (type : ClientType) (data : List UInt8) :
    Except ProtocolError ClientMessage := do
  match type with
  | .auth =>
    let (raw, _) ← readField lib.varString data
    match Json.parse js raw.toList with
    | some parsed => return .auth (← validateAuth js parsed)
    | none => throw { message := "auth payload is not valid JSON" }
  | .open =>
    let (requestId, data) ← readField lib.varUint data
    let (pageId, _) ← readField lib.varString data
    if acceptsOpen pageId = false then throw { message := "open: pageId is not a uuid" }
    return .open requestId pageId
  | .sync =>
    let (handle, data) ← readField lib.varUint data
    let (payload, _) ← readField lib.varUint8Array data
    return .sync handle payload
  | .awareness =>
    let (handle, data) ← readField lib.varUint data
    let (payload, _) ← readField lib.varUint8Array data
    return .awareness handle payload
  | .close =>
    let (handle, _) ← readField lib.varUint data
    return .close handle
  | .ping => return .ping

def Server.decodeClientMessage (data : List UInt8) : Except ProtocolError ClientMessage :=
  if data.length = 0 then .error { message := "empty message" }
  else if data.length > maxMessageBytes then
    .error { message := "message too large", code := .messageTooLarge }
  else match lib.varUint.read data with
    | none => .error { message := "unreadable message type" }
    | some (number, data) =>
      match ClientType.all.find? fun type => Server.clientMessage type = number with
      | some type => Server.readClientFields lib js type data
      | none => .error { message := "unknown message type " ++ toString number }

/-! ### What is read of a server -/

/-- The fields of a message of one type, where reading them does not throw. -/
def readServerFields (type : ServerType) (data : List UInt8) : Option ServerFrame := do
  match type with
  | .authAck =>
    let (raw, _) ← lib.varString.read data
    return .authAck (← Json.parse js raw.toList)
  | .openAck =>
    let (requestId, data) ← lib.varUint.read data
    let (handle, data) ← lib.varUint.read data
    let (role, _) ← lib.varString.read data
    return .openAck requestId handle role
  | .sync =>
    let (handle, data) ← lib.varUint.read data
    let (payload, _) ← lib.varUint8Array.read data
    return .sync handle payload
  | .awareness =>
    let (handle, data) ← lib.varUint.read data
    let (payload, _) ← lib.varUint8Array.read data
    return .awareness handle payload
  | .closed =>
    let (handle, data) ← lib.varUint.read data
    let (reason, _) ← lib.varString.read data
    return .closed handle reason
  | .roleChanged =>
    let (handle, data) ← lib.varUint.read data
    let (role, _) ← lib.varString.read data
    return .roleChanged handle role
  | .notify =>
    let (scope, _) ← lib.varString.read data
    return .notify scope
  | .pong => return .pong
  | .error =>
    let (requestId, data) ← lib.varUint.read data
    let (code, data) ← lib.varString.read data
    let (detail, _) ← lib.varString.read data
    return .error requestId code detail

/-- `decodeServerFrame`, and the message of the `ClientProtocolError` it throws. -/
def Client.decodeServerFrame (data : List UInt8) : Except String ServerFrame :=
  if data.length = 0 then .error "empty frame"
  else match lib.varUint.read data with
    | none => .error "unreadable frame type"
    | some (number, data) =>
      match ServerType.all.find? fun type => Client.serverMessage type = number with
      | some type =>
        match readServerFields lib js type data with
        | some frame => .ok frame
        | none => .error "malformed frame"
      | none => .error ("unknown server frame type " ++ toString number)

/-- What `decodeServerMessage` throws: an error of its own, or what reading a field threw. -/
inductive Thrown where
  | protocolError (message : String)
  | fromField
  deriving DecidableEq

def Server.decodeServerMessage (data : List UInt8) : Except Thrown ServerFrame :=
  match lib.varUint.read data with
  | none => .error .fromField
  | some (number, data) =>
    match ServerType.all.find? fun type => Server.serverMessage type = number with
    | some type =>
      match readServerFields lib js type data with
      | some frame => .ok frame
      | none => .error .fromField
    | none => .error (.protocolError ("unknown server message type " ++ toString number))

end Decoders

end Sone.Wire
