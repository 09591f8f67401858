import Sone.Transition.Outcome
import Sone.Wire.Bytes
import Sone.Wire.Frames

/-!
# Frames are read as they were written

What the server makes of an Auth is settled by the fields of the payload (`AuthPayload.Accepted`),
and what it keeps of one are the fields that are not empty (`AuthPayload.kept`). Every other message
is read back field by field.

`wire_roundTrips` has both directions, with the numbers, encoders and decoders of both packages.
`LibZero` is a library as it is assumed, with numbers in groups of seven bits and strings as UTF-8.
-/

namespace Sone.Wire

open List Option

/-! ### Reading one field -/

theorem readField_write {α : Type} {codec : Codec α} {p : α → Prop} (h : codec.RoundTrips p)
    {a : α} (ha : p a) (rest : List UInt8) :
    readField codec (codec.write a ++ rest) = .ok (a, rest) := by
  rw [readField, h a rest ha]

theorem ok_bind {ε α β : Type} (a : α) (f : α → Except ε β) : (Except.ok a >>= f) = f a := rfl

theorem Codec.RoundTrips.last {α : Type} {codec : Codec α} {p : α → Prop}
    (h : codec.RoundTrips p) {a : α} (ha : p a) : codec.read (codec.write a) = some (a, []) := by
  simpa using h a [] ha

theorem readField_last {α : Type} {codec : Codec α} {p : α → Prop} (h : codec.RoundTrips p)
    {a : α} (ha : p a) : readField codec (codec.write a) = .ok (a, []) := by
  rw [readField, h.last ha]

theorem Lib0.RoundTrips.write_ne_nil {lib : Lib0} (h : lib.RoundTrips) {n : ℕ} (hn : Safe n) :
    lib.varUint.write n ≠ [] := by
  intro hnil
  -- another number would be read as this one
  obtain ⟨m, hm, hne⟩ : ∃ m, Safe m ∧ m ≠ n := by
    by_cases hzero : n = 0
    · exact ⟨1, by rw [Safe]; decide, by omega⟩
    · exact ⟨0, Nat.zero_le _, fun heq => hzero heq.symm⟩
  have hread := h.varUint n (lib.varUint.write m) hn
  rw [hnil, nil_append, h.varUint.last hm] at hread
  exact hne (Prod.ext_iff.mp (some.inj hread)).1

/-! ### The fields of a payload -/

def textOrMissing (value : Option String) : JsValue := (value.map .string).getD .undefined

theorem get_cons (name key : String) (value : JsValue) (fields : List (String × JsValue)) :
    (JsValue.object ((name, value) :: fields)).get key =
      if name = key then value else (JsValue.object fields).get key := by
  by_cases h : name = key
  · simp [JsValue.get, h]
  · simp [JsValue.get, h]

theorem get_optional (name key : String) (value : Option JsValue)
    (fields : List (String × JsValue)) :
    (JsValue.object (optionalField name value ++ fields)).get key =
      if name = key then value.getD ((JsValue.object fields).get key)
      else (JsValue.object fields).get key := by
  cases value with
  | none => simp [optionalField]
  | some value => exact get_cons name key value fields

theorem get_last (name key : String) (value : Option JsValue) :
    (JsValue.object (optionalField name value)).get key =
      if name = key then value.getD .undefined else .undefined := by
  have h := get_optional name key value []
  rwa [append_nil] at h

section Payload

variable (payload : AuthPayload)

theorem get_protocolVersion :
    payload.toJson.get "protocolVersion" = whole payload.protocolVersion := rfl

theorem get_documentSchemaVersion : payload.toJson.get "documentSchemaVersion" =
    (payload.documentSchemaVersion.map whole).getD .undefined := by
  simp [AuthPayload.toJson, get_cons, get_optional, get_last]

theorem get_workspaceId : payload.toJson.get "workspaceId" = .string payload.workspaceId := by
  simp [AuthPayload.toJson, get_cons, get_optional]

theorem get_sessionToken :
    payload.toJson.get "sessionToken" = textOrMissing payload.sessionToken := by
  simp [AuthPayload.toJson, get_cons, get_optional, get_last, textOrMissing]

theorem get_shareToken : payload.toJson.get "shareToken" = textOrMissing payload.shareToken := by
  simp [AuthPayload.toJson, get_cons, get_optional, get_last, textOrMissing]

theorem get_displayName : payload.toJson.get "displayName" = textOrMissing payload.displayName := by
  simp [AuthPayload.toJson, get_cons, get_optional, get_last, textOrMissing]

theorem get_sharePassword :
    payload.toJson.get "sharePassword" = textOrMissing payload.sharePassword := by
  simp [AuthPayload.toJson, get_cons, get_optional, get_last, textOrMissing]

theorem get_shareSessionId :
    payload.toJson.get "shareSessionId" = textOrMissing payload.shareSessionId := by
  simp [AuthPayload.toJson, get_cons, get_optional, get_last, textOrMissing]

/-! ### What is accepted of a client -/

def keptText (value : Option String) : Option String := value.filter fun s => s ≠ ""

theorem keptText_some (s : String) : keptText (some s) = if s = "" then none else some s := by
  by_cases h : s = "" <;> simp [keptText, Option.filter, h]

/-- The payload without the optional texts that are empty. -/
def AuthPayload.kept : AuthPayload :=
  { payload with
    sessionToken := keptText payload.sessionToken
    shareToken := keptText payload.shareToken
    displayName := keptText payload.displayName
    sharePassword := keptText payload.sharePassword }

/-- **An Auth is accepted**: the two sides speak one protocol and one document format, the ids are
uuids, no text is too long, and there is at most one token. -/
structure AuthPayload.Accepted : Prop where
  protocol : payload.protocolVersion = Wire.protocolVersion
  schema : payload.documentSchemaVersion = some schemaVersion
  workspace : isUuidText payload.workspaceId = true
  sessionToken : ∀ s ∈ payload.sessionToken, JsString.length s ≤ 4096
  shareToken : ∀ s ∈ payload.shareToken, JsString.length s ≤ 4096
  oneToken : keptText payload.sessionToken = none ∨ keptText payload.shareToken = none
  displayName : ∀ s ∈ payload.displayName, JsString.length s ≤ 64
  sharePassword : ∀ s ∈ payload.sharePassword, JsString.length s ≤ 1024
  shareSessionId : ∀ s ∈ payload.shareSessionId, isUuidText s = true

theorem optionalString_eq_ok_iff {value kept : Option String} {field : String} {maxLength : ℕ} :
    optionalString (textOrMissing value) field maxLength = .ok kept ↔
      (∀ s ∈ value, JsString.length s ≤ maxLength) ∧ keptText value = kept := by
  cases value with
  | none => simp [textOrMissing, optionalString, keptText]
  | some s =>
    simp only [textOrMissing, map_some, getD_some, optionalString, keptText_some,
      mem_some_iff]
    by_cases hempty : s = ""
    · subst hempty
      have hzero : JsString.length "" = 0 := by decide
      simp [hzero]
    · by_cases hlong : JsString.length s > maxLength
      · simp [hempty, hlong]
      · simp [hempty, hlong, not_lt.mp hlong]

theorem optionalUuid_eq_ok_iff {value kept : Option String} {message : String} :
    optionalUuid (textOrMissing value) message = .ok kept ↔
      (∀ s ∈ value, isUuidText s = true) ∧ value = kept := by
  cases value with
  | none => simp [textOrMissing, optionalUuid]
  | some s =>
    simp only [textOrMissing, map_some, getD_some, optionalUuid, mem_some_iff]
    by_cases huuid : isUuidText s = true
    · simp [huuid]
    · simp [huuid]

theorem validateTokens_eq_ok_iff {tokens : Option String × Option String} :
    validateTokens payload.toJson = .ok tokens ↔
      (∀ s ∈ payload.sessionToken, JsString.length s ≤ 4096) ∧
        (∀ s ∈ payload.shareToken, JsString.length s ≤ 4096) ∧
        (keptText payload.sessionToken = none ∨ keptText payload.shareToken = none) ∧
        (keptText payload.sessionToken, keptText payload.shareToken) = tokens := by
  rw [validateTokens, get_sessionToken, get_shareToken]
  simp only [bind_eq_ok_iff, optionalString_eq_ok_iff]
  constructor
  · rintro ⟨session, ⟨hsession, rfl⟩, share, ⟨hshare, rfl⟩, h⟩
    split at h
    · cases h
    · next hone =>
      refine ⟨hsession, hshare, ?_, Except.ok.inj h⟩
      simpa only [Bool.and_eq_true, isSome_iff_ne_none, ne_eq, not_and_or, not_not]
        using hone
  · rintro ⟨hsession, hshare, hone, rfl⟩
    refine ⟨_, ⟨hsession, rfl⟩, _, ⟨hshare, rfl⟩, if_neg ?_⟩
    simpa only [Bool.and_eq_true, isSome_iff_ne_none, ne_eq, not_and_or, not_not] using hone

theorem isClientSchemaCompatible_iff (js : Js) {version : Option ℕ} :
    isClientSchemaCompatible (numberOf js ((version.map whole).getD .undefined)) = true ↔
      version = some schemaVersion := by
  cases version with
  | none => simp [isClientSchemaCompatible, numberOf]
  | some n => simp [isClientSchemaCompatible, numberOf, whole]

theorem validateVersions_eq_ok_iff (js : Js) :
    validateVersions js payload.toJson = .ok () ↔
      payload.protocolVersion = protocolVersion ∧
        payload.documentSchemaVersion = some schemaVersion := by
  rw [validateVersions, get_protocolVersion, get_documentSchemaVersion]
  have hprotocol : (whole payload.protocolVersion).number? = some (.finite protocolVersion) ↔
      payload.protocolVersion = protocolVersion := by
    simp [whole, JsValue.number?]
  rw [← isClientSchemaCompatible_iff js, ← hprotocol]
  split
  · next hother => simp [hother, throw, throwThe, MonadExceptOf.throw, bind, Except.bind]
  · next hsame =>
    split
    · next hother => simp [hother, throw, throwThe, MonadExceptOf.throw]
    · next hschema =>
      simp only [pure, Except.pure, true_iff]
      exact ⟨not_not.mp hsame, by simpa using hschema⟩

/-- **What is accepted** of an Auth, and what is then kept of it. -/
theorem validateAuth_eq_ok_iff (js : Js) {kept : AuthPayload} :
    validateAuth js payload.toJson = .ok kept ↔ payload.Accepted ∧ payload.kept = kept := by
  have hobject : ¬ payload.toJson.isObject = false := by simp [AuthPayload.toJson, JsValue.isObject]
  rw [validateAuth, if_neg hobject]
  simp only [get_workspaceId, get_displayName, get_sharePassword, get_shareSessionId]
  rw [bind_eq_ok_iff]
  constructor
  · rintro ⟨⟨⟩, hversions, h⟩
    obtain ⟨hprotocol, hschema⟩ := (validateVersions_eq_ok_iff payload js).mp hversions
    split at h
    · cases h
    · next huuid =>
      simp only [bind_eq_ok_iff, validateTokens_eq_ok_iff, optionalString_eq_ok_iff,
        optionalUuid_eq_ok_iff] at h
      obtain ⟨_, ⟨hsession, hshare, hone, rfl⟩, _, ⟨hname, rfl⟩, _, ⟨hpassword, rfl⟩, _,
        ⟨hid, rfl⟩, hkept⟩ := h
      refine ⟨⟨hprotocol, hschema, by simpa using huuid, hsession, hshare, hone, hname, hpassword,
        hid⟩, ?_⟩
      rw [AuthPayload.kept, hprotocol, hschema]
      exact Except.ok.inj hkept
  · rintro ⟨haccepted, rfl⟩
    refine ⟨(), (validateVersions_eq_ok_iff payload js).mpr ⟨haccepted.protocol, haccepted.schema⟩,
      ?_⟩
    rw [if_neg (by simp [haccepted.workspace])]
    simp only [bind_eq_ok_iff, validateTokens_eq_ok_iff, optionalString_eq_ok_iff,
      optionalUuid_eq_ok_iff]
    refine ⟨_, ⟨haccepted.sessionToken, haccepted.shareToken, haccepted.oneToken, rfl⟩, _,
      ⟨haccepted.displayName, rfl⟩, _, ⟨haccepted.sharePassword, rfl⟩, _,
      ⟨haccepted.shareSessionId, rfl⟩, ?_⟩
    rw [AuthPayload.kept, haccepted.protocol, haccepted.schema]
    rfl

end Payload

/-! ### Objects are read back -/

/-- Members are plain, and are named by some of a list of keys in their order. -/
structure PlainFields (keys : List String) (fields : List (String × JsValue)) : Prop where
  named : (fields.map (·.1)).Sublist keys
  plain : ∀ field ∈ fields, Json.IsPlain field.2

theorem PlainFields.cons {keys : List String} {fields : List (String × JsValue)}
    {value : JsValue} (h : PlainFields keys fields) (key : String) (hvalue : Json.IsPlain value) :
    PlainFields (key :: keys) ((key, value) :: fields) :=
  ⟨h.named.cons_cons key, forall_mem_cons.mpr ⟨hvalue, h.plain⟩⟩

theorem PlainFields.optional {keys : List String} {fields : List (String × JsValue)}
    {value : Option JsValue} (h : PlainFields keys fields) (key : String)
    (hvalue : ∀ v ∈ value, Json.IsPlain v) :
    PlainFields (key :: keys) (optionalField key value ++ fields) := by
  cases value with
  | none => exact ⟨h.named.cons key, h.plain⟩
  | some value => exact h.cons key (hvalue value rfl)

theorem PlainFields.last (key : String) {value : Option JsValue}
    (hvalue : ∀ v ∈ value, Json.IsPlain v) : PlainFields [key] (optionalField key value) := by
  have h := (⟨List.Sublist.slnil, by simp⟩ : PlainFields [] []).optional key hvalue
  rwa [append_nil] at h

theorem PlainFields.isPlain {keys : List String} {fields : List (String × JsValue)}
    (h : PlainFields keys fields) (hkeys : keys.Nodup) : Json.IsPlain (.object fields) :=
  .object (hkeys.sublist h.named) h.plain

theorem plain_text (value : Option String) : ∀ v ∈ value.map .string, Json.IsPlain v := by
  rintro v hv
  obtain ⟨s, -, rfl⟩ := Option.mem_map.mp hv
  exact .string s

theorem AuthPayload.isPlain_toJson {payload : AuthPayload} (hversion : Safe payload.protocolVersion)
    (hschema : ∀ n ∈ payload.documentSchemaVersion, Safe n) : Json.IsPlain payload.toJson := by
  have hnumber : ∀ v ∈ payload.documentSchemaVersion.map whole, Json.IsPlain v := by
    rintro v hv
    obtain ⟨n, hn, rfl⟩ := Option.mem_map.mp hv
    exact .natural (hschema n hn)
  have hlast := (PlainFields.last "shareSessionId" (plain_text payload.shareSessionId)).optional
    "sharePassword" (plain_text payload.sharePassword)
  have htokens := ((hlast.optional "displayName" (plain_text payload.displayName)).optional
    "shareToken" (plain_text payload.shareToken)).optional
    "sessionToken" (plain_text payload.sessionToken)
  have hfields := ((htokens.cons "workspaceId" (.string payload.workspaceId)).optional
    "documentSchemaVersion" hnumber).cons "protocolVersion" (.natural hversion)
  exact PlainFields.isPlain hfields (by decide)

theorem AuthAck.isPlain_toJson (ack : AuthAck) : Json.IsPlain ack.toJson := by
  have hrole : Json.IsPlain ((ack.workspaceRole.map .string).getD .null) := by
    cases ack.workspaceRole with
    | none => exact .null
    | some role => exact .string role
  have hlast := (PlainFields.last "shareSessionId" (plain_text ack.shareSessionId)).cons
    "workspaceRole" hrole
  have hfields := (hlast.cons "displayName" (.string ack.displayName)).cons
    "principalKind" (.string ack.principalKind)
  exact PlainFields.isPlain hfields (by decide)

/-! ### A client's messages -/

def jsonText (js : Js) (value : JsValue) : String := String.ofList (Json.stringify js value)

/-- **The fields are in range**: the numbers are told apart, and texts and bytes have a length. -/
def ClientMessage.InRange (js : Js) : ClientMessage → Prop
  | .auth payload => Safe payload.protocolVersion ∧
      (∀ n ∈ payload.documentSchemaVersion, Safe n) ∧
      Safe (jsonText js payload.toJson).utf8ByteSize
  | .open requestId pageId => Safe requestId ∧ Safe pageId.utf8ByteSize
  | .sync handle payload => Safe handle ∧ Safe payload.length
  | .awareness handle payload => Safe handle ∧ Safe payload.length
  | .close handle => Safe handle
  | .ping => True

/-- What is accepted: an Auth by its fields, an Open by the id, and everything else. -/
def ClientMessage.Accepted : ClientMessage → Prop
  | .auth payload => payload.Accepted
  | .open _ pageId => acceptsOpen pageId = true
  | _ => True

/-- What is read of a message: of an Auth what is kept of the payload, and else all of it. -/
def ClientMessage.kept : ClientMessage → ClientMessage
  | .auth payload => .auth payload.kept
  | message => message

def ClientMessage.type : ClientMessage → ClientType
  | .auth _ => .auth
  | .open _ _ => .open
  | .sync _ _ => .sync
  | .awareness _ _ => .awareness
  | .close _ => .close
  | .ping => .ping

section Client

variable {js : Js} {lib : Lib0} {message read : ClientMessage}

theorem find?_clientMessage (type : ClientType) :
    (ClientType.all.find? fun other =>
      Server.clientMessage other = Client.clientMessage type) = some type := by
  cases type <;> rfl

theorem safe_clientMessage (type : ClientType) : Safe (Client.clientMessage type) := by
  rw [Safe]
  cases type <;> decide

theorem readField_json (hlib : lib.RoundTrips) {value : JsValue} (h : Json.IsPlain value)
    (hsafe : Safe (jsonText js value).utf8ByteSize) :
    lib.varString.read (writeJson lib js value) = some (jsonText js value, []) ∧
      Json.parse js (jsonText js value).toList = some value := by
  refine ⟨hlib.varString.last hsafe, ?_⟩
  rw [jsonText, String.toList_ofList]
  exact Json.parse_stringify js h

theorem readClientFields_auth {data : List UInt8} {text : String} {value : JsValue}
    (hread : lib.varString.read data = some (text, []))
    (hparse : Json.parse js text.toList = some value) :
    Server.readClientFields lib js .auth data =
      (validateAuth js value >>= fun payload => .ok (.auth payload)) := by
  have hfield : readField lib.varString data = .ok (text, []) := by rw [readField, hread]
  simp only [Server.readClientFields, hfield, ok_bind, hparse]
  rfl

/-- **A frame of a client** is the number of its type, and fields that are read as they were
written and then checked. -/
theorem exists_clientFields (hlib : lib.RoundTrips) (h : message.InRange js) :
    ∃ fields, Client.encode lib js message =
        lib.varUint.write (Client.clientMessage message.type) ++ fields ∧
      (Server.readClientFields lib js message.type fields = .ok read ↔
        message.Accepted ∧ message.kept = read) := by
  cases message with
  | auth payload =>
    obtain ⟨hversion, hschema, hsafe⟩ := h
    obtain ⟨hread, hparse⟩ :=
      readField_json hlib (AuthPayload.isPlain_toJson hversion hschema) hsafe
    refine ⟨writeJson lib js payload.toJson, rfl, ?_⟩
    rw [ClientMessage.type, readClientFields_auth hread hparse, bind_eq_ok_iff]
    simp only [validateAuth_eq_ok_iff]
    constructor
    · rintro ⟨kept, ⟨haccepted, rfl⟩, hread⟩
      exact ⟨haccepted, Except.ok.inj hread⟩
    · rintro ⟨haccepted, rfl⟩
      exact ⟨_, ⟨haccepted, rfl⟩, rfl⟩
  | «open» requestId pageId =>
    refine ⟨lib.varUint.write requestId ++ lib.varString.write pageId, rfl, ?_⟩
    simp only [ClientMessage.type, Server.readClientFields, readField_write hlib.varUint h.1,
      ok_bind, readField_last hlib.varString h.2, ClientMessage.Accepted, ClientMessage.kept]
    split
    · next hrefused => simp [hrefused, throw, throwThe, MonadExceptOf.throw, bind, Except.bind]
    · next haccepted => simp [pure, Except.pure, Bool.not_eq_false _ ▸ haccepted]
  | sync handle payload =>
    refine ⟨lib.varUint.write handle ++ lib.varUint8Array.write payload, rfl, ?_⟩
    simp [ClientMessage.type, Server.readClientFields, readField_write hlib.varUint h.1, ok_bind,
      readField_last hlib.varUint8Array h.2, ClientMessage.Accepted, ClientMessage.kept]
  | awareness handle payload =>
    refine ⟨lib.varUint.write handle ++ lib.varUint8Array.write payload, rfl, ?_⟩
    simp [ClientMessage.type, Server.readClientFields, readField_write hlib.varUint h.1, ok_bind,
      readField_last hlib.varUint8Array h.2, ClientMessage.Accepted, ClientMessage.kept]
  | close handle =>
    refine ⟨lib.varUint.write handle, rfl, ?_⟩
    simp [ClientMessage.type, Server.readClientFields, readField_last hlib.varUint h,
      ClientMessage.Accepted, ClientMessage.kept]
  | ping =>
    refine ⟨[], (append_nil _).symm, ?_⟩
    simp [ClientMessage.type, Server.readClientFields, ClientMessage.Accepted, ClientMessage.kept,
      pure, Except.pure]

/-- **A client's message** is read exactly where it is accepted, and as what is kept of it. -/
theorem decodeClientMessage_encode (hlib : lib.RoundTrips) (h : message.InRange js)
    (hsize : (Client.encode lib js message).length ≤ maxMessageBytes) :
    Server.decodeClientMessage lib js (Client.encode lib js message) = .ok read ↔
      message.Accepted ∧ message.kept = read := by
  obtain ⟨fields, hframe, hfields⟩ := @exists_clientFields js lib message read hlib h
  have hsafe := safe_clientMessage message.type
  have hne : (Client.encode lib js message).length ≠ 0 := by
    rw [hframe, length_append]
    have hpos := length_pos_iff.mpr (hlib.write_ne_nil hsafe)
    omega
  rw [Server.decodeClientMessage, if_neg hne, if_neg (not_lt.mpr hsize), hframe,
    hlib.varUint _ _ hsafe]
  simp only [find?_clientMessage]
  exact hfields

end Client

/-! ### A server's messages -/

/-- **The fields are in range.** -/
def ServerMessage.InRange (js : Js) : ServerMessage → Prop
  | .authAck ack => Safe (jsonText js ack.toJson).utf8ByteSize
  | .openAck requestId handle role => Safe requestId ∧ Safe handle ∧ Safe role.utf8ByteSize
  | .sync handle payload => Safe handle ∧ Safe payload.length
  | .awareness handle payload => Safe handle ∧ Safe payload.length
  | .closed handle _ => Safe handle
  | .pong => True
  | .error requestId _ detail => Safe requestId ∧ Safe detail.utf8ByteSize
  | .roleChanged handle role => Safe handle ∧ Safe role.utf8ByteSize
  | .notify scope => Safe scope.utf8ByteSize

/-- The message as it is read: a code by its text, and an answer to an Auth as an object. -/
def ServerMessage.frame : ServerMessage → ServerFrame
  | .authAck ack => .authAck ack.toJson
  | .openAck requestId handle role => .openAck requestId handle role
  | .sync handle payload => .sync handle payload
  | .awareness handle payload => .awareness handle payload
  | .closed handle reason => .closed handle reason.text
  | .pong => .pong
  | .error requestId code detail => .error requestId code.text detail
  | .roleChanged handle role => .roleChanged handle role
  | .notify scope => .notify scope

def ServerMessage.type : ServerMessage → ServerType
  | .authAck _ => .authAck
  | .openAck _ _ _ => .openAck
  | .sync _ _ => .sync
  | .awareness _ _ => .awareness
  | .closed _ _ => .closed
  | .pong => .pong
  | .error _ _ _ => .error
  | .roleChanged _ _ => .roleChanged
  | .notify _ => .notify

section Server

variable {js : Js} {lib : Lib0} {message : ServerMessage}

theorem find?_serverMessage (type : ServerType) :
    (ServerType.all.find? fun other =>
      Client.serverMessage other = Server.serverMessage type) = some type ∧
    (ServerType.all.find? fun other =>
      Server.serverMessage other = Server.serverMessage type) = some type := by
  cases type <;> exact ⟨rfl, rfl⟩

theorem safe_serverMessage (type : ServerType) : Safe (Server.serverMessage type) := by
  rw [Safe]
  cases type <;> decide

theorem safe_text (code : SyncErrorCode) : Safe code.text.utf8ByteSize := by
  rw [Safe]
  cases code <;> decide

theorem SyncErrorCode.text_injective : Function.Injective SyncErrorCode.text := by
  intro a b h
  cases a <;> cases b <;> first | rfl | exact absurd h (by decide)

theorem readServerFields_authAck {data : List UInt8} {text : String} {value : JsValue}
    (hread : lib.varString.read data = some (text, []))
    (hparse : Json.parse js text.toList = some value) :
    readServerFields lib js .authAck data = some (.authAck value) := by
  simp only [readServerFields, hread, bind_eq_bind, bind_some, hparse]
  rfl

/-- **A frame of a server** is the number of its type, and fields that are read as they were
written. -/
theorem exists_serverFields (hlib : lib.RoundTrips) (h : message.InRange js) :
    ∃ fields, Server.encode lib js message =
        lib.varUint.write (Server.serverMessage message.type) ++ fields ∧
      readServerFields lib js message.type fields = some message.frame := by
  cases message with
  | authAck ack =>
    obtain ⟨hread, hparse⟩ := readField_json hlib (AuthAck.isPlain_toJson ack) h
    exact ⟨writeJson lib js ack.toJson, rfl, readServerFields_authAck hread hparse⟩
  | openAck requestId handle role =>
    refine ⟨lib.varUint.write requestId ++ (lib.varUint.write handle ++ lib.varString.write role),
      rfl, ?_⟩
    simp [ServerMessage.type, readServerFields, hlib.varUint _ _ h.1, hlib.varUint _ _ h.2.1,
      hlib.varString.last h.2.2, ServerMessage.frame]
  | sync handle payload =>
    refine ⟨lib.varUint.write handle ++ lib.varUint8Array.write payload, rfl, ?_⟩
    simp [ServerMessage.type, readServerFields, hlib.varUint _ _ h.1,
      hlib.varUint8Array.last h.2, ServerMessage.frame]
  | awareness handle payload =>
    refine ⟨lib.varUint.write handle ++ lib.varUint8Array.write payload, rfl, ?_⟩
    simp [ServerMessage.type, readServerFields, hlib.varUint _ _ h.1,
      hlib.varUint8Array.last h.2, ServerMessage.frame]
  | closed handle reason =>
    refine ⟨lib.varUint.write handle ++ lib.varString.write reason.text, rfl, ?_⟩
    simp [ServerMessage.type, readServerFields, hlib.varUint _ _ h,
      hlib.varString.last (safe_text reason), ServerMessage.frame]
  | pong => exact ⟨[], (append_nil _).symm, rfl⟩
  | error requestId code detail =>
    refine ⟨lib.varUint.write requestId ++ (lib.varString.write code.text ++
      lib.varString.write detail), rfl, ?_⟩
    simp [ServerMessage.type, readServerFields, hlib.varUint _ _ h.1,
      hlib.varString _ _ (safe_text code), hlib.varString.last h.2, ServerMessage.frame]
  | roleChanged handle role =>
    refine ⟨lib.varUint.write handle ++ lib.varString.write role, rfl, ?_⟩
    simp [ServerMessage.type, readServerFields, hlib.varUint _ _ h.1,
      hlib.varString.last h.2, ServerMessage.frame]
  | notify scope =>
    refine ⟨lib.varString.write scope, rfl, ?_⟩
    simp [ServerMessage.type, readServerFields, hlib.varString.last h, ServerMessage.frame]

theorem decodeServerFrame_encode (hlib : lib.RoundTrips) (h : message.InRange js) :
    Client.decodeServerFrame lib js (Server.encode lib js message) = .ok message.frame := by
  obtain ⟨fields, hframe, hfields⟩ := @exists_serverFields js lib message hlib h
  have hsafe := safe_serverMessage message.type
  have hne : (Server.encode lib js message).length ≠ 0 := by
    rw [hframe, length_append]
    have hpos := length_pos_iff.mpr (hlib.write_ne_nil hsafe)
    omega
  rw [Client.decodeServerFrame, if_neg hne, hframe, hlib.varUint _ _ hsafe]
  simp only [(find?_serverMessage message.type).1, hfields]

theorem decodeServerMessage_encode (hlib : lib.RoundTrips) (h : message.InRange js) :
    Server.decodeServerMessage lib js (Server.encode lib js message) = .ok message.frame := by
  obtain ⟨fields, hframe, hfields⟩ := @exists_serverFields js lib message hlib h
  rw [Server.decodeServerMessage, hframe, hlib.varUint _ _ (safe_serverMessage message.type)]
  simp only [(find?_serverMessage message.type).2, hfields]

theorem getD_string_injective {missing : JsValue} (h : ∀ s, missing ≠ .string s) :
    Function.Injective fun value : Option String => (value.map .string).getD missing := by
  intro a b hab
  cases a with
  | none =>
    cases b with
    | none => rfl
    | some s => exact absurd hab (h s)
  | some s =>
    cases b with
    | none => exact absurd hab.symm (h s)
    | some t => exact congrArg some (JsValue.string.inj hab)

theorem AuthAck.toJson_injective : Function.Injective AuthAck.toJson := by
  rintro ⟨kind, name, role, session⟩ ⟨kind', name', role', session'⟩ h
  have hget := fun key => congrArg (JsValue.get key) h
  have hkind : kind = kind' := by
    simpa [AuthAck.toJson, get_cons] using hget "principalKind"
  have hname : name = name' := by
    simpa [AuthAck.toJson, get_cons] using hget "displayName"
  have hrole : role = role' :=
    @getD_string_injective .null (fun s => by simp) _ _
      (by simpa [AuthAck.toJson, get_cons] using hget "workspaceRole")
  have hsession : session = session' :=
    @getD_string_injective .undefined (fun s => by simp) _ _
      (by simpa [AuthAck.toJson, get_cons, get_last] using hget "shareSessionId")
  rw [hkind, hname, hrole, hsession]

theorem ServerMessage.frame_injective : Function.Injective ServerMessage.frame := by
  intro a b h
  cases a <;> cases b <;> simp only [ServerMessage.frame, reduceCtorEq, ServerFrame.authAck.injEq,
    ServerFrame.closed.injEq, ServerFrame.error.injEq] at h
  case authAck.authAck => rw [AuthAck.toJson_injective h]
  case closed.closed => rw [h.1, SyncErrorCode.text_injective h.2]
  case error.error => rw [h.1, SyncErrorCode.text_injective h.2.1, h.2.2]
  all_goals cases h; rfl

end Server

/-! ### Both directions -/

/-- **The wire round-trips**, where the library reads back what it writes. A message of a client
whose frame is not too large is read exactly where it is accepted, and then as it was sent but for
the texts of an Auth that are empty. A message of a server is read by both packages as it was sent,
and no other message is read as it. -/
theorem wire_roundTrips (js : Js) (lib : Lib0) (hlib : lib.RoundTrips) :
    (∀ message : ClientMessage, message.InRange js →
      (Client.encode lib js message).length ≤ maxMessageBytes → ∀ read,
        (Server.decodeClientMessage lib js (Client.encode lib js message) = .ok read ↔
          message.Accepted ∧ message.kept = read)) ∧
    (∀ message : ServerMessage, message.InRange js →
      Client.decodeServerFrame lib js (Server.encode lib js message) = .ok message.frame ∧
        Server.decodeServerMessage lib js (Server.encode lib js message) = .ok message.frame) ∧
    Function.Injective ServerMessage.frame :=
  ⟨fun _ h hsize _ => decodeClientMessage_encode hlib h hsize,
    fun _ h => ⟨decodeServerFrame_encode hlib h, decodeServerMessage_encode hlib h⟩,
    ServerMessage.frame_injective⟩

/-! ### A library as it is assumed -/

namespace LibZero

/-- A number in groups of seven bits, the lowest first, all but the last marked. -/
def writeUint (n : ℕ) : List UInt8 :=
  if n < 128 then [UInt8.ofNat n] else UInt8.ofNat (n % 128 + 128) :: writeUint (n / 128)

def readGroups : List UInt8 → Option (ℕ × List UInt8)
  | [] => none
  | b :: bytes =>
    if b.toNat < 128 then some (b.toNat, bytes)
    else (readGroups bytes).map fun read => (b.toNat - 128 + 128 * read.1, read.2)

/-- The number, where it can be told apart. -/
def readUint (bytes : List UInt8) : Option (ℕ × List UInt8) :=
  (readGroups bytes).filter fun read => read.1 ≤ maxSafeInteger

/-- As many bytes as are said to come. -/
def readBytes (bytes : List UInt8) : Option (List UInt8 × List UInt8) := do
  let (n, bytes) ← readUint bytes
  if n ≤ bytes.length then some (bytes.take n, bytes.drop n) else none

/-- Numbers by groups, and texts and bytes by their length and what they are. -/
def lib : Lib0 where
  varUint := { write := writeUint, read := readUint }
  varString := {
    write := fun s => writeUint (utf8 s).length ++ utf8 s
    read := fun bytes => do
      let (bytes, rest) ← readBytes bytes
      return (← ofUtf8 bytes, rest) }
  varUint8Array := {
    write := fun bytes => writeUint bytes.length ++ bytes
    read := readBytes }

theorem readGroups_writeUint (n : ℕ) (rest : List UInt8) :
    readGroups (writeUint n ++ rest) = some (n, rest) := by
  induction n using Nat.strong_induction_on with
  | _ n ih =>
    rw [writeUint]
    split
    · next hlt =>
      have hn : (UInt8.ofNat n).toNat = n := by simp; omega
      rw [singleton_append, readGroups, hn, if_pos hlt]
    · next hge =>
      have hn : (UInt8.ofNat (n % 128 + 128)).toNat = n % 128 + 128 := by simp; omega
      rw [cons_append, readGroups, hn, if_neg (by omega), ih (n / 128) (by omega),
        map_some]
      congr 2
      omega

theorem readUint_writeUint {n : ℕ} (hn : Safe n) (rest : List UInt8) :
    readUint (writeUint n ++ rest) = some (n, rest) := by
  have hle : n ≤ maxSafeInteger := hn
  rw [readUint, readGroups_writeUint, Option.filter, if_pos (by simpa using hle)]

theorem readBytes_write {bytes : List UInt8} (h : Safe bytes.length) (rest : List UInt8) :
    readBytes (writeUint bytes.length ++ bytes ++ rest) = some (bytes, rest) := by
  rw [readBytes, append_assoc, readUint_writeUint h]
  simp

theorem lib_roundTrips : lib.RoundTrips where
  varUint n rest hn := readUint_writeUint hn rest
  varString s rest hs := by
    have hbytes : readBytes (writeUint (utf8 s).length ++ utf8 s ++ rest) = some (utf8 s, rest) :=
      readBytes_write (length_utf8 s ▸ hs) rest
    simp only [lib, hbytes, bind_eq_bind, bind_some, ofUtf8_utf8]
    rfl
  varUint8Array bytes rest hbytes := readBytes_write hbytes rest

end LibZero

/-- The payload of somebody who opened a share link and gave no name. -/
def samplePayload : AuthPayload where
  protocolVersion := 1
  documentSchemaVersion := some 7
  workspaceId := "6f9f6b1e-4a4a-5f6c-8f2e-1d3c5b7a9e01"
  sessionToken := none
  shareToken := some "t\n\"\u00e9"
  displayName := some ""
  sharePassword := none
  shareSessionId := none

/-- An Auth whose empty name is dropped, an Open and an error, over that library. -/
theorem wire_roundTrips_libZero :
    Server.decodeClientMessage LibZero.lib Js.ascii
        (Client.encode LibZero.lib Js.ascii (.auth samplePayload)) =
      .ok (.auth { samplePayload with displayName := none }) ∧
    Server.decodeClientMessage LibZero.lib Js.ascii
        (Client.encode LibZero.lib Js.ascii (.open 3 samplePayload.workspaceId)) =
      .ok (.open 3 samplePayload.workspaceId) ∧
    Client.decodeServerFrame LibZero.lib Js.ascii
        (Server.encode LibZero.lib Js.ascii (.error 300 .readOnly "")) =
      .ok (.error 300 "read_only" "") := by
  obtain ⟨hclient, hserver, -⟩ := wire_roundTrips Js.ascii LibZero.lib LibZero.lib_roundTrips
  refine ⟨(hclient (.auth samplePayload) ?_ ?_ _).mpr ⟨?_, rfl⟩,
    (hclient (.open 3 samplePayload.workspaceId) ?_ ?_ _).mpr ⟨?_, rfl⟩,
    (hserver (.error 300 .readOnly "") ?_).1⟩
  · refine ⟨by rw [Safe]; decide, ?_, by rw [Safe]; decide +kernel⟩
    rintro n hn
    obtain rfl := some.inj hn
    rw [Safe]
    decide
  · decide +kernel
  · exact ⟨rfl, rfl, by decide, by decide, by decide, by decide, by decide, by decide, by decide⟩
  · exact ⟨by rw [Safe]; decide, by rw [Safe]; decide⟩
  · decide +kernel
  · rw [ClientMessage.Accepted]
    decide
  · exact ⟨by rw [Safe]; decide, by rw [Safe]; decide⟩

end Sone.Wire
