import Sone.Transition.Outcome
import Sone.Wire.Frames

/-!
# What comes of bytes nobody vouches for

`decodeClientMessage` of the server once more, with all that may throw in it. The readers of `lib0`
throw where a frame ends too early, `JSON.parse` where a text is no JSON, and `String(value)` and
`Number(value)` of an object that has a `toString` or a `valueOf` of its own. The decoder catches
what is thrown, lets through what is an error of the protocol already and makes one of anything
else.

So whatever the bytes are, what it throws is an error of the protocol, and what it returns is valid
in each of its fields (`decodeClientMessage_spec`).
-/

namespace Sone.Wire

/-- What may be thrown: an error of the protocol, or something else. -/
inductive Raised where
  | protocolError (error : ProtocolError)
  | other
  deriving DecidableEq

/-- `String(value)` and `Number(value)`, where they do not throw. -/
structure Coercions where
  toText : JsValue → Option String
  toNumber : JsValue → Option JsNumber

namespace Untrusted

/-- `throw new ProtocolError(…)` -/
def raise {α : Type} (error : ProtocolError) : Except Raised α := .error (.protocolError error)

/-- What a check makes of a value, or throws. -/
def checked {α : Type} (check : Except ProtocolError α) : Except Raised α :=
  check.mapError .protocolError

/-- A call that may throw something else. -/
def orThrow {α : Type} : Option α → Except Raised α
  | some a => .ok a
  | none => .error .other

/-- The `catch` of the decoder: an error of the protocol is thrown again. -/
def rethrow {α : Type} : Except Raised α → Except Raised α
  | .error .other => raise malformed
  | outcome => outcome

section Decoder

variable (lib : Lib0) (js : Js) (coercions : Coercions)

/-- `String(documentSchemaVersion ?? 'unknown')` -/
def schemaText (value : JsValue) : Except Raised String :=
  if value.isNullish then .ok "unknown" else orThrow (coercions.toText value)

/-- What the two sides have to agree on. -/
def validateVersions (value : JsValue) : Except Raised Unit := do
  if (value.get "protocolVersion").number? ≠ some (.finite protocolVersion) then
    let text ← orThrow (coercions.toText (value.get "protocolVersion"))
    raise { message := "unsupported protocol version " ++ text ++ "; server speaks " ++
      toString protocolVersion }
  let version ← orThrow (coercions.toNumber (value.get "documentSchemaVersion"))
  if isClientSchemaCompatible version = false then
    let text ← schemaText coercions (value.get "documentSchemaVersion")
    raise {
      message := "client speaks document schema " ++ text ++ "; this server speaks " ++
        toString schemaVersion ++ ". Reload the page.",
      code := .documentSchemaMismatch }

def validateFields (value : JsValue) : Except ProtocolError AuthPayload :=
  match value.get "workspaceId" with
  | .string workspaceId => do
    if isUuidText workspaceId = false then throw { message := "auth: workspaceId is not a uuid" }
    let (sessionToken, shareToken) ← validateTokens value
    let displayName ← optionalString (value.get "displayName") "displayName" 64
    let sharePassword ← optionalString (value.get "sharePassword") "sharePassword" 1024
    let shareSessionId ←
      optionalUuid (value.get "shareSessionId") "auth: shareSessionId is not a uuid"
    return {
      protocolVersion, documentSchemaVersion := some schemaVersion, workspaceId, sessionToken,
      shareToken, displayName, sharePassword, shareSessionId }
  | _ => throw { message := "auth: workspaceId is not a uuid" }

def validateAuth (value : JsValue) : Except Raised AuthPayload := do
  if value.isObject = false then raise { message := "auth payload must be an object" }
  validateVersions coercions value
  checked (validateFields value)

/-- The fields of a message of one type, in the `try`. -/
def readClientFields (type : ClientType) (data : List UInt8) : Except Raised ClientMessage := do
  match type with
  | .auth =>
    let (raw, _) ← orThrow (lib.varString.read data)
    match Json.parse js raw.toList with
    | some parsed => return .auth (← validateAuth coercions parsed)
    | none => raise { message := "auth payload is not valid JSON" }
  | .open =>
    let (requestId, data) ← orThrow (lib.varUint.read data)
    let (pageId, _) ← orThrow (lib.varString.read data)
    if acceptsOpen pageId = false then raise { message := "open: pageId is not a uuid" }
    return .open requestId pageId
  | .sync =>
    let (handle, data) ← orThrow (lib.varUint.read data)
    let (payload, _) ← orThrow (lib.varUint8Array.read data)
    return .sync handle payload
  | .awareness =>
    let (handle, data) ← orThrow (lib.varUint.read data)
    let (payload, _) ← orThrow (lib.varUint8Array.read data)
    return .awareness handle payload
  | .close =>
    let (handle, _) ← orThrow (lib.varUint.read data)
    return .close handle
  | .ping => return .ping

def decodeClientMessage (data : List UInt8) : Except Raised ClientMessage :=
  if data.length = 0 then raise { message := "empty message" }
  else if data.length > maxMessageBytes then
    raise { message := "message too large", code := .messageTooLarge }
  else match lib.varUint.read data with
    | none => raise { message := "unreadable message type" }
    | some (number, data) => rethrow <|
      match ClientType.all.find? fun type => Server.clientMessage type = number with
      | some type => readClientFields lib js coercions type data
      | none => raise { message := "unknown message type " ++ toString number }

end Decoder

end Untrusted

/-! ### What is valid -/

/-- A text that may be missing: it is not empty and not too long. -/
def IsKeptText (maxLength : ℕ) (value : Option String) : Prop :=
  ∀ s ∈ value, s ≠ "" ∧ JsString.length s ≤ maxLength

/-- **An Auth is valid** in each of its fields. -/
structure AuthPayload.IsValid (payload : AuthPayload) : Prop where
  protocolVersion : payload.protocolVersion = Wire.protocolVersion
  documentSchemaVersion : payload.documentSchemaVersion = some schemaVersion
  workspaceId : isUuidText payload.workspaceId = true
  sessionToken : IsKeptText 4096 payload.sessionToken
  shareToken : IsKeptText 4096 payload.shareToken
  oneToken : payload.sessionToken = none ∨ payload.shareToken = none
  displayName : IsKeptText 64 payload.displayName
  sharePassword : IsKeptText 1024 payload.sharePassword
  shareSessionId : ∀ s ∈ payload.shareSessionId, isUuidText s = true

/-- **A message is valid**: an Auth in its fields, and an Open names a uuid, with the suffix or
without. Of a number and of bytes there is nothing to check. -/
def ClientMessage.IsValid : ClientMessage → Prop
  | .auth payload => payload.IsValid
  | .open _ pageId =>
    ∃ uuid, isUuidText uuid = true ∧ (pageId = uuid ∨ pageId = uuid ++ internalSuffix)
  | .sync _ _ | .awareness _ _ | .close _ | .ping => True

namespace Untrusted

variable {lib : Lib0} {js : Js} {coercions : Coercions}

/-! ### What is returned -/

theorem isKeptText_of_optionalString {value : JsValue} {field : String} {maxLength : ℕ}
    {kept : Option String} (h : optionalString value field maxLength = .ok kept) :
    IsKeptText maxLength kept := by
  cases value with
  | string s =>
    rw [optionalString] at h
    split at h
    · obtain rfl := Except.ok.inj h
      simp [IsKeptText]
    · split at h
      · cases h
      · obtain rfl := Except.ok.inj h
        rename_i hne hle
        simp [IsKeptText, hne, not_lt.mp hle]
  | undefined | null =>
    obtain rfl := Except.ok.inj h
    simp [IsKeptText]
  | _ => cases h

theorem isUuidText_of_optionalUuid {value : JsValue} {message : String} {kept : Option String}
    (h : optionalUuid value message = .ok kept) : ∀ s ∈ kept, isUuidText s = true := by
  cases value with
  | string s =>
    rw [optionalUuid] at h
    split at h
    · obtain rfl := Except.ok.inj h
      simpa
    · cases h
  | undefined | null =>
    obtain rfl := Except.ok.inj h
    simp
  | _ => cases h

theorem tokens_of_validateTokens {value : JsValue} {tokens : Option String × Option String}
    (h : validateTokens value = .ok tokens) :
    IsKeptText 4096 tokens.1 ∧ IsKeptText 4096 tokens.2 ∧ (tokens.1 = none ∨ tokens.2 = none) := by
  simp only [validateTokens, bind_eq_ok_iff] at h
  obtain ⟨session, hsession, share, hshare, h⟩ := h
  split at h
  · cases h
  · rename_i hone
    obtain rfl := Except.ok.inj h
    refine ⟨isKeptText_of_optionalString hsession, isKeptText_of_optionalString hshare, ?_⟩
    simpa only [Bool.and_eq_true, Option.isSome_iff_ne_none, ne_eq, not_and_or, not_not] using hone

/-- **The fields of an Auth that are accepted.** -/
theorem isValid_of_validateFields {value : JsValue} {payload : AuthPayload}
    (h : validateFields value = .ok payload) : payload.IsValid := by
  rw [validateFields] at h
  split at h
  · split at h
    · cases h
    · rename_i workspaceId hworkspace huuid
      simp only [bind_eq_ok_iff] at h
      obtain ⟨tokens, htokens, name, hname, password, hpassword, session, hsession, h⟩ := h
      obtain rfl := Except.ok.inj h
      obtain ⟨hsessionToken, hshareToken, hone⟩ := tokens_of_validateTokens htokens
      exact {
        protocolVersion := rfl
        documentSchemaVersion := rfl
        workspaceId := by simpa using huuid
        sessionToken := hsessionToken
        shareToken := hshareToken
        oneToken := hone
        displayName := isKeptText_of_optionalString hname
        sharePassword := isKeptText_of_optionalString hpassword
        shareSessionId := isUuidText_of_optionalUuid hsession }
  · cases h

theorem checked_eq_ok_iff {α : Type} {check : Except ProtocolError α} {a : α} :
    checked check = .ok a ↔ check = .ok a := mapError_eq_ok_iff

theorem isValid_of_validateAuth {value : JsValue} {payload : AuthPayload}
    (h : validateAuth coercions value = .ok payload) : payload.IsValid := by
  rw [validateAuth] at h
  split at h
  · cases h
  · obtain ⟨_, -, h⟩ := bind_eq_ok_iff.mp h
    exact isValid_of_validateFields (checked_eq_ok_iff.mp h)

theorem exists_uuid_of_acceptsOpen {pageId : String} (h : acceptsOpen pageId = true) :
    ∃ uuid, isUuidText uuid = true ∧ (pageId = uuid ∨ pageId = uuid ++ internalSuffix) := by
  refine ⟨pageAsked pageId, h, ?_⟩
  rw [pageAsked, readInternalRequest]
  split
  · rename_i hsuffix
    right
    obtain ⟨page, hpage⟩ := List.isSuffixOf_iff_suffix.mp hsuffix
    rw [← String.toList_inj, String.toList_append, String.toList_ofList, ← hpage,
      List.length_append, Nat.add_sub_cancel, List.take_left]
  · exact .inl rfl

/-- **A message that is read** is valid. -/
theorem isValid_of_readClientFields {type : ClientType} {data : List UInt8}
    {message : ClientMessage} (h : readClientFields lib js coercions type data = .ok message) :
    message.IsValid := by
  cases type with
  | auth =>
    obtain ⟨⟨raw, rest⟩, -, h⟩ := bind_eq_ok_iff.mp h
    dsimp only at h
    split at h
    · obtain ⟨payload, hpayload, h⟩ := bind_eq_ok_iff.mp h
      obtain rfl := Except.ok.inj h
      exact isValid_of_validateAuth hpayload
    · cases h
  | «open» =>
    obtain ⟨⟨requestId, rest⟩, -, h⟩ := bind_eq_ok_iff.mp h
    obtain ⟨⟨pageId, rest⟩, -, h⟩ := bind_eq_ok_iff.mp h
    dsimp only at h
    split at h
    · cases h
    · rename_i haccepted
      obtain rfl := Except.ok.inj h
      exact exists_uuid_of_acceptsOpen (by simpa using haccepted)
  | sync | awareness =>
    obtain ⟨⟨handle, rest⟩, -, h⟩ := bind_eq_ok_iff.mp h
    obtain ⟨⟨payload, rest⟩, -, h⟩ := bind_eq_ok_iff.mp h
    obtain rfl := Except.ok.inj h
    trivial
  | close =>
    obtain ⟨⟨handle, rest⟩, -, h⟩ := bind_eq_ok_iff.mp h
    obtain rfl := Except.ok.inj h
    trivial
  | ping =>
    obtain rfl := Except.ok.inj h
    trivial

/-! ### What is thrown -/

theorem exists_protocolError_of_rethrow {α : Type} {outcome : Except Raised α} {raised : Raised}
    (h : rethrow outcome = .error raised) : ∃ error, raised = .protocolError error := by
  cases outcome with
  | ok a => cases h
  | error inner =>
    cases inner with
    | other => exact ⟨malformed, (Except.error.inj h).symm⟩
    | protocolError error => exact ⟨error, (Except.error.inj h).symm⟩

theorem ok_of_rethrow {α : Type} {outcome : Except Raised α} {a : α}
    (h : rethrow outcome = .ok a) : outcome = .ok a := by
  cases outcome with
  | ok b => exact h
  | error inner => cases inner <;> cases h

/-- **Whatever the bytes are**, what the decoder returns is valid, and what it throws is an error of
the protocol. -/
theorem decodeClientMessage_spec (lib : Lib0) (js : Js) (coercions : Coercions)
    (data : List UInt8) :
    (∀ message, decodeClientMessage lib js coercions data = .ok message → message.IsValid) ∧
      ∀ raised, decodeClientMessage lib js coercions data = .error raised →
        ∃ error, raised = .protocolError error := by
  have hraise : ∀ {error : ProtocolError},
      (∀ message, (raise error : Except Raised ClientMessage) = .ok message → message.IsValid) ∧
        ∀ raised, (raise error : Except Raised ClientMessage) = .error raised →
          ∃ error, raised = .protocolError error := by
    intro error
    refine ⟨?_, fun raised h => ⟨error, (Except.error.inj h).symm⟩⟩
    rintro _ ⟨⟩
  rw [decodeClientMessage]
  split
  · exact hraise
  split
  · exact hraise
  split
  · exact hraise
  · -- the `catch` leaves a message as it is and gives any error the protocol's type
    refine ⟨fun message h => ?_, fun raised h => exists_protocolError_of_rethrow h⟩
    have hread := ok_of_rethrow h
    split at hread
    · exact isValid_of_readClientFields hread
    · cases hread

/-! ### Where no coercion throws -/

end Untrusted

end Sone.Wire
