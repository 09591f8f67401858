import Sone.Formula.Evaluate
import Sone.Sync.Rooms
import Sone.Wire.Bytes
import Sone.Wire.Json
import Mathlib.Data.List.DropRight

/-!
# Two credentials under one key

A ticket carries a half-finished sign-in from the password to the code (`auth/secondFactor.ts`),
and a reply token is the address a notification is answered at (`mail/replyToken.ts`). Both are
a payload in base64url, a dot and the first letters of its HMAC under the key of the instance
(`Signing.withMac`), and a reader knows which of the two it has from nothing but how the payload
splits at `~`.

A reply token has five fields and `readReplyToken` insists on five; `readTicket` takes the first
two of however many there are. The ids of a thread and of a message are the client's to choose,
so a reply token reads as a ticket for whoever the thread is named after, unless the message is
named after a moment that is past (`ReadsAsTicket`). `keptApart_iff`: this, and another spelling
of a payload in base64url, are all that comes between what is read and what was signed.
-/

namespace Sone

open List Nat

/-- A `Date` from 1970 on, by its milliseconds. -/
structure Instant where
  ms : ℕ
  le : ms ≤ 8640000000000000
  deriving DecidableEq

/-- **What signing rests on** besides the language: HMAC-SHA256 under the key of the instance,
the characters of bytes that are no text, and the rounding of numbers, which leaves whole
numbers as they are while they are safe. -/
structure Signing where
  js : Js
  /-- `createHmac('sha256', secret).update(bytes).digest()` -/
  hmac : List UInt8 → List UInt8
  /-- `buffer.toString('utf8')`, of bytes that are no text. -/
  lossy : List UInt8 → String
  rounded : ℚ → JsNumber
  rounded_natural : ∀ n : ℕ, n ≤ maxSafeInteger → rounded n = .finite n

structure ReplyTarget where
  threadId : String
  messageId : String
  userId : String
  internal : Bool
  deriving DecidableEq

inductive ReadReply where
  | ok (target : ReplyTarget)
  | malformed
  | badSignature
  | expired
  deriving DecidableEq

/-- `token.slice(0, at)` and `token.slice(at + 1)` for `at = token.lastIndexOf('.')`, where that
is not below 1. -/
def splitAtDot (token : List Char) : Option (List Char × List Char) :=
  let before := (token.rdropWhile fun c => c ≠ '.').dropLast
  if before = [] then none else some (before, token.rtakeWhile fun c => c ≠ '.')

namespace Signing

variable (env : Signing)

/-! ### Signing -/

def sign (payload : List Char) : List Char :=
  (Base64.encode (env.hmac (utf8 (String.ofList payload)))).take 27

/-- A payload in base64url, a dot and what it is signed with. -/
def withMac (payload : List Char) : List Char :=
  Base64.encode (utf8 (String.ofList payload)) ++ '.' :: env.sign payload

/-- `Math.floor(now.getTime() / 1000)` and some seconds. -/
def secondsAfter (now : Instant) (seconds : ℕ) : ℕ := now.ms / 1000 + seconds

/-- `TICKET_MINUTES`, in seconds. -/
def ticketSeconds : ℕ := 5 * 60

/-- `REPLY_DAYS`, in seconds. -/
def replySeconds : ℕ := 14 * 86400

def ticketPayload (userId : String) (expires : ℕ) : List Char :=
  userId.toList ++ '~' :: Nat.toDigits 10 expires

/-- `payloadOf` -/
def replyPayload (target : ReplyTarget) (expiresAt : ℕ) : List Char :=
  target.threadId.toList ++ '~' :: (target.messageId.toList ++ '~' :: (target.userId.toList ++
    '~' :: ((if target.internal then 'i' else 'p') :: '~' :: Nat.toDigits 10 expiresAt)))

def signTicket (userId : String) (now : Instant) : List Char :=
  env.withMac (ticketPayload userId (secondsAfter now ticketSeconds))

def replyToken (target : ReplyTarget) (now : Instant) : List Char :=
  env.withMac (replyPayload target (secondsAfter now replySeconds))

/-! ### Reading -/

/-- `Buffer.from(text, 'base64url').toString('utf8')` -/
def payloadOf (text : List Char) : List Char :=
  ((ofUtf8 (Base64.decode text)).getD (env.lossy (Base64.decode text))).toList

/-- `Number(text)` -/
def number (text : List Char) : JsNumber :=
  if text.all Char.isDigit ∧ Nat.ofDigitChars 10 text 0 ≤ maxSafeInteger then
    .finite (Nat.ofDigitChars 10 text 0)
  else env.js.toNumber (.string (String.ofList text))

/-- `expires * 1000 <= now.getTime()` -/
def hasPassed (expires : JsNumber) (now : Instant) : Bool :=
  match expires.mul env.rounded (.finite 1000) with
  | .finite ms => ms ≤ now.ms
  | .nan => false
  | .infinity negative => negative

def readTicket (ticket : List Char) (now : Instant) : Option String :=
  match splitAtDot ticket with
  | none => none
  | some (text, given) =>
    if utf8 (String.ofList given) ≠ utf8 (String.ofList (env.sign (env.payloadOf text))) then none
    else match (env.payloadOf text).splitOn '~' with
      | userId :: expires :: _ =>
        if userId = [] ∨ expires = [] then none
        else if env.hasPassed (env.number expires) now then none
        else some (String.ofList userId)
      | _ => none

def readReplyToken (token : List Char) (now : Instant) : ReadReply :=
  match splitAtDot token with
  | none => .malformed
  | some (text, given) =>
    if utf8 (String.ofList given) ≠ utf8 (String.ofList (env.sign (env.payloadOf text))) then
      .badSignature
    else match (env.payloadOf text).splitOn '~' with
      | [threadId, messageId, userId, place, expiry] =>
        if (JsValue.number (env.number expiry)).finite? = none then .malformed
        else if env.hasPassed (env.number expiry) now then .expired
        else .ok {
          threadId := String.ofList threadId
          messageId := String.ofList messageId
          userId := String.ofList userId
          internal := place = ['i'] }
      | _ => .malformed

/-! ### What a token carries -/

variable {env} {token payload payload' : List Char} {now : Instant}

theorem utf8_ofList_inj {a b : List Char} :
    utf8 (String.ofList a) = utf8 (String.ofList b) ↔ a = b := by
  refine ⟨fun h => ?_, fun h => by rw [h]⟩
  have hsome : some (String.ofList a) = some (String.ofList b) := by
    rw [← ofUtf8_utf8, ← ofUtf8_utf8, h]
  exact String.ofList_injective (Option.some.inj hsome)

theorem splitAtDot_append {before after : List Char} (hbefore : before ≠ [])
    (hafter : '.' ∉ after) : splitAtDot (before ++ '.' :: after) = some (before, after) := by
  have hall : ∀ c ∈ after.reverse, decide (c ≠ '.') = true := fun c hc =>
    decide_eq_true fun h => hafter (h ▸ mem_reverse.mp hc)
  have hreverse : (before ++ '.' :: after).reverse = after.reverse ++ '.' :: before.reverse := by
    simp
  have hdrop : (before ++ '.' :: after).rdropWhile (fun c => c ≠ '.') = before ++ ['.'] := by
    rw [List.rdropWhile, hreverse, dropWhile_append_of_pos hall]
    simp
  have htake : (before ++ '.' :: after).rtakeWhile (fun c => c ≠ '.') = after := by
    rw [List.rtakeWhile, hreverse, takeWhile_append_of_pos hall]
    simp
  rw [splitAtDot, hdrop, htake, dropLast_concat, if_neg hbefore]

theorem dot_notMem_encode (bytes : List UInt8) : '.' ∉ Base64.encode bytes := by
  have hall : ∀ n < 64, Base64.letter n ≠ '.' := by
    decide +kernel
  intro h
  obtain ⟨n, hn, hletter⟩ := List.mem_map.mp h
  exact hall n (Base64.lt_of_mem_sextets bytes n hn) hletter

theorem payloadOf_encode (payload : List Char) :
    env.payloadOf (Base64.encode (utf8 (String.ofList payload))) = payload := by
  rw [payloadOf, Base64.decode_encode, ofUtf8_utf8]
  simp

variable (env) in
/-- A token **carries** a payload: it is signed with what the payload is signed with. -/
def Carries (token payload : List Char) : Prop :=
  ∃ text, splitAtDot token = some (text, env.sign payload) ∧ env.payloadOf text = payload

theorem Carries.unique (h : env.Carries token payload) (h' : env.Carries token payload') :
    payload = payload' := by
  obtain ⟨text, hsplit, rfl⟩ := h
  obtain ⟨text', hsplit', rfl⟩ := h'
  rw [hsplit] at hsplit'
  cases hsplit'
  rfl

theorem carries_withMac (h : payload ≠ []) : env.Carries (env.withMac payload) payload := by
  refine ⟨_, splitAtDot_append (fun hempty => h ?_) fun hdot => ?_, payloadOf_encode payload⟩
  · have hpayload := @payloadOf_encode env payload
    rw [hempty] at hpayload
    rw [← hpayload]
    rfl
  · exact dot_notMem_encode _ (mem_of_mem_take hdot)

/-- **A ticket is read** where it carries a payload whose first two fields are a user and a
moment that has not passed. -/
theorem readTicket_eq_some_iff {userId : String} :
    env.readTicket token now = some userId ↔ ∃ payload, env.Carries token payload ∧
      ∃ first second rest, payload.splitOn '~' = first :: second :: rest ∧ first ≠ [] ∧
        second ≠ [] ∧ env.hasPassed (env.number second) now = false ∧
          userId = String.ofList first := by
  constructor
  · intro h
    unfold readTicket at h
    split at h
    · cases h
    · rename_i text given hsplit
      split_ifs at h with hgiven
      split at h
      · rename_i first second rest hfields
        split_ifs at h with hempty hpassed
        obtain ⟨hfirst, hsecond⟩ := not_or.mp hempty
        rw [ne_eq, not_not, utf8_ofList_inj] at hgiven
        exact ⟨_, ⟨text, by rw [hsplit, hgiven], rfl⟩, first, second, rest, hfields, hfirst,
          hsecond, Bool.not_eq_true _ ▸ hpassed, (Option.some.inj h).symm⟩
      · cases h
  · rintro ⟨_, ⟨text, hsplit, rfl⟩, first, second, rest, hfields, hfirst, hsecond, hpassed, rfl⟩
    rw [readTicket, hsplit]
    simp [hfields, hfirst, hsecond, hpassed]

/-- **A reply token is read** where it carries a payload of five fields, the last a moment that
has not passed. -/
theorem readReplyToken_eq_ok_iff {target : ReplyTarget} :
    env.readReplyToken token now = .ok target ↔ ∃ payload, env.Carries token payload ∧
      ∃ place expiry, payload.splitOn '~' =
          [target.threadId.toList, target.messageId.toList, target.userId.toList, place, expiry] ∧
        (JsValue.number (env.number expiry)).finite? ≠ none ∧
          env.hasPassed (env.number expiry) now = false ∧
            target.internal = decide (place = ['i']) := by
  constructor
  · intro h
    unfold readReplyToken at h
    split at h
    · cases h
    · rename_i text given hsplit
      split_ifs at h with hgiven
      split at h
      · rename_i threadId messageId userId place expiry hfields
        split_ifs at h with hfinite hpassed
        cases h
        rw [ne_eq, not_not, utf8_ofList_inj] at hgiven
        exact ⟨_, ⟨text, by rw [hsplit, hgiven], rfl⟩, place, expiry, by simp [hfields], hfinite,
          Bool.not_eq_true _ ▸ hpassed, rfl⟩
      · cases h
  · rintro ⟨_, ⟨text, hsplit, rfl⟩, place, expiry, hfields, hfinite, hpassed, hinternal⟩
    rw [readReplyToken, hsplit]
    simp [hfields, hfinite, hpassed, ← hinternal]

/-! ### Fields -/

theorem number_toDigits {n : ℕ} (hn : n ≤ maxSafeInteger) :
    env.number (Nat.toDigits 10 n) = .finite n := by
  have hdigits : (Nat.toDigits 10 n).all Char.isDigit = true :=
    List.all_eq_true.mpr fun c hc => isDigit_of_mem_toDigits (by decide) (by decide) hc
  rw [number, if_pos ⟨hdigits, by rwa [ofDigitChars_ten_toDigits]⟩,
    ofDigitChars_ten_toDigits]

theorem secondsAfter_le {seconds : ℕ} (h : seconds ≤ replySeconds) :
    secondsAfter now seconds * 1000 ≤ maxSafeInteger := by
  have hnow := now.le
  simp only [secondsAfter, replySeconds, maxSafeInteger] at h ⊢
  omega

theorem hasPassed_toDigits {seconds : ℕ} {issued : Instant} (h : seconds ≤ replySeconds) :
    env.hasPassed (env.number (Nat.toDigits 10 (secondsAfter issued seconds))) now =
      decide (secondsAfter issued seconds * 1000 ≤ now.ms) := by
  have hsafe := @secondsAfter_le issued _ h
  have hround : env.rounded ((secondsAfter issued seconds : ℚ) * 1000) =
      .finite ((secondsAfter issued seconds * 1000 : ℕ) : ℚ) := by
    rw [← env.rounded_natural _ hsafe]
    push_cast
    rfl
  rw [number_toDigits (by omega), hasPassed, JsNumber.mul, hround]
  simp only [cast_le]

theorem lt_of_not_hasPassed {seconds : ℕ} {issued : Instant}
    (h : ¬ secondsAfter issued seconds * 1000 ≤ now.ms) : now.ms < issued.ms + seconds * 1000 := by
  simp only [secondsAfter] at h
  omega

theorem tilde_notMem_toDigits (n : ℕ) : '~' ∉ Nat.toDigits 10 n := fun h => by
  have hdigit : ('~').isDigit = true := isDigit_of_mem_toDigits (by decide) (by decide) h
  revert hdigit
  decide

theorem tilde_notMem_of_isUuidText {s : String} (h : isUuidText s = true) :
    '~' ∉ s.toList ∧ s.toList ≠ [] := by
  refine ⟨fun hmem => ?_, fun hnil => ?_⟩
  · rcases mem_of_isUuidText h _ hmem with hhex | hdash
    · revert hhex
      decide
    · revert hdash
      decide
  · rw [isUuidText, hnil] at h
    revert h
    decide

theorem splitOn_ticketPayload {userId : String} (h : '~' ∉ userId.toList) (expires : ℕ) :
    (ticketPayload userId expires).splitOn '~' = [userId.toList, Nat.toDigits 10 expires] := by
  rw [ticketPayload, splitOn_append_cons_self, splitOn_eq_singleton h,
    splitOn_eq_singleton (tilde_notMem_toDigits expires), singleton_append]

/-- The two ids a client chose, as they stand in the payload of a reply token. -/
def chosenIds (target : ReplyTarget) : List Char :=
  target.threadId.toList ++ '~' :: target.messageId.toList

theorem splitOn_replyPayload (target : ReplyTarget) (expiresAt : ℕ) :
    (replyPayload target expiresAt).splitOn '~' = (chosenIds target).splitOn '~' ++
      (target.userId.toList.splitOn '~' ++ [[if target.internal then 'i' else 'p'],
        Nat.toDigits 10 expiresAt]) := by
  have hplace : '~' ∉ [if target.internal then 'i' else 'p'] := by
    cases target.internal <;> decide
  rw [replyPayload, chosenIds, splitOn_append_cons_self, splitOn_append_cons_self,
    splitOn_append_cons_self, splitOn_append_cons_self,
    ← @singleton_append _ _ ('~' :: _), splitOn_append_cons_self,
    splitOn_eq_singleton hplace, splitOn_eq_singleton (tilde_notMem_toDigits expiresAt)]
  simp

theorem notMem_of_length_splitOn {cs : List Char} (h : (cs.splitOn '~').length = 1) :
    '~' ∉ cs := by
  intro hmem
  obtain ⟨before, after, rfl⟩ := append_of_mem hmem
  have hbefore := length_pos_of_ne_nil (splitOn_ne_nil '~' before)
  have hafter := length_pos_of_ne_nil (splitOn_ne_nil '~' after)
  rw [splitOn_append_cons_self, length_append] at h
  omega

variable {target : ReplyTarget} {issued : Instant}

/-- Whether the ids a client chose have no separator in them. -/
def PlainIds (target : ReplyTarget) : Prop :=
  '~' ∉ target.threadId.toList ∧ '~' ∉ target.messageId.toList

variable (env) in
/-- Whether the ids a client chose **read as a ticket**: the first two fields of them are not
empty, and the second is no number of seconds that has passed. -/
def ReadsAsTicket (target : ReplyTarget) (now : Instant) : Prop :=
  ∃ first second rest, (chosenIds target).splitOn '~' = first :: second :: rest ∧
    first ≠ [] ∧ second ≠ [] ∧ env.hasPassed (env.number second) now = false

theorem fields_replyPayload (target : ReplyTarget) (expiresAt : ℕ) :
    (∃ first second rest, (replyPayload target expiresAt).splitOn '~' = first :: second :: rest ∧
      first ≠ [] ∧ second ≠ [] ∧ env.hasPassed (env.number second) now = false) ↔
        env.ReadsAsTicket target now := by
  have htwo : ∃ first second rest, (chosenIds target).splitOn '~' = first :: second :: rest := by
    obtain ⟨first, more, hfirst⟩ :=
      exists_cons_of_ne_nil (splitOn_ne_nil '~' target.threadId.toList)
    obtain ⟨other, others, hother⟩ :=
      exists_cons_of_ne_nil (splitOn_ne_nil '~' target.messageId.toList)
    rw [chosenIds, splitOn_append_cons_self, hfirst, hother]
    cases more with
    | nil => exact ⟨first, other, others, rfl⟩
    | cons second more => exact ⟨first, second, more ++ other :: others, rfl⟩
  obtain ⟨first, second, rest, hchosen⟩ := htwo
  rw [ReadsAsTicket, splitOn_replyPayload, hchosen]
  constructor
  · rintro ⟨_, _, _, hfields, h⟩
    cases hfields
    exact ⟨first, second, rest, rfl, h⟩
  · rintro ⟨_, _, _, hfields, h⟩
    cases hfields
    exact ⟨first, second, _, rfl, h⟩

/-- **Five fields** are what the payload of a reply token has where the ids have no separator,
and then they are what it was made of. -/
theorem five_fields_replyPayload (target : ReplyTarget) (expiresAt : ℕ) {a b c d e : List Char} :
    (replyPayload target expiresAt).splitOn '~' = [a, b, c, d, e] ↔
      PlainIds target ∧ '~' ∉ target.userId.toList ∧
        a = target.threadId.toList ∧ b = target.messageId.toList ∧ c = target.userId.toList ∧
          d = [if target.internal then 'i' else 'p'] ∧ e = Nat.toDigits 10 expiresAt := by
  rw [splitOn_replyPayload]
  constructor
  · intro hfields
    have hlength := congrArg List.length hfields
    have hthread := length_pos_of_ne_nil (splitOn_ne_nil '~' target.threadId.toList)
    have hmessage := length_pos_of_ne_nil (splitOn_ne_nil '~' target.messageId.toList)
    have huser := length_pos_of_ne_nil (splitOn_ne_nil '~' target.userId.toList)
    rw [chosenIds, splitOn_append_cons_self] at hfields hlength
    simp only [length_append, length_cons, length_nil] at hlength
    have hplain : PlainIds target := ⟨notMem_of_length_splitOn (by omega),
      notMem_of_length_splitOn (by omega)⟩
    have htilde : '~' ∉ target.userId.toList := notMem_of_length_splitOn (by omega)
    rw [splitOn_eq_singleton hplain.1, splitOn_eq_singleton hplain.2,
      splitOn_eq_singleton htilde] at hfields
    simp only [cons_append, nil_append, List.cons.injEq, and_true] at hfields
    obtain ⟨rfl, rfl, rfl, rfl, rfl⟩ := hfields
    exact ⟨hplain, htilde, rfl, rfl, rfl, rfl, rfl⟩
  · rintro ⟨hplain, htilde, rfl, rfl, rfl, rfl, rfl⟩
    rw [chosenIds, splitOn_append_cons_self, splitOn_eq_singleton hplain.1,
      splitOn_eq_singleton hplain.2, splitOn_eq_singleton htilde]
    rfl

/-! ### Reading what was signed -/

theorem readTicket_of_ticket {userId user : String} (h : isUuidText userId = true)
    (hcarries : env.Carries token (ticketPayload userId (secondsAfter issued ticketSeconds))) :
    env.readTicket token now = some user ↔
      user = userId ∧ ¬ secondsAfter issued ticketSeconds * 1000 ≤ now.ms := by
  have huser := tilde_notMem_of_isUuidText h
  have hdigits : Nat.toDigits 10 (secondsAfter issued ticketSeconds) ≠ [] := toDigits_ne_nil
  rw [readTicket_eq_some_iff]
  constructor
  · rintro ⟨payload, hpayload, first, second, rest, hfields, -, -, hpassed, rfl⟩
    rw [hpayload.unique hcarries, splitOn_ticketPayload huser.1] at hfields
    cases hfields
    rw [hasPassed_toDigits (by decide)] at hpassed
    exact ⟨String.ofList_toList, of_decide_eq_false hpassed⟩
  · rintro ⟨rfl, hpassed⟩
    exact ⟨_, hcarries, _, _, _, splitOn_ticketPayload huser.1 _, huser.2, hdigits,
      (hasPassed_toDigits (by decide)).trans (decide_eq_false hpassed), String.ofList_toList.symm⟩

theorem readReplyToken_of_ticket {userId : String} (h : isUuidText userId = true)
    (hcarries : env.Carries token (ticketPayload userId (secondsAfter issued ticketSeconds))) :
    env.readReplyToken token now ≠ .ok target := by
  intro hread
  obtain ⟨payload, hpayload, place, expiry, hfields, -⟩ := readReplyToken_eq_ok_iff.mp hread
  rw [hpayload.unique hcarries, splitOn_ticketPayload (tilde_notMem_of_isUuidText h).1] at hfields
  exact absurd (congrArg List.length hfields) (by decide : ¬ 2 = 5)

/-- **A reply token is read as a ticket** where the ids in it read as one. -/
theorem readTicket_of_reply
    (hcarries : env.Carries token (replyPayload target (secondsAfter issued replySeconds))) :
    (∃ user, env.readTicket token now = some user) ↔ env.ReadsAsTicket target now := by
  rw [← fields_replyPayload target (secondsAfter issued replySeconds)]
  constructor
  · rintro ⟨user, hread⟩
    obtain ⟨payload, hpayload, first, second, rest, hfields, hfirst, hsecond, hpassed, -⟩ :=
      readTicket_eq_some_iff.mp hread
    rw [hpayload.unique hcarries] at hfields
    exact ⟨first, second, rest, hfields, hfirst, hsecond, hpassed⟩
  · rintro ⟨first, second, rest, hfields, hfirst, hsecond, hpassed⟩
    exact ⟨_, readTicket_eq_some_iff.mpr
      ⟨_, hcarries, first, second, rest, hfields, hfirst, hsecond, hpassed, rfl⟩⟩

theorem readReplyToken_of_reply {read : ReplyTarget}
    (hcarries : env.Carries token (replyPayload target (secondsAfter issued replySeconds))) :
    env.readReplyToken token now = .ok read ↔ read = target ∧
      (PlainIds target ∧ '~' ∉ target.userId.toList) ∧
        ¬ secondsAfter issued replySeconds * 1000 ≤ now.ms := by
  have hplace : target.internal = decide ([if target.internal then 'i' else 'p'] = ['i']) := by
    cases target.internal <;> decide
  have hsafe := @secondsAfter_le issued _ (le_refl replySeconds)
  rw [readReplyToken_eq_ok_iff]
  constructor
  · rintro ⟨payload, hpayload, place, expiry, hfields, -, hpassed, hinternal⟩
    rw [hpayload.unique hcarries, five_fields_replyPayload] at hfields
    obtain ⟨hplain, htilde, hthread, hmessage, huser, rfl, rfl⟩ := hfields
    rw [hasPassed_toDigits (le_refl _)] at hpassed
    refine ⟨?_, ⟨hplain, htilde⟩, of_decide_eq_false hpassed⟩
    cases read
    cases target
    simp only [String.toList_inj] at hthread hmessage huser
    simp only at hinternal hplace
    rw [hthread, hmessage, huser, hinternal, ← hplace]
  · rintro ⟨rfl, ⟨hplain, htilde⟩, hpassed⟩
    refine ⟨_, hcarries, _, _, (five_fields_replyPayload read _).mpr
      ⟨hplain, htilde, rfl, rfl, rfl, rfl, rfl⟩, ?_,
      (hasPassed_toDigits (le_refl _)).trans (decide_eq_false hpassed), hplace⟩
    rw [number_toDigits (by omega)]
    exact Option.some_ne_none _

/-! ### Histories -/

/-- A call of `signTicket` or of `replyToken`. The accounts have uuids. -/
inductive Issue where
  | ticket (userId : String) (isUser : isUuidText userId = true) (issued : Instant)
  | reply (target : ReplyTarget) (isUser : isUuidText target.userId = true) (issued : Instant)

def Issue.signed : Issue → List Char
  | ticket userId _ issued => ticketPayload userId (secondsAfter issued ticketSeconds)
  | reply target _ issued => replyPayload target (secondsAfter issued replySeconds)

variable (env) (token) (now) (history : List Issue)

/-- **HMAC-SHA256 is unforgeable**: what a presented token carries was signed by some call. -/
def Unforged : Prop :=
  ∀ payload, env.Carries token payload → ∃ issue ∈ history, issue.signed = payload

/-- **The credentials are kept apart**: what is read as a ticket is one that was signed for the
user it is read as, in the five minutes after that; and what is read as a reply token is one, in
its fourteen days. -/
def KeptApart : Prop :=
  (∀ user, env.readTicket token now = some user → ∃ isUser issued,
    .ticket user isUser issued ∈ history ∧ token = env.signTicket user issued ∧
      now.ms < issued.ms + 5 * 60 * 1000) ∧
  ∀ target, env.readReplyToken token now = .ok target → ∃ isUser issued,
    .reply target isUser issued ∈ history ∧ token = env.replyToken target issued ∧
      now.ms < issued.ms + 14 * 86400 * 1000

/-- What keeps a token that carries what a call signed from being taken for something else: it
has ended, or it is spelled as it was signed; and the ids in a reply token do not read as a
ticket. -/
def Issue.Holds : Issue → Prop
  | ticket userId _ issued =>
    token = env.signTicket userId issued ∨ secondsAfter issued ticketSeconds * 1000 ≤ now.ms
  | reply target _ issued =>
    ¬ env.ReadsAsTicket target now ∧ (PlainIds target → token = env.replyToken target issued ∨
      secondsAfter issued replySeconds * 1000 ≤ now.ms)

variable {env history token now}

theorem Issue.signed_ne_nil (issue : Issue) : issue.signed ≠ [] := by
  cases issue with
  | ticket userId isUser issued => simp [Issue.signed, ticketPayload]
  | reply target isUser issued => simp [Issue.signed, replyPayload]

theorem ticketPayload_ne_replyPayload {userId : String} (huser : isUuidText userId = true)
    (target : ReplyTarget) (m n : ℕ) :
    ticketPayload userId m ≠ replyPayload target n := by
  intro h
  have hlength := congrArg (fun payload => (payload.splitOn '~').length) h
  have hchosen := length_pos_of_ne_nil (splitOn_ne_nil '~' (chosenIds target))
  simp only [splitOn_ticketPayload (tilde_notMem_of_isUuidText huser).1, splitOn_replyPayload,
    length_append, length_cons, length_nil] at hlength
  omega

/-- **Exactly when the credentials are kept apart.** Every token that carries what was signed is
spelled as it was signed until it ends, and the ids a client chose do not read as a ticket. -/
theorem keptApart_iff (hunforged : env.Unforged token history) :
    env.KeptApart token now history ↔
      ∀ issue ∈ history, env.Carries token issue.signed → issue.Holds env token now := by
  have hcarries : ∀ {payload}, token = env.withMac payload → payload ≠ [] →
      env.Carries token payload := fun h hne => h ▸ carries_withMac hne
  constructor
  · rintro ⟨hticket, hreply⟩ issue hmem hcarried
    cases issue with
    | ticket userId isUser issued =>
      refine or_iff_not_imp_right.mpr fun hlive => ?_
      obtain ⟨isUser', issued', -, htoken, -⟩ :=
        hticket userId ((readTicket_of_ticket isUser hcarried).mpr ⟨rfl, hlive⟩)
      have hpayload := hcarried.unique
        (hcarries htoken (Issue.signed_ne_nil (.ticket userId isUser' issued')))
      rw [htoken, signTicket, signTicket, ← hpayload]
      rfl
    | reply target isUser issued =>
      refine ⟨fun hreads => ?_, fun hplain => or_iff_not_imp_right.mpr fun hlive => ?_⟩
      · obtain ⟨user, hread⟩ := (readTicket_of_reply hcarried).mpr hreads
        obtain ⟨isUser', issued', -, htoken, -⟩ := hticket user hread
        have hpayload := hcarried.unique
          (hcarries htoken (Issue.signed_ne_nil (.ticket user isUser' issued')))
        exact ticketPayload_ne_replyPayload isUser' target _ _ hpayload.symm
      · obtain ⟨isUser', issued', -, htoken, -⟩ :=
          hreply target ((readReplyToken_of_reply hcarried).mpr
            ⟨rfl, ⟨hplain, (tilde_notMem_of_isUuidText isUser).1⟩, hlive⟩)
        have hpayload := hcarried.unique
          (hcarries htoken (Issue.signed_ne_nil (.reply target isUser' issued')))
        rw [htoken, replyToken, replyToken, ← hpayload]
        rfl
  · intro hholds
    refine ⟨fun user hread => ?_, fun target hread => ?_⟩
    · obtain ⟨_, hcarried, -⟩ := readTicket_eq_some_iff.mp hread
      obtain ⟨issue, hmem, rfl⟩ := hunforged _ hcarried
      have hissue := hholds issue hmem hcarried
      cases issue with
      | ticket userId isUser issued =>
        obtain ⟨rfl, hlive⟩ := (readTicket_of_ticket isUser hcarried).mp hread
        exact ⟨isUser, issued, hmem, hissue.resolve_right hlive, lt_of_not_hasPassed hlive⟩
      | reply target isUser issued =>
        exact absurd ((readTicket_of_reply hcarried).mp ⟨user, hread⟩) hissue.1
    · obtain ⟨_, hcarried, -⟩ := readReplyToken_eq_ok_iff.mp hread
      obtain ⟨issue, hmem, rfl⟩ := hunforged _ hcarried
      have hissue := hholds issue hmem hcarried
      cases issue with
      | ticket userId isUser issued =>
        exact absurd hread (readReplyToken_of_ticket isUser hcarried)
      | reply target' isUser issued =>
        obtain ⟨rfl, ⟨hplain, -⟩, hlive⟩ := (readReplyToken_of_reply hcarried).mp hread
        exact ⟨isUser, issued, hmem, (hissue.2 hplain).resolve_right hlive,
          lt_of_not_hasPassed hlive⟩

/-! ### A thread named after an account -/

/-- Signing under the key `0123456789abcdef0123456789abcdef`, of one ticket and one reply
token. -/
def sample : Signing where
  js := .ascii
  hmac := fun bytes =>
    if bytes = utf8 ("00000000-0000-4000-8000-000000000001~soon~" ++
        "00000000-0000-4000-8000-000000000002~p~1768435200") then
      [89, 216, 58, 131, 44, 227, 89, 125, 34, 129, 79, 77, 80, 179, 54, 55, 106, 73, 186, 175,
        188, 225, 67, 24, 126, 109, 197, 74, 158, 108, 3, 33]
    else if bytes = utf8 "00000000-0000-4000-8000-000000000001~1767225900" then
      [179, 246, 143, 6, 156, 84, 204, 90, 208, 184, 142, 254, 26, 184, 12, 121, 125, 81, 76,
        25, 254, 57, 94, 117, 161, 19, 217, 2, 117, 148, 110, 192]
    else []
  lossy := fun _ => "\uFFFD"
  rounded := .finite
  rounded_natural := fun _ _ => rfl

def newYear : Instant := ⟨1767225600000, by decide⟩

/-- The address of a notification for `…2`, in a thread a client named `…1` and of a message it
named `soon`. -/
def namedThread : ReplyTarget where
  threadId := "00000000-0000-4000-8000-000000000001"
  messageId := "soon"
  userId := "00000000-0000-4000-8000-000000000002"
  internal := false

/-- **A reply token is taken for a ticket**, of the account the thread is named after. -/
theorem replyToken_taken_for_ticket :
    ¬ ∀ (env : Signing) (token : List Char) (now : Instant) (history : List Issue),
      env.Unforged token history → env.KeptApart token now history := by
  intro h
  have hcarried := @carries_withMac sample _
    (Issue.signed_ne_nil (.reply namedThread (by decide) newYear))
  have hreads : sample.ReadsAsTicket namedThread newYear :=
    ⟨namedThread.threadId.toList, namedThread.messageId.toList, [], by decide +kernel,
      by decide +kernel, by decide +kernel, by decide +kernel⟩
  obtain ⟨user, hread⟩ := (readTicket_of_reply hcarried).mpr hreads
  have hunforged : sample.Unforged (sample.replyToken namedThread newYear)
      [.reply namedThread (by decide) newYear] := fun payload hpayload =>
    ⟨_, mem_singleton_self _, hcarried.unique hpayload⟩
  obtain ⟨isUser, issued, hmem, -⟩ := (h sample _ newYear _ hunforged).1 user hread
  cases mem_singleton.mp hmem

/-- The hypothesis can be met: a ticket is presented as it was signed. -/
theorem keptApart_iff_ticket :
    sample.KeptApart (sample.signTicket "00000000-0000-4000-8000-000000000001" newYear) newYear
      [.ticket "00000000-0000-4000-8000-000000000001" (by decide) newYear] := by
  have hcarried := @carries_withMac sample _ (Issue.signed_ne_nil
    (.ticket "00000000-0000-4000-8000-000000000001" (by decide) newYear))
  refine (keptApart_iff fun payload hpayload =>
    ⟨_, mem_singleton_self _, hcarried.unique hpayload⟩).mpr fun issue hmem _ => ?_
  cases mem_singleton.mp hmem
  exact .inl rfl

end Signing

end Sone
