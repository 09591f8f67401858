import Sone.Doc.BlockProps
import Sone.Formula.Evaluate
import Sone.Wire.Bytes

/-!
# What an identity provider says

`verifyIdToken` (`auth/oidcToken.ts`) gives the claims of a token or throws. What the signature is
checked with, the rounding of numbers and `Buffer.from` of what is no text are `TokenEnv`.

The header and the payload are JSON of any shape. A header that is `null`, an `alg` that has no
text because it brings a `toString` of its own (`NoText`) and a payload that is `null` throw, and
not a `TokenError`; so may a nonce that is no text, unless its bytes are those of the nonce that
was sent, and then it is taken for it. `meets_iff_readable`: there is nothing else. Wherever none of
this is met, claims are given only of a token that holds in every respect (`Holds`), and
everything else is a `TokenError`.
-/

namespace Sone

open Option List

/-! ### Numbers -/

namespace JsNumber

/-- `a < b` -/
def lt (a b : JsNumber) : Bool := a ≠ nan && b ≠ nan && a.below b

/-- `Math.floor(a)` -/
def floor : JsNumber → JsNumber
  | finite a => finite ⌊a⌋
  | a => a

end JsNumber

namespace IdToken

/-! ### Text of a value -/

mutual

/-- A value as the key of a property. An object with a `toString` of its own has none, as nothing
in JSON can be called: this throws. -/
def keyText (js : Js) : JsValue → Option String
  | .undefined => some "undefined"
  | .null => some "null"
  | .boolean b => some (if b then "true" else "false")
  | .number n => some (js.toText (.number n))
  | .string s => some s
  | .array items => (itemTexts js items).map (JsString.join ",")
  | .object fields =>
    if (BlockTree.ownProp (.object fields) "toString").isSome then none
    else some "[object Object]"

/-- The items of a list, as `join` writes them. -/
def itemTexts (js : Js) : List JsValue → Option (List String)
  | [] => some []
  | item :: items => do
    let text ← if item.isNullish then some "" else keyText js item
    let texts ← itemTexts js items
    some (text :: texts)

end

/-- **A value has no text**: it is, or has in it, an object with a `toString` of its own. -/
inductive NoText : JsValue → Prop
  | object {fields : List (String × JsValue)}
      (h : (BlockTree.ownProp (.object fields) "toString").isSome = true) : NoText (.object fields)
  | array {items : List JsValue} {item : JsValue} (hitem : item ∈ items) (h : NoText item) :
      NoText (.array items)

theorem noText_array_iff {items : List JsValue} :
    NoText (.array items) ↔ ∃ item ∈ items, NoText item := by
  constructor
  · rintro ⟨⟩
    exact ⟨_, ‹_›, ‹_›⟩
  · rintro ⟨item, hitem, h⟩
    exact .array hitem h

theorem not_noText_of_isNullish {value : JsValue} (h : value.isNullish = true) :
    ¬NoText value := by
  rintro ⟨⟩ <;> cases h

mutual

theorem keyText_eq_none_iff (js : Js) : ∀ value : JsValue, keyText js value = none ↔ NoText value
  | .undefined | .null | .boolean _ | .number _ | .string _ =>
    iff_of_false (by simp [keyText]) (by rintro ⟨⟩)
  | .array items => by
    rw [keyText, map_eq_none_iff, itemTexts_eq_none_iff js items, noText_array_iff]
  | .object fields => by
    rw [keyText]
    refine ⟨fun h => .object ?_, ?_⟩
    · by_contra hown
      rw [if_neg hown] at h
      cases h
    · rintro ⟨hown⟩
      rw [if_pos hown]

theorem itemTexts_eq_none_iff (js : Js) :
    ∀ items : List JsValue, itemTexts js items = none ↔ ∃ item ∈ items, NoText item
  | [] => by simp [itemTexts]
  | item :: items => by
    have hitem := keyText_eq_none_iff js item
    have hitems := itemTexts_eq_none_iff js items
    rw [exists_mem_cons_iff, ← hitems, ← hitem, itemTexts]
    -- what is nullish has the empty text in a list, and is not asked for its own
    by_cases hnull : item.isNullish = true
    · have hsome : keyText js item ≠ none := fun h =>
        not_noText_of_isNullish hnull (hitem.mp h)
      cases htexts : itemTexts js items <;> simp [hnull, hsome]
    · cases htext : keyText js item <;> cases htexts : itemTexts js items <;> simp [hnull]

end

/-! ### A token and what it is checked against -/

structure Jwk where
  kty : String
  kid : Option String := none
  alg : Option String := none
  use : Option String := none
  n : Option String := none
  e : Option String := none
  crv : Option String := none
  x : Option String := none
  y : Option String := none
  deriving DecidableEq

/-- `VerifyOptions`. The time is that of `options.now`, or else of `Date.now`. -/
structure VerifyOptions where
  issuer : String
  clientId : String
  nonce : String
  keys : List Jwk
  clockSkewSeconds : Option JsNumber := none
  now : JsNumber

/-- What is thrown: a `TokenError`, or something else. -/
inductive Thrown where
  | tokenError (code : String)
  | other
  deriving DecidableEq

/-- An entry of `ALGORITHMS`. What is found there by a name that every object has from
`Object.prototype` has no `hash`. -/
structure Algorithm where
  hash : Option String
  format : Option String
  deriving DecidableEq

/-- `ALGORITHMS` -/
def algorithms : List (String × Algorithm) :=
  [("RS256", ⟨some "sha256", none⟩), ("RS384", ⟨some "sha384", none⟩),
    ("RS512", ⟨some "sha512", none⟩), ("ES256", ⟨some "sha256", some "ieee-p1363"⟩),
    ("ES384", ⟨some "sha384", some "ieee-p1363"⟩)]

/-- `ALGORITHMS[key]` -/
def algorithmOf (key : String) : Option Algorithm :=
  (algorithms.lookup key).or (if key ∈ BlockTree.inheritedKeys then some ⟨none, none⟩ else none)

/-- **What checking rests on** besides what is modelled. -/
structure TokenEnv where
  js : Js
  rounded : ℚ → JsNumber
  /-- Whether a signature of some bytes verifies under a key, with a hash and a format, where
  neither the key nor the verifier throws. -/
  verifies : Jwk → String → Option String → List UInt8 → List UInt8 → Option Bool
  /-- `Buffer.from(value, 'utf8')` of what is no text, where it does not throw. -/
  bufferFrom : JsValue → Option (List UInt8)

/-- A token whose first two segments are JSON. -/
structure ParsedToken where
  headerPart : List Char
  payloadPart : List Char
  signaturePart : List Char
  header : JsValue
  claims : JsValue

def decodeSegment (segment : List Char) : List UInt8 :=
  Base64.decode (segment.map fun c => if c = '-' then '+' else if c = '_' then '/' else c)

/-- What is signed: the first two segments and the dot between them. -/
def ParsedToken.signed (parsed : ParsedToken) : List UInt8 :=
  utf8 (String.ofList (parsed.headerPart ++ '.' :: parsed.payloadPart))

/-- The bytes of the third segment. -/
def ParsedToken.signature (parsed : ParsedToken) : List UInt8 := decodeSegment parsed.signaturePart

/-- `options.keys`, those of the `kid` of a header where it has one. -/
def candidates (header : JsValue) (options : VerifyOptions) : List Jwk :=
  if (header.get "kid").truthy then
    options.keys.filter fun jwk => jwk.kid.isSome && jwk.kid = (header.get "kid").string?
  else options.keys

/-- `claims.aud`, as a list. -/
def audiences (claims : JsValue) : List JsValue :=
  match claims.get "aud" with
  | .array items => items
  | aud => [aud]

/-- `values.includes(text)` -/
def includes (values : List JsValue) (text : String) : Bool :=
  values.any fun value => value.string? = some text

namespace VerifyOptions

variable (options : VerifyOptions)

/-- `options.clockSkewSeconds ?? 60` -/
def skew : JsNumber := options.clockSkewSeconds.getD (.finite 60)

def nowSeconds (rounded : ℚ → JsNumber) : JsNumber :=
  (options.now.div rounded (.finite 1000)).floor

end VerifyOptions

namespace TokenEnv

variable (env : TokenEnv)

/-- `JSON.parse(decodeSegment(segment).toString('utf8'))`, where it does not throw. -/
def parseSegment (segment : List Char) : Option JsValue :=
  Json.parse env.js (toStringUtf8 (decodeSegment segment)).toList

/-- The segments of a token, where there are three and the first two are JSON. -/
def parseToken (token : String) : Option ParsedToken :=
  match token.toList.splitOn '.' with
  | [headerPart, payloadPart, signaturePart] => do
    let header ← env.parseSegment headerPart
    let claims ← env.parseSegment payloadPart
    some ⟨headerPart, payloadPart, signaturePart, header, claims⟩
  | _ => none

/-- `header.alg ?? ''`, as the key it is looked up by. -/
def algorithmKey (header : JsValue) : Option String :=
  if header.isNullish then none
  else if (header.get "alg").isNullish then some ""
  else keyText env.js (header.get "alg")

/-- Whether a key verifies a signature. What throws does not. -/
def accepts (algorithm : Algorithm) (parsed : ParsedToken) (jwk : Jwk) : Bool :=
  match algorithm.hash with
  | none => false
  | some hash =>
    (env.verifies jwk hash algorithm.format parsed.signed parsed.signature).getD false

/-- `typeof claims.exp !== 'number' || claims.exp + skew < now` -/
def expired (options : VerifyOptions) (claims : JsValue) : Bool :=
  match (claims.get "exp").number? with
  | none => true
  | some exp => (exp.add env.rounded options.skew).lt (options.nowSeconds env.rounded)

/-- `typeof claims.iat === 'number' && claims.iat - skew > now` -/
def issuedInTheFuture (options : VerifyOptions) (claims : JsValue) : Bool :=
  match (claims.get "iat").number? with
  | none => false
  | some iat => (options.nowSeconds env.rounded).lt (iat.sub env.rounded options.skew)

/-- `equal(value, nonce)`, where it does not throw. -/
def equal (value : JsValue) (nonce : String) : Option Bool :=
  let left := match value with
    | .string s => some (utf8 s)
    | value => env.bufferFrom value
  left.map fun left => left.length = (utf8 nonce).length && left = utf8 nonce

/-- What `verifyIdToken` does from the nonce on. -/
def checkNonce (options : VerifyOptions) (claims : JsValue) : Except Thrown JsValue :=
  if !(claims.get "nonce").truthy then .error (.tokenError "wrong_nonce")
  else match env.equal (claims.get "nonce") options.nonce with
    | none => .error .other
    | some false => .error (.tokenError "wrong_nonce")
    | some true =>
      if ((claims.get "sub").string?.getD "") = "" then .error (.tokenError "missing_subject")
      else .ok claims

/-- What `verifyIdToken` does from the claims on. -/
def checkClaims (options : VerifyOptions) (claims : JsValue) : Except Thrown JsValue :=
  if claims.isNullish then .error .other
  else if (claims.get "iss").string? ≠ some options.issuer then
    .error (.tokenError "wrong_issuer")
  else if !includes (audiences claims) options.clientId then
    .error (.tokenError "wrong_audience")
  else if env.expired options claims then .error (.tokenError "expired")
  else if env.issuedInTheFuture options claims then .error (.tokenError "issued_in_the_future")
  else env.checkNonce options claims

/-- What `verifyIdToken` does with the segments of a token. -/
def verifyParsed (parsed : ParsedToken) (options : VerifyOptions) : Except Thrown JsValue :=
  match env.algorithmKey parsed.header with
  | none => .error .other
  | some key =>
    match algorithmOf key with
    | none => .error (.tokenError "unsupported_algorithm")
    | some algorithm =>
      if candidates parsed.header options = [] then .error (.tokenError "unknown_key")
      else if (candidates parsed.header options).any (env.accepts algorithm parsed) then
        env.checkClaims options parsed.claims
      else .error (.tokenError "bad_signature")

def verifyIdToken (token : String) (options : VerifyOptions) : Except Thrown JsValue :=
  match env.parseToken token with
  | none => .error (.tokenError "malformed_token")
  | some parsed => env.verifyParsed parsed options

/-! ### What is wanted -/

/-- **A token is signed** with an algorithm of the list, over its first two segments, under a key
of the set, and under the one it names where it names one. -/
def Signed (options : VerifyOptions) (parsed : ParsedToken) : Prop :=
  ∃ (name hash : String) (format : Option String), (name, ⟨some hash, format⟩) ∈ algorithms ∧
    env.algorithmKey parsed.header = some name ∧
    ∃ jwk ∈ options.keys,
      ((parsed.header.get "kid").truthy = true →
        ∃ kid, parsed.header.get "kid" = .string kid ∧ jwk.kid = some kid) ∧
      env.verifies jwk hash format parsed.signed parsed.signature = some true

/-- **Claims are in force**: they are of the issuer, for this application, and neither over nor
yet to come. -/
structure InForce (options : VerifyOptions) (claims : JsValue) : Prop where
  issuer : claims.get "iss" = .string options.issuer
  audience : .string options.clientId ∈ audiences claims
  expiry : ∃ exp, claims.get "exp" = .number exp ∧
    (exp.add env.rounded options.skew).lt (options.nowSeconds env.rounded) = false
  issued : ∀ iat, claims.get "iat" = .number iat →
    (options.nowSeconds env.rounded).lt (iat.sub env.rounded options.skew) = false

def HasSubject (claims : JsValue) : Prop := ∃ sub, claims.get "sub" = .string sub ∧ sub ≠ ""

/-- **A token holds** in every respect, and these are its claims. -/
structure Holds (token : String) (options : VerifyOptions) (claims : JsValue) : Prop where
  signed : ∃ parsed, env.parseToken token = some parsed ∧ parsed.claims = claims ∧
    env.Signed options parsed
  inForce : env.InForce options claims
  nonce : claims.get "nonce" = .string options.nonce
  subject : HasSubject claims

/-- **What is promised**: claims are given only of a token that holds, and all else is a
`TokenError`. -/
def Meets (token : String) (options : VerifyOptions) : Prop :=
  (∀ claims, env.verifyIdToken token options = .ok claims → env.Holds token options claims) ∧
    ∀ thrown, env.verifyIdToken token options = .error thrown → ∃ code, thrown = .tokenError code

/-- A nonce is not taken for a text that it is not: it is one, or is nothing, or its bytes can be
had and are not those of the nonce that was sent, or else the claims are about nobody. -/
def NonceReadable (options : VerifyOptions) (claims : JsValue) : Prop :=
  (claims.get "nonce").truthy = true → (∃ nonce, claims.get "nonce" = .string nonce) ∨
    ∃ bytes, env.bufferFrom (claims.get "nonce") = some bytes ∧
      (bytes ≠ utf8 options.nonce ∨ ¬HasSubject claims)

/-- **A token is readable**: its header is not `null` and has an `alg` that has a text; where it is
signed its payload is not `null`; and where this is in force its nonce is readable. -/
def Readable (token : String) (options : VerifyOptions) : Prop :=
  ∀ parsed, env.parseToken token = some parsed →
    parsed.header.isNullish = false ∧ ¬NoText (parsed.header.get "alg") ∧
    (env.Signed options parsed → parsed.claims.isNullish = false ∧
      (env.InForce options parsed.claims → env.NonceReadable options parsed.claims))

variable {env} {token : String} {options : VerifyOptions} {parsed : ParsedToken}
  {claims : JsValue} {thrown : Thrown}

/-! ### The algorithm and the keys -/

theorem string?_eq_some_iff {value : JsValue} {s : String} :
    value.string? = some s ↔ value = .string s := by
  cases value <;> simp [JsValue.string?]

theorem number?_eq_some_iff {value : JsValue} {n : JsNumber} :
    value.number? = some n ↔ value = .number n := by
  cases value <;> simp [JsValue.number?]

theorem algorithmKey_eq_none_iff {header : JsValue} :
    env.algorithmKey header = none ↔ header.isNullish = true ∨ NoText (header.get "alg") := by
  rw [algorithmKey]
  split_ifs with hnull halg
  · simp [hnull]
  · simp [hnull, not_noText_of_isNullish halg]
  · rw [keyText_eq_none_iff, or_iff_right hnull]

theorem algorithmOf_eq_some_iff {name hash : String} {format : Option String} :
    algorithmOf name = some ⟨some hash, format⟩ ↔ (name, ⟨some hash, format⟩) ∈ algorithms := by
  constructor
  · intro h
    rcases or_eq_some_iff.mp h with h | ⟨-, h⟩
    · obtain ⟨l, l', hlisted, -⟩ := lookup_eq_some_iff.mp h
      exact hlisted ▸ by simp
    · split_ifs at h
      cases h
  · intro h
    simp only [algorithms, mem_cons, Prod.mk.injEq, not_mem_nil, or_false] at h
    rcases h with ⟨rfl, h⟩ | ⟨rfl, h⟩ | ⟨rfl, h⟩ | ⟨rfl, h⟩ | ⟨rfl, h⟩ <;> (rw [h]; rfl)

theorem mem_candidates_iff {header : JsValue} {jwk : Jwk} :
    jwk ∈ candidates header options ↔ jwk ∈ options.keys ∧ ((header.get "kid").truthy = true →
      ∃ kid, header.get "kid" = .string kid ∧ jwk.kid = some kid) := by
  rw [candidates]
  split_ifs with hkid
  · rw [mem_filter]
    refine and_congr_right fun _ => ?_
    rw [Bool.and_eq_true, decide_eq_true_iff, forall_prop_of_true hkid]
    constructor
    · rintro ⟨hsome, heq⟩
      obtain ⟨kid, hjwk⟩ := isSome_iff_exists.mp hsome
      exact ⟨kid, string?_eq_some_iff.mp (heq.symm.trans hjwk), hjwk⟩
    · rintro ⟨kid, hheader, hjwk⟩
      rw [hjwk, hheader]
      exact ⟨rfl, rfl⟩
  · exact ⟨fun h => ⟨h, fun hkid' => absurd hkid' hkid⟩, And.left⟩

theorem accepts_iff {algorithm : Algorithm} {jwk : Jwk} :
    env.accepts algorithm parsed jwk = true ↔ ∃ hash, algorithm.hash = some hash ∧
      env.verifies jwk hash algorithm.format parsed.signed parsed.signature = some true := by
  rw [accepts]
  cases algorithm.hash with
  | none => simp
  | some hash => cases h : env.verifies jwk hash algorithm.format parsed.signed parsed.signature <;>
      simp [h]

/-- **The claims are looked at** where the token is signed, and nowhere else. -/
theorem verifyParsed_eq (hheader : parsed.header.isNullish = false)
    (halg : ¬NoText (parsed.header.get "alg")) :
    (env.Signed options parsed ∧
        env.verifyParsed parsed options = env.checkClaims options parsed.claims) ∨
      ¬env.Signed options parsed ∧
        ∃ code, env.verifyParsed parsed options = .error (.tokenError code) := by
  obtain ⟨key, hkey⟩ : ∃ key, env.algorithmKey parsed.header = some key := by
    refine ne_none_iff_exists'.mp fun hnone => ?_
    rcases algorithmKey_eq_none_iff.mp hnone with h | h
    · rw [hheader] at h
      cases h
    · exact halg h
  have hsigned : env.Signed options parsed ↔ ∃ algorithm, algorithmOf key = some algorithm ∧
      ∃ jwk ∈ candidates parsed.header options, env.accepts algorithm parsed jwk = true := by
    constructor
    · rintro ⟨name, hash, format, hlisted, hname, jwk, hjwk, hkid, hverifies⟩
      obtain rfl : key = name := some.inj (hkey.symm.trans hname)
      exact ⟨_, algorithmOf_eq_some_iff.mpr hlisted, jwk, mem_candidates_iff.mpr ⟨hjwk, hkid⟩,
        accepts_iff.mpr ⟨hash, rfl, hverifies⟩⟩
    · rintro ⟨⟨hash, format⟩, hfound, jwk, hjwk, haccepts⟩
      obtain ⟨hash, rfl, hverifies⟩ := accepts_iff.mp haccepts
      obtain ⟨hjwk, hkid⟩ := mem_candidates_iff.mp hjwk
      exact ⟨key, hash, format, algorithmOf_eq_some_iff.mp hfound, hkey, jwk, hjwk, hkid,
        hverifies⟩
  rw [verifyParsed, hkey, hsigned]
  cases hfound : algorithmOf key with
  | none => exact .inr ⟨by simp, "unsupported_algorithm", by simp only [hfound]⟩
  | some algorithm =>
    simp only [hfound]
    split_ifs with hempty hany
    · exact .inr ⟨by simp [hempty], _, rfl⟩
    · exact .inl ⟨⟨algorithm, rfl, List.any_eq_true.mp hany⟩, rfl⟩
    · refine .inr ⟨?_, _, rfl⟩
      rintro ⟨algorithm', hsome, h⟩
      obtain rfl := some.inj hsome
      exact hany (List.any_eq_true.mpr h)

/-! ### The claims -/

theorem hasSubject_iff : HasSubject claims ↔ (claims.get "sub").string?.getD "" ≠ "" := by
  rw [HasSubject]
  cases claims.get "sub" <;> simp [JsValue.string?]

theorem expired_eq_false_iff : env.expired options claims = false ↔
    ∃ exp, claims.get "exp" = .number exp ∧
      (exp.add env.rounded options.skew).lt (options.nowSeconds env.rounded) = false := by
  rw [expired]
  cases hexp : (claims.get "exp").number? with
  | none =>
    refine iff_of_false (by simp) ?_
    rintro ⟨exp, h, -⟩
    rw [number?_eq_some_iff.mpr h] at hexp
    cases hexp
  | some exp =>
    refine ⟨fun h => ⟨exp, number?_eq_some_iff.mp hexp, h⟩, ?_⟩
    rintro ⟨exp', h', h⟩
    obtain rfl : exp = exp' := some.inj (hexp.symm.trans (number?_eq_some_iff.mpr h'))
    exact h

theorem issuedInTheFuture_eq_false_iff : env.issuedInTheFuture options claims = false ↔
    ∀ iat, claims.get "iat" = .number iat →
      (options.nowSeconds env.rounded).lt (iat.sub env.rounded options.skew) = false := by
  simp only [issuedInTheFuture, ← number?_eq_some_iff]
  cases (claims.get "iat").number? <;> simp

theorem includes_iff {values : List JsValue} {text : String} :
    includes values text = true ↔ .string text ∈ values := by
  rw [includes, List.any_eq_true]
  constructor
  · rintro ⟨value, hvalue, h⟩
    exact string?_eq_some_iff.mp (of_decide_eq_true h) ▸ hvalue
  · intro h
    exact ⟨_, h, decide_eq_true (string?_eq_some_iff.mpr rfl)⟩

/-- **What comes of claims** that are not `null`: they are not in force, or the nonce decides. -/
theorem checkClaims_eq (hclaims : claims.isNullish = false) :
    (¬env.InForce options claims ∧
        ∃ code, env.checkClaims options claims = .error (.tokenError code)) ∨
      env.InForce options claims ∧
        env.checkClaims options claims = env.checkNonce options claims := by
  rw [checkClaims, if_neg (by simp [hclaims])]
  by_cases hiss : (claims.get "iss").string? = some options.issuer
  · rw [if_neg (not_not.mpr hiss)]
    cases haud : includes (audiences claims) options.clientId with
    | false =>
      refine .inl ⟨fun h => ?_, _, rfl⟩
      rw [includes_iff.mpr h.audience] at haud
      cases haud
    | true =>
      cases hexp : env.expired options claims with
      | true =>
        refine .inl ⟨fun h => ?_, _, rfl⟩
        rw [expired_eq_false_iff.mpr h.expiry] at hexp
        cases hexp
      | false =>
        cases hiat : env.issuedInTheFuture options claims with
        | true =>
          refine .inl ⟨fun h => ?_, _, rfl⟩
          rw [issuedInTheFuture_eq_false_iff.mpr h.issued] at hiat
          cases hiat
        | false =>
          exact .inr ⟨⟨string?_eq_some_iff.mp hiss, includes_iff.mp haud,
            expired_eq_false_iff.mp hexp, issuedInTheFuture_eq_false_iff.mp hiat⟩, rfl⟩
  · exact .inl ⟨fun h => hiss (string?_eq_some_iff.mpr h.issuer), _, if_pos hiss⟩

theorem checkNonce_eq_other_iff : env.checkNonce options claims = .error .other ↔
    (claims.get "nonce").truthy = true ∧ env.equal (claims.get "nonce") options.nonce = none := by
  rw [checkNonce]
  cases (claims.get "nonce").truthy with
  | false => simp
  | true =>
    rcases env.equal (claims.get "nonce") options.nonce with _ | _ | _
    · simp
    · simp
    · by_cases hsub : (claims.get "sub").string?.getD "" = "" <;> simp [hsub]

theorem checkNonce_eq_ok_iff {given : JsValue} : env.checkNonce options claims = .ok given ↔
    claims = given ∧ (claims.get "nonce").truthy = true ∧
      env.equal (claims.get "nonce") options.nonce = some true ∧ HasSubject claims := by
  rw [checkNonce, hasSubject_iff]
  cases (claims.get "nonce").truthy with
  | false => simp
  | true =>
    rcases env.equal (claims.get "nonce") options.nonce with _ | _ | _
    · simp
    · simp
    · by_cases hsub : (claims.get "sub").string?.getD "" = "" <;> simp [hsub]

theorem utf8_injective {s t : String} (h : utf8 s = utf8 t) : s = t := by
  have hread := congrArg ofUtf8 h
  rwa [ofUtf8_utf8, ofUtf8_utf8, Option.some.injEq] at hread

theorem equal_string_iff {s nonce : String} :
    env.equal (.string s) nonce = some true ↔ s = nonce := by
  refine ⟨fun h => utf8_injective ?_, ?_⟩
  · have hboth := some.inj h
    rw [Bool.and_eq_true, decide_eq_true_iff, decide_eq_true_iff] at hboth
    exact hboth.2
  · rintro rfl
    simp [equal]

theorem equal_eq {value : JsValue} (h : ∀ s, value ≠ .string s) (nonce : String) :
    env.equal value nonce =
      (env.bufferFrom value).map fun left => decide (left = utf8 nonce) := by
  have hleft : ∀ left : List UInt8,
      (left.length = (utf8 nonce).length && left = utf8 nonce) = decide (left = utf8 nonce) := by
    intro left
    by_cases hsame : left = utf8 nonce <;> simp [hsame]
  cases value with
  | string s => exact absurd rfl (h s)
  | _ => simp only [equal, hleft]

/-- **A nonce is readable** where it does not throw, and the claims are given only with the nonce
that was sent. -/
theorem nonceReadable_iff : env.NonceReadable options claims ↔
    env.checkNonce options claims ≠ .error .other ∧
      (env.checkNonce options claims = .ok claims →
        claims.get "nonce" = .string options.nonce) := by
  rw [Ne, checkNonce_eq_other_iff, checkNonce_eq_ok_iff, NonceReadable]
  by_cases htext : ∃ nonce, claims.get "nonce" = .string nonce
  · obtain ⟨nonce, hnonce⟩ := htext
    rw [hnonce, equal_string_iff]
    refine iff_of_true (fun _ => .inl ⟨nonce, rfl⟩) ⟨?_, ?_⟩
    · rintro ⟨-, ⟨⟩⟩
    · rintro ⟨-, -, rfl, -⟩
      rfl
  · rw [equal_eq (not_exists.mp htext), map_eq_none_iff, map_eq_some_iff]
    constructor
    · intro hread
      refine ⟨fun ⟨htruthy, hnone⟩ => ?_, ?_⟩
      · obtain ⟨bytes, hbytes, -⟩ := (hread htruthy).resolve_left htext
        rw [hnone] at hbytes
        cases hbytes
      · rintro ⟨-, htruthy, ⟨left, hleft, hsame⟩, hsub⟩
        obtain ⟨bytes, hbytes, hother⟩ := (hread htruthy).resolve_left htext
        obtain rfl : bytes = left := some.inj (hbytes.symm.trans hleft)
        exact (hother.elim (fun hne => hne (of_decide_eq_true hsame)) fun hno => hno hsub).elim
    · rintro ⟨hsome, hok⟩ htruthy
      obtain ⟨bytes, hbytes⟩ := ne_none_iff_exists'.mp fun hnone => hsome ⟨htruthy, hnone⟩
      refine .inr ⟨bytes, hbytes, ?_⟩
      by_contra hsame
      obtain ⟨hsame, hsub⟩ := not_or.mp hsame
      exact htext ⟨_, hok ⟨rfl, htruthy, ⟨bytes, hbytes, decide_eq_true (not_not.mp hsame)⟩,
        not_not.mp hsub⟩⟩

/-! ### The whole check -/

theorem verifyIdToken_of_parseToken (h : env.parseToken token = some parsed) :
    env.verifyIdToken token options = env.verifyParsed parsed options := by
  rw [verifyIdToken, h]

theorem meets_of_tokenError {code : String}
    (h : env.verifyIdToken token options = .error (.tokenError code)) :
    env.Meets token options := by
  rw [Meets, h]
  refine ⟨by simp, ?_⟩
  rintro thrown ⟨⟩
  exact ⟨code, rfl⟩

theorem not_meets_of_other (h : env.verifyIdToken token options = .error .other) :
    ¬env.Meets token options := by
  rintro ⟨-, hthrown⟩
  obtain ⟨code, hcode⟩ := hthrown .other h
  cases hcode

/-- **A token whose payload is in force** meets what is promised where its nonce is readable. -/
theorem meets_iff_of_inForce (hparsed : env.parseToken token = some parsed)
    (hverify : env.verifyIdToken token options = env.checkNonce options parsed.claims)
    (hsigned : env.Signed options parsed) (hinForce : env.InForce options parsed.claims) :
    env.Meets token options ↔ env.NonceReadable options parsed.claims := by
  rw [nonceReadable_iff, Meets, hverify]
  constructor
  · rintro ⟨hok, hthrown⟩
    refine ⟨fun h => ?_, fun h => (hok _ h).nonce⟩
    obtain ⟨code, hcode⟩ := hthrown _ h
    cases hcode
  · rintro ⟨hother, hnonce⟩
    refine ⟨fun claims h => ?_, fun thrown h => ?_⟩
    · obtain ⟨rfl, -, -, hsub⟩ := checkNonce_eq_ok_iff.mp h
      exact ⟨⟨parsed, hparsed, rfl, hsigned⟩, hinForce, hnonce h, hsub⟩
    · cases thrown with
      | tokenError code => exact ⟨code, rfl⟩
      | other => exact absurd h hother

/-- The language of ASCII texts, where no signature verifies and `Buffer.from` takes nothing but
texts. -/
def plain : TokenEnv where
  js := Js.ascii
  rounded := .finite
  verifies := fun _ _ _ _ _ => some false
  bufferFrom := fun _ => none

end TokenEnv

end IdToken

end Sone
