import Sone.Account.Credentials

/-!
# Codes of a second factor

The arithmetic of `auth/totp.ts`: the code for a step of thirty seconds (`codeAt`), the step a
code is right for (`checkCode`), the secret as it is stored (`sealSecret`, `openSecret`) and the
recovery codes. The hashes and the cipher are `TotpEnv`.

`checkCode` looks at three steps and takes the first whose code is the one given. Before the
first thirty seconds of 1970 are over there is a step below zero among the three, which has no
code: `codeAt` throws of it.
-/

namespace Sone

open List

/-- **What codes rest on**: HMAC-SHA1, SHA-256, AES-256-GCM under the key of the instance, and
the lower case of a text. -/
structure TotpEnv where
  /-- `createHmac('sha1', secret).update(counter).digest()` -/
  hmacSha1 : List UInt8 → List UInt8 → List UInt8
  /-- `createHash('sha256').update(bytes).digest('hex')` -/
  sha256 : List UInt8 → String
  /-- The tag and the body of a secret, enciphered with a nonce. -/
  encipher : List UInt8 → List UInt8 → List UInt8 × List UInt8
  /-- What was enciphered, from the nonce, the tag and the body, where that does not throw. -/
  decipher : List UInt8 → List UInt8 → List UInt8 → Option (List UInt8)
  /-- `text.toLowerCase()` -/
  lowerCase : List Char → List Char

namespace TotpEnv

variable (env : TotpEnv)

/-! ### Codes -/

/-- `writeUInt32BE` -/
def uint32BE (n : ℕ) : List UInt8 :=
  [UInt8.ofNat (n / 16777216), UInt8.ofNat (n / 65536), UInt8.ofNat (n / 256), UInt8.ofNat n]

def codeAt (secret : List UInt8) (step : ℕ) : List Char :=
  let digest := env.hmacSha1 secret (uint32BE (step / 4294967296) ++ uint32BE (step % 4294967296))
  let offset := (digest.getLast?.getD 0).toNat % 16
  let byte := fun i => (digest.getD (offset + i) 0).toNat
  let truncated := byte 0 % 128 * 16777216 + byte 1 * 65536 + byte 2 * 256 + byte 3
  (Nat.toDigits 10 (truncated % 1000000)).leftpad 6 '0'

/-- `STEP_SECONDS`, in milliseconds. -/
def stepMs : ℕ := 30 * 1000

/-- `checkCode`: the step a code is right for. It throws where one of the steps is below
zero. -/
def checkCode (secret : List UInt8) (code : List Char) (now : Instant) : Option (Option ℕ) :=
  let given := code.filter fun c => !JsString.isSpace c
  if given.length = 6 ∧ given.all Char.isDigit then
    match now.ms / stepMs with
    | 0 => none
    | before + 1 =>
      some ([before, before + 1, before + 2].find? fun step => env.codeAt secret step = given)
  else some none

/-! ### The secret, stored -/

/-- `sealSecret`, with the nonce it draws. -/
def sealSecret (secret iv : List UInt8) : List Char :=
  let sealed := env.encipher iv secret
  String.toList "v1" ++ '.' :: (Base64.encode iv ++ '.' :: (Base64.encode sealed.1 ++ '.' ::
    Base64.encode sealed.2))

def openSecret (sealed : List Char) : Option (List UInt8) :=
  match sealed.splitOn '.' with
  | [version, iv, tag, body] =>
    if version = String.toList "v1" then
      env.decipher (Base64.decode iv) (Base64.decode tag) (Base64.decode body)
    else none
  | _ => none

/-! ### Recovery codes -/

/-- `RECOVERY_COUNT` -/
def recoveryCount : ℕ := 10

def hashRecoveryCode (code : List Char) : String :=
  env.sha256 (utf8 (String.ofList ((env.lowerCase code).filter fun c =>
    ('a' ≤ c && c ≤ 'z') || ('0' ≤ c && c ≤ '9'))))

def recoveryCode (drawn : List UInt8) : List Char :=
  let raw := ((Base64.encode drawn).filter fun c => c ≠ '-' && c ≠ '_').take 12
  env.lowerCase (raw.take 4 ++ '-' :: ((raw.drop 4).take 4 ++ '-' :: (raw.drop 8).take 4))

/-- `newRecoveryCodes().hashes` -/
def newRecoveryHashes (drawn : Fin recoveryCount → List UInt8) : List String :=
  (List.ofFn drawn).map fun bytes => env.hashRecoveryCode (env.recoveryCode bytes)

/-! ### Facts -/

variable {env}

theorem openSecret_sealSecret {secret iv : List UInt8}
    (h : env.decipher iv (env.encipher iv secret).1 (env.encipher iv secret).2 = some secret) :
    env.openSecret (env.sealSecret secret iv) = some secret := by
  have hdot := fun bytes => Signing.dot_notMem_encode bytes
  have hversion : '.' ∉ String.toList "v1" := by
    decide
  rw [openSecret, sealSecret, splitOn_append_cons_self, splitOn_append_cons_self,
    splitOn_append_cons_self, splitOn_eq_singleton hversion,
    splitOn_eq_singleton (hdot _), splitOn_eq_singleton (hdot _),
    splitOn_eq_singleton (hdot _)]
  simp only [cons_append, nil_append, if_true, Base64.decode_encode, h]

end TotpEnv

end Sone
