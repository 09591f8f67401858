import Sone.Access.Claims
import Mathlib.Algebra.Ring.Nat

/-!
# Stored passwords

What `auth/password.ts` stores for a password and what it makes of a stored hash later.
`hashPassword` writes the parameters beside the derived key, so `verifyPassword` derives
with the parameters it reads and not with the current ones; `needsRehash` is the comparison
with the current ones.

scrypt itself comes from the runtime. `Scrypt` is what the code relies on: a derivation that
answers with a key of the length asked for, and under which two passwords have one key only
if they are one password. The normal form NFKC comes from the runtime too
(`PasswordEnv.normalize`) and nothing is assumed of it; passwords are told apart up to it.

`Hashes stored password` says that a stored hash was made for a password.
`Hashes.valid_iff` is what that means: it verifies exactly the passwords of the same normal
form.
-/

namespace Sone

abbrev Salt := List UInt8

/-- `scrypt` of `node:crypto`, and the keys it derives. -/
structure Scrypt (Key : Type) where
  /-- The derived key of a normalised password, a salt, the length asked for and `N`, `r`
  and `p`; nothing where it throws. -/
  derive : String → Salt → ℕ → ℕ → ℕ → ℕ → Option Key
  length : Key → ℕ
  /-- Thirty-two zero bytes. -/
  zeros : Key
  length_derive : ∀ password salt keylen N r p key,
    derive password salt keylen N r p = some key → length key = keylen
  /-- No two passwords collide. -/
  derive_injective : ∀ password other salt keylen N r p key,
    derive password salt keylen N r p = some key → derive other salt keylen N r p = some key →
      password = other

/-- What hashing relies on besides the password. -/
structure PasswordEnv (Key : Type) where
  scrypt : Scrypt Key
  /-- `normalize('NFKC')`. -/
  normalize : String → String
  /-- `passwordCost()`, the exponent of `N`. -/
  passwordCost : ℕ
  /-- The clamp of `envNumber`. -/
  passwordCost_mem : 10 ≤ passwordCost ∧ passwordCost ≤ 20

/-- A stored hash, by the fields `verifyPassword` splits it into. -/
inductive StoredHash (Key : Type) where
  /-- `scrypt$N$r$p$salt$hash`. -/
  | scrypt (N r p : ℕ) (salt : Salt) (expected : Key)
  /-- Any text it cannot split so. -/
  | unreadable
  deriving DecidableEq

/-- What `verifyPassword` answers. -/
structure Verified where
  valid : Bool
  needsRehash : Bool
  deriving DecidableEq, Repr

/-- `length` of a string: its UTF-16 code units. -/
def utf16Length (s : String) : ℕ :=
  (s.toList.map fun c => if c.toNat < 0x10000 then 1 else 2).sum

variable {Key : Type}

def assertPasswordAcceptable (env : PasswordEnv Key) (password : String) : Except AuthError Unit :=
  let normalised := env.normalize password
  if utf16Length normalised < 12 then
    .error ⟨"password must be at least 12 characters", "weak_password"⟩
  else if 1024 < utf16Length normalised then
    .error ⟨"password must be at most 1024 characters", "weak_password"⟩
  else .ok ()

/-- `hashPassword`, with the salt it generates; nothing where it throws. -/
def hashPassword (env : PasswordEnv Key) (salt : Salt) (password : String) :
    Option (StoredHash Key) :=
  match assertPasswordAcceptable env password with
  | .error _ => none
  | .ok () =>
    let N := 1 <<< env.passwordCost
    (env.scrypt.derive (env.normalize password) salt 32 N 8 1).map (.scrypt N 8 1 salt)

def verifyPassword [DecidableEq Key] (env : PasswordEnv Key) (password : String) :
    StoredHash Key → Verified
  | .unreadable => ⟨false, false⟩
  | .scrypt N r p salt expected =>
    match env.scrypt.derive (env.normalize password) salt (env.scrypt.length expected) N r p with
    | none => ⟨false, false⟩
    | some derived =>
      let valid := env.scrypt.length derived = env.scrypt.length expected ∧ derived = expected
      ⟨valid, valid ∧ (N < 1 <<< env.passwordCost ∨ r < 8)⟩

/-- `DUMMY_HASH`: what a password is compared with where there is no stored hash. -/
def scryptDummyHash (env : PasswordEnv Key) : StoredHash Key :=
  .scrypt 65536 8 1 (List.replicate 16 0) env.scrypt.zeros

namespace PasswordEnv

variable {env : PasswordEnv Key} {password other : String} {salt : Salt} {stored : StoredHash Key}

/-- Two passwords are **the same** when their normal forms are. -/
def Same (env : PasswordEnv Key) (password other : String) : Prop :=
  env.normalize password = env.normalize other

instance : Decidable (env.Same password other) :=
  inferInstanceAs (Decidable (env.normalize password = env.normalize other))

/-- A stored hash **is one of a password**: `hashPassword` made it of that password, with
some salt, at some cost. -/
def Hashes (env : PasswordEnv Key) (stored : StoredHash Key) (password : String) : Prop :=
  ∃ (N : ℕ) (salt : Salt) (key : Key), stored = .scrypt N 8 1 salt key ∧
    env.scrypt.derive (env.normalize password) salt 32 N 8 1 = some key

theorem hashes_of_hashPassword (h : hashPassword env salt password = some stored) :
    env.Hashes stored password := by
  unfold hashPassword at h
  split at h
  · simp at h
  · obtain ⟨key, hkey, rfl⟩ := Option.map_eq_some_iff.mp h
    exact ⟨_, salt, key, rfl, hkey⟩

theorem Hashes.congr (h : env.Hashes stored password) (hsame : env.Same password other) :
    env.Hashes stored other := by
  obtain ⟨N, salt, key, rfl, hkey⟩ := h
  exact ⟨N, salt, key, rfl, hsame ▸ hkey⟩

theorem Hashes.valid_iff [DecidableEq Key] (h : env.Hashes stored password) :
    (verifyPassword env other stored).valid = true ↔ env.Same other password := by
  obtain ⟨N, salt, key, rfl, hkey⟩ := h
  have hlength := env.scrypt.length_derive _ _ _ _ _ _ _ hkey
  rw [verifyPassword, hlength]
  constructor
  · intro hvalid
    split at hvalid
    · simp at hvalid
    · rename_i derived hderived
      simp only [decide_eq_true_eq] at hvalid
      exact env.scrypt.derive_injective _ _ _ _ _ _ _ _ (hvalid.2 ▸ hderived) hkey
  · intro hsame
    rw [show env.normalize other = env.normalize password from hsame, hkey]
    simp [hlength]

end PasswordEnv

end Sone
