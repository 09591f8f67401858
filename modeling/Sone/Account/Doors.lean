import Sone.Access.Claims

/-!
# The doors of an account

What may put a row into `sessions`, and what takes rows out: the password login and its
second step (`auth/session.ts`, `http/auth.ts`), the sign-in through a provider
(`auth/oidcRoutes.ts`), the password reset (`auth/reset.ts`) and the administrator's
`PATCH /api/admin/users/:userId` (`admin/routes.ts`).

Each is a request handler that runs one statement after another. `AccountTask` says which
statement comes next and what was read before, and `Accounts.run` runs it. Statements that
touch none of the tables here (the ledger of attempts, the sign-in notes) are left out; a
handler is suspended there all the same.
-/

namespace Sone

/-- `users`, with the columns the doors read. -/
structure AccountRow extends UserRow where
  passwordHash : Option String
  isInstanceAdmin : Bool
  canManageWorkspaces : Bool
  deactivatedAt : Option Time
  deriving DecidableEq

/-- `oidc_identities`. -/
structure OidcIdentityRow where
  issuer : String
  subject : String
  userId : Uuid

/-- `password_reset_tokens`. -/
structure PasswordResetTokenRow where
  tokenHash : String
  userId : Uuid
  expiresAt : Time
  usedAt : Option Time

/-- What the handlers rely on besides the tables: the hashes, the settings of the provider
and the folding of case. -/
structure AccountEnv where
  hashToken : String → String
  hashPassword : String → String
  /-- `verifyPassword`, of a password and a stored hash: `valid`. -/
  verifyPassword : String → String → Bool
  /-- Whether a stored hash is behind the current parameters. -/
  needsRehash : String → Bool
  /-- `assertPasswordAcceptable` does not throw. -/
  isPasswordAcceptable : String → Bool
  lower : String → String
  issuer : String
  allowSignup : Bool

/-- The tables the doors read and write, and the clock. -/
structure Accounts where
  now : Time
  users : List AccountRow
  sessions : List SessionRow
  /-- The accounts with a confirmed row in `second_factors`. -/
  secondFactors : List Uuid
  oidcIdentities : List OidcIdentityRow
  passwordResetTokens : List PasswordResetTokenRow
  /-- The tickets signed for the second step: whom they name, and until when. -/
  tickets : List (Uuid × Time)
  /-- How often `deactivated_at` of an account was cleared. -/
  reactivations : Uuid → ℕ

/-- `DUMMY_HASH`: what a password is compared with where there is no stored hash. -/
def dummyHash : String :=
  "scrypt$65536$8$1$AAAAAAAAAAAAAAAAAAAAAA==$AAAAAAAAAAAAAAAAAAAAAAAAAAAAAAAAAAAAAAAAAAA="

/-- `SESSION_TTL_DAYS`, in milliseconds. -/
def sessionTtl : Time := 30 * 86400000

/-- `RESET_MINUTES`, in milliseconds. -/
def resetTtl : Time := 60 * 60000

/-- `TICKET_MINUTES`, in milliseconds. -/
def ticketTtl : Time := 5 * 60000

/-- The body of the administrator's request, each field where it is there. -/
structure PatchBody where
  isInstanceAdmin : Option Bool
  canManageWorkspaces : Option Bool
  deactivated : Option Bool
  deriving DecidableEq, Repr

/-- A statement of the administrator's request that writes. -/
inductive AccountWrite where
  | isInstanceAdmin (value : Bool)
  | canManageWorkspaces (value : Bool)
  | deactivatedAt (deactivated : Bool)
  | deleteSessions
  deriving DecidableEq, Repr

/-- The writes a body asks for, in their order. That a deactivation is followed by the
deletion of the sessions shows when it is run. -/
def PatchBody.writes (body : PatchBody) : List AccountWrite :=
  (body.isInstanceAdmin.map .isInstanceAdmin).toList ++
    (body.canManageWorkspaces.map .canManageWorkspaces).toList ++
      (body.deactivated.map .deactivatedAt).toList

/-- What a verified identity token of the provider says. -/
structure ProviderClaims where
  sub : String
  email : Option String
  emailVerified : Bool
  name : Option String
  deriving DecidableEq, Repr

/-- A request being handled: the statement that comes next, and what is held for it. -/
inductive AccountTask where
  /-- `requireSession` of the administrator's request. -/
  | patchSession (token : String) (userId : Uuid) (body : PatchBody)
  /-- The rest of `requireAdmin`. -/
  | patchAdmin (adminId userId : Uuid) (body : PatchBody)
  | patchTarget (adminId userId : Uuid) (body : PatchBody)
  /-- The count of the other administrators. -/
  | patchRemaining (adminId userId : Uuid) (body : PatchBody)
  /-- The writes, and the answer after the last. `since` is how often the account had been
  reactivated when this request deactivated it. -/
  | patchWrites (userId : Uuid) (writes : List AccountWrite) (since : Option ℕ)
  /-- `login`: the account of the address. -/
  | loginReads (email password : String)
  | loginVerifies (password : String) (user : Option AccountRow)
  | loginRehashes (userId : Uuid) (password : String)
  | loginInserts (userId : Uuid)
  /-- After `login`: the account's second factor. -/
  | loginAsksFactor (userId sessionId : Uuid)
  /-- The second step: `checkSecondFactor`. -/
  | secondChecks (userId : Uuid)
  | secondInserts (userId : Uuid)
  /-- `linkOrCreate`, its three statements. -/
  | providerFinds (claims : ProviderClaims)
  | providerCreates (sub email displayName : String)
  | providerLinks (sub : String) (userId : Uuid)
  | providerInserts (userId : Uuid)
  deriving DecidableEq

/-- The account for which the statement that comes next inserts a session. -/
def AccountTask.inserts : AccountTask → Option Uuid
  | loginInserts userId => some userId
  | secondInserts userId => some userId
  | providerInserts userId => some userId
  | _ => none

namespace Accounts

/-- The rows `resolveSession` reads. -/
def tables (s : Accounts) : Tables where
  users := s.users.map (·.toUserRow)
  sessions := s.sessions

/-- An `UPDATE users … WHERE id = $1`. -/
def updateUser (s : Accounts) (userId : Uuid) (update : AccountRow → AccountRow) : Accounts :=
  { s with users := s.users.map fun user => if user.id = userId then update user else user }

/-- `createSession`, with the id and the token it generates. -/
def createSession (env : AccountEnv) (s : Accounts) (userId id : Uuid) (token : String) :
    Accounts :=
  { s with sessions := s.sessions ++
      [⟨id, userId, env.hashToken token, none, s.now + sessionTtl, s.now⟩] }

/-- `DELETE FROM sessions WHERE user_id = $1`. -/
def deleteSessions (s : Accounts) (userId : Uuid) : Accounts :=
  { s with sessions := s.sessions.filter fun session => session.userId ≠ userId }

def revokeSession (s : Accounts) (sessionId : Uuid) : Accounts :=
  { s with sessions := s.sessions.map fun session =>
      if session.id = sessionId ∧ session.revokedAt = none
      then { session with revokedAt := some s.now } else session }

/-- `issueReset`, with the token it generates. -/
def issueReset (env : AccountEnv) (s : Accounts) (email token : String) : Accounts :=
  match s.users.find? fun user =>
    user.email.map env.lower = some (env.lower email) ∧ user.deactivatedAt = none with
  | none => s
  | some account =>
    if account.passwordHash = none then s else
      { s with passwordResetTokens := s.passwordResetTokens ++
          [⟨env.hashToken token, account.id, s.now + resetTtl, none⟩] }

/-- `redeemReset`, one transaction. -/
def redeemReset (env : AccountEnv) (s : Accounts) (token newPassword : String) : Accounts :=
  match s.passwordResetTokens.find? fun row =>
    row.tokenHash = env.hashToken token ∧ row.usedAt = none with
  | none => s
  | some found =>
    if found.expiresAt < s.now then s
    else if !env.isPasswordAcceptable newPassword then s
    else
      let s := s.updateUser found.userId fun user =>
        { user with passwordHash := some (env.hashPassword newPassword) }
      let s := s.deleteSessions found.userId
      { s with passwordResetTokens := s.passwordResetTokens.map fun row =>
          if row.userId = found.userId ∧ row.usedAt = none
          then { row with usedAt := some s.now } else row }

def write (s : Accounts) (userId : Uuid) : AccountWrite → Accounts
  | .isInstanceAdmin value => s.updateUser userId fun user =>
    { user with isInstanceAdmin := value }
  | .canManageWorkspaces value => s.updateUser userId fun user =>
    { user with canManageWorkspaces := value }
  | .deactivatedAt true => s.updateUser userId fun user =>
    { user with deactivatedAt := some s.now }
  | .deactivatedAt false =>
    { s.updateUser userId fun user => { user with deactivatedAt := none } with
      reactivations := Function.update s.reactivations userId (s.reactivations userId + 1) }
  | .deleteSessions => s.deleteSessions userId

/-- Whether a body takes an administrator's rights away. -/
def losesAdmin (body : PatchBody) (target : AccountRow) : Bool :=
  (body.isInstanceAdmin = some false && target.isInstanceAdmin) ||
    (body.deactivated = some true && target.isInstanceAdmin)

/-- The last check of the administrator's request, and its writes. -/
def startWrites (adminId userId : Uuid) (body : PatchBody) : Option AccountTask :=
  -- 409 `cannot_deactivate_yourself`
  if body.deactivated = some true ∧ userId = adminId then none
  else some (.patchWrites userId body.writes none)

/-- The next statement of a request, and what comes after it, where anything does. `fresh`
is the id and `token` the session token it generates, where it does, and `isCodeRight`
whether `checkSecondFactor` accepts the code. -/
def run (env : AccountEnv) (s : Accounts) (task : AccountTask) (fresh : Uuid) (token : String)
    (isCodeRight : Bool) : Accounts × Option AccountTask :=
  match task with
  | .patchSession cookie userId body =>
    match resolveSession ⟨s.now, env.hashToken, none⟩ s.tables cookie with
    | none => (s, none)
    | some session => (s, some (.patchAdmin session.user.userId userId body))
  | .patchAdmin adminId userId body =>
    match s.users.find? fun user => user.id = adminId with
    | none => (s, none)
    | some admin =>
      if admin.isInstanceAdmin && admin.deactivatedAt.isNone then
        (s, some (.patchTarget adminId userId body))
      else (s, none)
  | .patchTarget adminId userId body =>
    match s.users.find? fun user => user.id = userId with
    | none => (s, none)
    | some target =>
      if losesAdmin body target then (s, some (.patchRemaining adminId userId body))
      else (s, startWrites adminId userId body)
  | .patchRemaining adminId userId body =>
    let remaining := s.users.countP fun user =>
      user.isInstanceAdmin && user.deactivatedAt.isNone && user.id != userId
    -- 409 `last_administrator`
    if remaining = 0 then (s, none) else (s, startWrites adminId userId body)
  | .patchWrites _ [] _ => (s, none)
  | .patchWrites userId (.deactivatedAt true :: writes) _ =>
    (s.write userId (.deactivatedAt true),
      some (.patchWrites userId (.deleteSessions :: writes) (some (s.reactivations userId))))
  | .patchWrites userId (write :: writes) since =>
    (s.write userId write, some (.patchWrites userId writes since))
  | .loginReads email password =>
    (s, some (.loginVerifies password (s.users.find? fun user =>
      user.email.map env.lower = some email)))
  | .loginVerifies _ none => (s, none)
  | .loginVerifies password (some user) =>
    let storedHash := user.passwordHash.getD dummyHash
    if env.verifyPassword password storedHash && user.disabledAt.isNone then
      if env.needsRehash storedHash then (s, some (.loginRehashes user.id password))
      else (s, some (.loginInserts user.id))
    else (s, none)
  | .loginRehashes userId password =>
    (s.updateUser userId fun user => { user with passwordHash := some (env.hashPassword password) },
      some (.loginInserts userId))
  | .loginInserts userId =>
    (s.createSession env userId fresh token, some (.loginAsksFactor userId fresh))
  | .loginAsksFactor userId sessionId =>
    if userId ∈ s.secondFactors then
      let s := s.revokeSession sessionId
      ({ s with tickets := s.tickets ++ [(userId, s.now + ticketTtl)] }, none)
    else (s, none)
  | .secondChecks userId =>
    if userId ∈ s.secondFactors ∧ isCodeRight = true then (s, some (.secondInserts userId))
    else (s, none)
  | .secondInserts userId => (s.createSession env userId fresh token, none)
  | .providerFinds claims =>
    match s.oidcIdentities.find? fun row => row.issuer = env.issuer ∧ row.subject = claims.sub with
    | some row => (s, some (.providerInserts row.userId))
    | none =>
      match claims.email with
      | none => (s, none)
      | some email =>
        if env.allowSignup && claims.emailVerified && email != "" then
          (s, some (.providerCreates claims.sub (env.lower email) (claims.name.getD email)))
        else (s, none)
  | .providerCreates sub email displayName =>
    if s.users.any fun user => user.email.map env.lower = some email then (s, none)
    else
      let user : AccountRow := {
        id := fresh, email := some email, displayName, isGuest := false, disabledAt := none,
        passwordHash := none, isInstanceAdmin := false, canManageWorkspaces := false,
        deactivatedAt := none }
      ({ s with users := s.users ++ [user] }, some (.providerLinks sub fresh))
  | .providerLinks sub userId =>
    ({ s with oidcIdentities := s.oidcIdentities ++ [⟨env.issuer, sub, userId⟩] },
      some (.providerInserts userId))
  | .providerInserts userId => (s.createSession env userId fresh token, none)

end Accounts

end Sone
