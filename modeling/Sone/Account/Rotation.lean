import Sone.Transition.Machine
import Sone.Account.Doors
import Sone.Account.Password

/-!
# Changing the password of one account

The requests that read or write the password of one account: `login`, `changePassword`
(`auth/session.ts`), `issueReset` and `redeemReset` (`auth/reset.ts`), each one statement
after another, with the hashing in between.

A change and a reset each write in a transaction. Its first write is the `UPDATE` of the
row of `users`, which locks the row until the transaction ends, so at most one of them has
got that far (`Credentials.rotating`). What it has written since is not seen before it
commits; each of its statements sees what was committed when the statement began. A reset
locks its own row of `password_reset_tokens` earlier, when it finds it `FOR UPDATE`, and
waits for the row of `users` with that lock held (`Credentials.redeeming`).

The state carries notes no statement reads: the password each session was obtained with,
how often a change or reset committed, and the resets that succeeded.
-/

namespace Sone

variable {Key : Type}

/-- A row of `sessions`, and the password the login that inserted it was given. -/
structure SignedIn extends SessionRow where
  password : String

/-- A row of `password_reset_tokens`, and how many resets had succeeded when it was
inserted. -/
structure ResetRow where
  tokenHash : String
  expiresAt : Time
  usedAt : Option Time
  issued : ℕ
  deriving DecidableEq

/-- A reset that succeeded: its token, how many had succeeded when the token was issued, and
how many when it was redeemed. -/
structure Redemption where
  tokenHash : String
  issued : ℕ
  before : ℕ
  deriving DecidableEq

/-- A request that holds no lock: the statement that comes next, and what was read. -/
inductive RotationTask (Key : Type) where
  /-- `since` is how often a change or reset had committed when the row was read. -/
  | loginVerifies (password : String) (passwordHash : Option (StoredHash Key))
      (disabledAt : Option Time) (since : ℕ)
  | loginRehashes (password : String) (upgraded : StoredHash Key) (since : ℕ)
  | loginInserts (password : String) (since : ℕ)
  | changeVerifies (currentPassword newPassword : String) (keepSessionId : Option Uuid)
      (passwordHash : StoredHash Key)
  | changeUpdates (newPassword : String) (hash : StoredHash Key) (keepSessionId : Option Uuid)
      (began : Time)
  | issueInserts (token : String)
  | resetFinds (token newPassword : String) (began : Time)
  deriving DecidableEq

/-- A reset that has locked the row of its token, and waits for the row of `users`. -/
structure Redeeming (Key : Type) where
  newPassword : String
  hash : StoredHash Key
  began : Time

inductive RotationRequest where
  | change (keepSessionId : Option Uuid)
  | reset (tokenHash : String)
  deriving DecidableEq

/-- The statement of a transaction that comes next. -/
inductive RotationStatement where
  /-- A reset marks its own token. -/
  | ownToken
  /-- The sessions end: `revokeAllSessions`, or the `DELETE` of a reset. -/
  | sessions
  /-- The `UPDATE` of the other tokens takes its snapshot, and then waits for their locks. -/
  | scan
  | otherTokens (found : List String)
  | commit
  deriving DecidableEq

/-- **The transaction that holds the row of `users`**, and what it has written. -/
structure Rotating (Key : Type) where
  newPassword : String
  hash : StoredHash Key
  /-- `now()`. -/
  began : Time
  request : RotationRequest
  next : RotationStatement
  /-- The sessions there were when the sessions ended, and those that did. -/
  seenSessions : List Uuid := []
  ended : List Uuid := []
  /-- The tokens there were when the snapshot was taken, and those marked as used. -/
  seenTokens : List String := []
  marked : List String := []

def Rotating.keeps (tx : Rotating Key) : Option Uuid :=
  match tx.request with
  | .change keepSessionId => keepSessionId
  | .reset _ => none

def Rotating.isReset (tx : Rotating Key) : Bool :=
  match tx.request with
  | .change _ => false
  | .reset _ => true

/-- A transaction has the row of a token locked: its own, or one it marked. -/
def Rotating.Locks (tx : Rotating Key) (tokenHash : String) : Prop :=
  tx.request = .reset tokenHash ∨ tokenHash ∈ tx.marked

/-- What the handlers rely on besides the tables. -/
structure RotationEnv (Key : Type) extends PasswordEnv Key where
  hashToken : String → String

/-- **One account**: its rows, the requests under way, and the notes. -/
structure Credentials (Key : Type) where
  now : Time
  user : UserRow
  passwordHash : Option (StoredHash Key)
  deactivatedAt : Option Time
  sessions : List SignedIn
  resetTokens : List ResetRow
  tasks : List (RotationTask Key)
  /-- The resets that hold the row of their token, by token. -/
  redeeming : String → Option (Redeeming Key)
  rotating : Option (Rotating Key)
  /-- The password the last change or reset set, and the session it kept. -/
  current : Option String
  kept : Option Uuid
  /-- How often a change or reset committed, and how often a reset. -/
  changes : ℕ
  resets : ℕ
  redeemed : List Redemption

/-- `RedeemResult`, where it is not `ok`. -/
inductive RedeemReason where
  | unknownLink | expiredLink | weakPassword
  deriving DecidableEq, Repr

namespace Credentials

def IsLocked (s : Credentials Key) (tokenHash : String) : Prop :=
  (s.redeeming tokenHash).isSome ∨ ∃ tx ∈ s.rotating, tx.Locks tokenHash

instance (tx : Rotating Key) (tokenHash : String) : Decidable (tx.Locks tokenHash) :=
  inferInstanceAs (Decidable (_ ∨ _))

instance (s : Credentials Key) (tokenHash : String) : Decidable (s.IsLocked tokenHash) :=
  inferInstanceAs (Decidable (_ ∨ ∃ tx ∈ s.rotating, tx.Locks tokenHash))

def arrive (s : Credentials Key) (task : RotationTask Key) : Credentials Key :=
  { s with tasks := s.tasks ++ [task] }

/-- `login` reads the row of `users`. -/
def login (s : Credentials Key) (password : String) : Credentials Key :=
  s.arrive (.loginVerifies password s.passwordHash s.user.disabledAt s.changes)

/-- `changePassword` reads the row of `users`: 404 where it has no password. -/
def changePassword (s : Credentials Key) (currentPassword newPassword : String)
    (keepSessionId : Option Uuid) : Credentials Key :=
  match s.passwordHash with
  | none => s
  | some passwordHash =>
    s.arrive (.changeVerifies currentPassword newPassword keepSessionId passwordHash)

/-- `issueReset` reads the row of `users`, and generates a token. -/
def issueReset (s : Credentials Key) (token : String) : Credentials Key :=
  if s.deactivatedAt.isNone ∧ s.passwordHash.isSome then s.arrive (.issueInserts token) else s

/-- `createSession`, with the id and the token it generates. -/
def createSession (env : RotationEnv Key) (s : Credentials Key) (password : String) (id : Uuid)
    (token : String) : Credentials Key :=
  let row : SignedIn := {
    id, userId := s.user.id, tokenHash := env.hashToken token, revokedAt := none,
    expiresAt := s.now + sessionTtl, lastSeenAt := s.now, password }
  { s with sessions := s.sessions ++ [row] }

/-- The row `redeemReset` finds, and why it stops where it does. -/
def findReset (env : RotationEnv Key) (s : Credentials Key) (token newPassword : String)
    (began : Time) : Except RedeemReason ResetRow :=
  match s.resetTokens.find? fun row => row.tokenHash = env.hashToken token ∧ row.usedAt = none with
  | none => .error .unknownLink
  | some found =>
    if found.expiresAt < began then .error .expiredLink
    else
      match assertPasswordAcceptable env.toPasswordEnv newPassword with
      | .error _ => .error .weakPassword
      | .ok () => .ok found

/-- The next statement of a request that holds no lock, and what comes after it; nothing
where the statement has to wait. `fresh` is the id, `token` the session token and `salt` the
salt it generates, where it does. -/
def run [DecidableEq Key] (env : RotationEnv Key) (s : Credentials Key)
    (task : RotationTask Key) (fresh : Uuid) (token : String) (salt : Salt) :
    Option (Credentials Key) :=
  match task with
  | .loginVerifies password passwordHash disabledAt since =>
    let verified := verifyPassword env.toPasswordEnv password
      (passwordHash.getD (scryptDummyHash env.toPasswordEnv))
    if verified.valid && disabledAt.isNone then
      if verified.needsRehash then
        match hashPassword env.toPasswordEnv salt password with
        | none => some s
        | some upgraded => some (s.arrive (.loginRehashes password upgraded since))
      else some (s.arrive (.loginInserts password since))
    else some s
  | .loginRehashes password upgraded since =>
    if s.rotating.isNone then
      some ({ s with passwordHash := some upgraded }.arrive (.loginInserts password since))
    else none
  | .loginInserts password _ =>
    -- the primary key
    if ∀ session ∈ s.sessions, session.id ≠ fresh then
      some (s.createSession env password fresh token) else none
  | .changeVerifies currentPassword newPassword keepSessionId passwordHash =>
    if (verifyPassword env.toPasswordEnv currentPassword passwordHash).valid then
      match hashPassword env.toPasswordEnv salt newPassword with
      | none => some s
      | some hash => some (s.arrive (.changeUpdates newPassword hash keepSessionId s.now))
    else some s
  | .changeUpdates newPassword hash keepSessionId began =>
    if s.rotating.isNone then
      some { s with rotating := some {
        newPassword, hash, began, request := .change keepSessionId, next := .sessions } }
    else none
  | .issueInserts token =>
    -- the primary key
    if ∀ row ∈ s.resetTokens, row.tokenHash ≠ env.hashToken token then
      some { s with resetTokens := s.resetTokens ++
        [⟨env.hashToken token, s.now + resetTtl, none, s.resets⟩] }
    else none
  | .resetFinds token newPassword began =>
    match s.findReset env token newPassword began with
    | .error .unknownLink => some s
    | .error _ => if s.IsLocked (env.hashToken token) then none else some s
    | .ok found =>
      if s.IsLocked found.tokenHash then none
      else
        match hashPassword env.toPasswordEnv salt newPassword with
        | none => some s
        | some hash =>
          some { s with redeeming :=
            Function.update s.redeeming found.tokenHash (some ⟨newPassword, hash, began⟩) }

/-- A reset that holds its token updates the row of `users`. -/
def startReset (s : Credentials Key) (tokenHash : String) : Option (Credentials Key) :=
  match s.redeeming tokenHash, s.rotating with
  | some redeeming, none => some { s with
      redeeming := Function.update s.redeeming tokenHash none
      rotating := some {
        newPassword := redeeming.newPassword, hash := redeeming.hash, began := redeeming.began
        request := .reset tokenHash, next := .ownToken } }
  | _, _ => none

/-- `COMMIT`: what the transaction wrote is there, and the notes. -/
def commit (s : Credentials Key) (tx : Rotating Key) : Credentials Key :=
  let s := { s with
    passwordHash := some tx.hash, rotating := none
    current := some tx.newPassword, kept := tx.keeps, changes := s.changes + 1 }
  match tx.request with
  | .change _ => { s with sessions := s.sessions.map fun session =>
      if session.id ∈ tx.ended then { session with revokedAt := some tx.began } else session }
  | .reset tokenHash => { s with
      sessions := s.sessions.filter fun session => session.id ∉ tx.ended
      resetTokens := s.resetTokens.map fun row =>
        if row.tokenHash ∈ tx.marked then { row with usedAt := some tx.began } else row
      resets := s.resets + 1
      redeemed := s.redeemed ++ ((s.resetTokens.filter fun row => row.tokenHash = tokenHash).map
        fun row => ⟨tokenHash, row.issued, s.resets⟩) }

/-- The next statement of the transaction that holds the row of `users`; nothing where it
has to wait. -/
def proceed (s : Credentials Key) (tx : Rotating Key) : Option (Credentials Key) :=
  match tx.next, tx.request with
  | .ownToken, .change _ => none
  | .ownToken, .reset tokenHash =>
    some { s with rotating := some { tx with
      marked := tx.marked ++ [tokenHash], next := .sessions } }
  | .sessions, .change keepSessionId => some { s with rotating := some { tx with
      seenSessions := s.sessions.map (·.id)
      ended := (s.sessions.filter fun session =>
        session.revokedAt = none ∧ some session.id ≠ keepSessionId).map (·.id)
      next := .commit } }
  | .sessions, .reset _ => some { s with rotating := some { tx with
      seenSessions := s.sessions.map (·.id), ended := s.sessions.map (·.id), next := .scan } }
  | .scan, _ => some { s with rotating := some { tx with
      seenTokens := s.resetTokens.map (·.tokenHash)
      next := .otherTokens ((s.resetTokens.filter fun row =>
        row.usedAt = none ∧ row.tokenHash ∉ tx.marked).map (·.tokenHash)) } }
  | .otherTokens found, _ =>
    if ∀ tokenHash ∈ found, (s.redeeming tokenHash).isNone then
      some { s with rotating := some { tx with
        marked := tx.marked ++ (s.resetTokens.filter fun row =>
          row.tokenHash ∈ found ∧ row.usedAt = none).map (·.tokenHash)
        next := .commit } }
    else none
  | .commit, _ => some (s.commit tx)

end Credentials

inductive RotationEvent (Key : Type) where
  | tick (elapsed : Time)
  | login (password : String)
  | changePassword (currentPassword newPassword : String) (keepSessionId : Option Uuid)
  | issueReset (token : String)
  | redeemReset (token newPassword : String)
  /-- The next statement of a request that holds no lock. -/
  | runs (task : RotationTask Key) (fresh : Uuid) (token : String) (salt : Salt)
  /-- A reset that holds its token gets the row of `users`. -/
  | startReset (tokenHash : String)
  /-- The next statement of the transaction that holds the row of `users`. -/
  | proceeds
  /-- A request ends where it is: refused by a limit, its statement failed or was the
  victim of a deadlock. -/
  | fails (task : RotationTask Key)
  | abandons (tokenHash : String)
  | aborts

namespace Credentials

def step [DecidableEq Key] (env : RotationEnv Key) (s : Credentials Key) :
    RotationEvent Key → Option (Credentials Key)
  | .tick elapsed => some { s with now := s.now + elapsed }
  | .login password => some (s.login password)
  | .changePassword currentPassword newPassword keepSessionId =>
    some (s.changePassword currentPassword newPassword keepSessionId)
  | .issueReset token => some (s.issueReset token)
  | .redeemReset token newPassword => some (s.arrive (.resetFinds token newPassword s.now))
  | .runs task fresh token salt =>
    if task ∈ s.tasks then { s with tasks := s.tasks.erase task }.run env task fresh token salt
    else none
  | .startReset tokenHash => s.startReset tokenHash
  | .proceeds => s.rotating.bind s.proceed
  | .fails task => if task ∈ s.tasks then some { s with tasks := s.tasks.erase task } else none
  | .abandons tokenHash =>
    some { s with redeeming := Function.update s.redeeming tokenHash none }
  | .aborts => some { s with rotating := none }

/-- A row of `sessions` is **live**: some token resolves through it. -/
def IsLive (env : RotationEnv Key) (s : Credentials Key) (session : SignedIn) : Prop :=
  ∃ token, (resolveSession ⟨s.now, env.hashToken, none⟩
    { users := [s.user], sessions := [session.toSessionRow] } token).isSome

end Credentials

/-- **The machine of one account.** It starts with any rows and with no request under way;
the tokens there are were issued before any reset counted here. -/
def rotation [DecidableEq Key] (env : RotationEnv Key) :
    Machine (Credentials Key) (RotationEvent Key) where
  init s := s.tasks = [] ∧ s.redeeming = (fun _ => none) ∧ s.rotating = none ∧
    s.current = none ∧ s.kept = none ∧ s.changes = 0 ∧ s.resets = 0 ∧ s.redeemed = [] ∧
    (s.resetTokens.map (·.tokenHash)).Nodup ∧ ∀ row ∈ s.resetTokens, row.issued = 0
  step := Credentials.step env

end Sone
