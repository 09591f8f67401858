import Sone.Access.Standing
import Sone.Doc.Text
import Sone.Transition.Machine

/-!
# Invitations

The table `invitations` and what consumes its rows (`auth/registration.ts`): `register`, with an
invitation in hand or without, and `acceptInvitation`, of an account that is there already. Each
is a transaction of several statements. `invites` is the machine of any number of them, in any
order that the locks allow: what a transaction writes is seen by the others from its commit on,
an `UPDATE` of an invitation holds its row until then, and so does the `SELECT … FOR UPDATE`
that only `register` in the mode `invite` begins with.

Every commit that lets somebody in through an invitation is an `Admission`. `Sound` is what
should hold of them. `register` in the mode `open` does not look at the address of an invitation,
and `acceptInvitation` counts a use of an invitation to the instance that lets nobody in:
`sound_of_guarded` says that nothing else goes wrong.
-/

namespace Sone

open Option Function

/-- `SignupMode`, but for `closed`, in which `register` throws. -/
inductive SignupMode where
  | «open»
  | invite
  deriving DecidableEq

namespace Invitations

/-- `invitations` -/
structure InvitationRow where
  id : ℕ
  workspaceId : Option ℕ
  email : Option String
  role : WorkspaceRole
  tokenHash : String
  maxUses : ℕ
  uses : ℕ
  expiresAt : ℕ
  /-- `revoked_at IS NOT NULL` -/
  revoked : Bool
  deriving DecidableEq

/-- `users` -/
structure Account where
  id : ℕ
  email : Option String
  deriving DecidableEq

/-- `workspace_members` -/
structure Member where
  workspaceId : ℕ
  userId : ℕ
  role : WorkspaceRole
  deriving DecidableEq

/-- The key of `workspace_members`. -/
def Member.key (row : Member) : ℕ × ℕ := (row.workspaceId, row.userId)

structure InviteEnv where
  hashToken : String → String
  /-- `text.toLowerCase()`, and `lower(text)`. -/
  lower : String → String

structure InvitationInfo where
  id : ℕ
  workspaceId : Option ℕ
  email : Option String
  role : WorkspaceRole
  remainingUses : ℕ
  deriving DecidableEq

/-- What a transaction has written: an account, a membership, and a use of an invitation. -/
structure Write where
  account : Option Account
  member : Option Member
  uses : Option ℕ
  deriving DecidableEq

inductive Place where
  /-- `register`: `SELECT … FOR UPDATE`, `inspectInvitation`, and the inserts. -/
  | lock (email token : String)
  | inspect (mode : SignupMode) (email : String) (token : Option String)
  | insert (email : String) (invitation : Option InvitationInfo)
  /-- `acceptInvitation`: `inspectInvitation`, the address, and the membership. -/
  | acceptInspect (token : String) (user : ℕ)
  | acceptAddress (user : ℕ) (email : String) (invitation : InvitationInfo) (workspaceId : ℕ)
  | acceptInsert (user : ℕ) (invitation : InvitationInfo) (workspaceId : ℕ)
  /-- `UPDATE invitations SET uses = uses + 1`. -/
  | use (invitation : ℕ) (write : Write)
  | commit (write : Write)
  deriving DecidableEq

/-- A transaction, with the moment it began (`now()`) and the invitations there were then. -/
structure Transaction where
  startedAt : ℕ
  before : Keyed InvitationRow.id
  place : Place

/-- **Somebody is let in** through an invitation: an account is made, or a membership, by a
transaction that began at a moment with the invitations there were then. -/
structure Admission where
  invitation : ℕ
  email : Option String
  workspaceId : Option ℕ
  startedAt : ℕ
  before : Keyed InvitationRow.id

/-- The tables, the transactions, the locks of rows of `invitations` and of keys of
`workspace_members`, and who was let in. -/
structure State where
  now : ℕ
  invitations : Keyed InvitationRow.id
  users : Keyed Account.id
  members : Keyed Member.key
  transactions : ℕ → Option Transaction
  locks : ℕ → Option ℕ
  inserting : ℕ × ℕ → Option ℕ
  admissions : List Admission

inductive Request where
  | register (mode : SignupMode) (email : String) (token : Option String)
  | accept (token : String) (user : ℕ)

inductive Event where
  | tick (ms : ℕ)
  /-- `createInvitation`, with the id and the token that are drawn and `Date.now()`. -/
  | create (id : ℕ) (workspaceId : Option ℕ) (email : Option String)
      (role : Option WorkspaceRole) (maxUses ttlDays : Option ℕ) (token : String) (issued : ℕ)
  | revoke (id : ℕ)
  | begin (call : ℕ) (request : Request)
  /-- The next statement of a transaction, with the id that is drawn where it makes an
  account. -/
  | next (call user : ℕ)
  | rollback (call : ℕ)

variable (env : InviteEnv)

/-! ### The functions -/

/-- `MAX_LINK_USES` -/
def maxLinkUses : ℕ := 1000

def isUseCount (n : ℕ) : Bool := 1 ≤ n && n ≤ maxLinkUses

/-- `INVITATION_TTL_DAYS` -/
def invitationTtlDays : ℕ := 14

/-- An address as it is stored: `email.trim().toLowerCase()`. -/
def address (email : String) : String := env.lower (JsString.trim email)

/-- `createInvitation`: the row it inserts, where it does not throw. -/
def createInvitation (id : ℕ) (workspaceId : Option ℕ) (email : Option String)
    (role : Option WorkspaceRole) (maxUses ttlDays : Option ℕ) (token : String) (issued : ℕ) :
    Option InvitationRow :=
  let email := (email.map (address env)).filter (· ≠ "")
  if maxUses.all isUseCount ∧ role ≠ some .owner ∧
      (workspaceId.isSome ∨ role.getD .member = .member) then
    some {
      id, workspaceId, email
      role := role.getD .member
      tokenHash := env.hashToken token
      maxUses := if email.isSome then 1 else maxUses.getD 1
      uses := 0
      expiresAt := issued + ttlDays.getD invitationTtlDays * 86400000
      revoked := false }
  else none

/-- Whether an invitation is found: it is neither revoked nor expired, and it has a use left where
those that are spent are not asked for. -/
def InvitationRow.isFound (row : InvitationRow) (now : ℕ) (spent : Bool) : Bool :=
  !row.revoked && now < row.expiresAt && (spent || row.uses < row.maxUses)

def InvitationRow.info (row : InvitationRow) : InvitationInfo where
  id := row.id
  workspaceId := row.workspaceId
  email := row.email
  role := row.role
  remainingUses := row.maxUses - row.uses

def inspectInvitation (invitations : Keyed InvitationRow.id) (now : ℕ) (token : String)
    (spent : Bool) : Option InvitationInfo :=
  (invitations.rows.find? fun row =>
    row.tokenHash = env.hashToken token && row.isFound now spent).map InvitationRow.info

/-- Where `register` begins, once the address is one. -/
def registerPlace (mode : SignupMode) (email : String) (token : Option String) : Option Place :=
  let email := address env email
  if '@' ∈ email.toList ∧ JsString.length email ≤ 320 then
    match mode, token.filter (· ≠ "") with
    | .invite, none => none
    | .invite, some token => some (.lock email token)
    | .open, token => some (.inspect .open email token)
  else none

/-- What comes after `inspectInvitation` in `register`. -/
def registerInspected (mode : SignupMode) (email : String) (info : Option InvitationInfo) :
    Option Place :=
  match mode, info with
  | .invite, none => none
  | .invite, some info =>
    if info.email.any (· ≠ email) then none else some (.insert email (some info))
  | .open, info => some (.insert email info)

/-- What `register` has written after the inserts. -/
def registerWrite (user : ℕ) (email : String) (info : Option InvitationInfo) : Write where
  account := some { id := user, email := some email }
  member := info.bind fun info => info.workspaceId.map fun workspaceId =>
    { workspaceId, userId := user, role := info.role }
  uses := none

/-- What comes after `inspectInvitation` in `acceptInvitation`. -/
def acceptInspected (user : ℕ) (info : InvitationInfo) : Option Place :=
  match info.workspaceId with
  | none =>
    if info.remainingUses = 0 then none
    else some (.use info.id { account := none, member := none, uses := none })
  | some workspaceId =>
    match info.email.filter (· ≠ "") with
    | some email => some (.acceptAddress user email info workspaceId)
    | none => some (.acceptInsert user info workspaceId)

/-! ### Steps -/

def State.begins (s : State) (call : ℕ) (place : Place) : State :=
  { s with
    transactions := Function.update s.transactions call
      (some { startedAt := s.now, before := s.invitations, place }) }

/-- Where a request begins, where it does not throw. -/
def Request.place : Request → Option Place
  | register mode email token => registerPlace env mode email token
  | accept token user => some (.acceptInspect token user)

def State.goes (s : State) (call : ℕ) (transaction : Transaction) (place : Place) : State :=
  { s with transactions := Function.update s.transactions call (some { transaction with place }) }

/-- A transaction is over, and its locks are released. -/
def State.ends (s : State) (call : ℕ) : State :=
  { s with
    transactions := Function.update s.transactions call none
    locks := fun id => (s.locks id).filter (· ≠ call)
    inserting := fun key => (s.inserting key).filter (· ≠ call) }

/-- An invitation is used once more. -/
def useInvitation (invitations : Keyed InvitationRow.id) (id : ℕ) : Keyed InvitationRow.id :=
  invitations.modify (fun row => if row.id = id then { row with uses := row.uses + 1 } else row)
    fun row => by split <;> rfl

def revokeInvitation (invitations : Keyed InvitationRow.id) (id : ℕ) : Keyed InvitationRow.id :=
  invitations.modify (fun row => if row.id = id then { row with revoked := true } else row)
    fun row => by split <;> rfl

/-- The address of whoever a transaction lets in. -/
def State.emailOf (s : State) (write : Write) : Option String :=
  match write.account, write.member with
  | some account, _ => account.email
  | none, some member => (s.users.find member.userId).bind (·.email)
  | none, none => none

def State.admits (s : State) (transaction : Transaction) (write : Write) : List Admission :=
  match write.uses with
  | some id =>
    if write.account.isSome || write.member.isSome then
      [{ invitation := id
         email := s.emailOf write
         workspaceId := write.member.map (·.workspaceId)
         startedAt := transaction.startedAt
         before := transaction.before }]
    else []
  | none => []

def State.applies (s : State) (transaction : Transaction) (write : Write) : State :=
  { s with
    invitations := write.uses.elim s.invitations (useInvitation s.invitations)
    users := write.account.elim s.users s.users.upsert
    members := write.member.elim s.members s.members.upsert
    admissions := s.admissions ++ s.admits transaction write }

/-- The next statement of a transaction, or `none` where it waits or throws. -/
def next (s : State) (call user : ℕ) (transaction : Transaction) : Option State :=
  let goes := s.goes call transaction
  match transaction.place with
  | .lock email token =>
    match s.invitations.rows.find? fun row => row.tokenHash = env.hashToken token with
    | none => some (goes (.inspect .invite email (some token)))
    | some row =>
      if s.locks row.id = none then
        some { goes (.inspect .invite email (some token)) with
          locks := Function.update s.locks row.id (some call) }
      else none
  | .inspect mode email token =>
    (registerInspected mode email (token.bind fun token =>
      inspectInvitation env s.invitations transaction.startedAt token false)).map goes
  | .insert email info =>
    if (s.users.rows.any fun row => row.email.any (env.lower · = email)) ∨
        (s.users.find user).isSome then none
    else
      match info with
      | none => some (goes (.commit (registerWrite user email none)))
      | some info => some (goes (.use info.id (registerWrite user email (some info))))
  | .acceptInspect token user =>
    ((inspectInvitation env s.invitations transaction.startedAt token true).bind
      (acceptInspected user)).map goes
  | .acceptAddress user email info workspaceId =>
    if ((s.users.find user).bind (·.email)).any (env.lower · = env.lower email) then
      some (goes (.acceptInsert user info workspaceId))
    else none
  | .acceptInsert user info workspaceId =>
    if info.remainingUses = 0 then
      -- a spent one is an answer for who is inside, and no way in
      if (s.members.find (workspaceId, user)).isSome then
        some (goes (.commit { account := none, member := none, uses := none }))
      else none
    else if s.inserting (workspaceId, user) ≠ none then none
    else if (s.members.find (workspaceId, user)).isSome then
      some (goes (.commit { account := none, member := none, uses := none }))
    else if (s.users.find user).isSome then
      some { goes (.use info.id {
          account := none
          member := some { workspaceId, userId := user, role := info.role }
          uses := none }) with
        inserting := Function.update s.inserting (workspaceId, user) (some call) }
    else none
  | .use id write =>
    match s.invitations.find id with
    | none => some (goes (.commit write))
    | some row =>
      if (s.locks id).all (· = call) ∧ row.uses + 1 ≤ row.maxUses then
        some { goes (.commit { write with uses := some id }) with
          locks := Function.update s.locks id (some call) }
      else none
  | .commit write =>
    -- the unique index on addresses, for two that are new at once
    if write.account.any fun account => (s.users.find account.id).isSome ||
        s.users.rows.any fun row => row.email.map env.lower = account.email.map env.lower then none
    else some ((s.applies transaction write).ends call)

/-- The state after an event, or `none` where it cannot happen. -/
def step (s : State) : Event → Option State
  | .tick ms => some { s with now := s.now + ms }
  | .create id workspaceId email role maxUses ttlDays token issued =>
    (createInvitation env id workspaceId email role maxUses ttlDays token issued).bind fun row =>
      if (s.invitations.find id).isSome ∨
          s.invitations.rows.any (·.tokenHash = row.tokenHash) then none
      else some { s with invitations := s.invitations.upsert row }
  | .revoke id =>
    if s.locks id = none then some { s with invitations := revokeInvitation s.invitations id }
    else none
  | .begin call request =>
    if (s.transactions call).isSome then none else (request.place env).map (s.begins call)
  | .next call user => (s.transactions call).bind (next env s call user)
  | .rollback call => (s.transactions call).map fun _ => s.ends call

end Invitations

open Invitations in
/-- **The invitations of an instance**, from no invitation and any accounts and memberships. -/
def invites (env : InviteEnv) : Machine State Event where
  init s := s.invitations = .empty ∧ s.transactions = (fun _ => none) ∧ s.admissions = []
  step := Invitations.step env

namespace Invitations

variable {env : InviteEnv} {s s' : State} {e : Event}

/-! ### What should hold -/

/-- Whether an invitation **was open** to a transaction: when it began, the invitation was neither
revoked nor expired nor used up, if it was there. -/
def WasOpen (startedAt : ℕ) (before : Keyed InvitationRow.id) (id : ℕ) : Prop :=
  ∀ row, before.find id = some row →
    row.revoked = false ∧ startedAt < row.expiresAt ∧ row.uses < row.maxUses

variable (env) in
/-- Whether an invitation may be used by whoever has an address. -/
def MayUse (row : InvitationRow) (email : Option String) : Prop :=
  ∀ bound, row.email = some bound → ∃ given, email = some given ∧ env.lower given = env.lower bound

variable (env) in
/-- **Invitations admit whom they are for.** Those an invitation has let in number its uses, which
are no more than it has; it was open when the transaction of each began; and a membership in its
workspace went to whom it is bound to. -/
structure Sound (s : State) : Prop where
  counted : ∀ row ∈ s.invitations.rows,
    row.uses = s.admissions.countP (fun admission => admission.invitation = row.id) ∧
      row.uses ≤ row.maxUses
  wasOpen : ∀ admission ∈ s.admissions,
    WasOpen admission.startedAt admission.before admission.invitation
  addressed : ∀ admission ∈ s.admissions, admission.workspaceId ≠ none →
    ∀ row ∈ s.invitations.rows, row.id = admission.invitation → MayUse env row admission.email

variable (env) in
/-- Whether a transaction is about to use an invitation **that is not for it**: `register` in the
mode `open` finds one to a workspace that is bound to another address, or `acceptInvitation` finds
one to the instance that is not spent. -/
def Transaction.strays (invitations : Keyed InvitationRow.id) (transaction : Transaction) : Bool :=
  match transaction.place with
  | .inspect .open email (some token) =>
    (inspectInvitation env invitations transaction.startedAt token false).any fun info =>
      info.workspaceId.isSome && info.email.any (· ≠ email)
  | .acceptInspect token _ =>
    (inspectInvitation env invitations transaction.startedAt token true).any fun info =>
      info.workspaceId.isNone && info.remainingUses ≠ 0
  | _ => false

variable (env) in
/-- No transaction that goes on is about to use an invitation that is not for it. -/
def Guarded (s : State) : Event → Prop
  | .next call _ => (s.transactions call).any (Transaction.strays env s.invitations) = false
  | _ => True

/-! ### Rows over time -/

/-- A row of `invitations` **at a later time**. -/
structure Later (row row' : InvitationRow) : Prop where
  workspaceId : row'.workspaceId = row.workspaceId
  email : row'.email = row.email
  expiresAt : row'.expiresAt = row.expiresAt
  maxUses : row'.maxUses = row.maxUses
  revoked : row.revoked = true → row'.revoked = true
  uses : row.uses ≤ row'.uses

theorem Later.refl (row : InvitationRow) : Later row row := ⟨rfl, rfl, rfl, rfl, id, le_rfl⟩

theorem Later.trans {a b c : InvitationRow} (h : Later a b) (h' : Later b c) : Later a c :=
  ⟨h'.workspaceId.trans h.workspaceId, h'.email.trans h.email, h'.expiresAt.trans h.expiresAt,
    h'.maxUses.trans h.maxUses, fun hrevoked => h'.revoked (h.revoked hrevoked),
    h.uses.trans h'.uses⟩

/-- A table of invitations at a later time: its rows are there still. -/
def Grown (before after : Keyed InvitationRow.id) : Prop :=
  ∀ id row, before.find id = some row → ∃ row', after.find id = some row' ∧ Later row row'

theorem Grown.refl (invitations : Keyed InvitationRow.id) : Grown invitations invitations :=
  fun _ row h => ⟨row, h, .refl row⟩

theorem Grown.trans {a b c : Keyed InvitationRow.id} (h : Grown a b) (h' : Grown b c) :
    Grown a c := fun id row hrow => by
  obtain ⟨row', hrow', hlater⟩ := h id row hrow
  obtain ⟨row'', hrow'', hlater'⟩ := h' id row' hrow'
  exact ⟨row'', hrow'', hlater.trans hlater'⟩

theorem find_useInvitation (invitations : Keyed InvitationRow.id) (id other : ℕ) :
    (useInvitation invitations id).find other = (invitations.find other).map fun row =>
      if row.id = id then { row with uses := row.uses + 1 } else row :=
  Keyed.find_modify _

theorem find_revokeInvitation (invitations : Keyed InvitationRow.id) (id other : ℕ) :
    (revokeInvitation invitations id).find other = (invitations.find other).map fun row =>
      if row.id = id then { row with revoked := true } else row :=
  Keyed.find_modify _

theorem grown_useInvitation (invitations : Keyed InvitationRow.id) (id : ℕ) :
    Grown invitations (useInvitation invitations id) := fun other row hrow => by
  refine ⟨_, (find_useInvitation ..).trans (congrArg _ hrow), ?_⟩
  dsimp only
  split_ifs
  · exact ⟨rfl, rfl, rfl, rfl, fun h => h, Nat.le_succ _⟩
  · exact .refl row

theorem grown_revokeInvitation (invitations : Keyed InvitationRow.id) (id : ℕ) :
    Grown invitations (revokeInvitation invitations id) := fun other row hrow => by
  refine ⟨_, (find_revokeInvitation ..).trans (congrArg _ hrow), ?_⟩
  dsimp only
  split_ifs
  · exact ⟨rfl, rfl, rfl, rfl, fun _ => rfl, le_rfl⟩
  · exact .refl row

theorem grown_upsert {invitations : Keyed InvitationRow.id} {row : InvitationRow}
    (hnew : invitations.find row.id = none) : Grown invitations (invitations.upsert row) :=
  fun id old hold => by
    have hne : row.id ≠ id := fun h => by
      rw [h, hold] at hnew
      cases hnew
    exact ⟨old, by rw [Keyed.find_upsert, if_neg hne, hold], .refl old⟩

theorem wasOpen_of_found {invitations before : Keyed InvitationRow.id} {row : InvitationRow}
    {startedAt : ℕ} (hgrown : Grown before invitations)
    (hrow : invitations.find row.id = some row) (hrevoked : row.revoked = false)
    (hexpires : startedAt < row.expiresAt) (huses : row.uses < row.maxUses) :
    WasOpen startedAt before row.id := fun old hold => by
  obtain ⟨row', hrow', hlater⟩ := hgrown _ old hold
  cases hrow.symm.trans hrow'
  refine ⟨?_, hlater.expiresAt ▸ hexpires, ?_⟩
  · by_contra hold'
    rw [hlater.revoked (Bool.not_eq_false _ ▸ hold')] at hrevoked
    cases hrevoked
  · exact lt_of_le_of_lt hlater.uses (hlater.maxUses ▸ huses)

/-! ### The invariant -/

variable (env s) in
/-- **What lets somebody in** through an invitation: a write of an account or a membership, by a
transaction the invitation was open to, for whom it is for. -/
structure Admits (transaction : Transaction) (id : ℕ) (write : Write) : Prop where
  somebody : (write.account.isSome || write.member.isSome) = true
  wasOpen : WasOpen transaction.startedAt transaction.before id
  fits : ∃ row, s.invitations.find id = some row ∧
    (write.member ≠ none → MayUse env row (s.emailOf write))

def InvitationInfo.Describes (info : InvitationInfo) (s : State) : Prop :=
  ∃ row, s.invitations.find info.id = some row ∧ row.workspaceId = info.workspaceId ∧
    row.email = info.email

variable (env s) in
def Transaction.Holds (call : ℕ) (transaction : Transaction) : Prop :=
  match transaction.place with
  | .insert email (some info) => info.Describes s ∧
      WasOpen transaction.startedAt transaction.before info.id ∧
      (info.workspaceId ≠ none → ∀ bound, info.email = some bound → email = bound)
  | .acceptAddress _ email info workspaceId => info.Describes s ∧
      info.workspaceId = some workspaceId ∧ info.email = some email ∧
      (info.remainingUses ≠ 0 → WasOpen transaction.startedAt transaction.before info.id)
  | .acceptInsert user info workspaceId => info.Describes s ∧
      info.workspaceId = some workspaceId ∧
      (info.remainingUses ≠ 0 → WasOpen transaction.startedAt transaction.before info.id) ∧
      ∀ bound, info.email = some bound → ∃ given, (s.users.find user).bind (·.email) = some given ∧
        env.lower given = env.lower bound
  | .use id write => Admits env s transaction id write ∧ write.uses = none
  | .commit write => ∀ id, write.uses = some id → Admits env s transaction id write ∧
      s.locks id = some call ∧ ∀ row, s.invitations.find id = some row → row.uses < row.maxUses
  | .lock .. | .inspect .. | .insert _ none | .acceptInspect .. => True

variable (env) in
/-- **Invitations are accounted for.** -/
structure Accounted (s : State) : Prop where
  named : ∀ row ∈ s.invitations.rows, row.email ≠ some ""
  counted : ∀ row ∈ s.invitations.rows,
    row.uses = s.admissions.countP (fun admission => admission.invitation = row.id) ∧
      row.uses ≤ row.maxUses
  admitted : ∀ admission ∈ s.admissions,
    WasOpen admission.startedAt admission.before admission.invitation ∧
      ∃ row, s.invitations.find admission.invitation = some row ∧
        (admission.workspaceId ≠ none → MayUse env row admission.email)
  grown : ∀ call transaction, s.transactions call = some transaction →
    Grown transaction.before s.invitations
  holds : ∀ call transaction, s.transactions call = some transaction →
    transaction.Holds env s call

theorem Accounted.sound (h : Accounted env s) : Sound env s where
  counted := h.counted
  wasOpen := fun admission hadmission => (h.admitted admission hadmission).1
  addressed := fun admission hadmission hmember row hrow hid => by
    obtain ⟨-, row', hrow', hfits⟩ := h.admitted admission hadmission
    rw [Keyed.mem_rows_iff, hid, hrow'] at hrow
    cases hrow
    exact hfits hmember

/-! ### What others do -/

/-- **What a transaction may rely on** while others go on: the rows and the accounts stay, and a
row that it has locked keeps its uses. -/
structure Keeps (s s' : State) (call : ℕ) : Prop where
  invitations : Grown s.invitations s'.invitations
  users : ∀ id account, s.users.find id = some account → s'.users.find id = some account
  locks : ∀ id, s.locks id = some call → s'.locks id = some call ∧
    ∀ row row', s.invitations.find id = some row → s'.invitations.find id = some row' →
      row'.uses = row.uses

theorem Keeps.emailOf {call : ℕ} (h : Keeps s s' call) {write : Write} {given : String}
    (hgiven : s.emailOf write = some given) : s'.emailOf write = some given := by
  cases haccount : write.account with
  | some account =>
    simp only [State.emailOf, haccount] at hgiven ⊢
    exact hgiven
  | none =>
    cases hmember : write.member with
    | none =>
      simp only [State.emailOf, haccount, hmember] at hgiven
      cases hgiven
    | some member =>
      simp only [State.emailOf, haccount, hmember] at hgiven ⊢
      obtain ⟨account, hfind, hemail⟩ := bind_eq_some_iff.mp hgiven
      exact bind_eq_some_iff.mpr ⟨account, h.users _ _ hfind, hemail⟩

theorem Keeps.describes {call : ℕ} (h : Keeps s s' call) {info : InvitationInfo}
    (hinfo : info.Describes s) : info.Describes s' := by
  obtain ⟨row, hrow, hworkspace, hemail⟩ := hinfo
  obtain ⟨row', hrow', hlater⟩ := h.invitations _ row hrow
  exact ⟨row', hrow', hlater.workspaceId.trans hworkspace, hlater.email.trans hemail⟩

theorem Keeps.admits {call : ℕ} (h : Keeps s s' call) {transaction : Transaction} {id : ℕ}
    {write : Write} (hadmits : Admits env s transaction id write) :
    Admits env s' transaction id write := by
  obtain ⟨hsomebody, hopen, row, hrow, hfits⟩ := hadmits
  obtain ⟨row', hrow', hlater⟩ := h.invitations _ row hrow
  refine ⟨hsomebody, hopen, row', hrow', fun hmember bound hbound => ?_⟩
  obtain ⟨given, hgiven, hsame⟩ := hfits hmember bound (hlater.email ▸ hbound)
  exact ⟨given, h.emailOf hgiven, hsame⟩

/-- **What a transaction goes by stays**, whatever the others do. -/
theorem Keeps.holds {call : ℕ} (h : Keeps s s' call) {transaction : Transaction}
    (hholds : transaction.Holds env s call) : transaction.Holds env s' call := by
  obtain ⟨startedAt, before, place⟩ := transaction
  cases place with
  | lock | inspect | acceptInspect => trivial
  | insert email info =>
    cases info with
    | none => trivial
    | some info => exact ⟨h.describes hholds.1, hholds.2⟩
  | acceptAddress user email info workspaceId => exact ⟨h.describes hholds.1, hholds.2⟩
  | acceptInsert user info workspaceId =>
    obtain ⟨hinfo, hworkspace, hopen, hemail⟩ := hholds
    refine ⟨h.describes hinfo, hworkspace, hopen, fun bound hbound => ?_⟩
    obtain ⟨given, hgiven, hsame⟩ := hemail bound hbound
    obtain ⟨account, hfind, haccount⟩ := bind_eq_some_iff.mp hgiven
    exact ⟨given, bind_eq_some_iff.mpr ⟨account, h.users _ _ hfind, haccount⟩, hsame⟩
  | use id write => exact ⟨h.admits hholds.1, hholds.2⟩
  | commit write =>
    intro id huses
    obtain ⟨hadmits, hlock, hless⟩ := hholds id huses
    obtain ⟨hlock', hsame⟩ := h.locks id hlock
    refine ⟨h.admits hadmits, hlock', fun row' hrow' => ?_⟩
    obtain ⟨-, -, row, hrow, -⟩ := hadmits
    obtain ⟨row'', hrow'', hlater⟩ := h.invitations _ row hrow
    cases hrow'.symm.trans hrow''
    rw [hsame row row' hrow hrow', hlater.maxUses]
    exact hless row hrow

theorem keeps_of_tables {call : ℕ} (hinvitations : s'.invitations = s.invitations)
    (husers : s'.users = s.users)
    (hlocks : ∀ id, s.locks id = some call → s'.locks id = some call) :
    Keeps s s' call where
  invitations := hinvitations ▸ Grown.refl s.invitations
  users := fun id account hfind => husers ▸ hfind
  locks := fun id hlock => ⟨hlocks id hlock, fun row row' hrow hrow' => by
    rw [hinvitations, hrow] at hrow'
    cases hrow'
    rfl⟩

/-- **A transaction that writes no table yet** moves to another place, or is over. -/
theorem Accounted.moves (h : Accounted env s) {call : ℕ} {moved : Option Transaction}
    (hinvitations : s'.invitations = s.invitations) (husers : s'.users = s.users)
    (hadmissions : s'.admissions = s.admissions)
    (htransactions : s'.transactions = Function.update s.transactions call moved)
    (hlocks : ∀ other, other ≠ call → ∀ id, s.locks id = some other → s'.locks id = some other)
    (hmoved : ∀ t, moved = some t → Grown t.before s.invitations ∧ t.Holds env s' call) :
    Accounted env s' where
  named := hinvitations ▸ h.named
  counted := hinvitations ▸ hadmissions ▸ h.counted
  admitted := hinvitations ▸ hadmissions ▸ h.admitted
  grown := fun other t ht => by
    rw [htransactions, update_apply] at ht
    rw [hinvitations]
    split_ifs at ht
    · exact (hmoved t ht).1
    · exact h.grown other t ht
  holds := fun other t ht => by
    rw [htransactions, update_apply] at ht
    split_ifs at ht with hother
    · exact hother ▸ (hmoved t ht).2
    · exact (keeps_of_tables hinvitations husers (hlocks other hother)).holds (h.holds other t ht)

/-! ### Statements -/

theorem found_of_inspect {invitations : Keyed InvitationRow.id} {now : ℕ} {token : String}
    {spent : Bool} {info : InvitationInfo}
    (h : inspectInvitation env invitations now token spent = some info) :
    ∃ row, invitations.find row.id = some row ∧ info = row.info ∧
      row.isFound now spent = true := by
  obtain ⟨row, hfind, rfl⟩ := map_eq_some_iff.mp h
  have hfound := List.find?_some hfind
  rw [Bool.and_eq_true] at hfound
  exact ⟨row, Keyed.mem_rows_iff.mp (List.mem_of_find?_eq_some hfind), rfl, hfound.2⟩

/-- What `inspectInvitation` finds is what is there, and it was open if it has a use left. -/
theorem Accounted.inspected (h : Accounted env s) {call : ℕ} {t : Transaction} {token : String}
    {spent : Bool} {info : InvitationInfo} (ht : s.transactions call = some t)
    (hinfo : inspectInvitation env s.invitations t.startedAt token spent = some info) :
    info.Describes s ∧ info.email ≠ some "" ∧
      (info.remainingUses ≠ 0 → WasOpen t.startedAt t.before info.id) := by
  obtain ⟨row, hrow, rfl, hfound⟩ := found_of_inspect hinfo
  rw [InvitationRow.isFound, Bool.and_eq_true, Bool.and_eq_true, Bool.not_eq_true',
    decide_eq_true_eq] at hfound
  refine ⟨⟨row, hrow, rfl, rfl⟩, h.named row (Keyed.mem_rows hrow), fun huses => ?_⟩
  exact wasOpen_of_found (h.grown call t ht) hrow hfound.1.1 hfound.1.2
    (Nat.lt_of_sub_ne_zero huses)

theorem remainingUses_of_inspect {invitations : Keyed InvitationRow.id} {now : ℕ}
    {token : String} {info : InvitationInfo}
    (h : inspectInvitation env invitations now token false = some info) :
    info.remainingUses ≠ 0 := by
  obtain ⟨row, -, rfl, hfound⟩ := found_of_inspect h
  rw [InvitationRow.isFound, Bool.and_eq_true, Bool.false_or, decide_eq_true_eq] at hfound
  exact Nat.sub_ne_zero_of_lt hfound.2

section Next

variable {call user : ℕ} {t : Transaction}

theorem Accounted.goes (h : Accounted env s) (ht : s.transactions call = some t) (place : Place)
    (hplace : Transaction.Holds env s call { t with place }) :
    Accounted env (s.goes call t place) := by
  refine h.moves rfl rfl rfl rfl (fun _ _ _ hlock => hlock) fun t' ht' => ?_
  cases ht'
  have hkeeps : Keeps s (s.goes call t place) call := keeps_of_tables rfl rfl fun _ hlock => hlock
  exact ⟨h.grown call t ht, hkeeps.holds hplace⟩

theorem accounted_inspect (h : Accounted env s) (ht : s.transactions call = some t)
    {mode : SignupMode} {email : String} {token : Option String}
    (hplace : t.place = .inspect mode email token)
    (hguard : t.strays env s.invitations = false) {place : Place}
    (hnext : registerInspected mode email (token.bind fun token =>
      inspectInvitation env s.invitations t.startedAt token false) = some place) :
    Accounted env (s.goes call t place) := by
  refine h.goes ht place ?_
  cases hinfo : token.bind fun token =>
      inspectInvitation env s.invitations t.startedAt token false with
  | none =>
    rw [hinfo] at hnext
    cases mode <;> cases hnext
    trivial
  | some info =>
    obtain ⟨token, rfl, hinspect⟩ := bind_eq_some_iff.mp hinfo
    obtain ⟨hdescribes, -, hopen⟩ := h.inspected ht hinspect
    have hwas := hopen (remainingUses_of_inspect hinspect)
    rw [hinfo] at hnext
    cases mode with
    | «open» =>
      cases hnext
      refine ⟨hdescribes, hwas, fun hworkspace bound hbound => ?_⟩
      simp only [Transaction.strays, hplace, hinspect, any_some,
        isSome_iff_ne_none.mpr hworkspace, hbound, Bool.true_and, decide_eq_false_iff_not,
        ne_eq, not_not] at hguard
      exact hguard.symm
    | invite =>
      simp only [registerInspected] at hnext
      split_ifs at hnext with hother
      cases hnext
      refine ⟨hdescribes, hwas, fun _ bound hbound => ?_⟩
      rw [hbound, any_some, decide_eq_true_eq, not_not] at hother
      exact hother.symm

theorem accounted_acceptInspect (h : Accounted env s) (ht : s.transactions call = some t)
    {token : String} {who : ℕ} (hplace : t.place = .acceptInspect token who)
    (hguard : t.strays env s.invitations = false) {place : Place}
    (hnext : (inspectInvitation env s.invitations t.startedAt token true).bind
      (acceptInspected who) = some place) : Accounted env (s.goes call t place) := by
  refine h.goes ht place ?_
  obtain ⟨info, hinspect, hinfo⟩ := bind_eq_some_iff.mp hnext
  obtain ⟨hdescribes, hnamed, hopen⟩ := h.inspected ht hinspect
  rw [acceptInspected] at hinfo
  cases hworkspace : info.workspaceId with
  | none =>
    simp only [hworkspace] at hinfo
    split_ifs at hinfo with huses
    simp [Transaction.strays, hplace, hinspect, hworkspace, huses] at hguard
  | some workspaceId =>
    simp only [hworkspace] at hinfo
    cases hemail : info.email.filter (· ≠ "") with
    | some email =>
      rw [hemail] at hinfo
      cases hinfo
      exact ⟨hdescribes, hworkspace, (filter_eq_some_iff.mp hemail).1, hopen⟩
    | none =>
      rw [hemail] at hinfo
      cases hinfo
      refine ⟨hdescribes, hworkspace, hopen, fun bound hbound => ?_⟩
      rw [hbound] at hnamed hemail
      have hne : bound ≠ "" := fun hempty => hnamed (congrArg some hempty)
      simp [hne] at hemail

theorem accounted_insert (h : Accounted env s) (ht : s.transactions call = some t)
    {email : String} {info : InvitationInfo} (hplace : t.place = .insert email (some info)) :
    Accounted env (s.goes call t (.use info.id (registerWrite user email (some info)))) := by
  have hholds := h.holds call t ht
  rw [Transaction.Holds, hplace] at hholds
  obtain ⟨⟨row, hrow, hworkspace, hemail⟩, hopen, haddress⟩ := hholds
  refine h.goes ht _ ⟨⟨rfl, hopen, row, hrow, fun hmember bound hbound => ?_⟩, rfl⟩
  have hne : info.workspaceId ≠ none := fun hnone => hmember (by simp [registerWrite, hnone])
  exact ⟨email, rfl, congrArg env.lower (haddress hne bound (hemail ▸ hbound))⟩

theorem accounted_acceptAddress (h : Accounted env s) (ht : s.transactions call = some t)
    {who workspaceId : ℕ} {email : String} {info : InvitationInfo}
    (hplace : t.place = .acceptAddress who email info workspaceId)
    (hsame : ((s.users.find who).bind (·.email)).any (env.lower · = env.lower email) = true) :
    Accounted env (s.goes call t (.acceptInsert who info workspaceId)) := by
  have hholds := h.holds call t ht
  rw [Transaction.Holds, hplace] at hholds
  obtain ⟨hdescribes, hworkspace, hemail, hopen⟩ := hholds
  refine h.goes ht _ ⟨hdescribes, hworkspace, hopen, fun bound hbound => ?_⟩
  rw [hemail] at hbound
  cases hbound
  cases hgiven : (s.users.find who).bind (·.email) with
  | none =>
    rw [hgiven] at hsame
    cases hsame
  | some given =>
    rw [hgiven, any_some] at hsame
    exact ⟨given, rfl, of_decide_eq_true hsame⟩

theorem accounted_acceptInsert (h : Accounted env s) (ht : s.transactions call = some t)
    {who workspaceId : ℕ} {info : InvitationInfo}
    (hplace : t.place = .acceptInsert who info workspaceId) (huses : info.remainingUses ≠ 0) :
    Accounted env { s.goes call t (.use info.id {
        account := none
        member := some { workspaceId, userId := who, role := info.role }
        uses := none }) with
      inserting := Function.update s.inserting (workspaceId, who) (some call) } := by
  have hholds := h.holds call t ht
  rw [Transaction.Holds, hplace] at hholds
  obtain ⟨⟨row, hrow, -, hemail⟩, -, hopen, haddress⟩ := hholds
  refine h.moves rfl rfl rfl rfl (fun _ _ _ hlock => hlock) fun t' ht' => ?_
  cases ht'
  refine ⟨h.grown call t ht, ⟨rfl, hopen huses, row, hrow, fun _ bound hbound => ?_⟩, rfl⟩
  exact haddress bound (hemail ▸ hbound)

theorem accounted_use (h : Accounted env s) (ht : s.transactions call = some t) {id : ℕ}
    {write : Write} {row : InvitationRow} (hplace : t.place = .use id write)
    (hrow : s.invitations.find id = some row) (hlock : (s.locks id).all (· = call) = true)
    (huses : row.uses + 1 ≤ row.maxUses) :
    Accounted env { s.goes call t (.commit { write with uses := some id }) with
      locks := Function.update s.locks id (some call) } := by
  have hholds := h.holds call t ht
  rw [Transaction.Holds, hplace] at hholds
  obtain ⟨⟨hsomebody, hopen, hfits⟩, -⟩ := hholds
  refine h.moves rfl rfl rfl rfl (fun other hother id' hlock' => ?_) fun t' ht' => ?_
  · have hne : id' ≠ id := fun hid => by
      rw [hid] at hlock'
      rw [hlock', all_some, decide_eq_true_eq] at hlock
      exact hother hlock
    simp only [update_of_ne hne]
    exact hlock'
  · cases ht'
    refine ⟨h.grown call t ht, fun id' hid => ?_⟩
    cases hid
    refine ⟨⟨hsomebody, hopen, hfits⟩, update_self .., fun row' hrow' => ?_⟩
    cases hrow.symm.trans hrow'
    exact huses

theorem find_users_of_applies {write : Write}
    (hnew : ∀ account, write.account = some account → s.users.find account.id = none) (id : ℕ)
    (account : Account) (hfind : s.users.find id = some account) :
    (s.applies t write).users.find id = some account := by
  cases haccount : write.account with
  | none => simpa [State.applies, haccount] using hfind
  | some added =>
    have hne : added.id ≠ id := fun hid => by
      have hnone := hnew added haccount
      rw [hid, hfind] at hnone
      cases hnone
    simp only [State.applies, haccount, elim_some, Keyed.find_upsert, if_neg hne, hfind]

theorem grown_applies (write : Write) : Grown s.invitations (s.applies t write).invitations := by
  cases huses : write.uses with
  | none => simpa [State.applies, huses] using Grown.refl s.invitations
  | some id => simpa [State.applies, huses] using grown_useInvitation s.invitations id

theorem row_of_applies (t : Transaction) {write : Write} {row : InvitationRow}
    (hrow : row ∈ (s.applies t write).invitations.rows) :
    ∃ old ∈ s.invitations.rows, row.id = old.id ∧ row.email = old.email ∧
      row.maxUses = old.maxUses ∧
        row.uses = old.uses + if write.uses = some old.id then 1 else 0 := by
  cases huses : write.uses with
  | none =>
    simp only [State.applies, huses, elim_none] at hrow
    exact ⟨row, hrow, rfl, rfl, rfl, by simp⟩
  | some id =>
    simp only [State.applies, huses, elim_some, useInvitation, Keyed.modify,
      List.mem_map] at hrow
    obtain ⟨old, hold, rfl⟩ := hrow
    refine ⟨old, hold, ?_⟩
    by_cases hid : old.id = id
    · simp [hid]
    · simp [hid, Ne.symm hid]

theorem countP_admits {write : Write} (id : ℕ)
    (hholds : ∀ used, write.uses = some used → Admits env s t used write) :
    (s.admits t write).countP (fun admission => admission.invitation = id) =
      if write.uses = some id then 1 else 0 := by
  cases huses : write.uses with
  | none => simp [State.admits, huses]
  | some used =>
    have hsomebody := (hholds used huses).somebody
    simp only [State.admits, huses, hsomebody, if_true]
    by_cases hid : used = id
    · simp [hid]
    · simp [hid]

/-- **A commit admits whom it writes.** -/
theorem accounted_commit (h : Accounted env s) (ht : s.transactions call = some t) {write : Write}
    (hplace : t.place = .commit write)
    (hnew : ∀ account, write.account = some account → s.users.find account.id = none) :
    Accounted env ((s.applies t write).ends call) := by
  have hholds := h.holds call t ht
  rw [Transaction.Holds, hplace] at hholds
  have hgrown := @grown_applies s t write
  have hother : ∀ {other : ℕ} {t' : Transaction},
      ((s.applies t write).ends call).transactions other = some t' →
        other ≠ call ∧ s.transactions other = some t' := fun {other t'} ht' => by
    simp only [State.ends, State.applies, update_apply] at ht'
    split_ifs at ht' with hcall
    exact ⟨hcall, ht'⟩
  refine ⟨fun row hrow => ?_, fun row hrow => ?_, fun admission hadmission => ?_,
    fun other t' ht' => ?_, fun other t' ht' => ?_⟩
  · obtain ⟨old, hold, -, hemail, -⟩ := row_of_applies t hrow
    exact hemail ▸ h.named old hold
  · obtain ⟨old, hold, hid, -, hmax, huses⟩ := row_of_applies t hrow
    obtain ⟨hcount, hle⟩ := h.counted old hold
    have hadmits := @countP_admits env s t write old.id fun used hused => (hholds used hused).1
    have happend : ((s.applies t write).ends call).admissions =
        s.admissions ++ s.admits t write := rfl
    rw [huses, hmax, happend, List.countP_append, hid, hadmits, ← hcount]
    refine ⟨rfl, ?_⟩
    split_ifs with hused
    · exact (hholds old.id hused).2.2 old (Keyed.mem_rows_iff.mp hold)
    · exact hle
  · rcases List.mem_append.mp hadmission with hold | hnew'
    · obtain ⟨hopen, row, hrow, hfits⟩ := h.admitted admission hold
      obtain ⟨row', hrow', hlater⟩ := hgrown _ row hrow
      exact ⟨hopen, row', hrow', fun hmember bound hbound =>
        hfits hmember bound (hlater.email ▸ hbound)⟩
    · cases huses : write.uses with
      | none => simp [State.admits, huses] at hnew'
      | some id =>
        obtain ⟨hsomebody, hopen, row, hrow, hfits⟩ := (hholds id huses).1
        simp only [State.admits, huses, hsomebody, if_true, List.mem_singleton] at hnew'
        obtain ⟨row', hrow', hlater⟩ := hgrown _ row hrow
        subst hnew'
        refine ⟨hopen, row', hrow', fun hmember bound hbound => ?_⟩
        exact hfits (fun hnone => hmember (by simp [hnone])) bound (hlater.email ▸ hbound)
  · exact (h.grown other t' (hother ht').2).trans hgrown
  · obtain ⟨hne, ht''⟩ := hother ht'
    have hkeeps : Keeps s ((s.applies t write).ends call) other := by
      refine ⟨hgrown, @find_users_of_applies s t write hnew,
        fun id hlock => ⟨?_, fun row row' hrow hrow' => ?_⟩⟩
      · have hfilter : (some other).filter (· ≠ call) = some other := by
          simp [hne]
        simp only [State.ends, State.applies, hlock]
        exact hfilter
      · obtain ⟨old, hold, hid, -, -, huses⟩ := row_of_applies t (Keyed.mem_rows hrow')
        have hkey := Keyed.key_eq hrow'
        rw [Keyed.mem_rows_iff, ← hid, hkey, hrow] at hold
        cases hold
        -- the row is not the one whose use is committed, which that transaction has locked
        have hunused : write.uses ≠ some row.id := fun hused => by
          have hmine := (hholds row.id hused).2.1
          rw [← hid, hkey, hlock] at hmine
          exact hne (some.inj hmine)
        rw [huses, if_neg hunused, Nat.add_zero]
    exact hkeeps.holds (h.holds other t' ht'')

theorem accounted_lock (h : Accounted env s) (ht : s.transactions call = some t)
    {mode : SignupMode} {email : String} {token : Option String} {id : ℕ}
    (hfree : s.locks id = none) :
    Accounted env { s.goes call t (.inspect mode email token) with
      locks := Function.update s.locks id (some call) } := by
  refine h.moves rfl rfl rfl rfl (fun other hother id' hlock => ?_) fun t' ht' => ?_
  · have hne : id' ≠ id := fun hid => by
      rw [hid, hfree] at hlock
      cases hlock
    simp only [update_of_ne hne]
    exact hlock
  · cases ht'
    exact ⟨h.grown call t ht, trivial⟩

theorem accounted_next (h : Accounted env s) (ht : s.transactions call = some t)
    (hguard : t.strays env s.invitations = false) (hstep : next env s call user t = some s') :
    Accounted env s' := by
  cases hplace : t.place with
  | lock email token =>
    simp only [next, hplace] at hstep
    split at hstep
    · cases hstep
      exact h.goes ht _ trivial
    · split_ifs at hstep with hfree
      cases hstep
      exact accounted_lock h ht hfree
  | inspect mode email token =>
    simp only [next, hplace] at hstep
    obtain ⟨place, hnext, rfl⟩ := map_eq_some_iff.mp hstep
    exact accounted_inspect h ht hplace hguard hnext
  | insert email info =>
    simp only [next, hplace] at hstep
    split_ifs at hstep
    cases info with
    | none =>
      cases hstep
      exact h.goes ht _ fun id hid => by cases hid
    | some info =>
      cases hstep
      exact accounted_insert h ht hplace
  | acceptInspect token who =>
    simp only [next, hplace] at hstep
    obtain ⟨place, hnext, rfl⟩ := map_eq_some_iff.mp hstep
    exact accounted_acceptInspect h ht hplace hguard hnext
  | acceptAddress who email info workspaceId =>
    simp only [next, hplace] at hstep
    split_ifs at hstep with hsame
    cases hstep
    exact accounted_acceptAddress h ht hplace hsame
  | acceptInsert who info workspaceId =>
    simp only [next, hplace] at hstep
    split_ifs at hstep with huses
    · cases hstep
      exact h.goes ht _ fun id hid => by cases hid
    · cases hstep
      exact h.goes ht _ fun id hid => by cases hid
    · cases hstep
      exact accounted_acceptInsert h ht hplace huses
  | use id write =>
    simp only [next, hplace] at hstep
    split at hstep
    · cases hstep
      have hholds := h.holds call t ht
      rw [Transaction.Holds, hplace] at hholds
      refine h.goes ht _ fun id hid => ?_
      rw [hholds.2] at hid
      cases hid
    · rename_i row hrow
      split_ifs at hstep with hready
      cases hstep
      exact accounted_use h ht hplace hrow hready.1 hready.2
  | commit write =>
    simp only [next, hplace] at hstep
    split_ifs at hstep with hnew
    cases hstep
    refine accounted_commit h ht hplace fun account haccount => ?_
    rw [haccount, any_some, Bool.or_eq_true, not_or] at hnew
    exact not_isSome_iff_eq_none.mp hnew.1

end Next

/-! ### Events -/

theorem accounted_create (h : Accounted env s) {row : InvitationRow}
    (hemail : row.email ≠ some "") (huses : row.uses = 0)
    (hnew : s.invitations.find row.id = none) :
    Accounted env { s with invitations := s.invitations.upsert row } := by
  have hgrown := grown_upsert hnew
  have hrows : ∀ other ∈ (s.invitations.upsert row).rows, other = row ∨
      other ∈ s.invitations.rows := fun other hother => by
    rw [Keyed.mem_rows_iff, Keyed.find_upsert] at hother
    split_ifs at hother
    · exact .inl (some.inj hother).symm
    · exact .inr (Keyed.mem_rows hother)
  have hnobody : s.admissions.countP (fun admission => admission.invitation = row.id) = 0 := by
    refine List.countP_eq_zero.mpr fun admission hadmission hid => ?_
    obtain ⟨-, old, hold, -⟩ := h.admitted admission hadmission
    rw [of_decide_eq_true hid, hnew] at hold
    cases hold
  refine ⟨fun other hother => ?_, fun other hother => ?_, fun admission hadmission => ?_,
    fun call t ht => (h.grown call t ht).trans hgrown, fun call t ht => ?_⟩
  · rcases hrows other hother with rfl | hold
    · exact hemail
    · exact h.named other hold
  · rcases hrows other hother with rfl | hold
    · rw [huses, hnobody]
      exact ⟨rfl, Nat.zero_le _⟩
    · exact h.counted other hold
  · obtain ⟨hopen, old, hold, hfits⟩ := h.admitted admission hadmission
    obtain ⟨row', hrow', hlater⟩ := hgrown _ old hold
    exact ⟨hopen, row', hrow', fun hmember bound hbound =>
      hfits hmember bound (hlater.email ▸ hbound)⟩
  · have hkeeps : Keeps s { s with invitations := s.invitations.upsert row } call := by
      refine ⟨hgrown, fun _ _ hfind => hfind,
        fun id hlock => ⟨hlock, fun old old' hold hold' => ?_⟩⟩
      have hne : row.id ≠ id := fun hid => by
        rw [hid, hold] at hnew
        cases hnew
      rw [Keyed.find_upsert, if_neg hne, hold] at hold'
      cases hold'
      rfl
    exact hkeeps.holds (h.holds call t ht)

theorem accounted_revoke (h : Accounted env s) (id : ℕ) :
    Accounted env { s with invitations := revokeInvitation s.invitations id } := by
  have hgrown := grown_revokeInvitation s.invitations id
  have hrows : ∀ row ∈ (revokeInvitation s.invitations id).rows, ∃ old ∈ s.invitations.rows,
      row.id = old.id ∧ row.email = old.email ∧ row.uses = old.uses ∧ row.maxUses = old.maxUses :=
    fun row hrow => by
      obtain ⟨old, hold, rfl⟩ := List.mem_map.mp hrow
      refine ⟨old, hold, ?_⟩
      split_ifs
      · exact ⟨rfl, rfl, rfl, rfl⟩
      · exact ⟨rfl, rfl, rfl, rfl⟩
  refine ⟨fun row hrow => ?_, fun row hrow => ?_, fun admission hadmission => ?_,
    fun call t ht => (h.grown call t ht).trans hgrown, fun call t ht => ?_⟩
  · obtain ⟨old, hold, -, hemail, -⟩ := hrows row hrow
    exact hemail ▸ h.named old hold
  · obtain ⟨old, hold, hid, -, huses, hmax⟩ := hrows row hrow
    rw [huses, hmax, hid]
    exact h.counted old hold
  · obtain ⟨hopen, old, hold, hfits⟩ := h.admitted admission hadmission
    obtain ⟨row', hrow', hlater⟩ := hgrown _ old hold
    exact ⟨hopen, row', hrow', fun hmember bound hbound =>
      hfits hmember bound (hlater.email ▸ hbound)⟩
  · have hkeeps : Keeps s { s with invitations := revokeInvitation s.invitations id } call := by
      refine ⟨hgrown, fun _ _ hfind => hfind, fun locked hlock =>
        ⟨hlock, fun old row hold hrow => ?_⟩⟩
      rw [find_revokeInvitation, hold] at hrow
      cases hrow
      dsimp only
      split_ifs
      · rfl
      · rfl
    exact hkeeps.holds (h.holds call t ht)

theorem accounted_step (h : Accounted env s) (hguard : Guarded env s e)
    (hstep : step env s e = some s') : Accounted env s' := by
  cases e with
  | tick ms =>
    cases hstep
    refine ⟨h.named, h.counted, h.admitted, h.grown, fun call t ht => ?_⟩
    have hkeeps : Keeps s { s with now := s.now + ms } call :=
      keeps_of_tables rfl rfl fun _ hlock => hlock
    exact hkeeps.holds (h.holds call t ht)
  | create id workspaceId email role maxUses ttlDays token issued =>
    obtain ⟨row, hrow, hinsert⟩ := bind_eq_some_iff.mp hstep
    split_ifs at hinsert with hthere
    cases hinsert
    rw [createInvitation, ite_none_right_eq_some] at hrow
    cases hrow.2
    refine accounted_create h (fun hempty => ?_) rfl
      (not_isSome_iff_eq_none.mp (not_or.mp hthere).1)
    have hfilter := (filter_eq_some_iff.mp hempty).2
    simp at hfilter
  | revoke id =>
    simp only [step] at hstep
    split_ifs at hstep
    cases hstep
    exact accounted_revoke h id
  | begin call request =>
    simp only [step] at hstep
    split_ifs at hstep
    obtain ⟨place, hplace, rfl⟩ := map_eq_some_iff.mp hstep
    refine h.moves rfl rfl rfl rfl (fun _ _ _ hlock => hlock) fun t ht => ?_
    cases ht
    refine ⟨.refl _, ?_⟩
    cases request with
    | register mode email token =>
      simp only [Request.place, registerPlace] at hplace
      split_ifs at hplace
      split at hplace
      · cases hplace
      · cases hplace
        trivial
      · cases hplace
        trivial
    | accept token user =>
      cases hplace
      trivial
  | next call user =>
    obtain ⟨t, ht, hnext⟩ := bind_eq_some_iff.mp hstep
    rw [Guarded, ht, any_some] at hguard
    exact accounted_next h ht hguard hnext
  | rollback call =>
    obtain ⟨t, ht, rfl⟩ := map_eq_some_iff.mp hstep
    refine h.moves rfl rfl rfl rfl (fun other hother id hlock => ?_) fun t' ht' => by cases ht'
    simp only [State.ends, hlock]
    simp [hother]

theorem accounted_init (h : (invites env).init s) : Accounted env s := by
  obtain ⟨hinvitations, htransactions, hadmissions⟩ := h
  refine ⟨fun row hrow => ?_, fun row hrow => ?_, fun admission hadmission => ?_,
    fun call t ht => ?_, fun call t ht => ?_⟩
  · rw [hinvitations] at hrow
    cases hrow
  · rw [hinvitations] at hrow
    cases hrow
  · rw [hadmissions] at hadmission
    cases hadmission
  · rw [htransactions] at ht
    cases ht
  · rw [htransactions] at ht
    cases ht

/-- **When invitations admit whom they are for.** They do in every state of a run in which no
transaction goes on to use an invitation that is not for it. -/
theorem sound_of_guarded (h : (invites env).ReachesWhen (Guarded env) s) : Sound env s :=
  (h.invariant (fun _ hinit => accounted_init hinit) fun _ _ _ haccounted hguard hstep =>
    accounted_step haccounted hguard hstep).sound

/-! ### Runs -/

instance : Decidable (Guarded env s e) := by
  cases e with
  | next call user => exact inferInstanceAs (Decidable (_ = false))
  | _ => exact isTrue trivial

/-- The hash of the token `t0`, and ASCII. -/
def sampleInvite : InviteEnv where
  hashToken token :=
    if token = "t0" then "512f26ada3c3d634ac3c6b12b7b33cb50bb0963c3f6d9924241619c84ec78ff2" else ""
  lower := String.toLower

/-- An instance with one account and no invitation. -/
def State.fresh : State where
  now := 0
  invitations := .empty
  users := Keyed.empty.upsert { id := 1, email := some "grace@example.org" }
  members := .empty
  transactions := fun _ => none
  locks := fun _ => none
  inserting := fun _ => none
  admissions := []

/-- An invitation to the workspace 7, bound to an address. -/
def invitesAda : Event := .create 5 (some 7) (some "Ada@example.org") none none none "t0" 0

/-- Somebody registers with the token of it, and no statement of it fails. -/
def registers (mode : SignupMode) (email : String) : List Event :=
  [.begin 0 (.register mode email (some "t0")), .next 0 2, .next 0 2, .next 0 2, .next 0 2]

theorem fresh_init : (invites env).init .fresh := ⟨rfl, rfl, rfl⟩

/-- **An invitation admits another address**: with sign-up open, `register` takes the token of one
that is bound to an address for a membership, whoever it is. -/
theorem invitation_admits_another :
    ¬ ∀ (env : InviteEnv) (s : State), (invites env).Reaches s → Sound env s := by
  intro hall
  have hreach : ∃ s : State, (invites sampleInvite).Reaches s ∧
      ∃ admission ∈ s.admissions, admission.workspaceId = some 7 ∧
        admission.email = some "eve@example.org" ∧
        ∃ row ∈ s.invitations.rows, row.id = admission.invitation ∧
          row.email = some "ada@example.org" :=
    Machine.exists_reachesWhen_of_runWhen (invitesAda :: registers .open "eve@example.org")
      fresh_init (by decide +kernel)
  obtain ⟨s, hs, admission, hadmission, hworkspace, hemail, row, hrow, hid, hbound⟩ := hreach
  have hmay := (hall sampleInvite s hs).addressed admission hadmission (by simp [hworkspace]) row
    hrow hid
  obtain ⟨given, hgiven, hsame⟩ := hmay _ hbound
  cases hemail.symm.trans hgiven
  exact absurd hsame (by decide +kernel)

/-- The hypothesis can be met: who is invited registers. -/
theorem sound_of_guarded_registered :
    ∃ s, (invites sampleInvite).ReachesWhen (Guarded sampleInvite) s ∧
      s.admissions.length = 1 ∧ Sound sampleInvite s := by
  have hreach : ∃ s : State, (invites sampleInvite).ReachesWhen (Guarded sampleInvite) s ∧
      s.admissions.length = 1 :=
    Machine.exists_reachesWhen_of_runWhen
      (invitesAda :: (registers .invite "ada@example.org" ++ [.next 0 2])) fresh_init
      (by decide +kernel)
  obtain ⟨s, hs, hadmissions⟩ := hreach
  exact ⟨s, hs, hadmissions, sound_of_guarded hs⟩

end Invitations

end Sone
