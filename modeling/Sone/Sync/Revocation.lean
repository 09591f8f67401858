import Sone.Sync.Revalidate
import Sone.Sync.Handlers

/-!
# Access changes and the connections of a workspace

The machine `revocation` is one workspace of a sync server: its access rules change and each
change sends a notification; `revalidateWorkspace` takes the notifications, running one pass
over the connections filed under the workspace at a time and remembering that it was asked
again; and meanwhile connections authenticate, open and close documents, and go away. Every
await is a place where anything else may happen.

Access changes are counted. What a resolution of claims read is as old as the count when its
first query ran (`Task.since`, `Stage.resolving`), and `claimsSince` keeps that for the claims
a connection holds. What the queries of a credential come back with is not looked at: any
answer may come, so a credential may also go away at any time. The role of an open document
is computed from the rules its page was read under.

A connection that enters `byWorkspace`, or a document that enters `conn.documents`, after the
pass that should have seen it is seen by none; and a pass leaves things as they are where a
query fails or a document holds internal comments. `Misses` collects these steps, each only
where no further pass is to come; that nothing else misses a change is the subject of
`Sync/UpToDate.lean`.
-/

namespace Sone

/-- Whether a handler awaits claims being resolved from a credential. -/
def Handler.resolvesClaims : Handler → Bool
  | .resolvingSession _ _ => true
  | .resolvingShare _ _ => true
  | _ => false

def Answer.isThrown : Answer → Bool
  | .threw _ => true
  | _ => false

/-- A handler suspended on a connection, with the count of access changes when the first
query of its resolution ran. -/
structure Task where
  conn : ℕ
  handler : Handler
  since : Option ℕ
  deriving DecidableEq

/-- Where `revalidateConnection` is. -/
inductive Stage where
  /-- Awaiting `revalidateClaims`. -/
  | resolving (credential : ConnectionCredential) (workspaceId : Uuid) (since : Option ℕ)
  /-- Awaiting the page of a document; `read` is the role it gave, once the query ran. -/
  | checking (claims : AccessClaims) (doc : OpenDocument) (read : Option (Option Role))
      (todo : List OpenDocument)
  /-- Returned, and the loop over the connections has not gone on. -/
  | returned

/-- Whether `revalidateConnection` is before its claims. -/
def Stage.isResolving : Stage → Bool
  | .resolving _ _ _ => true
  | _ => false

/-- A pass of `revalidateWorkspace` over the connections it copied. -/
structure Pass where
  current : ℕ
  stage : Stage
  remaining : List ℕ

/-- One workspace of a sync server. -/
structure Revocation where
  workspaceId : Uuid
  db : Tables
  /-- The access changes that have committed. -/
  version : ℕ
  /-- Notifications sent and not delivered. -/
  notices : ℕ
  conns : ℕ → IndexedConnection
  /-- `byWorkspace.get(workspaceId)`, in the order of insertion. -/
  group : List ℕ
  /-- How many access changes the claims of a connection were resolved after. -/
  claimsSince : ℕ → ℕ
  tasks : List Task
  /-- `revalidateAgain`. -/
  again : Bool
  /-- The pass under way; `revalidating` says that there is one. -/
  pass : Option Pass

inductive RevocationEvent where
  | accessChanges (db : Tables)
  /-- A notification reaches `revalidateWorkspace`. -/
  | deliver
  | auth (id : ℕ) (payload : AuthPayload)
  | open (id requestId : ℕ) (asked : AskedName)
  | closeDocument (id handle : ℕ)
  | socketCloses (id : ℕ)
  /-- The first query of a resolution of claims runs. -/
  | taskReads (task : Task)
  | taskResumes (task : Task) (answer : Answer)
  /-- The first query of `revalidateClaims` runs. -/
  | claimsRead
  | claimsAnswered (claims : Option AccessClaims)
  | claimsFail
  /-- The query of `loadPageLocation` runs. -/
  | pageRead
  | pageAnswered
  | pageFails
  /-- The loop over the connections goes on. -/
  | connectionDone

namespace Revocation

/-- Set a connection, and the workspace's set with it. -/
def put (s : Revocation) (id : ℕ) (conn : IndexedConnection) : Revocation :=
  { s with
    conns := Function.update s.conns id conn
    group :=
      if s.workspaceId ∈ conn.byWorkspace then
        if id ∈ s.group then s.group else s.group ++ [id]
      else s.group.filter (· ≠ id) }

/-- The state after a handler ran to its next await. -/
def suspend (s : Revocation) (id : ℕ) (since : Option ℕ) :
    IndexedConnection × Option Handler → Revocation
  | (conn, next) =>
    { s.put id conn with tasks := s.tasks ++ next.toList.map fun handler => ⟨id, handler, since⟩ }

/-- `revalidateConnection`, to its first await. -/
def startRevalidation (conn : IndexedConnection) : Stage :=
  match conn.auth with
  | none => .returned
  | some auth => .resolving auth.credential auth.claims.workspaceId none

/-- The loop over open documents, to its next await. -/
def startChecks (claims : AccessClaims) : List OpenDocument → Stage
  | [] => .returned
  | doc :: todo => .checking claims doc none todo

/-- The loop over connections, to its next await. -/
def begin (s : Revocation) : List ℕ → Option Pass
  | [] => none
  | id :: remaining => some ⟨id, startRevalidation (s.conns id), remaining⟩

/-- The end of `revalidateWorkspace`: once more where it was asked again. -/
def endPass (s : Revocation) : Revocation :=
  if s.again then { s with again := false, pass := s.begin s.group } else { s with pass := none }

/-- The loop over connections goes on, or is done. -/
def nextConnection (s : Revocation) : List ℕ → Revocation
  | [] => s.endPass
  | id :: remaining => { s with pass := s.begin (id :: remaining) }

/-- `revalidateWorkspace`, to its first await. -/
def revalidateWorkspace (s : Revocation) : Revocation :=
  if s.pass.isSome then { s with again := true } else { s with pass := s.begin s.group }

def step (s : Revocation) : RevocationEvent → Option Revocation
  | .accessChanges db =>
    some { s with db, version := s.version + 1, notices := s.notices + 1 }
  | .deliver =>
    if s.notices = 0 then none
    else some ({ s with notices := s.notices - 1 } : Revocation).revalidateWorkspace
  | .auth id payload =>
    if (s.conns id).closed then none
    else some (s.suspend id none ((s.conns id).handleAuth payload))
  | .open id requestId asked =>
    if (s.conns id).closed then none
    else some (s.suspend id none ((s.conns id).handleOpen requestId asked))
  | .closeDocument id handle =>
    if (s.conns id).closed then none
    else some (s.put id ((s.conns id).handleCloseDocument handle))
  | .socketCloses id =>
    if (s.conns id).closed then none else some (s.put id (s.conns id).onClose)
  | .taskReads task =>
    if task ∈ s.tasks ∧ task.handler.resolvesClaims = true ∧ task.since = none then
      some { s with tasks := s.tasks.erase task ++ [{ task with since := some s.version }] }
    else none
  | .taskResumes task answer =>
    -- an answer comes after the query, an exception also before it
    if task ∈ s.tasks ∧ (task.handler.resolvesClaims = true → answer.isThrown = false →
        task.since ≠ none) then
      ((s.conns task.conn).resume task.handler answer).map fun out =>
        { ({ s with tasks := s.tasks.erase task } : Revocation).suspend task.conn task.since
            out with
          claimsSince := match task.handler.authenticates answer with
            | none => s.claimsSince
            | some _ => Function.update s.claimsSince task.conn (task.since.getD 0) }
    else none
  | .claimsRead =>
    match s.pass with
    | some ⟨id, .resolving credential workspaceId none, remaining⟩ =>
      some { s with
        pass := some ⟨id, .resolving credential workspaceId (some s.version), remaining⟩ }
    | _ => none
  | .claimsAnswered claims =>
    match s.pass, claims with
    | some ⟨id, .resolving _ _ (some _), remaining⟩, none =>
      some { s.put id ((s.conns id).update (s.conns id).revoke) with
        pass := some ⟨id, .returned, remaining⟩ }
    | some ⟨id, .resolving _ workspaceId (some since), remaining⟩, some claims =>
      if claims.workspaceId = workspaceId then
        some { s.put id ((s.conns id).update
            { (s.conns id).toConnection with
              auth := (s.conns id).auth.map fun auth => { auth with claims } }) with
          claimsSince := Function.update s.claimsSince id since
          pass := some ⟨id, startChecks claims (s.conns id).documents.list, remaining⟩ }
      else none
    | _, _ => none
  | .claimsFail =>
    match s.pass with
    | some ⟨id, .resolving _ _ _, remaining⟩ =>
      some { s with pass := some ⟨id, .returned, remaining⟩ }
    | _ => none
  | .pageRead =>
    match s.pass with
    | some ⟨id, .checking claims doc none todo, remaining⟩ =>
      let role := Connection.currentRole s.db claims doc
      some { s with pass := some ⟨id, .checking claims doc (some role) todo, remaining⟩ }
    | _ => none
  | .pageAnswered =>
    match s.pass with
    | some ⟨id, .checking claims doc (some role) todo, remaining⟩ =>
      some { s.put id ((s.conns id).update ((s.conns id).applyRole doc role)) with
        pass := some ⟨id, startChecks claims todo, remaining⟩ }
    | _ => none
  | .pageFails =>
    match s.pass with
    | some ⟨_, .checking _ _ _ _, _⟩ => some s.endPass
    | _ => none
  | .connectionDone =>
    match s.pass with
    | some ⟨_, .returned, remaining⟩ => some (s.nextConnection remaining)
    | _ => none

/-! ### What is asked, and the steps that miss it -/

/-- What a connection authenticated as, where it is one of the workspace's: its socket is
open, and its claims are for the workspace. -/
def live (s : Revocation) (id : ℕ) : Option Authentication :=
  if (s.conns id).closed || (s.conns id).socketClosed then none
  else (s.conns id).auth.filter fun auth => auth.claims.workspaceId = s.workspaceId

/-- The connection holds claims resolved after the last access change, and no open document
that they forbid. -/
def UpToDate (s : Revocation) (id : ℕ) : Prop :=
  ∀ auth ∈ s.live id, s.claimsSince id = s.version ∧
    ∀ doc ∈ (s.conns id).documents.list, openGrant s.db auth.claims doc.room ≠ none

/-- Every handler finished and every notification was delivered. -/
def Settled (s : Revocation) : Prop := s.tasks = [] ∧ s.pass = none ∧ s.notices = 0

/-- Another pass over the connections is to come. -/
def Renews (s : Revocation) : Prop := 0 < s.notices ∨ s.again = true

/-- The pass under way is still to resolve the claims of the connection. -/
def Ahead (s : Revocation) (id : ℕ) : Prop :=
  ∃ p ∈ s.pass, id ∈ p.remaining ∨ id = p.current ∧ p.stage.isResolving = true

/-- The role a document turned out to have keeps open a document of internal comments that
the claims do not stand for. -/
def keepsInternal (s : Revocation) : Bool :=
  match s.pass with
  | some ⟨id, .checking claims doc (some (some _)) _, _⟩ =>
    (s.live id).isSome && doc.room.internal &&
      (!claims.principal.isUser || claims.pageLevel.isNone) &&
      (s.conns id).documents.list.any fun d => d.handle = doc.handle
  | _ => false

/-- **The steps that miss a change**, where no further pass is to come: a document is
registered that the claims held forbid, or a connection admitted with claims read before the
change or with documents open that they forbid; a query of a pass fails; internal comments
are kept. -/
def Misses (s : Revocation) : RevocationEvent → Prop
  | .taskResumes task answer => ¬ s.Renews ∧ ¬ s.Ahead task.conn ∧
      ((∃ asked ∈ task.handler.registers answer, ∃ auth ∈ s.live task.conn,
          openGrant s.db auth.claims asked = none) ∨
        ∃ claims ∈ task.handler.authenticates answer, (s.conns task.conn).closed = false ∧
          (s.conns task.conn).socketClosed = false ∧ claims.workspaceId = s.workspaceId ∧
          (task.since ≠ some s.version ∨ ∃ doc ∈ (s.conns task.conn).documents.list,
            openGrant s.db claims doc.room = none))
  | .claimsFail => ¬ s.Renews ∧ ∃ p ∈ s.pass, ¬ s.UpToDate p.current
  | .pageFails => ¬ s.Renews ∧ ∃ p ∈ s.pass, ∃ id ∈ p.current :: p.remaining, ¬ s.UpToDate id
  | .pageAnswered => ¬ s.Renews ∧ s.keepsInternal = true
  | _ => False

end Revocation

/-- **The machine of a workspace's access changes.** -/
def revocation : Machine Revocation RevocationEvent where
  init s := ∃ (workspaceId : Uuid) (db : Tables) (cookies : ℕ → Option String), s =
    { workspaceId, db, version := 0, notices := 0, conns := fun id => .accepted (cookies id),
      group := [], claimsSince := fun _ => 0, tasks := [], again := false, pass := none }
  step := Revocation.step

end Sone
