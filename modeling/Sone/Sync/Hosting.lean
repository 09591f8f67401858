import Sone.Sync.Scheduled

/-!
# The rooms of one document on one server

`sync/server.ts` keeps the room of a document in a map while somebody has it open and for a
while after. `acquireRoom` gives the room in the map, or joins the load that is under way, or
starts one. A room whose last subscriber left is taken out of the map when its linger timer
fires, and `drainRooms` takes out all there are; only then are they destroyed, which takes as
long as their last flush. So a document may have several rooms at once: one in the map, and
earlier ones that still store what they hold. A handle keeps the room it was opened with.

The machine `documentHost` is one document on one server: its rooms, the map's entry, the load
under way, the opens and handles that refer to rooms, the rows of the log and the notifications
and fetches that bring them to the room in the map (`onRemoteUpdate`). A room's write queue is
that of `DocumentRoom`. What a load reads is what is stored when it reads, a compaction or none.
-/

set_option linter.unusedSectionVars false

namespace Sone

universe u

/-- A row of `doc_updates`, and which room appended it, if one of this server's did. -/
structure HostRow (U : Type u) where
  room : Option ℕ
  seq : ℕ
  batch : List U
  deriving DecidableEq

structure HostedRoom (U : Type u) where
  queue : DocumentRoom U
  /-- The updates the document in memory contains. -/
  memory : List U
  /-- The subscribers, by their handles. -/
  subscribers : List ℕ
  /-- Whether `lingerTimer` is armed. -/
  lingering : Bool

/-- `DocumentRoom.open`, under way. -/
inductive RoomLoading (U : Type u) where
  | reading
  /-- The log was read; the room is not in the map yet. -/
  | read (contents : List U) (throughSeq : ℕ)

/-- A run of `onRemoteUpdate` that passed its guards, for a room. -/
inductive HostFetch (U : Type u) where
  | waiting (room sinceSeq : ℕ)
  | read (room : ℕ) (rows : List (HostRow U))

/-- **One document on one server.** -/
structure DocumentHost (U : Type u) where
  /-- Every room there ever was, in the order they were opened. -/
  rooms : List (HostedRoom U) := []
  /-- `this.rooms.get(pageId)` -/
  entry : Option ℕ := none
  /-- `this.roomLoading.get(pageId)` -/
  loading : Option (RoomLoading U) := none
  /-- The runs of `handleOpen` awaiting `acquireRoom`: for the load, or about to go on with a
  room. -/
  opens : List (Option ℕ) := []
  /-- The room of each handle, until it is closed. -/
  handles : List (Option ℕ) := []
  /-- `doc_updates`. -/
  rows : List (HostRow U) := []
  /-- The notifications sent and not delivered. -/
  notices : List ℕ := []
  fetches : List (HostFetch U) := []
  /-- Every update `handleSync` accepted without an error frame, and the handle's room. -/
  accepted : List (ℕ × U) := []
  /-- The updates a room held when a flush of it rejected, which `recordFailure` reported. -/
  reported : List U := []

inductive HostEvent (U : Type u) where
  /-- `handleOpen` calls `acquireRoom`. -/
  | opens
  | loadReads
  | loadResolves
  | loadFails
  /-- A run of `handleOpen` goes on with its room. -/
  | openResumes (k : ℕ)
  | closeDocument (handle : ℕ)
  | lingerFires (room : ℕ)
  | drainRooms
  /-- `handleSync`, of an update by somebody who may write. -/
  | sync (handle : ℕ) (update : U)
  /-- A timer, an answer or a continuation of a room's queue. -/
  | queue (room : ℕ) (e : RoomEvent U)
  | appendSucceeds (room promise seq : ℕ)
  /-- The append is stored, and the answer lost. -/
  | appendLost (room promise seq : ℕ)
  /-- Another instance, or the server itself, appends. -/
  | foreignAppends (seq : ℕ) (batch : List U)
  /-- `onRemoteUpdate` is called. -/
  | deliver (seq : ℕ)
  | fetchReads (k : ℕ)
  | fetchApplies (k : ℕ)
  | fetchFails (k : ℕ)
  | destroyEnds (room : ℕ)

variable {U : Type u} [DecidableEq U]

/-- What happens to a queue without the log, the document or a teardown taking part. -/
def RoomEvent.isInternal : RoomEvent U → Bool
  | docUpdate _ _ | appendSucceeds _ _ | destroyStarts | destroyEnds => false
  | _ => true

namespace HostedRoom

/-- `destroy`, up to its first await. -/
def destroy (r : HostedRoom U) : HostedRoom U :=
  if r.queue.destroyed then r
  else { r with queue := r.queue.destroyStarts, lingering := false }

/-- `maybeRetireRoom` -/
def maybeRetire (r : HostedRoom U) : HostedRoom U :=
  if r.subscribers ≠ [] ∨ r.queue.destroyed then r else { r with lingering := true }

/-- `applyRemoteUpdate`, of several updates. -/
def applyRemoteUpdates (r : HostedRoom U) (updates : List U) : HostedRoom U :=
  if r.queue.destroyed then r else { r with memory := r.memory ++ updates }

end HostedRoom

namespace DocumentHost

def stored (s : DocumentHost U) : List U := s.rows.flatMap fun row => row.batch

def setRoom (s : DocumentHost U) (i : ℕ) (r : HostedRoom U) : DocumentHost U :=
  { s with rooms := s.rooms.set i r }

/-- A row is committed, and its notification sent. -/
def store (s : DocumentHost U) (row : HostRow U) : DocumentHost U :=
  { s with rows := s.rows ++ [row], notices := s.notices ++ [row.seq] }

/-- The room `acquireRoom` finds in the map. -/
def existing (s : DocumentHost U) : Option ℕ :=
  s.entry.filter fun i => s.rooms[i]?.any fun r => !r.queue.destroyed

def acquireRoom (s : DocumentHost U) : DocumentHost U :=
  match s.existing with
  | some i => { s with opens := s.opens ++ [some i] }
  | none => { s with loading := s.loading.or (some .reading), opens := s.opens ++ [none] }

def loadedRoom (contents : List U) (throughSeq : ℕ) : HostedRoom U :=
  ⟨.opened throughSeq, contents, [], false⟩

def appending (r : HostedRoom U) (promise : ℕ) : Option (FlushRun U × List U) :=
  (r.queue.run? promise).bind fun run => match run.phase with
    | .storing batch => some (run, batch)
    | _ => none

/-- `onRemoteUpdate`, up to its first await. -/
def onRemoteUpdate (s : DocumentHost U) (seq : ℕ) : DocumentHost U :=
  match s.entry.bind fun i => s.rooms[i]?.map fun r => (i, r) with
  | none => s
  | some (i, r) =>
    if r.queue.destroyed ∨ seq ≤ r.queue.throughSeq then s
    else { s with fetches := s.fetches ++ [.waiting i r.queue.throughSeq] }

def reports (r : HostedRoom U) : RoomEvent U → List U
  | .promiseSettles => if r.queue.settling.head?.any (·.2) then r.queue.pending else []
  | _ => []

def step (s : DocumentHost U) : HostEvent U → Option (DocumentHost U)
  | .opens => some s.acquireRoom
  | .loadReads =>
    match s.loading with
    | some .reading =>
      some { s with loading := some (.read s.stored ((s.rows.map (·.seq)).foldl max 0)) }
    | _ => none
  | .loadResolves =>
    match s.loading with
    | some (.read contents throughSeq) =>
      some { s with
        rooms := s.rooms ++ [loadedRoom contents throughSeq]
        entry := some s.rooms.length
        loading := none
        opens := s.opens.map fun room => room.or (some s.rooms.length) }
    | _ => none
  | .loadFails =>
    if s.loading.isSome then some { s with loading := none, opens := s.opens.filter Option.isSome }
    else none
  | .openResumes k =>
    s.opens[k]?.bind fun awaited => awaited.bind fun i => s.rooms[i]?.bind fun r =>
      some (({ s with
        opens := s.opens.eraseIdx k
        handles := s.handles ++ [some i] } : DocumentHost U).setRoom i
          { r with subscribers := r.subscribers ++ [s.handles.length], lingering := false })
  | .closeDocument handle =>
    s.handles[handle]?.bind fun opened => opened.bind fun i => s.rooms[i]?.bind fun r =>
      some (({ s with handles := s.handles.set handle none } : DocumentHost U).setRoom i
        ({ r with subscribers := r.subscribers.erase handle } : HostedRoom U).maybeRetire)
  | .lingerFires i =>
    s.rooms[i]?.bind fun r =>
      if r.lingering = false then none
      else if r.subscribers ≠ [] then some (s.setRoom i { r with lingering := false })
      -- by the page's id, whatever room is there now
      else some (({ s with entry := none } : DocumentHost U).setRoom i
        ({ r with lingering := false } : HostedRoom U).destroy)
  | .drainRooms =>
    match s.entry.bind fun i => s.rooms[i]?.map fun r => (i, r) with
    | none => some s
    | some (i, r) => some (({ s with entry := none } : DocumentHost U).setRoom i r.destroy)
  | .sync handle update =>
    s.handles[handle]?.bind fun opened => opened.bind fun i => s.rooms[i]?.bind fun r =>
      if update ∈ r.memory then none
      else (r.queue.step (.docUpdate update .writer)).map fun queue =>
        ({ s with accepted := s.accepted ++ [(i, update)] } : DocumentHost U).setRoom i
          { r with queue := queue, memory := r.memory ++ [update] }
  | .queue i e =>
    s.rooms[i]?.bind fun r =>
      if e.isInternal then
        (r.queue.step e).map fun queue =>
          ({ s with reported := s.reported ++ reports r e } : DocumentHost U).setRoom i
            { r with queue := queue }
      else none
  | .appendSucceeds i promise seq =>
    s.rooms[i]?.bind fun r => (appending r promise).bind fun append =>
      (r.queue.step (.appendSucceeds promise seq)).map fun queue =>
        (s.store ⟨some i, seq, append.2⟩).setRoom i { r with queue := queue }
  | .appendLost i promise seq =>
    s.rooms[i]?.bind fun r => (appending r promise).bind fun append =>
      (r.queue.step (.appendFails promise none)).map fun queue =>
        (s.store ⟨some i, seq, append.2⟩).setRoom i { r with queue := queue }
  | .foreignAppends seq batch => some (s.store ⟨none, seq, batch⟩)
  | .deliver seq =>
    if seq ∈ s.notices then
      some (({ s with notices := s.notices.erase seq } : DocumentHost U).onRemoteUpdate seq)
    else none
  | .fetchReads k =>
    match s.fetches[k]? with
    | some (.waiting i sinceSeq) =>
      some { s with
        fetches := s.fetches.set k (.read i (s.rows.filter fun row => sinceSeq < row.seq)) }
    | _ => none
  | .fetchApplies k =>
    match s.fetches[k]? with
    | some (.read i rows) => s.rooms[i]?.bind fun r =>
      some (({ s with fetches := s.fetches.eraseIdx k } : DocumentHost U).setRoom i
        (r.applyRemoteUpdates (rows.flatMap fun row => row.batch)))
    | _ => none
  | .fetchFails k =>
    if k < s.fetches.length then some { s with fetches := s.fetches.eraseIdx k } else none
  | .destroyEnds i =>
    s.rooms[i]?.bind fun r => (r.queue.step .destroyEnds).map fun queue =>
      s.setRoom i { r with queue := queue, subscribers := [] }

end DocumentHost

/-- The **machine**: a document nobody has open. -/
def documentHost (U : Type u) [DecidableEq U] : Machine (DocumentHost U) (HostEvent U) where
  init s := s = {}
  step := DocumentHost.step

end Sone
