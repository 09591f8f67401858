import Sone.Doc.Schema
import Sone.Sync.Register
import Sone.Transition.Machine

/-!
# The keys a client may not write

`sync/room.ts`: where a page sits and what it is are keys of its document's `page` map, and
they are the server's. `handleSyncMessage` reads them before a client's message and
`revertStructuralChanges` puts back the ones that changed, as writes of its own.

The machine `guardedRooms` is one page's document with its log, the rooms of any number of
instances and the server's own operations. `flush` stores what a room has integrated from its
clients; `deliver` brings a stored batch to a room as often and as late as it likes;
`applyToDocument` loads the document and appends its writes in two steps, with anything in
between.

A change to a key between the two readings need not be the client's. The client may relay a
server operation the room has not received, and then the room undoes the server; what was
pending may take effect in a delivery, where nothing is compared. `Sound` excludes these, and
writes of a client that a server operation did not know of. `served_of_reachesWhen` says that
nothing else lets a client's value stand: the invariant keeps every room in agreement with the
log, and the log with the server.
-/

set_option linter.unusedSectionVars false

namespace Sone

open List Option

open Register

universe u v

variable {ι : Type u} {ν : Type v} [LinearOrder ι] [DecidableEq ν]

/-! ### One room -/

/-- A message of y-protocols, with the operations of its update. -/
inductive InboundMessage (ι : Type u) (ν : Type v) where
  | messageYjsSyncStep1
  | messageYjsSyncStep2 (update : List (Op ι String ν))
  | messageYjsUpdate (update : List (Op ι String ν))

def InboundMessage.update : InboundMessage ι ν → List (Op ι String ν)
  | messageYjsSyncStep1 => []
  | messageYjsSyncStep2 update => update
  | messageYjsUpdate update => update

/-- What `handleSyncMessage` applies of a message: nothing of a writer without permission. -/
def InboundMessage.accepted (message : InboundMessage ι ν) (canWrite : Bool) :
    List (Op ι String ν) :=
  if canWrite then message.update else []

structure GuardedRoom (ι : Type u) (ν : Type v) where
  doc : Replica ι String ν := {}
  /-- The operations of `pendingUpdates`. -/
  pendingUpdates : List (Op ι String ν) := []
  deriving DecidableEq

namespace GuardedRoom

/-- `STRUCTURAL_KEYS`. -/
def structuralKeys : List String :=
  [PageKeys.parentPageId, PageKeys.idx, PageKeys.kind, PageKeys.collectionId, PageKeys.archivedAt]

/-- `page.get(key)` -/
def get (r : GuardedRoom ι ν) (key : String) : Option ν := read r.doc.integrated key

/-- `readStructuralKeys`, of a document that has a page. -/
def readStructuralKeys (r : GuardedRoom ι ν) : List (String × Option ν) :=
  structuralKeys.map fun key => (key, r.get key)

/-- `readSyncMessage`: what the update brings into effect is an update of the document, which
`onDocUpdate` keeps for the next flush. -/
def readSyncMessage (r : GuardedRoom ι ν) (update : List (Op ι String ν)) : GuardedRoom ι ν where
  doc := r.doc.apply update
  pendingUpdates := r.pendingUpdates ++ r.doc.takesIn update

def changed (r : GuardedRoom ι ν) (before : List (String × Option ν)) :
    List (String × Option ν) :=
  before.filter fun was => r.get was.1 ≠ was.2

def revertStructuralChanges (r : GuardedRoom ι ν) (before : List (String × Option ν))
    (ids : String → ι) : GuardedRoom ι ν :=
  let reverts := assignAll r.doc.integrated ids (r.changed before)
  { doc := { r.doc with integrated := r.doc.integrated ++ reverts }
    pendingUpdates := r.pendingUpdates ++ reverts }

/-- `handleSyncMessage`, where `ids` are what the room's own writes are called. -/
def handleSyncMessage (r : GuardedRoom ι ν) (message : InboundMessage ι ν) (canWrite : Bool)
    (ids : String → ι) : GuardedRoom ι ν :=
  (r.readSyncMessage (message.accepted canWrite)).revertStructuralChanges r.readStructuralKeys ids

def applyRemoteUpdate (r : GuardedRoom ι ν) (update : List (Op ι String ν)) : GuardedRoom ι ν :=
  { r with doc := r.doc.apply update }

def reverts (r : GuardedRoom ι ν) (message : InboundMessage ι ν) (canWrite : Bool)
    (ids : String → ι) : List (Op ι String ν) :=
  let received := r.readSyncMessage (message.accepted canWrite)
  assignAll received.doc.integrated ids (received.changed r.readStructuralKeys)

variable {r : GuardedRoom ι ν} {message : InboundMessage ι ν} {canWrite : Bool} {ids : String → ι}
  {made : List (Op ι String ν)} {k : String} {o : Op ι String ν}

theorem integrated_handleSyncMessage :
    (r.handleSyncMessage message canWrite ids).doc.integrated =
      r.doc.integrated ++
        (r.doc.takesIn (message.accepted canWrite) ++ r.reverts message canWrite ids) := by
  rw [handleSyncMessage, revertStructuralChanges, reverts, readSyncMessage,
    Replica.integrated_apply, append_assoc]

theorem pendingUpdates_handleSyncMessage :
    (r.handleSyncMessage message canWrite ids).pendingUpdates =
      r.pendingUpdates ++
        (r.doc.takesIn (message.accepted canWrite) ++ r.reverts message canWrite ids) := by
  rw [handleSyncMessage, revertStructuralChanges, reverts, readSyncMessage, append_assoc]

theorem mem_changed {r' : GuardedRoom ι ν} {c : String × Option ν} :
    c ∈ r'.changed r.readStructuralKeys ↔
      c.1 ∈ structuralKeys ∧ c.2 = r.get c.1 ∧ r'.get c.1 ≠ r.get c.1 := by
  simp only [changed, readStructuralKeys, mem_filter, List.mem_map, decide_eq_true_eq]
  constructor
  · rintro ⟨⟨key, hkey, rfl⟩, hne⟩
    exact ⟨hkey, rfl, hne⟩
  · rintro ⟨hkey, hwas, hne⟩
    exact ⟨⟨c.1, hkey, by rw [← hwas]⟩, by rwa [hwas]⟩

/-- **The guard**: a client's message leaves every structural key as the room read it. -/
theorem reads_handleSyncMessage (hids : Stamps made
      (r.readSyncMessage (message.accepted canWrite)).doc.integrated ids
      ((r.readSyncMessage (message.accepted canWrite)).changed r.readStructuralKeys))
    (hk : k ∈ structuralKeys) :
    Reads {o | o ∈ (r.handleSyncMessage message canWrite ids).doc.integrated} k (r.get k) := by
  rw [integrated_handleSyncMessage, ← append_assoc, ← Replica.integrated_apply]
  by_cases hsame : (r.readSyncMessage (message.accepted canWrite)).get k = r.get k
  · have hnot : ∀ o ∈ r.reverts message canWrite ids, ¬o.IsOn k := by
      refine not_isOn_of_mem_assignAll fun c hc heq => ?_
      obtain ⟨-, -, hne⟩ := mem_changed.mp hc
      exact hne (heq ▸ hsame)
    have hread := read_append_of_not_isOn
      (l := (r.doc.apply (message.accepted canWrite)).integrated) hnot
    rw [← hsame, get, readSyncMessage, ← hread]
    exact reads_read _ k
  · exact reads_append_assignAll hids (mem_changed (c := (k, r.get k)).mpr ⟨hk, rfl, hsame⟩)

theorem not_isOn_reverts
    (hnot : ∀ o ∈ r.doc.takesIn (message.accepted canWrite), ¬o.IsOn k) :
    ∀ o ∈ r.reverts message canWrite ids, ¬o.IsOn k := by
  refine not_isOn_of_mem_assignAll fun c hc heq => ?_
  obtain ⟨-, -, hne⟩ := mem_changed.mp hc
  refine hne ?_
  rw [heq, get, get, readSyncMessage, Replica.integrated_apply, read_append_of_not_isOn hnot]

end GuardedRoom

open GuardedRoom

/-! ### The rooms of one document -/

/-- **One document**: its log, its rooms and the server operations under way. -/
structure GuardedRooms (ι : Type u) (ν : Type v) where
  /-- The batches of `doc_updates`, in order. -/
  log : List (List (Op ι String ν)) := []
  /-- The rooms, whatever instance each is on. -/
  rooms : List (GuardedRoom ι ν) := []
  /-- The documents `applyToDocument` has loaded. -/
  loaded : List (List (Op ι String ν)) := []
  /-- Every write of a server operation, with the document it was made on. -/
  served : List (Op ι String ν × List (Op ι String ν)) := []
  /-- Every operation anybody has made. -/
  made : List (Op ι String ν) := []
  deriving DecidableEq

inductive GuardedRoomsEvent (ι : Type u) (ν : Type v) where
  | openRoom
  /-- With what it has not stored. -/
  | closeRoom (i : ℕ)
  | clientMessage (i : ℕ) (message : InboundMessage ι ν) (canWrite : Bool) (ids : String → ι)
  /-- A room receives a stored batch over the remote bus. -/
  | deliver (i j : ℕ)
  | flush (i : ℕ)
  /-- `applyToDocument` loads the document. -/
  | serverLoads
  /-- `applyToDocument` sets keys on a document it loaded, beside `others`, and appends. -/
  | serverAppends (j : ℕ) (ids : String → ι) (changes : List (String × Option ν))
    (others : List (Op ι String ν))

namespace GuardedRooms

def stored (s : GuardedRooms ι ν) : List (Op ι String ν) := s.log.flatten

/-- Every operation in the log or in effect in a room. -/
def held (s : GuardedRooms ι ν) : List (Op ι String ν) :=
  s.stored ++ s.rooms.flatMap fun r => r.doc.integrated

/-- Whether an operation leaves the structural keys alone. -/
def LeavesStructure (o : Op ι String ν) : Prop := ∀ k ∈ structuralKeys, ¬o.IsOn k

instance (o : Op ι String ν) : Decidable (LeavesStructure o) :=
  inferInstanceAs (Decidable (∀ k ∈ structuralKeys, _))

/-- One atomic step. An operation's id names it, and what `map.set` writes is after all its
author has. -/
def step (s : GuardedRooms ι ν) : GuardedRoomsEvent ι ν → Option (GuardedRooms ι ν)
  | .openRoom =>
    some { s with rooms := s.rooms ++ [{ doc := ({} : Replica _ _ _).apply s.stored }] }
  | .closeRoom i => some { s with rooms := s.rooms.eraseIdx i }
  | .clientMessage i message canWrite ids =>
    s.rooms[i]?.bind fun r =>
      let made := s.made ++ message.update
      let received := r.readSyncMessage (message.accepted canWrite)
      if IdsAgree {o | o ∈ made} ∧
          Stamps made received.doc.integrated ids (received.changed r.readStructuralKeys) then
        some { s with
          rooms := s.rooms.set i (r.handleSyncMessage message canWrite ids)
          made := made ++ r.reverts message canWrite ids }
      else none
  | .deliver i j =>
    s.rooms[i]?.bind fun r => s.log[j]?.bind fun batch =>
      some { s with rooms := s.rooms.set i (r.applyRemoteUpdate batch) }
  | .flush i =>
    s.rooms[i]?.bind fun r =>
      some { s with
        log := s.log ++ [r.pendingUpdates]
        rooms := s.rooms.set i { r with pendingUpdates := [] } }
  | .serverLoads =>
    some { s with loaded := s.loaded ++ [(({} : Replica _ _ _).apply s.stored).integrated] }
  | .serverAppends j ids changes others =>
    s.loaded[j]?.bind fun base =>
      let made := s.made ++ others
      let writes := assignAll base ids changes
      if IdsAgree {o | o ∈ made} ∧ Stamps made base ids changes ∧
          ∀ o ∈ others, LeavesStructure o then
        some { s with
          log := s.log ++ [writes ++ others]
          served := s.served ++ writes.map fun o => (o, base)
          made := made ++ writes }
      else none

end GuardedRooms

/-- The **machine**: a document before anything is written to it. -/
def guardedRooms : Machine (GuardedRooms ι ν) (GuardedRoomsEvent ι ν) where
  init := fun s => s = {}
  step := GuardedRooms.step

namespace GuardedRooms

variable {s s' : GuardedRooms ι ν} {k : String} {v : Option ν} {r : GuardedRoom ι ν}
  {o : Op ι String ν} {l : List (Op ι String ν)}

/-- **A value of the server's**: what a server operation wrote to the key, and no other server
operation that wrote it did so knowing it; or nothing, where no server operation wrote the
key. -/
def IsServed (s : GuardedRooms ι ν) (k : String) (v : Option ν) : Prop :=
  (v = none ∧ ∀ p ∈ s.served, ¬p.1.IsOn k) ∨
    ∃ p ∈ s.served, p.1.IsOn k ∧ p.1.value = v ∧ ∀ p' ∈ s.served, p'.1.IsOn k → p.1 ∉ p'.2

instance : Decidable (s.IsServed k v) := inferInstanceAs (Decidable (_ ∨ _))

/-- Whether every stored write of a key is in effect in a replica. -/
def Reached (s : GuardedRooms ι ν) (l : List (Op ι String ν)) (k : String) : Prop :=
  ∀ o ∈ s.stored, o.IsOn k → o ∈ l

instance : Decidable (s.Reached l k) := inferInstanceAs (Decidable (∀ o ∈ s.stored, _))

/-- **Everything is delivered**: nothing waits to be stored, and every room has all of the
log. -/
def Delivered (s : GuardedRooms ι ν) : Prop :=
  ∀ r ∈ s.rooms, r.pendingUpdates = [] ∧ ∀ o ∈ s.stored, o ∈ r.doc.integrated

instance : Decidable s.Delivered := inferInstanceAs (Decidable (∀ r ∈ s.rooms, _))

/-- **Steps that can undo nothing.** A client's message that makes a write of a structural key
take effect finds every stored write of that key in the room; a delivery makes no structural
write take effect that is not stored; and a server operation knows every write of a key it
sets but those of other server operations. -/
def Sound (s : GuardedRooms ι ν) : GuardedRoomsEvent ι ν → Prop
  | .clientMessage i message canWrite _ => ∀ r ∈ s.rooms[i]?, ∀ k ∈ structuralKeys,
      (∃ o ∈ r.doc.takesIn (message.accepted canWrite), o.IsOn k) →
        s.Reached r.doc.integrated k
  | .deliver i j => ∀ r ∈ s.rooms[i]?, ∀ batch ∈ s.log[j]?, ∀ o ∈ r.doc.takesIn batch,
      LeavesStructure o ∨ o ∈ s.stored
  | .serverAppends j _ changes _ => ∀ base ∈ s.loaded[j]?, ∀ c ∈ changes, ∀ o ∈ s.held,
      c.1 ∈ structuralKeys → o.IsOn c.1 → o ∈ base ∨ o ∈ s.served.map (·.1)
  | .openRoom | .closeRoom _ | .flush _ | .serverLoads => True

/-! ### The invariant -/

/-- What is known of a room: it agrees with the log on the structural keys, for whatever it
has yet to receive. -/
structure RoomInv (s : GuardedRooms ι ν) (r : GuardedRoom ι ν) : Prop where
  integrated_made : ∀ o ∈ r.doc.integrated, o ∈ s.made
  pending_made : ∀ o ∈ r.doc.pending, o ∈ s.made
  unstored : ∀ o ∈ r.pendingUpdates, o ∈ r.doc.integrated
  known : ∀ o ∈ r.doc.integrated, LeavesStructure o ∨ o ∈ s.stored ∨ o ∈ r.pendingUpdates
  agrees : ∀ k ∈ structuralKeys,
    Reads {o | o ∈ s.stored ∨ o ∈ r.doc.integrated} k (read s.stored k)

/-- **The invariant**: the rooms agree with the log, and the log with the server. -/
structure Inv (s : GuardedRooms ι ν) : Prop where
  ids : IdsAgree {o | o ∈ s.made}
  stored_made : ∀ o ∈ s.stored, o ∈ s.made
  loaded : ∀ base ∈ s.loaded, ∀ o ∈ base, o ∈ s.stored
  rooms : ∀ r ∈ s.rooms, s.RoomInv r
  served_stored : ∀ p ∈ s.served, p.1 ∈ s.stored
  base_stored : ∀ p ∈ s.served, ∀ o ∈ p.2, o ∈ s.stored
  after_base : ∀ p ∈ s.served, ∀ o ∈ p.2, ∀ k, p.1.IsOn k → o.IsOn k → o.id < p.1.id
  current : ∀ k ∈ structuralKeys, s.IsServed k (read s.stored k)

theorem Inv.stored_ids (h : s.Inv) : IdsAgree {o | o ∈ s.stored} := h.ids.mono h.stored_made

theorem Inv.get_eq (h : s.Inv) (hr : r ∈ s.rooms) (hk : k ∈ structuralKeys)
    (hall : s.Reached r.doc.integrated k) : r.get k = read s.stored k := by
  refine read_eq (h.ids.mono (h.rooms r hr).integrated_made) ?_
  refine ((h.rooms r hr).agrees k hk).congr fun o hon => ?_
  exact ⟨fun ho => ho.elim (fun ho => hall o ho hon) id, .inr⟩

theorem isServed_of_last (hstored : ∀ p ∈ s.served, p.1 ∈ s.stored)
    (hafter : ∀ p ∈ s.served, ∀ o ∈ p.2, ∀ k, p.1.IsOn k → o.IsOn k → o.id < p.1.id)
    {p : Op ι String ν × List (Op ι String ν)} (hp : p ∈ s.served) (hon : p.1.IsOn k)
    (hlast : ∀ o ∈ s.stored, o.IsOn k → o.id ≤ p.1.id) : s.IsServed k p.1.value := by
  refine .inr ⟨p, hp, hon, rfl, fun p' hp' hon' hmem => ?_⟩
  exact absurd (hafter p' hp' p.1 hmem k hon' hon) (not_lt.mpr (hlast p'.1 (hstored p' hp') hon'))

theorem IsServed.congr (h : s.IsServed k v)
    (hsame : ∀ p : Op ι String ν × List (Op ι String ν), p.1.IsOn k →
      (p ∈ s.served ↔ p ∈ s'.served)) : s'.IsServed k v := by
  rcases h with ⟨rfl, hnone⟩ | ⟨p, hp, hon, hv, hlast⟩
  · exact .inl ⟨rfl, fun p hp hon => hnone p ((hsame p hon).mpr hp) hon⟩
  · exact .inr ⟨p, (hsame p hon).mp hp, hon, hv,
      fun p' hp' hon' => hlast p' ((hsame p' hon').mpr hp') hon'⟩

/-! ### What each step keeps -/

theorem RoomInv.mono (h : s.RoomInv r) (hstored : s'.stored = s.stored)
    (hmade : ∀ o ∈ s.made, o ∈ s'.made) : s'.RoomInv r where
  integrated_made o ho := hmade o (h.integrated_made o ho)
  pending_made o ho := hmade o (h.pending_made o ho)
  unstored := h.unstored
  known := hstored ▸ h.known
  agrees := hstored ▸ h.agrees

theorem Inv.setRooms (h : s.Inv) {rooms : List (GuardedRoom ι ν)}
    (hrooms : ∀ r ∈ rooms, s.RoomInv r) : ({ s with rooms := rooms } : GuardedRooms ι ν).Inv where
  ids := h.ids
  stored_made := h.stored_made
  loaded := h.loaded
  rooms r hr := (hrooms r hr).mono rfl fun _ => id
  served_stored := h.served_stored
  base_stored := h.base_stored
  after_base := h.after_base
  current := h.current

theorem Inv.setMade (h : s.Inv) {made : List (Op ι String ν)} (hmade : ∀ o ∈ s.made, o ∈ made)
    (hids : IdsAgree {o | o ∈ made}) : ({ s with made := made } : GuardedRooms ι ν).Inv where
  ids := hids
  stored_made o ho := hmade o (h.stored_made o ho)
  loaded := h.loaded
  rooms r hr := (h.rooms r hr).mono rfl hmade
  served_stored := h.served_stored
  base_stored := h.base_stored
  after_base := h.after_base
  current := h.current

theorem mem_of_takesIn_empty
    (ho : o ∈ (({} : Replica ι String ν).apply l).integrated) : o ∈ l := by
  rw [Replica.integrated_apply] at ho
  exact (Replica.mem_of_takesIn ho).resolve_left not_mem_nil

theorem Inv.opened (h : s.Inv) :
    s.RoomInv { doc := ({} : Replica ι String ν).apply s.stored } where
  integrated_made o ho := h.stored_made o (mem_of_takesIn_empty ho)
  pending_made o ho :=
    h.stored_made o ((Replica.mem_of_pending_apply ho).resolve_left not_mem_nil)
  unstored := by simp
  known o ho := .inr (.inl (mem_of_takesIn_empty ho))
  agrees k _ := (reads_read s.stored k).congr fun o _ =>
    ⟨.inl, fun ho => ho.elim id mem_of_takesIn_empty⟩

/-- **A delivery** that makes only stored writes of the structural keys take effect. -/
theorem RoomInv.applyRemoteUpdate (h : s.RoomInv r) (hids : ∀ o ∈ l, o ∈ s.made)
    (hok : ∀ o ∈ r.doc.takesIn l, LeavesStructure o ∨ o ∈ s.stored) :
    s.RoomInv (r.applyRemoteUpdate l) := by
  have hnew : (r.applyRemoteUpdate l).doc.integrated = r.doc.integrated ++ r.doc.takesIn l :=
    Replica.integrated_apply _ _
  refine ⟨fun o ho => ?_, fun o ho => ?_, fun o ho => ?_, fun o ho => ?_, fun k hk => ?_⟩
  · rcases mem_append.mp (hnew ▸ ho) with ho | ho
    · exact h.integrated_made o ho
    · exact (Replica.mem_of_takesIn ho).elim (h.pending_made o) (hids o)
  · exact (Replica.mem_of_pending_apply ho).elim (h.pending_made o) (hids o)
  · exact hnew ▸ mem_append_left _ (h.unstored o ho)
  · rcases mem_append.mp (hnew ▸ ho) with ho | ho
    · exact h.known o ho
    · exact (hok o ho).imp id .inl
  · refine (h.agrees k hk).congr fun o hon => ⟨fun ho => ?_, fun ho => ?_⟩
    · exact ho.imp id fun ho => hnew ▸ mem_append_left _ ho
    · rcases ho with ho | ho
      · exact .inl ho
      · rcases mem_append.mp (hnew ▸ ho) with ho | ho
        · exact .inr ho
        · exact .inl ((hok o ho).resolve_left fun hleaves => hleaves k hk hon)

section ClientMessage

variable {message : InboundMessage ι ν} {canWrite : Bool} {ids : String → ι}

theorem mem_accepted (ho : o ∈ message.accepted canWrite) : o ∈ message.update := by
  rw [InboundMessage.accepted] at ho
  split at ho
  · exact ho
  · exact absurd ho not_mem_nil

/-- **A client's message** that brings writes of a structural key into effect only where the
room has every stored one. -/
theorem RoomInv.handleSyncMessage (h : s.RoomInv r) (hids : IdsAgree {o | o ∈ s.made})
    (hupdate : ∀ o ∈ message.update, o ∈ s.made)
    (hreverts : ∀ o ∈ r.reverts message canWrite ids, o ∈ s.made)
    (hstamps : Stamps l (r.readSyncMessage (message.accepted canWrite)).doc.integrated ids
      ((r.readSyncMessage (message.accepted canWrite)).changed r.readStructuralKeys))
    (hok : ∀ k ∈ structuralKeys, (∃ o ∈ r.doc.takesIn (message.accepted canWrite), o.IsOn k) →
      s.Reached r.doc.integrated k) :
    s.RoomInv (r.handleSyncMessage message canWrite ids) := by
  have hnew : (r.handleSyncMessage message canWrite ids).doc.integrated = _ :=
    integrated_handleSyncMessage
  have hunstored : (r.handleSyncMessage message canWrite ids).pendingUpdates = _ :=
    pendingUpdates_handleSyncMessage
  have hpending : ∀ o, o ∈ r.doc.pending ∨ o ∈ message.accepted canWrite → o ∈ s.made :=
    fun o ho => ho.elim (h.pending_made o) fun ho => hupdate o (mem_accepted ho)
  refine ⟨fun o ho => ?_, fun o ho => ?_, fun o ho => ?_, fun o ho => ?_, fun k hk => ?_⟩
  · rcases mem_append.mp (hnew ▸ ho) with ho | ho
    · exact h.integrated_made o ho
    · rcases mem_append.mp ho with ho | ho
      · exact hpending o (Replica.mem_of_takesIn ho)
      · exact hreverts o ho
  · exact hpending o (Replica.mem_of_pending_apply ho)
  · rw [hunstored] at ho
    rw [hnew]
    exact mem_append.mpr ((mem_append.mp ho).imp (h.unstored o) id)
  · rw [hunstored]
    rcases mem_append.mp (hnew ▸ ho) with ho | ho
    · exact (h.known o ho).imp id (Or.imp id (mem_append_left _))
    · exact .inr (.inr (mem_append_right _ ho))
  · by_cases hwrites : ∃ o ∈ r.doc.takesIn (message.accepted canWrite), o.IsOn k
    · -- the room has what is stored, and so reads as the log does before and after
      have hreached := hok k hk hwrites
      have hbefore : r.get k = read s.stored k := by
        refine read_eq (hids.mono h.integrated_made) ((h.agrees k hk).congr fun o hon => ?_)
        exact ⟨fun ho => ho.elim (fun ho => hreached o ho hon) id, .inr⟩
      refine hbefore ▸ (reads_handleSyncMessage hstamps hk).congr fun o hon => ?_
      refine ⟨.inr, fun ho => ho.elim (fun ho => ?_) id⟩
      exact hnew ▸ mem_append_left _ (hreached o ho hon)
    · have hnone : ∀ o ∈ r.doc.takesIn (message.accepted canWrite), ¬o.IsOn k :=
        fun o ho hon => hwrites ⟨o, ho, hon⟩
      refine (h.agrees k hk).congr fun o hon => ⟨fun ho => ?_, fun ho => ?_⟩
      · exact ho.imp id fun ho => hnew ▸ mem_append_left _ ho
      · refine ho.imp id fun ho => ?_
        rcases mem_append.mp (hnew ▸ ho) with ho | ho
        · exact ho
        · rcases mem_append.mp ho with ho | ho
          · exact absurd hon (hnone o ho)
          · exact absurd hon (not_isOn_reverts hnone o ho)

end ClientMessage

/-- **A flush** stores what the room has, which reads as the log does. -/
theorem Inv.flush (h : s.Inv) {i : ℕ} (hi : s.rooms[i]? = some r) :
    ({ s with
      log := s.log ++ [r.pendingUpdates]
      rooms := s.rooms.set i { r with pendingUpdates := [] } } : GuardedRooms ι ν).Inv := by
  have hr := h.rooms r (mem_of_getElem? hi)
  have hstored : ({ s with
      log := s.log ++ [r.pendingUpdates]
      rooms := s.rooms.set i { r with pendingUpdates := [] } } : GuardedRooms ι ν).stored =
      s.stored ++ r.pendingUpdates := by
    simp [stored]
  have hmade : ∀ o ∈ s.stored ++ r.pendingUpdates, o ∈ s.made := fun o ho =>
    (mem_append.mp ho).elim (h.stored_made o) fun ho => hr.integrated_made o (hr.unstored o ho)
  -- the new log and the room's document have the same structural writes
  have hlog : ∀ k ∈ structuralKeys,
      Reads {o | o ∈ s.stored ++ r.pendingUpdates} k (read s.stored k) := by
    refine fun k hk => (hr.agrees k hk).congr fun o hon => ⟨fun ho => ?_, fun ho => ?_⟩
    · rcases ho with ho | ho
      · exact mem_append_left _ ho
      · exact mem_append.mpr ((hr.known o ho).resolve_left fun hleaves => hleaves k hk hon)
    · exact (mem_append.mp ho).imp id (hr.unstored o)
  have hread : ∀ k ∈ structuralKeys, read (s.stored ++ r.pendingUpdates) k = read s.stored k :=
    fun k hk => read_eq (h.ids.mono hmade) (hlog k hk)
  have hagrees : ∀ r' ∈ s.rooms, ∀ k ∈ structuralKeys,
      Reads {o | o ∈ s.stored ++ r.pendingUpdates ∨ o ∈ r'.doc.integrated} k
        (read (s.stored ++ r.pendingUpdates) k) := by
    intro r' hr' k hk
    rw [hread k hk]
    refine ((hlog k hk).union ((h.rooms r' hr').agrees k hk)).congr fun o _ => ?_
    simp only [Set.mem_union, Set.mem_ofPred_eq, mem_append]
    tauto
  refine ⟨h.ids, fun o ho => hmade o (hstored ▸ ho), fun base hbase o ho => ?_, fun r' hr' => ?_,
    fun p hp => ?_, fun p hp o ho => ?_, h.after_base, fun k hk => ?_⟩
  · exact hstored ▸ mem_append_left _ (h.loaded base hbase o ho)
  · rcases mem_or_eq_of_mem_set hr' with hr' | rfl
    · have hinv := h.rooms r' hr'
      refine ⟨hinv.integrated_made, hinv.pending_made, hinv.unstored, fun o ho => ?_, ?_⟩
      · rw [hstored]
        exact (hinv.known o ho).imp id (Or.imp (mem_append_left _) id)
      · rw [hstored]
        exact hagrees r' hr'
    · refine ⟨hr.integrated_made, hr.pending_made, by simp, fun o ho => ?_, ?_⟩
      · rw [hstored]
        exact (hr.known o ho).imp id fun ho => .inl (mem_append.mpr ho)
      · rw [hstored]
        exact hagrees r (mem_of_getElem? hi)
  · exact hstored ▸ mem_append_left _ (h.served_stored p hp)
  · exact hstored ▸ mem_append_left _ (h.base_stored p hp o ho)
  · rw [hstored, hread k hk]
    exact h.current k hk

/-- **A server operation** that knows every write of the keys it sets but those of other
server operations. -/
theorem Inv.serverAppends (h : s.Inv) {ids : String → ι} {changes : List (String × Option ν)}
    {base others : List (Op ι String ν)} (hbase : base ∈ s.loaded)
    (hothers : ∀ o ∈ others, o ∈ s.made) (hleaves : ∀ o ∈ others, LeavesStructure o)
    (hstamps : Stamps s.made base ids changes)
    (hok : ∀ c ∈ changes, ∀ o ∈ s.held, c.1 ∈ structuralKeys → o.IsOn c.1 →
      o ∈ base ∨ o ∈ s.served.map (·.1)) :
    ({ s with
      log := s.log ++ [assignAll base ids changes ++ others]
      served := s.served ++ (assignAll base ids changes).map fun o => (o, base)
      made := s.made ++ assignAll base ids changes } : GuardedRooms ι ν).Inv := by
  set writes := assignAll base ids changes with hwrites
  set s' : GuardedRooms ι ν := { s with
    log := s.log ++ [writes ++ others]
    served := s.served ++ writes.map fun o => (o, base)
    made := s.made ++ writes } with hs'
  have hstored : s'.stored = s.stored ++ (writes ++ others) := by simp [hs', stored]
  have hold : ∀ o ∈ s.stored, o ∈ s'.stored := fun o ho => hstored ▸ mem_append_left _ ho
  have hids : IdsAgree {o | o ∈ s'.made} := hstamps.idsAgree h.ids
  have hmade : ∀ o ∈ s'.stored, o ∈ s'.made := by
    intro o ho
    rcases mem_append.mp (hstored ▸ ho) with ho | ho
    · exact mem_append_left _ (h.stored_made o ho)
    · exact (mem_append.mp ho).elim (mem_append_right _)
        fun ho => mem_append_left _ (hothers o ho)
  have hserved : ∀ {p}, p ∈ s'.served ↔ p ∈ s.served ∨ ∃ o ∈ writes, (o, base) = p := by
    intro p
    rw [hs']
    simp only [mem_append, List.mem_map]
  have hafter : ∀ p ∈ s'.served, ∀ o ∈ p.2, ∀ k, p.1.IsOn k → o.IsOn k → o.id < p.1.id := by
    intro p hp o ho k hon hon'
    rcases hserved.mp hp with hp | ⟨w, hw, rfl⟩
    · exact h.after_base p hp o ho k hon hon'
    · obtain ⟨c, hc, rfl⟩ := mem_assignAll.mp hw
      exact (hstamps.2 c hc).2 o ho (isOn_assign.mp hon ▸ hon')
  have hservedStored : ∀ p ∈ s'.served, p.1 ∈ s'.stored := by
    intro p hp
    rcases hserved.mp hp with hp | ⟨w, hw, rfl⟩
    · exact hold _ (h.served_stored p hp)
    · exact hstored ▸ mem_append_right _ (mem_append_left _ hw)
  have hbaseStored : ∀ p ∈ s'.served, ∀ o ∈ p.2, o ∈ s'.stored := by
    intro p hp o ho
    rcases hserved.mp hp with hp | ⟨w, hw, rfl⟩
    · exact hold o (h.base_stored p hp o ho)
    · exact hold o (h.loaded base hbase o ho)
  have hsame : ∀ k ∈ structuralKeys, (∀ c ∈ changes, c.1 ≠ k) →
      ∀ o ∈ writes ++ others, ¬o.IsOn k := by
    intro k hk hnone o ho
    exact (mem_append.mp ho).elim (not_isOn_of_mem_assignAll hnone o)
      fun ho => hleaves o ho k hk
  have hagrees : ∀ r ∈ s.rooms, ∀ k ∈ structuralKeys,
      Reads {o | o ∈ s'.stored ∨ o ∈ r.doc.integrated} k (read s'.stored k) := by
    intro r hr k hk
    by_cases hset : ∃ c ∈ changes, c.1 = k
    · obtain ⟨c, hc, rfl⟩ := hset
      -- what the room has of the key is stored
      refine (reads_read s'.stored c.1).congr fun o hon => ⟨.inl, fun ho => ?_⟩
      refine ho.elim id fun ho => hold o ?_
      have hheld : o ∈ s.held :=
        mem_append_right _ (mem_flatMap.mpr ⟨r, hr, ho⟩)
      rcases hok c hc o hheld hk hon with ho | ho
      · exact h.loaded base hbase o ho
      · obtain ⟨p, hp, rfl⟩ := List.mem_map.mp ho
        exact h.served_stored p hp
    · have hnot := hsame k hk fun c hc heq => hset ⟨c, hc, heq⟩
      rw [hstored, read_append_of_not_isOn hnot]
      refine ((h.rooms r hr).agrees k hk).congr fun o hon => ⟨Or.imp (mem_append_left _) id,
        Or.imp (fun ho => ?_) id⟩
      exact (mem_append.mp ho).resolve_right fun ho => hnot o ho hon
  have hcurrent : ∀ k ∈ structuralKeys, s'.IsServed k (read s'.stored k) := by
    intro k hk
    by_cases hset : ∃ c ∈ changes, c.1 = k
    · obtain ⟨c, hc, rfl⟩ := hset
      have hmem : assign base (ids c.1) c.1 c.2 ∈ writes := mem_assignAll.mpr ⟨c, hc, rfl⟩
      have hmem' : assign base (ids c.1) c.1 c.2 ∈ s'.stored :=
        hstored ▸ mem_append_right _ (mem_append_left _ hmem)
      rw [Register.read]
      rcases htop : top s'.stored c.1 with _ | last
      · exact absurd (isOn_assign.mpr rfl) (top_eq_none htop hmem')
      · obtain ⟨hlast, hon⟩ := mem_of_top htop
        have hle : ∀ o ∈ s'.stored, o.IsOn c.1 → o.id ≤ last.id :=
          fun o ho hon => le_of_top htop ho hon
        obtain ⟨p, hp, rfl⟩ : ∃ p ∈ s'.served, p.1 = last := by
          rcases mem_append.mp (hstored ▸ hlast) with hlast | hlast
          · rcases hok c hc last (mem_append_left _ hlast) hk hon with hlast | hlast
            · exact absurd ((hstamps.2 c hc).2 last hlast hon)
                (not_lt.mpr (hle _ hmem' (isOn_assign.mpr rfl)))
            · obtain ⟨p, hp, rfl⟩ := List.mem_map.mp hlast
              exact ⟨p, hserved.mpr (.inl hp), rfl⟩
          · rcases mem_append.mp hlast with hlast | hlast
            · exact ⟨(last, base), hserved.mpr (.inr ⟨last, hlast, rfl⟩), rfl⟩
            · exact absurd hon (hleaves last hlast c.1 hk)
        exact isServed_of_last hservedStored hafter hp hon hle
    · have hnot := hsame k hk fun c hc heq => hset ⟨c, hc, heq⟩
      rw [hstored, read_append_of_not_isOn hnot]
      refine (h.current k hk).congr fun p hon => ⟨fun hp => hserved.mpr (.inl hp), fun hp => ?_⟩
      refine (hserved.mp hp).resolve_right ?_
      rintro ⟨w, hw, rfl⟩
      exact hnot w (mem_append_left _ hw) hon
  refine ⟨hids, hmade, fun l hl o ho => hold o (h.loaded l hl o ho), fun r hr => ?_,
    hservedStored, hbaseStored, hafter, hcurrent⟩
  have hinv := h.rooms r hr
  exact ⟨fun o ho => mem_append_left _ (hinv.integrated_made o ho),
    fun o ho => mem_append_left _ (hinv.pending_made o ho), hinv.unstored,
    fun o ho => (hinv.known o ho).imp id (Or.imp (hold o) id), hagrees r hr⟩

/-! ### Runs -/

theorem Inv.step (h : s.Inv) {e : GuardedRoomsEvent ι ν} (hok : s.Sound e)
    (hstep : s.step e = some s') : s'.Inv := by
  cases e with
  | openRoom =>
    obtain rfl := some.inj hstep
    refine h.setRooms fun r hr => ?_
    rcases mem_append.mp hr with hr | hr
    · exact h.rooms r hr
    · exact mem_singleton.mp hr ▸ h.opened
  | closeRoom i =>
    obtain rfl := some.inj hstep
    exact h.setRooms fun r hr => h.rooms r (mem_of_mem_eraseIdx hr)
  | clientMessage i message canWrite ids =>
    obtain ⟨r, hi, hstep⟩ := bind_eq_some_iff.mp hstep
    simp only at hstep
    split at hstep
    · rename_i hguard
      obtain ⟨hids, hstamps⟩ := hguard
      obtain rfl := some.inj hstep
      have hinv : ({ s with
          made := s.made ++ message.update ++ r.reverts message canWrite ids } :
            GuardedRooms ι ν).Inv :=
        h.setMade (fun o ho => mem_append_left _ (mem_append_left _ ho))
          (hstamps.idsAgree hids)
      refine hinv.setRooms fun r' hr' => ?_
      rcases mem_or_eq_of_mem_set hr' with hr' | rfl
      · exact hinv.rooms r' hr'
      · exact (hinv.rooms r (mem_of_getElem? hi)).handleSyncMessage hinv.ids
          (fun o ho => mem_append_left _ (mem_append_right _ ho))
          (fun o ho => mem_append_right _ ho) hstamps (hok r hi)
    · simp at hstep
  | deliver i j =>
    obtain ⟨r, hi, hstep⟩ := bind_eq_some_iff.mp hstep
    obtain ⟨batch, hj, hstep⟩ := bind_eq_some_iff.mp hstep
    obtain rfl := some.inj hstep
    refine h.setRooms fun r' hr' => ?_
    rcases mem_or_eq_of_mem_set hr' with hr' | rfl
    · exact h.rooms r' hr'
    · refine (h.rooms r (mem_of_getElem? hi)).applyRemoteUpdate (fun o ho => ?_)
        (hok r hi batch hj)
      exact h.stored_made o (mem_flatten.mpr ⟨batch, mem_of_getElem? hj, ho⟩)
  | flush i =>
    obtain ⟨r, hi, hstep⟩ := bind_eq_some_iff.mp hstep
    obtain rfl := some.inj hstep
    exact h.flush hi
  | serverLoads =>
    obtain rfl := some.inj hstep
    refine ⟨h.ids, h.stored_made, fun base hbase o ho => ?_, fun r hr => (h.rooms r hr).mono rfl
      fun _ => id, h.served_stored, h.base_stored, h.after_base, h.current⟩
    rcases mem_append.mp hbase with hbase | hbase
    · exact h.loaded base hbase o ho
    · exact mem_of_takesIn_empty (mem_singleton.mp hbase ▸ ho)
  | serverAppends j ids changes others =>
    obtain ⟨base, hj, hstep⟩ := bind_eq_some_iff.mp hstep
    simp only at hstep
    split at hstep
    · rename_i hguard
      obtain ⟨hids, hstamps, hleaves⟩ := hguard
      obtain rfl := some.inj hstep
      have hinv := h.setMade (fun o ho => mem_append_left others ho) hids
      exact hinv.serverAppends (mem_of_getElem? hj)
        (fun o ho => mem_append_right _ ho) hleaves hstamps (hok base hj)
    · simp at hstep

/-- **The structural keys are the server's**, in every run of sound steps: a room that has
received the stored writes of a key, and any other replica that has just these, reads the value
of a server operation that no other has replaced. -/
theorem served_of_reachesWhen (h : guardedRooms.ReachesWhen Sound s) :
    (∀ r ∈ s.rooms, ∀ k ∈ structuralKeys, s.Reached r.doc.integrated k →
      s.IsServed k (r.get k)) ∧
    ∀ l, ∀ k ∈ structuralKeys, (∀ o, o.IsOn k → (o ∈ l ↔ o ∈ s.stored)) →
      s.IsServed k (read l k) := by
  have hinv : s.Inv := by
    refine h.invariant (I := Inv) ?_ fun s e s' hinv hok hstep => hinv.step hok hstep
    rintro _ rfl
    refine ⟨?_, ?_, ?_, ?_, ?_, ?_, ?_, fun k _ => .inl ⟨rfl, ?_⟩⟩ <;> simp [stored, IdsAgree]
  refine ⟨fun r hr k hk hall => ?_, fun l k hk hsame => ?_⟩
  · rw [hinv.get_eq hr hk hall]
    exact hinv.current k hk
  · have hread : Reads {o | o ∈ s.stored} k (read l k) := (reads_read l k).congr hsame
    rw [← read_eq hinv.stored_ids hread]
    exact hinv.current k hk

/-! ### A client that is put right, and one that relays a move -/

instance (s : GuardedRooms ι ν) : (e : GuardedRoomsEvent ι ν) → Decidable (s.Sound e)
  | .clientMessage _ _ _ _ => inferInstanceAs (Decidable (∀ r ∈ _, ∀ k ∈ structuralKeys, _ → _))
  | .deliver _ _ => inferInstanceAs (Decidable (∀ r ∈ _, ∀ batch ∈ _, ∀ o ∈ _, _))
  | .serverAppends _ _ _ _ => inferInstanceAs (Decidable (∀ base ∈ _, ∀ c ∈ _, ∀ o ∈ _, _))
  | .openRoom | .closeRoom _ | .flush _ | .serverLoads => inferInstanceAs (Decidable True)

/-- The page is created below `home`, and two instances open it. -/
def createdBelowHome : List (GuardedRoomsEvent ℕ String) :=
  [.serverLoads, .serverAppends 0 (fun _ => 10) [(PageKeys.parentPageId, some "home")] [],
    .openRoom, .openRoom]

/-- A client moves the page to `attic` by itself, and is put right. Then the server moves it to
`work`. -/
theorem served_of_reachesWhen_putRight :
    ∃ s : GuardedRooms ℕ String, guardedRooms.ReachesWhen Sound s ∧ s.Delivered ∧
      s.rooms.length = 2 ∧ (s.rooms.map fun r => r.get PageKeys.parentPageId) =
        [some "work", some "work"] ∧
      ∀ r ∈ s.rooms, s.IsServed PageKeys.parentPageId (r.get PageKeys.parentPageId) := by
  have hreach : ∃ s : GuardedRooms ℕ String, guardedRooms.ReachesWhen Sound s ∧
      s.Delivered ∧ s.rooms.length = 2 ∧
      (s.rooms.map fun r => r.get PageKeys.parentPageId) = [some "work", some "work"] :=
    Machine.exists_reachesWhen_of_runWhen (createdBelowHome ++
      [.clientMessage 0 (.messageYjsUpdate [⟨20, [10], some (PageKeys.parentPageId, some "attic")⟩])
          true (fun _ => 30),
        .flush 0, .deliver 1 1, .serverLoads,
        .serverAppends 1 (fun _ => 40) [(PageKeys.parentPageId, some "work")] [],
        .deliver 1 2, .deliver 0 2]) rfl (by decide +kernel)
  obtain ⟨s, hs, hdelivered, hrooms, hread⟩ := hreach
  refine ⟨s, hs, hdelivered, hrooms, hread, fun r hr => ?_⟩
  exact (served_of_reachesWhen hs).1 r hr _ (by decide) fun o ho _ => (hdelivered r hr).2 o ho

/-- **A relayed move is undone**: a client that has received a move on one instance brings it
to a room that has not. The room takes it for the client's and puts the page back. -/
theorem not_served : ¬ ∀ s : GuardedRooms ℕ String, guardedRooms.Reaches s → s.Delivered →
    ∀ r ∈ s.rooms, ∀ k ∈ structuralKeys, s.IsServed k (r.get k) := by
  intro h
  have hreach : ∃ s : GuardedRooms ℕ String, guardedRooms.Reaches s ∧ s.Delivered ∧
      ∃ r ∈ s.rooms, ¬s.IsServed PageKeys.parentPageId (r.get PageKeys.parentPageId) :=
    Machine.exists_reachesWhen_of_runWhen (createdBelowHome ++
      [.serverLoads, .serverAppends 1 (fun _ => 20) [(PageKeys.parentPageId, some "work")] [],
        .deliver 0 1,
        .clientMessage 1 (.messageYjsSyncStep2 [⟨20, [10], some (PageKeys.parentPageId,
          some "work")⟩]) true (fun _ => 30),
        .flush 1, .deliver 0 2, .deliver 1 1]) rfl (by decide +kernel)
  obtain ⟨s, hs, hdelivered, r, hr, hnot⟩ := hreach
  exact hnot (h s hs hdelivered r hr _ (by decide))

end GuardedRooms

end Sone
