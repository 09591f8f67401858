import Sone.Client.Store
import Mathlib.Data.Finset.Lattice.Lemmas

/-!
# Updates on their way to the server

An entry is `synced` once the server answered the client's step 1, and an entry that is `synced`
is destroyed when nobody holds it. The answer says that the client has what the server had. That
the server has what the client had is another matter: the client's own step 2 has been sent, but
may still be on its way, or may be refused; and where the server's step 1 went to a handle the
client did not know yet, no step 2 was sent at all. An update on an entry that is `synced` is only
sent, and leaves it `synced`. `Misleads` collects these steps.

`Inv` carries what the others keep: while an answer to step 1 is awaited on a handle, every local
update is received, or is on its way on that handle, or the server's step 1 still is
(`Delivers`). This file proves it of the small steps: an entry changes, a frame is put on a queue
or taken off it, a room grows, a map loses keys.
-/

set_option linter.unusedSectionVars false

namespace Sone.Client

open List Option

universe u

variable {U : Type u} [DecidableEq U]

namespace StoreRun

variable (s : StoreRun U)

/-! ### What is asked, and the steps that mislead -/

/-- **What must hold of a store**: what is marked synced has been received, and so had been what
is destroyed. -/
structure KeepsEdits : Prop where
  synced : ∀ entry ∈ s.entries.rows, entry.synced = true → entry.edits ⊆ s.rooms entry.pageId
  destroyed : ∀ doc ∈ s.destroyed, doc.doc ⊆ doc.received

/-- An answer to the client's step 1 is to come. -/
def Awaits (handle : ℕ) : Prop :=
  (∃ message ∈ s.sentOn handle, message.isStep1 = true) ∨
    ∃ message ∈ s.comingOn handle, message.isStep2 = true

instance (handle : ℕ) : Decidable (s.Awaits handle) := inferInstanceAs (Decidable (_ ∨ _))

/-- `handleSync` refuses what would change a document. -/
def Refuses (rateLimited : Bool) (handle : ℕ) : Prop :=
  ∀ doc ∈ s.documents.get handle, rateLimited = true ∨ atLeast doc.role .editor = false

instance (rateLimited : Bool) (handle : ℕ) : Decidable (s.Refuses rateLimited handle) :=
  inferInstanceAs (Decidable (∀ _ ∈ _, _))

/-- The frames that mislead the client: the answer to step 1, while what it sent before is still
on its way; and a handle whose step 1 does not follow, where the server has not received
everything. -/
def MisleadsClient : ServerFrame (SyncMessage U) → Prop
  | .sync handle (.step2 _) => ∃ entry ∈ s.holding handle, ∃ message ∈ s.sentOn handle,
      ¬ message.updates ⊆ s.rooms entry.pageId
  | .openAck requestId handle _ => ∃ entry ∈ s.requested requestId,
      ¬ entry.edits ⊆ s.rooms entry.pageId ∧ ∀ message ∈ s.comingOn handle,
        message.isStep1 = false
  | _ => False

instance : (frame : ServerFrame (SyncMessage U)) → Decidable (s.MisleadsClient frame)
  | .sync _ (.step2 _) => inferInstanceAs (Decidable (∃ _ ∈ _, _))
  | .openAck .. => inferInstanceAs (Decidable (∃ _ ∈ _, _))
  | .sync _ (.step1 _) | .sync _ (.update _) | .authAck _ | .awareness .. | .closed .. |
    .roleChanged .. | .notify _ | .pong | .error .. => inferInstanceAs (Decidable False)

/-- The frames whose refusal misleads the client: they carry what the room of an entry lacks, and
the answer to the entry's step 1 is to come. -/
def MisleadsServer (rateLimited : Bool) : ClientFrame (SyncMessage U) → Prop
  | .sync handle message => s.Refuses rateLimited handle ∧ s.canSend = true ∧ s.Awaits handle ∧
      ∃ entry ∈ s.entries.rows, entry.handle = some handle ∧
        ¬ message.updates ⊆ s.rooms entry.pageId
  | _ => False

instance (rateLimited : Bool) :
    (frame : ClientFrame (SyncMessage U)) → Decidable (s.MisleadsServer rateLimited frame)
  | .sync .. => inferInstanceAs (Decidable (_ ∧ _))
  | .auth _ | .openPage .. | .awareness .. | .close _ | .ping => inferInstanceAs (Decidable False)

/-- The steps that mislead: a local update of an entry that is synced is sent; a frame misleads
the client; one is refused that the client takes for received. -/
def Misleads : StoreEvent U → Prop
  | .edits pageId update => ∃ entry ∈ s.entries.find pageId, entry.synced = true ∧
      entry.handle.isSome = true ∧ s.canSend = true ∧ update ∉ s.rooms pageId
  | .clientReceives => ∃ frame ∈ s.toClient.head?, s.MisleadsClient frame
  | .serverReceives rateLimited => ∃ frame ∈ s.toServer.head?, s.MisleadsServer rateLimited frame
  | _ => False

instance : (event : StoreEvent U) → Decidable (s.Misleads event)
  | .edits .. => inferInstanceAs (Decidable (∃ _ ∈ _, _))
  | .clientReceives => inferInstanceAs (Decidable (∃ _ ∈ _, _))
  | .serverReceives _ => inferInstanceAs (Decidable (∃ _ ∈ _, _))
  | .opens .. | .releases _ | .authenticates | .breaks | .disconnects | .fails _ |
    .serverOpens .. | .serverRefuses .. | .serverCloses _ | .serverChangesRole .. |
    .remoteUpdates .. => inferInstanceAs (Decidable False)

/-! ### The invariant -/

/-- **An update is on its way** to the room of a page: it is there, or in a message sent on the
handle, or will be sent once the server's step 1 arrives. -/
def Delivers (handle : ℕ) (pageId : AskedName) (update : U) : Prop :=
  update ∈ s.rooms pageId ∨ (∃ message ∈ s.sentOn handle, update ∈ message.updates) ∨
    ∃ message ∈ s.comingOn handle, message.isStep1 = true

/-- **What holds of an entry**: its document has the local updates, and otherwise what the room
has; the room has the local updates where it is synced; and while an answer to step 1 is to come
on its handle, they are on their way. -/
def Fits (entry : Entry U) : Prop :=
  entry.edits ⊆ entry.doc ∧ entry.doc ⊆ entry.edits ∪ s.rooms entry.pageId ∧
    (entry.synced = true → s.ready = true ∧ entry.edits ⊆ s.rooms entry.pageId) ∧
      ∀ handle ∈ entry.handle, s.hasConnectedBefore = true ∧
        (s.canSend = true → s.Awaits handle →
          ∀ update ∈ entry.edits, s.Delivers handle entry.pageId update)

/-- **The invariant**, where `pageOf` says which page a handle was given for. -/
structure Inv (pageOf : ℕ → AskedName) : Prop where
  entries : ∀ pageId entry, s.entries.find pageId = some entry → s.Fits entry
  byHandle : ∀ handle pageId, s.byHandle handle = some pageId →
    ∃ entry, s.entries.find pageId = some entry ∧ entry.handle = some handle
  byRequest : ∀ requestId pageId, s.byRequest requestId = some pageId →
    requestId < s.nextRequestId ∧ ∃ entry, s.entries.find pageId = some entry ∧
      entry.requestId = some requestId ∧ entry.handle = none
  connected : s.ready = true → s.hasConnectedBefore = true
  documents : ∀ doc ∈ s.documents.list, pageOf doc.handle = doc.room
  names : ∀ asked handle, s.handlesByPage asked = some handle →
    handle < s.documents.nextHandle ∧ pageOf handle = asked
  sentAsks : ∀ requestId asked, .openPage requestId asked ∈ s.toServer →
    requestId < s.nextRequestId ∧ ∀ pageId ∈ s.byRequest requestId, pageId = asked
  opening : ∀ requestId asked, (requestId, asked) ∈ s.opening →
    requestId < s.nextRequestId ∧ ∀ pageId ∈ s.byRequest requestId, pageId = asked
  acks : ∀ requestId handle role, .openAck requestId handle role ∈ s.toClient →
    requestId < s.nextRequestId ∧ handle < s.documents.nextHandle ∧
      ∀ pageId ∈ s.byRequest requestId, pageId = pageOf handle
  coming : ∀ handle, ∀ message ∈ s.comingOn handle,
    handle < s.documents.nextHandle ∧ message.named ⊆ s.rooms (pageOf handle)
  ordered : ∀ handle, (s.comingOn handle).Pairwise fun first second =>
    first.isStep2 = true → second.isStep1 = false
  destroyed : ∀ doc ∈ s.destroyed, doc.doc ⊆ doc.received

/-- The handles entries have are those of the connection. -/
def Linked (pageOf : ℕ → AskedName) : Prop :=
  s.ready = true → ∀ pageId entry handle, s.entries.find pageId = some entry →
    entry.handle = some handle → s.byHandle handle = some pageId ∧
      handle < s.documents.nextHandle ∧ pageOf handle = pageId

variable {s} {s' : StoreRun U} {pageOf : ℕ → AskedName} {entry : Entry U} {pageId : AskedName}

/-! ### Small steps -/

theorem Fits.edits_subset (h : s.Fits entry) : entry.edits ⊆ entry.doc := h.1

theorem Fits.doc_subset (h : s.Fits entry) : entry.doc ⊆ entry.edits ∪ s.rooms entry.pageId :=
  h.2.1

theorem Fits.synced (h : s.Fits entry) (hsynced : entry.synced = true) :
    s.ready = true ∧ entry.edits ⊆ s.rooms entry.pageId := h.2.2.1 hsynced

theorem Fits.handle (h : s.Fits entry) : ∀ handle ∈ entry.handle, s.hasConnectedBefore = true ∧
    (s.canSend = true → s.Awaits handle →
      ∀ update ∈ entry.edits, s.Delivers handle entry.pageId update) := h.2.2.2

theorem pageId_eq (h : s.entries.find pageId = some entry) : entry.pageId = pageId :=
  Keyed.key_eq h

theorem find_setEntry : (s.setEntry entry).entries.find pageId =
    if entry.pageId = pageId then some entry else s.entries.find pageId := Keyed.find_upsert

theorem find_setEntry_self : (s.setEntry entry).entries.find entry.pageId = some entry :=
  find_setEntry.trans (if_pos rfl)

theorem find_setEntry_cases {other : Entry U}
    (h : (s.setEntry entry).entries.find pageId = some other) :
    entry.pageId = pageId ∧ entry = other ∨
      entry.pageId ≠ pageId ∧ s.entries.find pageId = some other := by
  rw [find_setEntry] at h
  by_cases heq : entry.pageId = pageId
  · rw [if_pos heq] at h
    exact .inl ⟨heq, some.inj h⟩
  · rw [if_neg heq] at h
    exact .inr ⟨heq, h⟩

section Leads

variable {κ : Type} {map : κ → Option AskedName} {has : κ → Entry U → Prop}

theorem has_of_leads (h : ∀ key pageId, map key = some pageId →
    ∃ other, s.entries.find pageId = some other ∧ has key other)
    (hfind : s.entries.find pageId = some entry) {key : κ} (hmap : map key = some pageId) :
    has key entry := by
  obtain ⟨other, hother, hhas⟩ := h key pageId hmap
  rw [hfind] at hother
  exact some.inj hother ▸ hhas

theorem leads_setEntry (h : ∀ key pageId, map key = some pageId →
    ∃ other, s.entries.find pageId = some other ∧ has key other)
    (hentry : ∀ key, map key = some entry.pageId → has key entry) (key : κ) (pageId : AskedName)
    (hmap : map key = some pageId) :
    ∃ other, (s.setEntry entry).entries.find pageId = some other ∧ has key other := by
  rw [find_setEntry]
  split
  · rename_i heq
    subst heq
    exact ⟨entry, rfl, hentry key hmap⟩
  · exact h key pageId hmap

end Leads

theorem find_of_holding {handle : ℕ} (h : s.holding handle = some entry) :
    s.byHandle handle = some entry.pageId ∧ s.entries.find entry.pageId = some entry := by
  obtain ⟨pageId, hpage, hfind⟩ := bind_eq_some_iff.mp h
  rw [pageId_eq hfind]
  exact ⟨hpage, hfind⟩

theorem find_of_requested {requestId : ℕ} (h : s.requested requestId = some entry) :
    s.byRequest requestId = some entry.pageId ∧ s.entries.find entry.pageId = some entry := by
  obtain ⟨pageId, hpage, hfind⟩ := bind_eq_some_iff.mp h
  rw [pageId_eq hfind]
  exact ⟨hpage, hfind⟩

theorem mem_sentOn_send {frame : ClientFrame (SyncMessage U)} {handle : ℕ}
    {message : SyncMessage U} : message ∈ (s.send frame).sentOn handle ↔
      message ∈ s.sentOn handle ∨ s.canSend = true ∧ frame.message handle = some message := by
  rw [sentOn, send, filterMap_append, mem_append, ← sentOn]
  cases s.canSend <;> simp [sentOn]

theorem comingOn_answer {frame : ServerFrame (SyncMessage U)} {handle : ℕ} :
    (s.answer frame).comingOn handle =
      s.comingOn handle ++ (frame.message handle).toList := by
  rw [comingOn, answer, filterMap_append, ← comingOn]
  cases hmessage : frame.message handle <;> simp [hmessage]

theorem Fits.mono (h : s.Fits entry) (hready : s.ready = true → s'.ready = true)
    (hbefore : s.hasConnectedBefore = true → s'.hasConnectedBefore = true)
    (hrooms : s.rooms entry.pageId ⊆ s'.rooms entry.pageId)
    (hdelivers : ∀ handle ∈ entry.handle, s'.canSend = true → s'.Awaits handle →
      s.canSend = true ∧ s.Awaits handle ∧ ∀ update ∈ entry.edits,
        s.Delivers handle entry.pageId update → s'.Delivers handle entry.pageId update) :
    s'.Fits entry := by
  refine ⟨h.edits_subset, h.doc_subset.trans (Finset.union_subset_union_right hrooms),
    fun hsynced => ⟨hready (h.synced hsynced).1, (h.synced hsynced).2.trans hrooms⟩,
    fun handle hhandle => ⟨hbefore (h.handle handle hhandle).1,
      fun hsend hawaits update hupdate => ?_⟩⟩
  obtain ⟨hsend, hawaits, hmono⟩ := hdelivers handle hhandle hsend hawaits
  exact hmono update hupdate ((h.handle handle hhandle).2 hsend hawaits update hupdate)

theorem Inv.leads (h : s.Inv pageOf) (requestId : ℕ) (pageId : AskedName)
    (hmap : s.byRequest requestId = some pageId) : ∃ entry, s.entries.find pageId = some entry ∧
      entry.requestId = some requestId ∧ entry.handle = none :=
  (h.byRequest requestId pageId hmap).2

/-- **An entry is changed**, and the maps that lead to it agree. -/
theorem Inv.setEntry (h : s.Inv pageOf)
    (hhandle : ∀ handle, s.byHandle handle = some entry.pageId → entry.handle = some handle)
    (hrequest : ∀ requestId, s.byRequest requestId = some entry.pageId →
      entry.requestId = some requestId ∧ entry.handle = none)
    (hfits : s.Fits entry) : (s.setEntry entry).Inv pageOf where
  entries pageId other hother := by
    rcases find_setEntry_cases hother with ⟨-, rfl⟩ | ⟨-, hother⟩
    · exact hfits
    · exact h.entries pageId other hother
  byHandle := leads_setEntry h.byHandle hhandle
  byRequest requestId pageId hpage := ⟨(h.byRequest requestId pageId hpage).1,
    leads_setEntry h.leads hrequest requestId pageId hpage⟩
  connected := h.connected
  documents := h.documents
  names := h.names
  sentAsks := h.sentAsks
  opening := h.opening
  acks := h.acks
  coming := h.coming
  ordered := h.ordered
  destroyed := h.destroyed

theorem Linked.setEntry (h : s.Linked pageOf)
    (hentry : s.ready = true → ∀ handle ∈ entry.handle, s.byHandle handle = some entry.pageId ∧
      handle < s.documents.nextHandle ∧ pageOf handle = entry.pageId) :
    (s.setEntry entry).Linked pageOf := by
  intro hready pageId other handle hother hhandle
  rcases find_setEntry_cases hother with ⟨rfl, rfl⟩ | ⟨-, hother⟩
  · exact hentry hready handle hhandle
  · exact h hready pageId other handle hother hhandle

/-- **A frame is sent.** A request to open a page names it, and step 1 asks on a handle on which
every update is on its way. -/
theorem Inv.send (h : s.Inv pageOf) (frame : ClientFrame (SyncMessage U))
    (hask : ∀ requestId asked, frame = .openPage requestId asked →
      requestId < s.nextRequestId ∧ ∀ pageId ∈ s.byRequest requestId, pageId = asked)
    (hstep1 : ∀ handle message, frame.message handle = some message → message.isStep1 = true →
      ∀ pageId entry, s.entries.find pageId = some entry → entry.handle = some handle →
        ∀ update ∈ entry.edits, s.Delivers handle pageId update) :
    (s.send frame).Inv pageOf := by
  have hdelivers : ∀ handle pageId update, s.Delivers handle pageId update →
      (s.send frame).Delivers handle pageId update := by
    rintro handle pageId update (hroom | ⟨message, hmessage, hupdate⟩ | hcoming)
    · exact .inl hroom
    · exact .inr (.inl ⟨message, mem_sentOn_send.mpr (.inl hmessage), hupdate⟩)
    · exact .inr (.inr hcoming)
  refine { h with
    entries := fun pageId entry hentry => ?_
    sentAsks := fun requestId asked hmem => ?_ }
  · have hfits := h.entries pageId entry hentry
    refine ⟨hfits.edits_subset, hfits.doc_subset, hfits.synced, fun handle hhandle =>
      ⟨(hfits.handle handle hhandle).1, fun hsend hawaits update hupdate => ?_⟩⟩
    by_cases hold : s.Awaits handle
    · exact hdelivers _ _ _ ((hfits.handle handle hhandle).2 hsend hold update hupdate)
    · -- what is awaited now is the answer to this frame
      rcases hawaits with ⟨message, hmessage, hask⟩ | hanswer
      · rcases mem_sentOn_send.mp hmessage with hmem | ⟨-, hframe⟩
        · exact absurd (.inl ⟨message, hmem, hask⟩) hold
        · rw [pageId_eq hentry]
          exact hdelivers _ _ _
            (hstep1 handle message hframe hask pageId entry hentry hhandle update hupdate)
      · exact absurd (.inr hanswer) hold
  · rcases mem_append.mp hmem with hold | hnew
    · exact h.sentAsks requestId asked hold
    · split at hnew
      · exact hask requestId asked (mem_singleton.mp hnew).symm
      · simp at hnew

/-- **The server sends a frame.** -/
theorem Inv.answer (h : s.Inv pageOf) (frame : ServerFrame (SyncMessage U))
    (hack : ∀ requestId handle role, frame = .openAck requestId handle role →
      requestId < s.nextRequestId ∧ handle < s.documents.nextHandle ∧
        ∀ pageId ∈ s.byRequest requestId, pageId = pageOf handle)
    (hmessage : ∀ handle message, frame.message handle = some message →
      handle < s.documents.nextHandle ∧ message.named ⊆ s.rooms (pageOf handle) ∧
        (message.isStep2 = true → s.Awaits handle) ∧
          (message.isStep1 = true → ∀ other ∈ s.comingOn handle, other.isStep2 = false)) :
    (s.answer frame).Inv pageOf := by
  have hcoming : ∀ handle message, message ∈ (s.answer frame).comingOn handle ↔
      message ∈ s.comingOn handle ∨ frame.message handle = some message := by
    intro handle message
    rw [comingOn_answer, mem_append, mem_toList]
  refine { h with
    entries := fun pageId entry hentry => ?_
    acks := fun requestId handle role hmem => ?_
    coming := fun handle message hmem => ?_
    ordered := fun handle => ?_ }
  · refine (h.entries pageId entry hentry).mono id id subset_rfl fun handle _ hsend hawaits => ?_
    refine ⟨hsend, ?_, fun update _ hdelivers => ?_⟩
    · rcases hawaits with hasks | ⟨message, hmem, hanswers⟩
      · exact .inl hasks
      · rcases (hcoming handle message).mp hmem with hold | hnew
        · exact .inr ⟨message, hold, hanswers⟩
        · exact (hmessage handle message hnew).2.2.1 hanswers
    · rcases hdelivers with hroom | hsent | ⟨message, hmem, hstep1⟩
      · exact .inl hroom
      · exact .inr (.inl hsent)
      · exact .inr (.inr ⟨message, (hcoming handle message).mpr (.inl hmem), hstep1⟩)
  · rcases mem_append.mp hmem with hold | hnew
    · exact h.acks requestId handle role hold
    · exact hack requestId handle role (mem_singleton.mp hnew).symm
  · rcases (hcoming handle message).mp hmem with hold | hnew
    · exact h.coming handle message hold
    · exact ⟨(hmessage handle message hnew).1, (hmessage handle message hnew).2.1⟩
  · rw [comingOn_answer, pairwise_append]
    refine ⟨h.ordered handle, ?_, fun first hfirst second hsecond hstep2 => ?_⟩
    · cases frame.message handle <;> simp
    · rw [mem_toList] at hsecond
      by_contra hstep1
      rw [Bool.not_eq_false] at hstep1
      have hnone := (hmessage handle second hsecond).2.2.2 hstep1 first hfirst
      rw [hstep2] at hnone
      exact absurd hnone (by decide)

/-- **The server has taken a frame.** What it carried is in the room of every entry that awaits an
answer on the handle. -/
theorem Inv.popServer (h : s.Inv pageOf) {frame : ClientFrame (SyncMessage U)}
    {rest : List (ClientFrame (SyncMessage U))} (hqueue : s.toServer = frame :: rest)
    (hroom : ∀ handle message, frame.message handle = some message →
      ∀ pageId entry, s.entries.find pageId = some entry → entry.handle = some handle →
        s.canSend = true → s.Awaits handle → message.updates ⊆ s.rooms pageId) :
    { s with toServer := rest }.Inv pageOf := by
  have hsent : ∀ handle message, message ∈ s.sentOn handle ↔
      frame.message handle = some message ∨
        message ∈ ({ s with toServer := rest } : StoreRun U).sentOn handle := by
    intro handle message
    rw [sentOn, hqueue, filterMap_cons]
    cases frame.message handle <;> simp [sentOn, eq_comm]
  refine { h with
    entries := fun pageId entry hentry => ?_
    sentAsks := fun requestId asked hmem =>
      h.sentAsks requestId asked (hqueue ▸ mem_cons_of_mem _ hmem) }
  refine (h.entries pageId entry hentry).mono id id subset_rfl
    fun handle hhandle hsend hawaits => ?_
  have hold : s.Awaits handle := by
    rcases hawaits with ⟨message, hmem, hasks⟩ | hanswers
    · exact .inl ⟨message, (hsent handle message).mpr (.inr hmem), hasks⟩
    · exact .inr hanswers
  refine ⟨hsend, hold, fun update _ hdelivers => ?_⟩
  rcases hdelivers with hin | ⟨message, hmem, hupdate⟩ | hcoming
  · exact .inl hin
  · rcases (hsent handle message).mp hmem with hframe | hrest
    · rw [pageId_eq hentry]
      exact .inl
        (hroom handle message hframe pageId entry hentry hhandle hsend hold hupdate)
    · exact .inr (.inl ⟨message, hrest, hupdate⟩)
  · exact .inr (.inr hcoming)

/-- **The client has taken a frame.** Where it was step 1, every update of the entry is received or
has been sent. -/
theorem Inv.popClient (h : s.Inv pageOf) {frame : ServerFrame (SyncMessage U)}
    {rest : List (ServerFrame (SyncMessage U))} (hqueue : s.toClient = frame :: rest)
    (hstep1 : ∀ handle message, frame.message handle = some message → message.isStep1 = true →
      ∀ pageId entry, s.entries.find pageId = some entry → entry.handle = some handle →
        ∀ update ∈ entry.edits, update ∈ s.rooms pageId ∨
          ∃ message ∈ s.sentOn handle, update ∈ message.updates) :
    { s with toClient := rest }.Inv pageOf := by
  have hcoming : ∀ handle, s.comingOn handle = (frame.message handle).toList ++
      ({ s with toClient := rest } : StoreRun U).comingOn handle := by
    intro handle
    rw [comingOn, hqueue, filterMap_cons]
    cases frame.message handle <;> simp [comingOn]
  have hmem : ∀ handle message, message ∈ s.comingOn handle ↔
      frame.message handle = some message ∨
        message ∈ ({ s with toClient := rest } : StoreRun U).comingOn handle := by
    intro handle message
    rw [hcoming, mem_append, mem_toList]
  refine { h with
    entries := fun pageId entry hentry => ?_
    acks := fun requestId handle role hack =>
      h.acks requestId handle role (hqueue ▸ mem_cons_of_mem _ hack)
    coming := fun handle message hrest =>
      h.coming handle message ((hmem handle message).mpr (.inr hrest))
    ordered := fun handle => ?_ }
  · refine (h.entries pageId entry hentry).mono id id subset_rfl
      fun handle hhandle hsend hawaits => ?_
    refine ⟨hsend, ?_, fun update hupdate hdelivers => ?_⟩
    · rcases hawaits with hasks | ⟨message, hrest, hanswers⟩
      · exact .inl hasks
      · exact .inr ⟨message, (hmem handle message).mpr (.inr hrest), hanswers⟩
    · rcases hdelivers with hroom | hsent | ⟨message, hold, hasks⟩
      · exact .inl hroom
      · exact .inr (.inl hsent)
      · rcases (hmem handle message).mp hold with hframe | hrest
        · rw [pageId_eq hentry]
          rcases hstep1 handle message hframe hasks pageId entry hentry hhandle update hupdate with
            hroom | hsent
          · exact .inl hroom
          · exact .inr (.inl hsent)
        · exact .inr (.inr ⟨message, hrest, hasks⟩)
  · have hordered := h.ordered handle
    rw [hcoming] at hordered
    exact (pairwise_append.mp hordered).2.1

/-- **A room grows.** -/
theorem Inv.grow (h : s.Inv pageOf) (asked : AskedName) (updates : Finset U) :
    { s with rooms := Function.update s.rooms asked (s.rooms asked ∪ updates) }.Inv pageOf := by
  have hrooms : ∀ pageId, s.rooms pageId ⊆
      Function.update s.rooms asked (s.rooms asked ∪ updates) pageId := by
    intro pageId
    by_cases heq : pageId = asked
    · subst heq
      rw [Function.update_self]
      exact Finset.subset_union_left
    · rw [Function.update_of_ne heq]
  refine { h with
    entries := fun pageId entry hentry => ?_
    coming := fun handle message hmem =>
      ⟨(h.coming handle message hmem).1, (h.coming handle message hmem).2.trans (hrooms _)⟩ }
  refine (h.entries pageId entry hentry).mono id id (hrooms _) fun handle _ hsend hawaits =>
    ⟨hsend, hawaits, fun update _ hdelivers => ?_⟩
  rcases hdelivers with hroom | hrest
  · exact .inl (hrooms _ hroom)
  · exact .inr hrest

/-- **Maps lose keys.** -/
theorem Inv.shrink (h : s.Inv pageOf) (byHandle byRequest : ℕ → Option AskedName)
    (hhandle : ∀ handle pageId, byHandle handle = some pageId → s.byHandle handle = some pageId)
    (hrequest : ∀ requestId pageId, byRequest requestId = some pageId →
      s.byRequest requestId = some pageId) :
    { s with
      byHandle := byHandle
      byRequest := byRequest }.Inv pageOf := by
  refine { h with
    byHandle := fun handle pageId hmap => h.byHandle handle pageId (hhandle handle pageId hmap)
    byRequest := fun requestId pageId hmap =>
      h.byRequest requestId pageId (hrequest requestId pageId hmap)
    sentAsks := fun requestId asked hmem => ?_
    opening := fun requestId asked hmem => ?_
    acks := fun requestId handle role hmem => ?_ }
  · obtain ⟨hlt, hsame⟩ := h.sentAsks requestId asked hmem
    exact ⟨hlt, fun pageId hmap => hsame pageId (hrequest requestId pageId hmap)⟩
  · obtain ⟨hlt, hsame⟩ := h.opening requestId asked hmem
    exact ⟨hlt, fun pageId hmap => hsame pageId (hrequest requestId pageId hmap)⟩
  · obtain ⟨hlt, hnext, hsame⟩ := h.acks requestId handle role hmem
    exact ⟨hlt, hnext, fun pageId hmap => hsame pageId (hrequest requestId pageId hmap)⟩

end StoreRun

end Sone.Client
