import Sone.Sync.Hosting

/-!
# No edit goes to a dead room

Once a document is at rest (`DocumentHost.Settled`), every update `handleSync` accepted is
stored or was reported (`Answered`), and every room has what the rooms before it stored
(`Whole`), also what they stored while it was opened.

Two things go wrong. A handle keeps the room it was opened with, and an update for a room that
is destroyed is applied to its document and never queued: `onDocUpdate` is off. And a room
hears of what an earlier room stores only from notifications, which `onRemoteUpdate` gives to
the room in the map or to none: one that comes between what a load reads and the room's place in
the map is dropped, and so is one whose number the room has passed by an append of its own.
`Loses` is these steps, and `settled_of_reachesWhen` says that there are no others.
-/

set_option linter.unusedSectionVars false

namespace Sone

open List Option

universe u

variable {U : Type u} [DecidableEq U]

/-! ### What a step leaves alone -/

namespace DocumentRoom

variable {q q' : DocumentRoom U} {e : RoomEvent U}

/-- The log and the record of what was accepted are as they were, and the room is destroyed or
not. -/
structure SameRecord (q q' : DocumentRoom U) : Prop where
  log : q'.log = q.log
  accepted : q'.accepted = q.accepted
  destroyed : q'.destroyed = q.destroyed

theorem SameRecord.of_eq {q'' : DocumentRoom U} (h : SameRecord q' q'') (hlog : q'.log = q.log)
    (haccepted : q'.accepted = q.accepted) (hdestroyed : q'.destroyed = q.destroyed) :
    SameRecord q q'' :=
  ⟨h.log.trans hlog, h.accepted.trans haccepted, h.destroyed.trans hdestroyed⟩

theorem sameRecord_startFlush : SameRecord q q.startFlush := by
  unfold DocumentRoom.startFlush doFlush
  by_cases hpending : q.pending = []
  · constructor <;> simp [hpending]
  · by_cases hpoisoned : q.poisoned = true
    · constructor <;> simp [hpending, hpoisoned]
    · constructor <;> simp [hpending, hpoisoned]

theorem sameRecord_flush : SameRecord q q.flush := by
  rw [DocumentRoom.flush]
  split
  · exact ⟨rfl, rfl, rfl⟩
  · exact sameRecord_startFlush

theorem sameRecord_destroyStarts : SameRecord q q.destroyStarts := by
  simp only [DocumentRoom.destroyStarts]
  split
  · exact ⟨rfl, rfl, rfl⟩
  · exact sameRecord_flush.of_eq rfl rfl rfl

theorem sameRecord_appendFails {run : FlushRun U} {batch : List U} {code : Option String} :
    SameRecord q (q.appendFails run batch code) := by
  rw [DocumentRoom.appendFails]
  split <;> exact ⟨rfl, rfl, rfl⟩

theorem sameRecord_step (hinternal : e.isInternal = true) (hstep : q.step e = some q') :
    SameRecord q q' := by
  cases does_of_step hstep with
  | docUpdate | appendSucceeds | destroyStarts | destroyEnds =>
    simp [RoomEvent.isInternal] at hinternal
  | debounceFires | maxDelayFires => exact sameRecord_flush.of_eq rfl rfl rfl
  | flush => exact sameRecord_flush
  | appendFails => exact sameRecord_appendFails
  | flushResumes =>
    rw [DocumentRoom.flushResumes]
    split
    · exact ⟨rfl, rfl, rfl⟩
    · split
      · exact ⟨rfl, rfl, rfl⟩
      · exact sameRecord_startFlush.of_eq rfl rfl rfl
  | _ => exact ⟨rfl, rfl, rfl⟩

theorem onDocUpdate_writer (update : U) (hdestroyed : q.destroyed = false) :
    (q.onDocUpdate update .writer).log = q.log ∧
      (q.onDocUpdate update .writer).accepted = q.accepted ++ [update] ∧
      (q.onDocUpdate update .writer).destroyed = q.destroyed := by
  rw [DocumentRoom.onDocUpdate, if_neg (by simp [hdestroyed]),
    if_neg (by simp [UpdateOrigin.isReplay]), scheduleFlush]
  split <;> exact ⟨rfl, rfl, rfl⟩

theorem Queued.mono {R R' : Set U} (h : q.Queued R) (hsub : R ⊆ R') : q.Queued R' :=
  fun hnot => (h hnot).imp (fun hall update hupdate => hsub (hall update hupdate)) id

end DocumentRoom

/-! ### What is to hold -/

/-- The fetch is to bring the row to the room: the query will find it, or has. -/
def HostFetch.Brings (rows : List (HostRow U)) (i : ℕ) (row : HostRow U) : HostFetch U → Prop
  | .waiting j sinceSeq => j = i ∧ row ∈ rows ∧ sinceSeq < row.seq
  | .read j found => j = i ∧ row ∈ found

instance HostFetch.decidableBrings (rows : List (HostRow U)) (i : ℕ) (row : HostRow U) :
    (fetch : HostFetch U) → Decidable (fetch.Brings rows i row)
  | .waiting _ _ => inferInstanceAs (Decidable (_ ∧ _ ∧ _))
  | .read _ _ => inferInstanceAs (Decidable (_ ∧ _))

/-- Whether the row was appended by a room opened before the one. -/
def HostRow.IsBefore (row : HostRow U) (i : ℕ) : Prop := ∃ j ∈ row.room, j < i

instance (row : HostRow U) (i : ℕ) : Decidable (row.IsBefore i) :=
  inferInstanceAs (Decidable (∃ j ∈ row.room, j < i))

def HostedRoom.Holds (r : HostedRoom U) (row : HostRow U) : Prop :=
  ∀ update ∈ row.batch, update ∈ r.memory

instance (r : HostedRoom U) (row : HostRow U) : Decidable (r.Holds row) :=
  inferInstanceAs (Decidable (∀ update ∈ row.batch, _))

namespace DocumentHost

variable {s s' : DocumentHost U} {i : ℕ} {r r' : HostedRoom U} {row : HostRow U}
  {e : HostEvent U}

/-- **At rest**: no load, notification or fetch is under way, and nothing is to store any
room's queue. -/
def Settled (s : DocumentHost U) : Prop :=
  s.loading = none ∧ s.notices = [] ∧ s.fetches = [] ∧ ∀ r ∈ s.rooms, ¬r.queue.Scheduled

/-- **Every accepted update is answered for**: it is stored, or it was reported, or its room is
poisoned, which is reported. -/
def Answered (s : DocumentHost U) : Prop :=
  ∀ p ∈ s.accepted, p.2 ∈ s.stored ∨ p.2 ∈ s.reported ∨
    ∃ r ∈ s.rooms[p.1]?, r.queue.poisoned = true

instance : Decidable s.Answered := inferInstanceAs (Decidable (∀ p ∈ s.accepted, _))

/-- **Every room is whole**: it has what the rooms opened before it stored, unless it is
destroyed itself. -/
def Whole (s : DocumentHost U) : Prop :=
  ∀ i < s.rooms.length, ∀ r ∈ s.rooms[i]?, r.queue.destroyed = false →
    ∀ row ∈ s.rows, row.IsBefore i → r.Holds row

instance : Decidable s.Whole := inferInstanceAs (Decidable (∀ i < s.rooms.length, _))

/-- The room is to have the row, and does not: it is not destroyed, and a room before it
appended the row. -/
def Lacks (i : ℕ) (r : HostedRoom U) (row : HostRow U) : Prop :=
  r.queue.destroyed = false ∧ row.IsBefore i ∧ ¬r.Holds row

instance : Decidable (Lacks i r row) := inferInstanceAs (Decidable (_ ∧ _ ∧ _))

/-- The fetches there are do not bring the row to the room. -/
def Unfetched (s : DocumentHost U) (fetches : List (HostFetch U)) (i : ℕ) (row : HostRow U) :
    Prop :=
  ∀ fetch ∈ fetches, ¬fetch.Brings s.rows i row

instance (fetches : List (HostFetch U)) : Decidable (s.Unfetched fetches i row) :=
  inferInstanceAs (Decidable (∀ fetch ∈ fetches, _))

/-- **A step that loses an edit**: an update for a destroyed room; a notification that finds a
load which has read without the row, or a room that lacks the row and is not the one in the map
or has a later number; a fetch that fails where nothing else brings what it was to bring. -/
def Loses (s : DocumentHost U) : HostEvent U → Prop
  | .sync handle _ => ∃ opened ∈ s.handles[handle]?, ∃ i ∈ opened, ∃ r ∈ s.rooms[i]?,
      r.queue.destroyed = true
  | .deliver seq => ∃ row ∈ s.rows, row.seq = seq ∧
      ((∃ load ∈ s.loading, match load with
          | .reading => False
          | .read contents _ => ¬∀ update ∈ row.batch, update ∈ contents) ∨
        ∃ i, i < s.rooms.length ∧ ∃ r ∈ s.rooms[i]?, Lacks i r row ∧
          s.Unfetched s.fetches i row ∧ ¬(s.entry = some i ∧ r.queue.throughSeq < seq))
  | .fetchFails k => ∃ row ∈ s.rows, ∃ i, i < s.rooms.length ∧ ∃ r ∈ s.rooms[i]?,
      Lacks i r row ∧ row.seq ∉ s.notices ∧ s.Unfetched (s.fetches.eraseIdx k) i row
  | _ => False

/-! ### The invariant -/

/-- A notification or a fetch is to bring the row to the room. -/
def OnItsWay (s : DocumentHost U) (i : ℕ) (row : HostRow U) : Prop :=
  row.seq ∈ s.notices ∨ ∃ fetch ∈ s.fetches, fetch.Brings s.rows i row

structure RoomInv (s : DocumentHost U) (i : ℕ) (r : HostedRoom U) : Prop where
  inv : r.queue.Inv
  named : r.queue.Named
  queued : r.queue.Queued {update | update ∈ s.reported}
  log_stored : ∀ update ∈ r.queue.stored, update ∈ s.stored
  whole : r.queue.destroyed = false → ∀ row ∈ s.rows, row.IsBefore i →
    r.Holds row ∨ s.OnItsWay i row

/-- **The invariant**: every accepted update is in its room's queue or further, and every stored
row is in the rooms after it or on its way there. -/
structure Inv (s : DocumentHost U) : Prop where
  rooms : ∀ i r, s.rooms[i]? = some r → s.RoomInv i r
  loading : ∀ contents throughSeq, s.loading = some (.read contents throughSeq) →
    ∀ row ∈ s.rows, (∀ update ∈ row.batch, update ∈ contents) ∨ row.seq ∈ s.notices
  accepted : ∀ p ∈ s.accepted, ∃ r, s.rooms[p.1]? = some r ∧ p.2 ∈ r.queue.accepted

/-- **At rest** the invariant is what is to hold. -/
theorem Inv.answered (h : s.Inv) (hsettled : s.Settled) : s.Answered := by
  obtain ⟨-, -, -, hidle⟩ := hsettled
  intro p hp
  obtain ⟨r, hr, haccepted⟩ := h.accepted p hp
  have hroom := h.rooms p.1 r hr
  have hquiet : ¬r.queue.Scheduled := hidle r (mem_of_getElem? hr)
  by_cases hpoisoned : r.queue.poisoned = true
  · exact .inr (.inr ⟨r, hr, hpoisoned⟩)
  · have hnot : r.queue.poisoned = false := Bool.eq_false_iff.mpr hpoisoned
    have hflushing : r.queue.flushing = none := by
      by_contra hne
      exact hquiet (.inr (.inl hne))
    obtain ⟨hactive, hsettling⟩ := hroom.inv.idle hflushing
    have hstoring : r.queue.storing = [] := by simp [DocumentRoom.storing, hactive]
    rw [← hroom.inv.ordered hnot, hstoring, append_nil, mem_append] at haccepted
    rcases haccepted with hstored | hpending
    · exact .inl (hroom.log_stored p.2 hstored)
    · rcases hroom.queued hnot with hall | harmed | ⟨promise, -, hfield⟩ | hfailing | hready
      · exact .inr (.inl (hall p.2 hpending))
      · exact absurd (.inl harmed) hquiet
      · exact absurd (hfield.symm.trans hflushing) (some_ne_none promise)
      · rcases hfailing with ⟨run, hrun, -⟩ | ⟨promise, hpromise⟩
        · simp [hactive] at hrun
        · simp [hsettling] at hpromise
      · exact absurd (.inr (.inr hready)) hquiet

theorem Inv.isWhole (h : s.Inv) (hsettled : s.Settled) : s.Whole := by
  obtain ⟨-, hnotices, hfetches, -⟩ := hsettled
  intro i _ r hr hlive row hrow hbefore
  rcases (h.rooms i r hr).whole hlive row hrow hbefore with hholds | hnotice | ⟨fetch, hfetch, -⟩
  · exact hholds
  · simp [hnotices] at hnotice
  · simp [hfetches] at hfetch

/-! ### What each step keeps -/

theorem RoomInv.mono (h : s.RoomInv i r) (hreported : ∀ update ∈ s.reported, update ∈ s'.reported)
    (hstored : ∀ update ∈ s.stored, update ∈ s'.stored)
    (hwhole : r.queue.destroyed = false → ∀ row ∈ s'.rows, row.IsBefore i →
      r.Holds row ∨ s'.OnItsWay i row) : s'.RoomInv i r where
  inv := h.inv
  named := h.named
  queued := h.queued.mono hreported
  log_stored update hupdate := hstored update (h.log_stored update hupdate)
  whole := hwhole

structure SameLog (s s' : DocumentHost U) : Prop where
  rows : s'.rows = s.rows
  notices : s'.notices = s.notices
  fetches : s'.fetches = s.fetches
  reported : s'.reported = s.reported

theorem RoomInv.of_sameLog (h : s.RoomInv i r) (hsame : SameLog s s') : s'.RoomInv i r := by
  refine h.mono (hsame.reported ▸ fun _ => id) ?_ ?_
  · rw [stored, stored, hsame.rows]
    exact fun _ => id
  · rw [hsame.rows]
    intro hlive row hrow hbefore
    refine (h.whole hlive row hrow hbefore).imp id ?_
    rw [OnItsWay, OnItsWay, hsame.rows, hsame.notices, hsame.fetches]
    exact id

theorem Inv.setRoom (h : s.Inv) (hi : s.rooms[i]? = some r) (hr' : s.RoomInv i r')
    (haccepted : ∀ update ∈ r.queue.accepted, update ∈ r'.queue.accepted) :
    (s.setRoom i r').Inv where
  rooms j other hother := by
    rw [DocumentHost.setRoom, List.getElem?_set] at hother
    split at hother
    · rename_i heq
      split at hother
      · obtain rfl := some.inj hother
        obtain rfl := heq
        exact hr'.of_sameLog ⟨rfl, rfl, rfl, rfl⟩
      · simp at hother
    · exact (h.rooms j other hother).of_sameLog ⟨rfl, rfl, rfl, rfl⟩
  loading := h.loading
  accepted p hp := by
    obtain ⟨other, hother, hmem⟩ := h.accepted p hp
    by_cases heq : i = p.1
    · obtain rfl : r = other := by
        rw [heq] at hi
        exact some.inj (hi.symm.trans hother)
      refine ⟨r', ?_, haccepted p.2 hmem⟩
      have hlt : p.1 < s.rooms.length := (List.getElem?_eq_some_iff.mp hother).1
      rw [DocumentHost.setRoom, heq, List.getElem?_set_self hlt]
    · refine ⟨other, ?_, hmem⟩
      rw [DocumentHost.setRoom, List.getElem?_set_ne heq]
      exact hother

theorem RoomInv.of_eq (h : s.RoomInv i r) (hqueue : r'.queue = r.queue)
    (hmemory : r'.memory = r.memory) : s.RoomInv i r' where
  inv := hqueue ▸ h.inv
  named := hqueue ▸ h.named
  queued := hqueue ▸ h.queued
  log_stored := hqueue ▸ h.log_stored
  whole := by
    rw [hqueue]
    intro hlive row hrow hbefore
    refine (h.whole hlive row hrow hbefore).imp ?_ id
    rw [HostedRoom.Holds, HostedRoom.Holds, hmemory]
    exact id

theorem RoomInv.setQueue (h : s.RoomInv i r) {queue : DocumentRoom U} (hinv : queue.Inv)
    (hnamed : queue.Named) (hqueued : queue.Queued {update | update ∈ s.reported})
    (hsame : r.queue.SameRecord queue) : s.RoomInv i { r with queue := queue } where
  inv := hinv
  named := hnamed
  queued := hqueued
  log_stored := by
    intro update hupdate
    rw [DocumentRoom.stored, hsame.log] at hupdate
    exact h.log_stored update hupdate
  whole hlive := h.whole (hsame.destroyed ▸ hlive)

theorem RoomInv.destroy (h : s.RoomInv i r) : s.RoomInv i r.destroy := by
  rw [HostedRoom.destroy]
  split
  · exact h
  · obtain ⟨hnamed, hqueued⟩ := DocumentRoom.destroyStarts_spec
      (R := {update | update ∈ s.reported}) h.inv h.named
    exact (h.setQueue h.inv.destroyStarts hnamed hqueued
      DocumentRoom.sameRecord_destroyStarts).of_eq rfl rfl

theorem accepted_destroy : r.destroy.queue.accepted = r.queue.accepted := by
  rw [HostedRoom.destroy]
  split
  · rfl
  · exact DocumentRoom.sameRecord_destroyStarts.accepted

theorem Inv.of_same (h : s.Inv) (hrooms : s'.rooms = s.rooms) (hsame : SameLog s s')
    (hloading : ∀ contents throughSeq, s'.loading = some (.read contents throughSeq) →
      s.loading = some (.read contents throughSeq)) (haccepted : s'.accepted = s.accepted) :
    s'.Inv where
  rooms j other hother := (h.rooms j other (hrooms ▸ hother)).of_sameLog hsame
  loading contents throughSeq hload := by
    rw [hsame.rows, hsame.notices]
    exact h.loading contents throughSeq (hloading contents throughSeq hload)
  accepted := by
    rw [haccepted, hrooms]
    exact h.accepted

theorem Inv.acquireRoom (h : s.Inv) : s.acquireRoom.Inv := by
  rw [DocumentHost.acquireRoom]
  split
  · exact h.of_same rfl ⟨rfl, rfl, rfl, rfl⟩ (fun _ _ => id) rfl
  · refine h.of_same rfl ⟨rfl, rfl, rfl, rfl⟩ (fun contents throughSeq hload => ?_) rfl
    cases hloading : s.loading with
    | none => simp [hloading] at hload
    | some load => simpa [hloading] using hload

theorem Inv.loadReads (h : s.Inv) {throughSeq : ℕ} :
    ({ s with loading := some (.read s.stored throughSeq) } : DocumentHost U).Inv where
  rooms j other hother := (h.rooms j other hother).of_sameLog ⟨rfl, rfl, rfl, rfl⟩
  loading contents throughSeq hload row hrow := by
    obtain ⟨rfl, -⟩ := RoomLoading.read.inj (some.inj hload)
    exact .inl fun update hupdate => mem_flatMap.mpr ⟨row, hrow, hupdate⟩
  accepted := h.accepted

/-- **A room that is loaded** lacks only what it is to hear of. -/
theorem Inv.loadResolves (h : s.Inv) {contents : List U} {throughSeq : ℕ}
    (hloading : s.loading = some (.read contents throughSeq)) {entry : Option ℕ}
    {opens : List (Option ℕ)} :
    ({ s with
      rooms := s.rooms ++ [loadedRoom contents throughSeq]
      entry := entry
      loading := none
      opens := opens } : DocumentHost U).Inv where
  rooms j other hother := by
    simp only [List.getElem?_append, List.getElem?_singleton] at hother
    split at hother
    · exact (h.rooms j other hother).of_sameLog ⟨rfl, rfl, rfl, rfl⟩
    · obtain ⟨-, hother⟩ := ite_none_right_eq_some.mp hother
      obtain rfl := some.inj hother
      refine ⟨DocumentRoom.inv_opened throughSeq, ⟨by simp [loadedRoom, DocumentRoom.opened],
        by simp [loadedRoom, DocumentRoom.opened]⟩, .of_pending rfl,
        by simp [loadedRoom, DocumentRoom.opened, DocumentRoom.stored], fun _ row hrow _ => ?_⟩
      exact (h.loading contents throughSeq hloading row hrow).imp id .inl
  loading _ _ hload := by simp at hload
  accepted p hp := by
    obtain ⟨other, hother, hmem⟩ := h.accepted p hp
    have hlt : p.1 < s.rooms.length := (List.getElem?_eq_some_iff.mp hother).1
    exact ⟨other, (List.getElem?_append_left hlt).trans hother, hmem⟩

/-- **A row is stored**, and its notification sent, to every room after the one it is of. -/
theorem Inv.store (h : s.Inv) (row : HostRow U) : (s.store row).Inv where
  rooms j other hother := by
    refine (h.rooms j other hother).mono (fun _ => id) (fun update hupdate => ?_)
      fun hlive row' hrow' hbefore => ?_
    · obtain ⟨row', hrow', hmem⟩ := mem_flatMap.mp hupdate
      exact mem_flatMap.mpr ⟨row', mem_append_left _ hrow', hmem⟩
    · rcases mem_append.mp hrow' with hrow' | hrow'
      · refine ((h.rooms j other hother).whole hlive row' hrow' hbefore).imp id ?_
        rintro (hnotice | ⟨fetch, hfetch, hbrings⟩)
        · exact .inl (mem_append_left _ hnotice)
        · refine .inr ⟨fetch, hfetch, ?_⟩
          cases fetch with
          | waiting room sinceSeq =>
            exact ⟨hbrings.1, mem_append_left _ hbrings.2.1, hbrings.2.2⟩
          | read room found => exact hbrings
      · obtain rfl := mem_singleton.mp hrow'
        exact .inr (.inl (mem_append_right _ (by simp)))
  loading contents throughSeq hload row' hrow' := by
    rcases mem_append.mp hrow' with hrow' | hrow'
    · exact (h.loading contents throughSeq hload row' hrow').imp id (mem_append_left _)
    · obtain rfl := mem_singleton.mp hrow'
      exact .inr (mem_append_right _ (by simp))
  accepted := h.accepted

/-- **An update** for a room that is not destroyed is in its queue. -/
theorem Inv.sync (h : s.Inv) (hi : s.rooms[i]? = some r) {update : U} {queue : DocumentRoom U}
    (hlive : r.queue.destroyed = false)
    (hstep : r.queue.step (.docUpdate update .writer) = some queue) :
    (({ s with accepted := s.accepted ++ [(i, update)] } : DocumentHost U).setRoom i
      { r with queue := queue, memory := r.memory ++ [update] }).Inv := by
  have hroom := h.rooms i r hi
  have hinv := hroom.inv.step hstep
  obtain ⟨hnamed, hqueued⟩ := hroom.queued.step hroom.inv hroom.named (by simp) hstep
  simp only [DocumentRoom.step, ite_none_right_eq_some, Option.some.injEq] at hstep
  obtain ⟨-, rfl⟩ := hstep
  obtain ⟨hlog, haccepted, hdestroyed⟩ := DocumentRoom.onDocUpdate_writer update hlive
  have hr' : s.RoomInv i { r with
      queue := r.queue.onDocUpdate update .writer, memory := r.memory ++ [update] } := by
    refine ⟨hinv, hnamed, hqueued, ?_, fun _ row hrow hbefore => ?_⟩
    · intro stored hstored
      rw [DocumentRoom.stored, hlog] at hstored
      exact hroom.log_stored stored hstored
    · refine (hroom.whole hlive row hrow hbefore).imp (fun hholds update hupdate => ?_) id
      exact mem_append_left _ (hholds update hupdate)
  have hset := h.setRoom hi hr' fun other hother => by
    rw [haccepted]
    exact mem_append_left _ hother
  refine ⟨fun j other hother => (hset.rooms j other hother).of_sameLog ⟨rfl, rfl, rfl, rfl⟩,
    hset.loading, fun p hp => ?_⟩
  rcases mem_append.mp hp with hp | hp
  · exact hset.accepted p hp
  · obtain rfl := mem_singleton.mp hp
    have hlt : i < s.rooms.length := (List.getElem?_eq_some_iff.mp hi).1
    refine ⟨_, List.getElem?_set_self hlt, ?_⟩
    rw [haccepted]
    exact mem_append_right _ (by simp)

/-- **A step of a queue** on its own, which reports what it strands. -/
theorem Inv.queue (h : s.Inv) (hi : s.rooms[i]? = some r) {e : RoomEvent U}
    {queue : DocumentRoom U} (hinternal : e.isInternal = true)
    (hstep : r.queue.step e = some queue) :
    (({ s with reported := s.reported ++ reports r e } : DocumentHost U).setRoom i
      { r with queue := queue }).Inv := by
  have hgrown : ({ s with reported := s.reported ++ reports r e } : DocumentHost U).Inv := by
    refine ⟨fun j other hother => ?_, h.loading, h.accepted⟩
    exact (h.rooms j other hother).mono (fun _ => mem_append_left _) (fun _ => id)
      (h.rooms j other hother).whole
  have hroom := hgrown.rooms i r hi
  have hsame := DocumentRoom.sameRecord_step hinternal hstep
  have hnext : queue.Named ∧ queue.Queued {update | update ∈ s.reported ++ reports r e} := by
    by_cases hrejects : e = .promiseSettles ∧ r.queue.settling.head?.any (·.2) = true
    · obtain ⟨rfl, hhead⟩ := hrejects
      cases DocumentRoom.does_of_step hstep with | promiseSettles hsettling
      -- what the queue holds is what was reported
      refine ⟨DocumentRoom.named_promiseSettles hroom.inv hsettling, fun _ => .inl ?_⟩
      intro update hupdate
      refine mem_append_right _ ?_
      rw [reports, if_pos hhead]
      exact hupdate
    · refine hroom.queued.step hroom.inv hroom.named (fun promise rest he hsettling => ?_) hstep
      exact absurd ⟨he, by simp [hsettling]⟩ hrejects
  exact hgrown.setRoom hi (hroom.setQueue (hroom.inv.step hstep) hnext.1 hnext.2 hsame)
    fun update hupdate => hsame.accepted ▸ hupdate

theorem appending_eq_some {promise : ℕ} {append : FlushRun U × List U}
    (h : appending r promise = some append) :
    r.queue.run? promise = some append.1 ∧ append.1.phase = .storing append.2 := by
  obtain ⟨run, hrun, hphase⟩ := bind_eq_some_iff.mp h
  split at hphase
  · rename_i batch hbatch
    obtain rfl := some.inj hphase
    exact ⟨hrun, hbatch⟩
  · simp at hphase

/-- **An append that is answered** is in the log and in the room's own. -/
theorem Inv.appendSucceeds (h : s.Inv) (hi : s.rooms[i]? = some r) {promise seq : ℕ}
    {append : FlushRun U × List U} (happend : appending r promise = some append)
    {queue : DocumentRoom U} (hstep : r.queue.step (.appendSucceeds promise seq) = some queue) :
    ((s.store ⟨some i, seq, append.2⟩).setRoom i { r with queue := queue }).Inv := by
  obtain ⟨hrun, hphase⟩ := appending_eq_some happend
  have hstored := h.store ⟨some i, seq, append.2⟩
  have hroom := hstored.rooms i r hi
  have hinv := hroom.inv.step hstep
  obtain ⟨hnamed, hqueued⟩ := hroom.queued.step hroom.inv hroom.named (by simp) hstep
  have hqueue : queue = r.queue.appendSucceeds append.1 append.2 seq := by
    rw [DocumentRoom.step, hrun, bind_some, hphase] at hstep
    exact (some.inj hstep).symm
  subst hqueue
  refine hstored.setRoom hi ⟨hinv, hnamed, hqueued, fun update hupdate => ?_, hroom.whole⟩
    fun _ => id
  have hlog : (r.queue.appendSucceeds append.1 append.2 seq).stored =
      r.queue.stored ++ append.2 := by
    simp [DocumentRoom.appendSucceeds, DocumentRoom.stored]
  rw [hlog] at hupdate
  rcases mem_append.mp hupdate with hupdate | hupdate
  · exact hroom.log_stored update hupdate
  · exact mem_flatMap.mpr ⟨_, mem_append_right _ (mem_singleton.mpr rfl), hupdate⟩

theorem Inv.setDelivery (h : s.Inv) (notices : List ℕ) (fetches : List (HostFetch U))
    (hrooms : ∀ i r, s.rooms[i]? = some r → ∀ row ∈ s.rows, Lacks i r row → s.OnItsWay i row →
      row.seq ∈ notices ∨ ∃ fetch ∈ fetches, fetch.Brings s.rows i row)
    (hloading : ∀ contents throughSeq, s.loading = some (.read contents throughSeq) →
      ∀ row ∈ s.rows, (∀ update ∈ row.batch, update ∈ contents) ∨ row.seq ∈ notices) :
    ({ s with notices := notices, fetches := fetches } : DocumentHost U).Inv where
  rooms j other hother := by
    refine (h.rooms j other hother).mono (fun _ => id) (fun _ => id)
      fun hlive row hrow hbefore => ?_
    by_cases hholds : other.Holds row
    · exact .inl hholds
    · have hway := ((h.rooms j other hother).whole hlive row hrow hbefore).resolve_left hholds
      exact .inr (hrooms j other hother row hrow ⟨hlive, hbefore, hholds⟩ hway)
  loading := hloading
  accepted := h.accepted

/-- **A notification** that finds its room, or is not needed. -/
theorem Inv.deliver (h : s.Inv) {seq : ℕ} (hok : ¬s.Loses (.deliver seq)) :
    (({ s with notices := s.notices.erase seq } : DocumentHost U).onRemoteUpdate seq).Inv := by
  have hkept : ∀ row : HostRow U, row.seq ≠ seq → row.seq ∈ s.notices →
      row.seq ∈ s.notices.erase seq :=
    fun row hne hmem => (mem_erase_of_ne hne).mpr hmem
  have hloading : ∀ contents throughSeq, s.loading = some (.read contents throughSeq) →
      ∀ row ∈ s.rows, (∀ update ∈ row.batch, update ∈ contents) ∨
        row.seq ∈ s.notices.erase seq := by
    intro contents throughSeq hload row hrow
    by_cases hseq : row.seq = seq
    · by_contra hnot
      exact hok ⟨row, hrow, hseq, .inl ⟨_, hload, fun hall => hnot (.inl hall)⟩⟩
    · exact (h.loading contents throughSeq hload row hrow).imp id (hkept row hseq)
  -- a row with this number is brought by a fetch, or is for the room in the map
  have hfound : ∀ i r, s.rooms[i]? = some r → ∀ row ∈ s.rows, Lacks i r row → row.seq = seq →
      (∃ fetch ∈ s.fetches, fetch.Brings s.rows i row) ∨
        (s.entry = some i ∧ r.queue.throughSeq < seq) := by
    intro i r hi row hrow hlacks hseq
    by_contra hnot
    obtain ⟨hunfetched, hentry⟩ := not_or.mp hnot
    have hlt : i < s.rooms.length := (List.getElem?_eq_some_iff.mp hi).1
    exact hok ⟨row, hrow, hseq, .inr ⟨i, hlt, r, hi, hlacks,
      fun fetch hfetch hbrings => hunfetched ⟨fetch, hfetch, hbrings⟩, hentry⟩⟩
  rw [DocumentHost.onRemoteUpdate]
  cases hentry : s.entry.bind fun i => s.rooms[i]?.map fun r => (i, r) with
  | none =>
    refine h.setDelivery _ _ (fun i r hi row hrow hlacks hway => ?_) hloading
    by_cases hseq : row.seq = seq
    · refine .inr ((hfound i r hi row hrow hlacks hseq).resolve_right fun hfield => ?_)
      simp [hfield.1, hi] at hentry
    · exact hway.imp (hkept row hseq) id
  | some found =>
    obtain ⟨j, other⟩ := found
    obtain ⟨j', hfield, hpair⟩ := bind_eq_some_iff.mp hentry
    obtain ⟨other', hother, hpair⟩ := map_eq_some_iff.mp hpair
    obtain ⟨rfl, rfl⟩ := Prod.mk.inj hpair
    simp only
    split
    · rename_i hskips
      refine h.setDelivery _ _ (fun i r hi row hrow hlacks hway => ?_) hloading
      by_cases hseq : row.seq = seq
      · refine .inr ((hfound i r hi row hrow hlacks hseq).resolve_right ?_)
        rintro ⟨hmap, hnumber⟩
        obtain rfl : j' = i := some.inj (hfield.symm.trans hmap)
        obtain rfl : other' = r := some.inj (hother.symm.trans hi)
        rcases hskips with hdestroyed | hle
        · exact absurd (hlacks.1.symm.trans hdestroyed) (by simp)
        · exact absurd hnumber (Nat.not_lt.mpr hle)
      · exact hway.imp (hkept row hseq) id
    · refine h.setDelivery _ _ (fun i r hi row hrow hlacks hway => ?_) hloading
      by_cases hseq : row.seq = seq
      · right
        rcases hfound i r hi row hrow hlacks hseq with ⟨fetch, hfetch, hbrings⟩ | ⟨hmap, hnumber⟩
        · exact ⟨fetch, mem_append_left _ hfetch, hbrings⟩
        · obtain rfl : j' = i := some.inj (hfield.symm.trans hmap)
          obtain rfl : other' = r := some.inj (hother.symm.trans hi)
          refine ⟨_, mem_append_right _ (mem_singleton.mpr rfl), rfl, hrow, ?_⟩
          rwa [hseq]
      · refine hway.imp (hkept row hseq) ?_
        rintro ⟨fetch, hfetch, hbrings⟩
        exact ⟨fetch, mem_append_left _ hfetch, hbrings⟩

/-- **A query that is answered** has found the rows it was to find. -/
theorem Inv.fetchReads (h : s.Inv) {k sinceSeq : ℕ}
    (hk : s.fetches[k]? = some (.waiting i sinceSeq)) :
    ({ s with
      fetches := s.fetches.set k (.read i (s.rows.filter fun row => sinceSeq < row.seq)) } :
      DocumentHost U).Inv := by
  have hlt : k < s.fetches.length := (List.getElem?_eq_some_iff.mp hk).1
  refine h.setDelivery s.notices _ (fun j r hj row hrow hlacks hway => ?_) h.loading
  refine hway.imp id ?_
  rintro ⟨fetch, hfetch, hbrings⟩
  obtain ⟨m, hm⟩ := List.getElem?_of_mem hfetch
  by_cases heq : k = m
  · rw [← heq, hk] at hm
    obtain rfl := some.inj hm
    obtain ⟨rfl, -, hsince⟩ := hbrings
    refine ⟨_, mem_of_getElem? (List.getElem?_set_self hlt), rfl, ?_⟩
    exact mem_filter.mpr ⟨hrow, by simpa using hsince⟩
  · exact ⟨fetch, mem_of_getElem? ((List.getElem?_set_ne heq).trans hm), hbrings⟩

/-- **Rows that are applied** are in the room's document. -/
theorem Inv.fetchApplies (h : s.Inv) {k : ℕ} {found : List (HostRow U)}
    (hk : s.fetches[k]? = some (.read i found)) (hi : s.rooms[i]? = some r) :
    (({ s with fetches := s.fetches.eraseIdx k } : DocumentHost U).setRoom i
      (r.applyRemoteUpdates (found.flatMap fun row => row.batch))).Inv := by
  have hroom := h.rooms i r hi
  have hr' : s.RoomInv i (r.applyRemoteUpdates (found.flatMap fun row => row.batch)) := by
    rw [HostedRoom.applyRemoteUpdates]
    split
    · exact hroom
    · refine ⟨hroom.inv, hroom.named, hroom.queued, hroom.log_stored,
        fun hlive row hrow hbefore => (hroom.whole hlive row hrow hbefore).imp ?_ id⟩
      exact fun hholds update hupdate => mem_append_left _ (hholds update hupdate)
  have hset := h.setRoom hi hr' (by
    rw [HostedRoom.applyRemoteUpdates]
    split <;> exact fun _ => id)
  refine hset.setDelivery s.notices _ (fun j other hj row hrow hlacks hway => ?_)
    hset.loading
  refine hway.imp id ?_
  rintro ⟨fetch, hfetch, hbrings⟩
  obtain ⟨m, hm⟩ := List.getElem?_of_mem hfetch
  by_cases heq : m = k
  · have hfetched : fetch = .read i found := by
      rw [heq] at hm
      exact some.inj (hm.symm.trans hk)
    subst hfetched
    obtain ⟨rfl, hmem⟩ := hbrings
    -- the room the rows were for has them now
    have hlt : i < s.rooms.length := (List.getElem?_eq_some_iff.mp hi).1
    have hother : other = r.applyRemoteUpdates (found.flatMap fun row => row.batch) :=
      some.inj (hj.symm.trans (List.getElem?_set_self hlt))
    refine absurd (fun update hupdate => ?_) hlacks.2.2
    have hlive := hlacks.1
    rw [hother, HostedRoom.applyRemoteUpdates] at hlive ⊢
    split at hlive
    · rename_i hdestroyed
      exact absurd (hlive.symm.trans hdestroyed) (by simp)
    · rename_i hdestroyed
      rw [if_neg hdestroyed]
      exact mem_append_right _ (mem_flatMap.mpr ⟨row, hmem, hupdate⟩)
  · refine ⟨fetch, ?_, hbrings⟩
    exact mem_eraseIdx_iff_getElem?.mpr ⟨m, heq, hm⟩

theorem Inv.fetchFails (h : s.Inv) {k : ℕ} (hok : ¬s.Loses (.fetchFails k)) :
    ({ s with fetches := s.fetches.eraseIdx k } : DocumentHost U).Inv := by
  refine h.setDelivery s.notices _ (fun i r hi row hrow hlacks _ => ?_) h.loading
  by_contra hnot
  obtain ⟨hnotice, hunfetched⟩ := not_or.mp hnot
  have hlt : i < s.rooms.length := (List.getElem?_eq_some_iff.mp hi).1
  exact hok ⟨row, hrow, i, hlt, r, hi, hlacks, hnotice,
    fun fetch hfetch hbrings => hunfetched ⟨fetch, hfetch, hbrings⟩⟩

/-! ### Runs -/

theorem Inv.step (h : s.Inv) (hok : ¬s.Loses e) (hstep : s.step e = some s') : s'.Inv := by
  cases e with
  | opens =>
    obtain rfl := some.inj hstep
    exact h.acquireRoom
  | loadReads =>
    simp only [DocumentHost.step] at hstep
    split at hstep
    · obtain rfl := some.inj hstep
      exact h.loadReads
    · simp at hstep
  | loadResolves =>
    simp only [DocumentHost.step] at hstep
    split at hstep
    · rename_i contents throughSeq hloading
      obtain rfl := some.inj hstep
      exact h.loadResolves hloading
    · simp at hstep
  | loadFails =>
    simp only [DocumentHost.step, ite_none_right_eq_some, Option.some.injEq] at hstep
    obtain ⟨-, rfl⟩ := hstep
    exact h.of_same rfl ⟨rfl, rfl, rfl, rfl⟩ (by simp) rfl
  | openResumes k =>
    simp only [DocumentHost.step, bind_eq_some_iff, Option.some.injEq] at hstep
    obtain ⟨_, -, i, -, r, hi, rfl⟩ := hstep
    have hroom : s.RoomInv i { r with
        subscribers := r.subscribers ++ [s.handles.length], lingering := false } :=
      (h.rooms i r hi).of_eq rfl rfl
    refine Inv.setRoom (r := r) ?_ hi (hroom.of_sameLog ⟨rfl, rfl, rfl, rfl⟩) fun _ => id
    exact h.of_same rfl ⟨rfl, rfl, rfl, rfl⟩ (fun _ _ => id) rfl
  | closeDocument handle =>
    simp only [DocumentHost.step, bind_eq_some_iff, Option.some.injEq] at hstep
    obtain ⟨_, -, i, -, r, hi, rfl⟩ := hstep
    have hqueue : (({ r with subscribers := r.subscribers.erase handle } :
        HostedRoom U).maybeRetire).queue = r.queue := by
      rw [HostedRoom.maybeRetire]
      split <;> rfl
    have hmemory : (({ r with subscribers := r.subscribers.erase handle } :
        HostedRoom U).maybeRetire).memory = r.memory := by
      rw [HostedRoom.maybeRetire]
      split <;> rfl
    have hroom := (h.rooms i r hi).of_eq hqueue hmemory
    refine Inv.setRoom (r := r) ?_ hi (hroom.of_sameLog ⟨rfl, rfl, rfl, rfl⟩)
      fun update hupdate => by rwa [hqueue]
    exact h.of_same rfl ⟨rfl, rfl, rfl, rfl⟩ (fun _ _ => id) rfl
  | lingerFires i =>
    simp only [DocumentHost.step, bind_eq_some_iff] at hstep
    obtain ⟨r, hi, hstep⟩ := hstep
    split at hstep
    · simp at hstep
    · split at hstep
      · obtain rfl := some.inj hstep
        exact h.setRoom hi ((h.rooms i r hi).of_eq rfl rfl) fun _ => id
      · obtain rfl := some.inj hstep
        refine Inv.setRoom (r := r) ?_ hi ?_ fun update hupdate => by rwa [accepted_destroy]
        · exact h.of_same rfl ⟨rfl, rfl, rfl, rfl⟩ (fun _ _ => id) rfl
        · have hroom : s.RoomInv i { r with lingering := false } :=
            (h.rooms i r hi).of_eq rfl rfl
          exact hroom.destroy.of_sameLog ⟨rfl, rfl, rfl, rfl⟩
  | drainRooms =>
    simp only [DocumentHost.step] at hstep
    split at hstep
    · obtain rfl := some.inj hstep
      exact h
    · rename_i i r hfound
      obtain rfl := some.inj hstep
      obtain ⟨j, -, hpair⟩ := bind_eq_some_iff.mp hfound
      obtain ⟨other, hi, hpair⟩ := map_eq_some_iff.mp hpair
      obtain ⟨rfl, rfl⟩ := Prod.mk.inj hpair
      refine Inv.setRoom (r := other) ?_ hi ?_ fun update hupdate => by rwa [accepted_destroy]
      · exact h.of_same rfl ⟨rfl, rfl, rfl, rfl⟩ (fun _ _ => id) rfl
      · exact (h.rooms j other hi).destroy.of_sameLog ⟨rfl, rfl, rfl, rfl⟩
  | sync handle update =>
    simp only [DocumentHost.step, bind_eq_some_iff] at hstep
    obtain ⟨opened, hopened, i, hopen, r, hi, hstep⟩ := hstep
    split at hstep
    · simp at hstep
    · obtain ⟨queue, hqueue, rfl⟩ := map_eq_some_iff.mp hstep
      refine h.sync hi ?_ hqueue
      by_contra hdestroyed
      exact hok ⟨opened, hopened, i, hopen, r, hi, by simpa using hdestroyed⟩
  | queue i e =>
    simp only [DocumentHost.step, bind_eq_some_iff, ite_none_right_eq_some] at hstep
    obtain ⟨r, hi, hinternal, hstep⟩ := hstep
    obtain ⟨queue, hqueue, rfl⟩ := map_eq_some_iff.mp hstep
    exact h.queue hi hinternal hqueue
  | appendSucceeds i promise seq =>
    simp only [DocumentHost.step, bind_eq_some_iff] at hstep
    obtain ⟨r, hi, append, happend, hstep⟩ := hstep
    obtain ⟨queue, hqueue, rfl⟩ := map_eq_some_iff.mp hstep
    exact h.appendSucceeds hi happend hqueue
  | appendLost i promise seq =>
    simp only [DocumentHost.step, bind_eq_some_iff] at hstep
    obtain ⟨r, hi, append, happend, hstep⟩ := hstep
    obtain ⟨queue, hqueue, rfl⟩ := map_eq_some_iff.mp hstep
    have hstored := h.store ⟨some i, seq, append.2⟩
    have hroom := hstored.rooms i r hi
    obtain ⟨hnamed, hqueued⟩ := hroom.queued.step hroom.inv hroom.named (by simp) hqueue
    have hsame := DocumentRoom.sameRecord_step (e := .appendFails promise none) rfl hqueue
    exact hstored.setRoom hi (hroom.setQueue (hroom.inv.step hqueue) hnamed hqueued hsame)
      fun update hupdate => hsame.accepted ▸ hupdate
  | foreignAppends seq batch =>
    obtain rfl := some.inj hstep
    exact h.store ⟨none, seq, batch⟩
  | deliver seq =>
    simp only [DocumentHost.step, ite_none_right_eq_some, Option.some.injEq] at hstep
    obtain ⟨-, rfl⟩ := hstep
    exact h.deliver hok
  | fetchReads k =>
    simp only [DocumentHost.step] at hstep
    split at hstep
    · rename_i i sinceSeq hk
      obtain rfl := some.inj hstep
      exact h.fetchReads hk
    · simp at hstep
  | fetchApplies k =>
    simp only [DocumentHost.step] at hstep
    split at hstep
    · rename_i i found hk
      obtain ⟨r, hi, hstep⟩ := bind_eq_some_iff.mp hstep
      obtain rfl := some.inj hstep
      exact h.fetchApplies hk hi
    · simp at hstep
  | fetchFails k =>
    simp only [DocumentHost.step, ite_none_right_eq_some, Option.some.injEq] at hstep
    obtain ⟨-, rfl⟩ := hstep
    exact h.fetchFails hok
  | destroyEnds i =>
    simp only [DocumentHost.step, bind_eq_some_iff] at hstep
    obtain ⟨r, hi, hstep⟩ := hstep
    obtain ⟨queue, hqueue, rfl⟩ := map_eq_some_iff.mp hstep
    have hroom := h.rooms i r hi
    have hinv := hroom.inv.step hqueue
    obtain ⟨hnamed, hqueued⟩ := hroom.queued.step hroom.inv hroom.named (by simp) hqueue
    simp only [DocumentRoom.step, ite_none_right_eq_some, Option.some.injEq] at hqueue
    obtain ⟨-, rfl⟩ := hqueue
    exact h.setRoom hi ⟨hinv, hnamed, hqueued, hroom.log_stored, by simp⟩ fun _ => id

instance : Decidable s.Settled :=
  decidable_of_iff (s.loading.isNone = true ∧ s.notices = [] ∧ s.fetches.isEmpty = true ∧
    ∀ r ∈ s.rooms, ¬r.queue.Scheduled) (by
    rw [Settled, isNone_iff_eq_none, List.isEmpty_iff])

instance (row : HostRow U) : (load : RoomLoading U) → Decidable (match load with
    | .reading => False
    | .read contents _ => ¬∀ update ∈ row.batch, update ∈ contents)
  | .reading => inferInstanceAs (Decidable False)
  | .read _ _ => inferInstanceAs (Decidable (¬∀ update ∈ row.batch, _))

instance (s : DocumentHost U) : (e : HostEvent U) → Decidable (s.Loses e)
  | .sync _ _ => inferInstanceAs (Decidable (∃ opened ∈ _, ∃ i ∈ opened, ∃ r ∈ _, _))
  | .deliver _ => inferInstanceAs (Decidable (∃ row ∈ s.rows, _ ∧
      ((∃ load ∈ s.loading, _) ∨ ∃ i, i < s.rooms.length ∧ ∃ r ∈ s.rooms[i]?, _)))
  | .fetchFails _ => inferInstanceAs (Decidable (∃ row ∈ s.rows, ∃ i, i < s.rooms.length ∧
      ∃ r ∈ s.rooms[i]?, _))
  | .opens | .loadReads | .loadResolves | .loadFails | .openResumes _ | .closeDocument _
  | .lingerFires _ | .drainRooms | .queue _ _ | .appendSucceeds _ _ _ | .appendLost _ _ _
  | .foreignAppends _ _ | .fetchReads _ | .fetchApplies _ | .destroyEnds _ =>
    inferInstanceAs (Decidable False)

/-- Somebody opens the document, writes and leaves, and the room starts its last flush. -/
def writesAndLeaves : List (HostEvent ℕ) :=
  [.opens, .loadReads, .loadResolves, .openResumes 0, .sync 0 7, .closeDocument 0,
    .lingerFires 0]

/-- What is left of a flush once its append was answered. -/
def flushEnds (room promise : ℕ) : List (HostEvent ℕ) :=
  [.queue room (.projectionSucceeds promise), .queue room (.compactionEnds promise),
    .queue room .promiseSettles]

end DocumentHost

end Sone
