import Sone.Transition.Machine
import Mathlib.Data.Nat.Notation

/-!
# The write queue of a room

A `DocumentRoom` (`sync/room.ts`) queues the updates made to its document and stores them in
batches. `onDocUpdate` accepts an update, two timers and anybody else may call `flush`, and
`doFlush` takes the whole queue, appends it as one row, projects the document and now and
then compacts the log. Storing can fail for good (the room is poisoned), or for now (the
batch goes back to the front of the queue); projecting and compacting can fail without
consequence for the queue.

The machine `documentRoom` steps through this as the runtime does. Code between two awaits
runs without interruption. Timers, incoming messages and database answers are taken up only
when no continuation is ready to run (`DocumentRoom.Drained`); a promise that settles runs
its `finally` first and then the continuations awaiting it, one after the other. A call of
`flush` may come at any point, also between two continuations.

`Inv` says where an accepted update is: stored, in the batch being appended, or in the
queue, in the order of acceptance. The one place two flushes could overlap is a continuation
that finds the queue non-empty and starts a flush without looking whether one is running;
the invariant says that none is.
-/

set_option linter.unusedSectionVars false

namespace Sone

open List Option

universe u

inductive UpdateOrigin where
  | load
  | remoteBus
  /-- A subscriber, the server or a migration. -/
  | writer
  deriving DecidableEq

/-- Replays are not new writes: another instance stored them. -/
def UpdateOrigin.isReplay : UpdateOrigin → Bool
  | load => true
  | remoteBus => true
  | writer => false

/-- `isPermanentWriteFailure`, on the error's SQLSTATE where it has one. -/
def isPermanentWriteFailure : Option String → Bool
  | none => false
  | some code => code.startsWith "22" || code.startsWith "23" || code.startsWith "42" ||
      code.startsWith "3D" || code.startsWith "3F"

/-- A timer: not set, running, or fired and still held by the room. -/
inductive Timer where
  | off
  | armed
  | fired
  deriving DecidableEq

/-- Where a run of `doFlush` that has taken a batch is awaiting. -/
inductive FlushPhase (U : Type u) where
  /-- `appendUpdate`. -/
  | storing (batch : List U)
  /-- `recordFailure`, after a transient failure put the batch back. -/
  | recordingStoreFailure
  /-- The projection's transaction. -/
  | projecting (seq : ℕ)
  /-- `recordFailure`, after the projection failed. -/
  | recordingProjectionFailure
  /-- `pendingUpdateCount` and `compactDoc`. -/
  | compacting
  deriving DecidableEq

def FlushPhase.batch {U : Type u} : FlushPhase U → List U
  | storing batch => batch
  | _ => []

/-- A run of `doFlush`, by the promise `flush` made of it. -/
structure FlushRun (U : Type u) where
  promise : ℕ
  phase : FlushPhase U
  deriving DecidableEq

/-- A room, as far as its write queue goes. -/
structure DocumentRoom (U : Type u) where
  /-- `pendingUpdates`. -/
  pending : List U
  debounceTimer : Timer
  maxDelayTimer : Timer
  /-- `flushing`, the promise the field holds. -/
  flushing : Option ℕ
  nextPromise : ℕ
  /-- The runs of `doFlush` between taking a batch and finishing. -/
  active : List (FlushRun U)
  /-- The promises of finished runs whose `finally` has not run, and whether they reject. -/
  settling : List (ℕ × Bool)
  /-- The calls of `flush` awaiting a promise. -/
  waiters : List ℕ
  /-- The continuations of such calls that are ready to run, and whether the promise they
  awaited was rejected. -/
  ready : List Bool
  throughSeq : ℕ
  projectionError : Option String
  poisoned : Bool
  destroying : Bool
  destroyed : Bool
  /-- The batches stored in `doc_updates`, oldest first. -/
  log : List (List U)
  /-- Every update accepted, in order of acceptance. -/
  accepted : List U

inductive RoomEvent (U : Type u) where
  | docUpdate (update : U) (origin : UpdateOrigin)
  | debounceFires
  | maxDelayFires
  /-- Somebody calls `flush`. -/
  | flush
  /-- The append of a run is answered. -/
  | appendSucceeds (promise seq : ℕ)
  | appendFails (promise : ℕ) (code : Option String)
  | projectionSucceeds (promise : ℕ)
  | projectionFails (promise : ℕ) (reason : String)
  /-- `recordFailure` returns; it never fails. -/
  | failureRecorded (promise : ℕ)
  /-- The compaction ends, done or failed. -/
  | compactionEnds (promise : ℕ)
  /-- The `finally` of a settled promise runs. -/
  | promiseSettles
  /-- The next ready continuation of a `flush` call runs. -/
  | flushResumes
  | destroyStarts
  | destroyEnds

variable {U : Type u} [DecidableEq U]

namespace DocumentRoom

/-- No continuation is ready to run, so timers, messages and answers are taken up. -/
def Drained (s : DocumentRoom U) : Prop := s.settling = [] ∧ s.ready = []

instance (s : DocumentRoom U) : Decidable s.Drained := inferInstanceAs (Decidable (_ ∧ _))

def scheduleFlush (s : DocumentRoom U) : DocumentRoom U :=
  if s.poisoned then s else
    { s with
      debounceTimer := .armed
      -- the ceiling timer is armed once and not reset
      maxDelayTimer := if s.maxDelayTimer = .off then .armed else s.maxDelayTimer }

def onDocUpdate (s : DocumentRoom U) (update : U) (origin : UpdateOrigin) : DocumentRoom U :=
  if s.destroyed then s
  else if origin.isReplay then s
  else scheduleFlush { s with
    pending := s.pending ++ [update]
    accepted := s.accepted ++ [update] }

/-- `doFlush`, up to its first await: the room with the queue taken, and the phase it waits
in, or nothing where it returned. -/
def doFlush (s : DocumentRoom U) : DocumentRoom U × Option (FlushPhase U) :=
  let s := { s with debounceTimer := .off, maxDelayTimer := .off }
  if s.pending = [] then (s, none)
  else if s.poisoned then ({ s with pending := [] }, none)
  else ({ s with pending := [] }, some (.storing s.pending))

/-- `this.flushing = this.doFlush().finally(…)`. -/
def startFlush (s : DocumentRoom U) : DocumentRoom U :=
  let (s, phase) := s.doFlush
  let s := { s with flushing := some s.nextPromise, nextPromise := s.nextPromise + 1 }
  match phase with
  | none => { s with settling := s.settling ++ [(s.nextPromise - 1, false)] }
  | some phase => { s with active := s.active ++ [⟨s.nextPromise - 1, phase⟩] }

/-- `flush`, up to its first await. -/
def flush (s : DocumentRoom U) : DocumentRoom U :=
  match s.flushing with
  | some promise => { s with waiters := s.waiters ++ [promise] }
  | none => s.startFlush

/-- `flush`, after `await this.flushing`. -/
def flushResumes (s : DocumentRoom U) (rejected : Bool) : DocumentRoom U :=
  if rejected then s else if s.pending = [] then s else s.startFlush

/-- A run goes on to its next await. -/
def setPhase (s : DocumentRoom U) (run : FlushRun U) (phase : FlushPhase U) : DocumentRoom U :=
  { s with active := { run with phase } :: s.active.erase run }

/-- A run ends: its promise is about to settle. -/
def finishRun (s : DocumentRoom U) (run : FlushRun U) (rejected : Bool) : DocumentRoom U :=
  { s with active := s.active.erase run, settling := s.settling ++ [(run.promise, rejected)] }

def appendSucceeds (s : DocumentRoom U) (run : FlushRun U) (batch : List U) (seq : ℕ) :
    DocumentRoom U :=
  { s.setPhase run (.projecting seq) with log := s.log ++ [batch], throughSeq := seq }

def appendFails (s : DocumentRoom U) (run : FlushRun U) (batch : List U)
    (code : Option String) : DocumentRoom U :=
  if isPermanentWriteFailure code then
    { s.finishRun run false with poisoned := true }
  else
    { s.setPhase run .recordingStoreFailure with pending := batch ++ s.pending }

/-- The `finally` of a settled promise: the field is cleared, and whoever awaited the
promise is ready to go on. -/
def promiseSettles (s : DocumentRoom U) (promise : ℕ) (rejected : Bool) : DocumentRoom U :=
  { s with
    flushing := none
    settling := s.settling.erase (promise, rejected)
    waiters := s.waiters.filter (· ≠ promise)
    ready := s.ready ++ (s.waiters.filter (· = promise)).map fun _ => rejected }

/-- `destroy`, up to its first await. -/
def destroyStarts (s : DocumentRoom U) : DocumentRoom U :=
  let s := { s with debounceTimer := .off, maxDelayTimer := .off, destroying := true }
  if s.pending = [] then s else s.flush

def run? (s : DocumentRoom U) (promise : ℕ) : Option (FlushRun U) :=
  if s.Drained then s.active.find? fun run => run.promise = promise else none

def step (s : DocumentRoom U) : RoomEvent U → Option (DocumentRoom U)
  | .docUpdate update origin =>
    if s.Drained ∨ origin.isReplay then some (s.onDocUpdate update origin) else none
  | .debounceFires =>
    if s.Drained ∧ s.debounceTimer = .armed then
      some ({ s with debounceTimer := .fired } : DocumentRoom U).flush
    else none
  | .maxDelayFires =>
    if s.Drained ∧ s.maxDelayTimer = .armed then
      some ({ s with maxDelayTimer := .fired } : DocumentRoom U).flush
    else none
  | .flush => some s.flush
  | .appendSucceeds promise seq => (s.run? promise).bind fun run =>
    match run.phase with
    | .storing batch => some (s.appendSucceeds run batch seq)
    | _ => none
  | .appendFails promise code => (s.run? promise).bind fun run =>
    match run.phase with
    | .storing batch => some (s.appendFails run batch code)
    | _ => none
  | .projectionSucceeds promise => (s.run? promise).bind fun run =>
    match run.phase with
    | .projecting _ => some { s.setPhase run .compacting with projectionError := none }
    | _ => none
  | .projectionFails promise reason => (s.run? promise).bind fun run =>
    match run.phase with
    | .projecting _ =>
      some { s.setPhase run .recordingProjectionFailure with projectionError := some reason }
    | _ => none
  | .failureRecorded promise => (s.run? promise).bind fun run =>
    match run.phase with
    | .recordingStoreFailure => some (s.finishRun run true)
    | .recordingProjectionFailure => some (s.setPhase run .compacting)
    | _ => none
  | .compactionEnds promise => (s.run? promise).bind fun run =>
    match run.phase with
    | .compacting => some (s.finishRun run false)
    | _ => none
  | .promiseSettles =>
    match s.settling with
    | [] => none
    | (promise, rejected) :: _ => some (s.promiseSettles promise rejected)
  | .flushResumes =>
    match s.ready with
    | [] => none
    | rejected :: rest => some (({ s with ready := rest } : DocumentRoom U).flushResumes rejected)
  | .destroyStarts => if s.destroying then none else some s.destroyStarts
  | .destroyEnds => if s.destroying then some { s with destroyed := true } else none

def opened (throughSeq : ℕ) : DocumentRoom U where
  pending := []
  debounceTimer := .off
  maxDelayTimer := .off
  flushing := none
  nextPromise := 0
  active := []
  settling := []
  waiters := []
  ready := []
  throughSeq
  projectionError := none
  poisoned := false
  destroying := false
  destroyed := false
  log := []
  accepted := []

end DocumentRoom

/-- **The machine of a room's write queue.** -/
def documentRoom (U : Type u) [DecidableEq U] : Machine (DocumentRoom U) (RoomEvent U) where
  init s := ∃ throughSeq, s = .opened throughSeq
  step := DocumentRoom.step

namespace DocumentRoom

/-! ### The invariant -/

/-- The updates stored, in the order of the log. -/
def stored (s : DocumentRoom U) : List U := s.log.flatten

/-- The updates in the batches being appended. -/
def storing (s : DocumentRoom U) : List U := s.active.flatMap fun run => run.phase.batch

/-- **The invariant of the write queue.** -/
structure Inv (s : DocumentRoom U) : Prop where
  /-- Unless the room is poisoned, everything accepted is in one place, in order. -/
  ordered : s.poisoned = false → s.stored ++ s.storing ++ s.pending = s.accepted
  /-- At most one run of `doFlush` is under way or about to settle. -/
  single : s.active.length + s.settling.length ≤ 1
  /-- The field is empty only while none is. -/
  idle : s.flushing = none → s.active = [] ∧ s.settling = []
  /-- A continuation that finds the queue non-empty finds no flush running. -/
  resumable : s.ready ≠ [] → s.pending ≠ [] → s.flushing = none

variable {s s' : DocumentRoom U} {run : FlushRun U}

theorem inv_opened (throughSeq : ℕ) : (opened throughSeq : DocumentRoom U).Inv where
  ordered := fun _ => rfl
  single := by simp [opened]
  idle := fun _ => ⟨rfl, rfl⟩
  resumable := by simp [opened]

/-! ### What each step keeps -/

theorem Inv.startFlush (h : s.Inv) (hidle : s.flushing = none) : s.startFlush.Inv := by
  obtain ⟨hactive, hsettling⟩ := h.idle hidle
  have hstoring : s.storing = [] := by simp [storing, hactive]
  unfold DocumentRoom.startFlush doFlush
  by_cases hpending : s.pending = []
  · exact {
      ordered := by simpa [hpending, stored, storing] using h.ordered
      single := by simp [hpending, hactive, hsettling]
      idle := by simp [hpending]
      resumable := by simp [hpending] }
  · by_cases hpoisoned : s.poisoned = true
    · exact {
        ordered := by simp [hpending, hpoisoned]
        single := by simp [hpending, hpoisoned, hactive, hsettling]
        idle := by simp [hpending, hpoisoned]
        resumable := by simp [hpending, hpoisoned] }
    · exact {
        ordered := by
          intro hnot
          have hordered := h.ordered (by simpa using hpoisoned)
          rw [hstoring, append_nil] at hordered
          simpa [hpending, hpoisoned, hactive, stored, storing, FlushPhase.batch] using hordered
        single := by simp [hpending, hpoisoned, hactive, hsettling]
        idle := by simp [hpending, hpoisoned]
        resumable := by simp [hpending, hpoisoned] }

theorem Inv.congr (h : s.Inv) (hpending : s'.pending = s.pending) (hlog : s'.log = s.log)
    (hactive : s'.active = s.active) (hsettling : s'.settling = s.settling)
    (hready : s'.ready = s.ready) (hflushing : s'.flushing = s.flushing)
    (hpoisoned : s'.poisoned = s.poisoned) (haccepted : s'.accepted = s.accepted) : s'.Inv where
  ordered := by
    simpa only [stored, storing, hpending, hlog, hactive, hpoisoned, haccepted] using h.ordered
  single := by simpa only [hactive, hsettling] using h.single
  idle := by simpa only [hflushing, hactive, hsettling] using h.idle
  resumable := by simpa only [hready, hpending, hflushing] using h.resumable

theorem Inv.flush (h : s.Inv) : s.flush.Inv := by
  rw [DocumentRoom.flush]
  split
  · exact h.congr rfl rfl rfl rfl rfl rfl rfl rfl
  · rename_i hidle
    exact h.startFlush hidle

theorem Inv.onDocUpdate (h : s.Inv) (update : U) (origin : UpdateOrigin)
    (hdrained : s.Drained ∨ origin.isReplay = true) : (s.onDocUpdate update origin).Inv := by
  rw [DocumentRoom.onDocUpdate]
  split
  · exact h
  · split
    · exact h
    · rename_i hreplay
      have hready : s.ready = [] := (hdrained.resolve_right hreplay).2
      have haccepted : ({ s with pending := s.pending ++ [update],
                                 accepted := s.accepted ++ [update] } : DocumentRoom U).Inv := {
        ordered := fun hpoisoned => by
          simp only [← h.ordered hpoisoned, stored, storing, append_assoc]
        single := h.single
        idle := h.idle
        resumable := fun hne => absurd hready hne }
      rw [scheduleFlush]
      split
      · exact haccepted
      · exact haccepted.congr rfl rfl rfl rfl rfl rfl rfl rfl

theorem Inv.active_eq (h : s.Inv) (hrun : run ∈ s.active) :
    s.active = [run] ∧ s.settling = [] := by
  have hsingle := h.single
  -- two runs, or a run and a promise to settle, would be one too many
  match hactive : s.active, hsettling : s.settling with
  | [], _ => simp [hactive] at hrun
  | [other], [] =>
    obtain rfl : run = other := by simpa [hactive] using hrun
    exact ⟨rfl, rfl⟩
  | [_], _ :: _ =>
    simp only [hactive, hsettling, length_cons] at hsingle
    omega
  | _ :: _ :: _, _ =>
    simp only [hactive, length_cons] at hsingle
    omega

private theorem Inv.flushing_ne_none (h : s.Inv) (hrun : run ∈ s.active) : s.flushing ≠ none := by
  intro hidle
  simp [(h.idle hidle).1] at hrun

theorem Inv.setPhase {phase : FlushPhase U} (h : s.Inv) (hrun : run ∈ s.active)
    (hold : run.phase.batch = []) (hnew : phase.batch = []) : (s.setPhase run phase).Inv := by
  obtain ⟨hactive, hsettling⟩ := h.active_eq hrun
  exact {
    ordered := by
      simpa [DocumentRoom.setPhase, stored, storing, hactive, hold, hnew] using h.ordered
    single := by simp [DocumentRoom.setPhase, hactive, hsettling]
    idle := fun hidle => absurd hidle (h.flushing_ne_none hrun)
    resumable := h.resumable }

theorem Inv.finishRun {rejected : Bool} (h : s.Inv) (hrun : run ∈ s.active)
    (hold : run.phase.batch = []) : (s.finishRun run rejected).Inv := by
  obtain ⟨hactive, hsettling⟩ := h.active_eq hrun
  exact {
    ordered := by simpa [DocumentRoom.finishRun, stored, storing, hactive, hold] using h.ordered
    single := by simp [DocumentRoom.finishRun, hactive, hsettling]
    idle := fun hidle => absurd hidle (h.flushing_ne_none hrun)
    resumable := h.resumable }

theorem Inv.appendSucceeds {batch : List U} (h : s.Inv) (hrun : run ∈ s.active)
    (hphase : run.phase = .storing batch) (seq : ℕ) : (s.appendSucceeds run batch seq).Inv := by
  obtain ⟨hactive, hsettling⟩ := h.active_eq hrun
  exact {
    ordered := by
      simpa [DocumentRoom.appendSucceeds, DocumentRoom.setPhase, stored, storing, hactive,
        hphase, FlushPhase.batch] using h.ordered
    single := by simp [DocumentRoom.appendSucceeds, DocumentRoom.setPhase, hactive, hsettling]
    idle := fun hidle => absurd hidle (h.flushing_ne_none hrun)
    resumable := h.resumable }

/-- **A failed append** poisons the room or puts the batch back before everything accepted
since. -/
theorem Inv.appendFails {batch : List U} (h : s.Inv) (hrun : run ∈ s.active)
    (hphase : run.phase = .storing batch) (hready : s.ready = []) (code : Option String) :
    (s.appendFails run batch code).Inv := by
  obtain ⟨hactive, hsettling⟩ := h.active_eq hrun
  rw [DocumentRoom.appendFails]
  split
  · exact {
      ordered := by simp
      single := by simp [DocumentRoom.finishRun, hactive, hsettling]
      idle := fun hidle => absurd hidle (h.flushing_ne_none hrun)
      resumable := fun hne => absurd hready hne }
  · -- back at the front of the queue, before what was accepted meanwhile
    exact {
      ordered := by
        simpa [DocumentRoom.setPhase, stored, storing, hactive, hphase, FlushPhase.batch]
          using h.ordered
      single := by simp [DocumentRoom.setPhase, hactive, hsettling]
      idle := fun hidle => absurd hidle (h.flushing_ne_none hrun)
      resumable := fun hne => absurd hready hne }

theorem Inv.promiseSettles {promise : ℕ} {rejected : Bool} {rest : List (ℕ × Bool)}
    (h : s.Inv) (hsettling : s.settling = (promise, rejected) :: rest) :
    (s.promiseSettles promise rejected).Inv := by
  have hsingle := h.single
  rw [hsettling, length_cons] at hsingle
  have hactive : s.active = [] := length_eq_zero_iff.mp (by omega)
  have hrest : rest = [] := length_eq_zero_iff.mp (by omega)
  exact {
    ordered := by simpa [DocumentRoom.promiseSettles, stored, storing] using h.ordered
    single := by simp [DocumentRoom.promiseSettles, hactive, hsettling, hrest]
    idle := by simp [DocumentRoom.promiseSettles, hactive, hsettling, hrest]
    resumable := fun _ _ => rfl }

theorem Inv.flushResumes {rejected : Bool} {rest : List Bool} (h : s.Inv)
    (hready : s.ready = rejected :: rest) :
    (({ s with ready := rest } : DocumentRoom U).flushResumes rejected).Inv := by
  have hrest : ({ s with ready := rest } : DocumentRoom U).Inv := {
    ordered := h.ordered
    single := h.single
    idle := h.idle
    resumable := fun _ => h.resumable (by simp [hready]) }
  rw [DocumentRoom.flushResumes]
  split
  · exact hrest
  · split
    · exact hrest
    · rename_i hpending
      -- the queue is not empty, so nobody started a flush since the promise settled
      exact hrest.startFlush (h.resumable (by simp [hready]) hpending)

theorem Inv.destroyStarts (h : s.Inv) : s.destroyStarts.Inv := by
  have hcleared : ({ s with debounceTimer := .off, maxDelayTimer := .off, destroying := true } :
      DocumentRoom U).Inv := h.congr rfl rfl rfl rfl rfl rfl rfl rfl
  simp only [DocumentRoom.destroyStarts]
  split
  · exact hcleared
  · exact hcleared.flush

theorem run?_eq_some {promise : ℕ} (h : s.run? promise = some run) :
    run ∈ s.active ∧ s.Drained := by
  unfold run? at h
  split at h
  · rename_i hdrained
    exact ⟨List.mem_of_find?_eq_some h, hdrained⟩
  · simp at h

variable (s) in
/-- **What an event does**, where it may happen. -/
inductive Does : RoomEvent U → DocumentRoom U → Prop
  | docUpdate (update : U) (origin : UpdateOrigin) (hready : s.Drained ∨ origin.isReplay = true) :
      Does (.docUpdate update origin) (s.onDocUpdate update origin)
  | debounceFires (hdrained : s.Drained) (harmed : s.debounceTimer = .armed) :
      Does .debounceFires ({ s with debounceTimer := .fired } : DocumentRoom U).flush
  | maxDelayFires (hdrained : s.Drained) (harmed : s.maxDelayTimer = .armed) :
      Does .maxDelayFires ({ s with maxDelayTimer := .fired } : DocumentRoom U).flush
  | flush : Does .flush s.flush
  | appendSucceeds {promise : ℕ} {run : FlushRun U} {batch : List U} (seq : ℕ)
      (hrun : s.run? promise = some run) (hphase : run.phase = .storing batch) :
      Does (.appendSucceeds promise seq) (s.appendSucceeds run batch seq)
  | appendFails {promise : ℕ} {run : FlushRun U} {batch : List U} (code : Option String)
      (hrun : s.run? promise = some run) (hphase : run.phase = .storing batch) :
      Does (.appendFails promise code) (s.appendFails run batch code)
  | projectionSucceeds {promise seq : ℕ} {run : FlushRun U} (hrun : s.run? promise = some run)
      (hphase : run.phase = .projecting seq) :
      Does (.projectionSucceeds promise) { s.setPhase run .compacting with projectionError := none }
  | projectionFails {promise seq : ℕ} {run : FlushRun U} (reason : String)
      (hrun : s.run? promise = some run) (hphase : run.phase = .projecting seq) :
      Does (.projectionFails promise reason)
        { s.setPhase run .recordingProjectionFailure with projectionError := some reason }
  | storeFailureRecorded {promise : ℕ} {run : FlushRun U} (hrun : s.run? promise = some run)
      (hphase : run.phase = .recordingStoreFailure) :
      Does (.failureRecorded promise) (s.finishRun run true)
  | projectionFailureRecorded {promise : ℕ} {run : FlushRun U} (hrun : s.run? promise = some run)
      (hphase : run.phase = .recordingProjectionFailure) :
      Does (.failureRecorded promise) (s.setPhase run .compacting)
  | compactionEnds {promise : ℕ} {run : FlushRun U} (hrun : s.run? promise = some run)
      (hphase : run.phase = .compacting) : Does (.compactionEnds promise) (s.finishRun run false)
  | promiseSettles {promise : ℕ} {rejected : Bool} {rest : List (ℕ × Bool)}
      (hsettling : s.settling = (promise, rejected) :: rest) :
      Does .promiseSettles (s.promiseSettles promise rejected)
  | flushResumes {rejected : Bool} {rest : List Bool} (hready : s.ready = rejected :: rest) :
      Does .flushResumes (({ s with ready := rest } : DocumentRoom U).flushResumes rejected)
  | destroyStarts (hlive : s.destroying = false) : Does .destroyStarts s.destroyStarts
  | destroyEnds (hdestroying : s.destroying = true) :
      Does .destroyEnds { s with destroyed := true }

theorem does_of_step {e : RoomEvent U} (hstep : s.step e = some s') : s.Does e s' := by
  cases e with
  | flush =>
    obtain rfl := Option.some.inj hstep
    exact .flush
  | docUpdate | debounceFires | maxDelayFires | destroyEnds =>
    simp only [DocumentRoom.step, ite_none_right_eq_some, Option.some.injEq] at hstep
    obtain ⟨hready, rfl⟩ := hstep
    first
      | exact .docUpdate _ _ hready
      | exact .debounceFires hready.1 hready.2
      | exact .maxDelayFires hready.1 hready.2
      | exact .destroyEnds hready
  | destroyStarts =>
    simp only [DocumentRoom.step, ite_none_left_eq_some, Option.some.injEq] at hstep
    obtain ⟨hlive, rfl⟩ := hstep
    exact .destroyStarts (Bool.not_eq_true _ ▸ hlive)
  | promiseSettles | flushResumes =>
    simp only [DocumentRoom.step] at hstep
    split at hstep
    · simp at hstep
    · rename_i hnext
      obtain rfl := Option.some.inj hstep
      first
        | exact .promiseSettles hnext
        | exact .flushResumes hnext
  | _ =>
    -- an answer is for a run in the phase that waits for it
    obtain ⟨run, hrun, hstep⟩ := bind_eq_some_iff.mp hstep
    split at hstep <;> cases hstep <;> rename_i hphase
    all_goals first
      | exact .appendSucceeds _ hrun hphase
      | exact .appendFails _ hrun hphase
      | exact .projectionSucceeds hrun hphase
      | exact .projectionFails _ hrun hphase
      | exact .storeFailureRecorded hrun hphase
      | exact .projectionFailureRecorded hrun hphase
      | exact .compactionEnds hrun hphase

/-- **The step lemma.** -/
theorem Inv.step {e : RoomEvent U} (h : s.Inv) (hstep : s.step e = some s') : s'.Inv := by
  cases does_of_step hstep with
  | docUpdate update origin hready => exact h.onDocUpdate update origin hready
  | debounceFires | maxDelayFires =>
    refine Inv.flush ?_
    exact h.congr rfl rfl rfl rfl rfl rfl rfl rfl
  | flush => exact h.flush
  | appendSucceeds seq hrun hphase => exact h.appendSucceeds (run?_eq_some hrun).1 hphase seq
  | appendFails code hrun hphase =>
    exact h.appendFails (run?_eq_some hrun).1 hphase (run?_eq_some hrun).2.2 code
  | projectionSucceeds hrun hphase | projectionFails _ hrun hphase =>
    exact (h.setPhase (run?_eq_some hrun).1 (by simp [hphase, FlushPhase.batch]) rfl).congr
      rfl rfl rfl rfl rfl rfl rfl rfl
  | storeFailureRecorded hrun hphase | compactionEnds hrun hphase =>
    exact h.finishRun (run?_eq_some hrun).1 (by simp [hphase, FlushPhase.batch])
  | projectionFailureRecorded hrun hphase =>
    exact h.setPhase (run?_eq_some hrun).1 (by simp [hphase, FlushPhase.batch]) rfl
  | promiseSettles hsettling => exact h.promiseSettles hsettling
  | flushResumes hready => exact h.flushResumes hready
  | destroyStarts => exact h.destroyStarts
  | destroyEnds => exact h.congr rfl rfl rfl rfl rfl rfl rfl rfl

/-! ### Runs -/

theorem inv_of_reaches (h : (documentRoom U).Reaches s) : s.Inv := by
  refine h.invariant ?_ fun _ _ _ hinv hstep => hinv.step hstep
  rintro _ ⟨throughSeq, rfl⟩
  exact inv_opened throughSeq

/-- Two updates, two callers of `flush`, an append that fails for now, and a third update
that waits behind the batch put back. -/
def overlappingFlushes : List (RoomEvent ℕ) :=
  [.docUpdate 0 .writer, .docUpdate 1 .writer, .debounceFires, .flush, .docUpdate 2 .writer,
    .appendFails 0 none, .failureRecorded 0, .promiseSettles, .flushResumes, .maxDelayFires,
    .flush, .appendSucceeds 1 7, .docUpdate 3 .writer]

end DocumentRoom

end Sone
