import Mathlib.Data.List.Infix
import Sone.Sync.Teardown

/-!
# What a room leaves behind

`destroy` (`sync/room.ts`) flushes a room for the last time and releases it, and the process
may exit right after. Whether there is anything to flush it reads off the queue, which is empty
while the last batch is being appended: it then waits for nothing. Where a flush is under way
and the queue is not empty, its own call of `flush` waits for that one, behind others that may
wait for it too. The first of these takes the queue, and the call of `destroy`, which finds the
queue empty, returns while that batch is appended.

`roomTeardown` is the write queue of a room (`DocumentRoom`) with a call of `destroy`, followed
from await to await. `answered_of_reachesWhen`: these two and failures for good (`Overlooks`) are
all that keeps `destroy` from answering for what the room had accepted.
-/

set_option linter.unusedSectionVars false

namespace Sone

open List Option

universe u

/-- Where a call of `destroy` is. -/
inductive TeardownStage where
  | notCalled
  /-- Its call of `flush` awaits the flush under way, after so many other calls. -/
  | waits (k : ℕ)
  /-- That flush has settled, and the call goes on after so many other continuations. -/
  | resumes (k : ℕ)
  /-- Its call of `flush` made this promise. -/
  | flushes (promise : ℕ)
  /-- Its call of `flush` has settled. -/
  | told (rejected : Bool)
  | ended
  deriving DecidableEq

/-- **A room with a call of `destroy`.** -/
structure RoomTeardown (U : Type u) where
  room : DocumentRoom U
  stage : TeardownStage
  /-- What the room had accepted when `destroy` was called. -/
  before : List U
  /-- Whether `destroy` has logged that the final flush failed. -/
  reported : Bool

inductive TeardownEvent (U : Type u) where
  | room (e : RoomEvent U)
  | destroy
  /-- `destroy` goes on after its flush, and resolves. -/
  | destroyEnds

variable {U : Type u} [DecidableEq U]

namespace RoomTeardown

/-- Where the call of `destroy` is after something happened to the queue. -/
def follow (s : RoomTeardown U) : RoomEvent U → TeardownStage
  | .promiseSettles =>
    match s.stage, s.room.settling.head? with
    | .waits k, some (promise, _) =>
      if s.room.waiters[k]? = some promise then
        .resumes (s.room.ready.length + (s.room.waiters.take k).count promise)
      else .waits ((s.room.waiters.take k).filter (· ≠ promise)).length
    | .flushes awaited, some (promise, rejected) =>
      if promise = awaited then .told rejected else .flushes awaited
    | stage, _ => stage
  | .flushResumes =>
    match s.stage with
    | .resumes 0 =>
      if s.room.ready.head? = some true then .told true
      else if s.room.pending = [] then .told false
      else .flushes s.room.nextPromise
    | .resumes (k + 1) => .resumes k
    | stage => stage
  | _ => s.stage

/-- `destroy`, up to its first await. -/
def destroy (s : RoomTeardown U) : RoomTeardown U :=
  let room := s.room.destroyStarts
  if s.room.pending = [] then
    -- nothing is awaited
    { s with room := { room with destroyed := true }, stage := .ended, before := s.room.accepted }
  else
    { s with
      room
      stage := if s.room.flushing.isSome then .waits s.room.waiters.length
        else .flushes s.room.nextPromise
      before := s.room.accepted }

def step (s : RoomTeardown U) : TeardownEvent U → Option (RoomTeardown U)
  | .room .destroyStarts | .room .destroyEnds => none
  | .room e => (s.room.step e).map fun room => { s with room, stage := s.follow e }
  | .destroy => if s.stage = .notCalled then some s.destroy else none
  | .destroyEnds =>
    match s.stage with
    | .told rejected =>
      some { s with
        room := { s.room with destroyed := true }
        stage := .ended
        reported := rejected }
    | _ => none

end RoomTeardown

/-- **The machine of a room that is torn down.** -/
def roomTeardown (U : Type u) [DecidableEq U] : Machine (RoomTeardown U) (TeardownEvent U) where
  init s := ∃ throughSeq, s = ⟨.opened throughSeq, .notCalled, [], false⟩
  step := RoomTeardown.step

namespace RoomTeardown

/-- **What was accepted is answered for**: all of it is appended, or `destroy` has logged that
its flush failed, and nothing is being appended. -/
def IsAnswered (s : RoomTeardown U) : Prop :=
  s.before <+: s.room.stored ∨ (s.reported = true ∧ s.room.storing = [])

/-- **A step at which `destroy` overlooks a batch**: it is called, or its call of `flush` goes
on, with an empty queue while a batch is appended; it is told that its flush failed while the
batch that was put back is appended again; or an append fails for good, and its batch is
dropped. -/
def Overlooks (s : RoomTeardown U) : TeardownEvent U → Prop
  | .destroy => s.room.pending = [] ∧ s.room.storing ≠ []
  | .destroyEnds => s.stage = .told true ∧ s.room.storing ≠ []
  | .room .flushResumes => s.stage = .resumes 0 ∧ s.room.pending = [] ∧ s.room.storing ≠ []
  | .room (.appendFails _ code) => isPermanentWriteFailure code = true
  | .room _ => False

instance (s : RoomTeardown U) (e : TeardownEvent U) : Decidable (s.Overlooks e) := by
  unfold Overlooks
  split <;> infer_instance

end RoomTeardown

/-! ### What a step of the queue keeps -/

namespace DocumentRoom

variable {q q' : DocumentRoom U} {e : RoomEvent U} {before : List U} {promise : ℕ}

theorem prefix_step (hstep : q.step e = some q') :
    q.stored <+: q'.stored ∧ q.accepted <+: q'.accepted := by
  have hsame : SameRecord q q' → q.stored <+: q'.stored ∧ q.accepted <+: q'.accepted := by
    intro h
    rw [stored, stored, h.log, h.accepted]
    exact ⟨prefix_refl _, prefix_refl _⟩
  cases does_of_step hstep with
  | docUpdate update origin =>
    rw [onDocUpdate]
    split
    · exact ⟨prefix_refl _, prefix_refl _⟩
    · split
      · exact ⟨prefix_refl _, prefix_refl _⟩
      · rw [scheduleFlush]
        split <;> exact ⟨prefix_refl _, prefix_append _ _⟩
  | appendSucceeds =>
    refine ⟨?_, prefix_refl _⟩
    rw [stored, stored, appendSucceeds, flatten_append]
    exact prefix_append _ _
  | destroyStarts => exact hsame sameRecord_destroyStarts
  | destroyEnds => exact ⟨prefix_refl _, prefix_refl _⟩
  | _ => exact hsame (sameRecord_step rfl hstep)

theorem poisoned_startFlush : q.startFlush.poisoned = q.poisoned := by
  unfold DocumentRoom.startFlush doFlush
  by_cases hpending : q.pending = []
  · simp [hpending]
  · by_cases hpoisoned : q.poisoned = true <;> simp [hpending, hpoisoned]

theorem poisoned_flush : q.flush.poisoned = q.poisoned := by
  rw [DocumentRoom.flush]
  split
  · rfl
  · exact poisoned_startFlush

theorem poisoned_step (hstep : q.step e = some q')
    (hgood : ∀ promise code, e = .appendFails promise code → isPermanentWriteFailure code = false) :
    q'.poisoned = q.poisoned := by
  cases does_of_step hstep with
  | docUpdate update origin =>
    rw [onDocUpdate]
    split
    · rfl
    · split
      · rfl
      · rw [scheduleFlush]
        split <;> rfl
  | debounceFires | maxDelayFires | flush => exact poisoned_flush
  | @appendFails promise _ _ code =>
    rw [appendFails, if_neg (by simp [hgood promise code rfl])]
    rfl
  | flushResumes =>
    rw [flushResumes]
    split
    · rfl
    · split
      · rfl
      · exact poisoned_startFlush
  | destroyStarts =>
    simp only [DocumentRoom.destroyStarts]
    split
    · rfl
    · exact poisoned_flush
  | _ => rfl

/-- **A flush carries** updates: they are stored, or in the batch it appends, or it will
reject. -/
def Carries (q : DocumentRoom U) (promise : ℕ) (before : List U) : Prop :=
  before <+: q.stored ∨
    (∃ run ∈ q.active, run.promise = promise ∧ (run.phase = .recordingStoreFailure ∨
      ∃ batch, run.phase = .storing batch ∧ before <+: q.stored ++ batch)) ∨
    (promise, true) ∈ q.settling

theorem Inv.flush_of_busy (h : q.Inv) (hbusy : q.active ≠ [] ∨ q.settling ≠ []) :
    ∃ awaited, q.flush = { q with waiters := q.waiters ++ [awaited] } := by
  cases hflushing : q.flushing with
  | none =>
    obtain ⟨hactive, hsettling⟩ := h.idle hflushing
    exact (hbusy.elim (· hactive) (· hsettling)).elim
  | some awaited => exact ⟨awaited, by rw [DocumentRoom.flush, hflushing]⟩

theorem Inv.eq_of_mem_active (h : q.Inv) {run other : FlushRun U} (hrun : run ∈ q.active)
    (hother : other ∈ q.active) : run = other := by
  have hsingle := h.single
  obtain ⟨first, rest, hactive⟩ := exists_cons_of_ne_nil (ne_nil_of_mem hrun)
  rw [hactive, length_cons] at hsingle
  obtain rfl : rest = [] := length_eq_zero_iff.mp (by omega)
  rw [hactive, mem_singleton] at hrun hother
  rw [hrun, hother]

theorem Carries.congr (h : q.Carries promise before) (hactive : q'.active = q.active)
    (hsettling : q'.settling = q.settling) (hlog : q'.log = q.log) :
    q'.Carries promise before := by
  simpa only [Carries, stored, hactive, hsettling, hlog] using h

theorem Carries.flush (h : q.Carries promise before) (hinv : q.Inv)
    (hbusy : q.active ≠ [] ∨ q.settling ≠ []) : q.flush.Carries promise before := by
  obtain ⟨awaited, hflush⟩ := hinv.flush_of_busy hbusy
  exact h.congr (by rw [hflush]) (by rw [hflush]) (by rw [hflush])

/-- **A flush that carries updates** goes on to do so until it settles. -/
theorem Carries.step (h : q.Carries promise before) (hinv : q.Inv) (hstep : q.step e = some q')
    (hgood : ∀ promise code, e = .appendFails promise code → isPermanentWriteFailure code = false)
    (hnot : e ≠ .promiseSettles) : q'.Carries promise before := by
  by_cases hstored : before <+: q.stored
  · exact .inl (hstored.trans (prefix_step hstep).1)
  have hbusy : q.active ≠ [] ∨ q.settling ≠ [] :=
    (h.resolve_left hstored).imp (fun ⟨run, hrun, _⟩ => ne_nil_of_mem hrun) ne_nil_of_mem
  -- an answer is for the run that carries them
  have hanswer : ∀ {answered : ℕ} {run : FlushRun U}, q.run? answered = some run →
      run ∈ q.active ∧ run.promise = promise ∧ (run.phase = .recordingStoreFailure ∨
        ∃ batch, run.phase = .storing batch ∧ before <+: q.stored ++ batch) := by
    intro answered run hrun
    obtain ⟨hactive, hdrained⟩ := run?_eq_some hrun
    rcases h.resolve_left hstored with ⟨other, hother, hcarries⟩ | hsettling
    · obtain rfl := hinv.eq_of_mem_active hactive hother
      exact ⟨hactive, hcarries⟩
    · rw [hdrained.1] at hsettling
      simp at hsettling
  cases does_of_step hstep with
  | docUpdate update origin =>
    rw [onDocUpdate]
    split
    · exact h
    · split
      · exact h
      · rw [scheduleFlush]
        split <;> exact h.congr rfl rfl rfl
  | debounceFires | maxDelayFires =>
    exact Carries.flush (h.congr rfl rfl rfl) (hinv.congr rfl rfl rfl rfl rfl rfl rfl rfl) hbusy
  | flush => exact h.flush hinv hbusy
  | appendSucceeds seq hrun hphase =>
    obtain ⟨-, -, hcarries⟩ := hanswer hrun
    rcases hcarries with hfailed | ⟨other, hother, hprefix⟩
    · rw [hphase] at hfailed
      cases hfailed
    · obtain rfl := FlushPhase.storing.inj (hphase.symm.trans hother)
      refine .inl ?_
      rwa [stored, appendSucceeds, flatten_append, flatten_singleton]
  | @appendFails answered _ _ code hrun =>
    obtain ⟨-, hpromise, -⟩ := hanswer hrun
    rw [appendFails, if_neg (by simp [hgood answered code rfl])]
    exact .inr (.inl ⟨_, mem_cons_self, hpromise, .inl rfl⟩)
  | projectionSucceeds hrun hphase | projectionFails _ hrun hphase
  | projectionFailureRecorded hrun hphase | compactionEnds hrun hphase =>
    obtain ⟨-, -, hcarries⟩ := hanswer hrun
    simp [hphase] at hcarries
  | storeFailureRecorded hrun =>
    obtain ⟨-, hpromise, -⟩ := hanswer hrun
    refine .inr (.inr ?_)
    simp [finishRun, hpromise]
  | promiseSettles => exact absurd rfl hnot
  | flushResumes hready =>
    rw [flushResumes]
    split
    · exact h.congr rfl rfl rfl
    · split
      · exact h.congr rfl rfl rfl
      · -- a continuation starts a flush only where none is running
        rename_i hpending
        obtain ⟨hactive, hsettling⟩ := hinv.idle (hinv.resumable (by simp [hready]) hpending)
        exact (hbusy.elim (· hactive) (· hsettling)).elim
  | destroyStarts =>
    simp only [DocumentRoom.destroyStarts]
    split
    · exact h.congr rfl rfl rfl
    · exact Carries.flush (h.congr rfl rfl rfl) (hinv.congr rfl rfl rfl rfl rfl rfl rfl rfl) hbusy
  | destroyEnds => exact h.congr rfl rfl rfl

theorem Carries.of_startFlush (hinv : q.Inv) (hidle : q.flushing = none)
    (hpending : q.pending ≠ []) (hpoisoned : q.poisoned = false)
    (hbefore : before <+: q.accepted) : q.startFlush.Carries q.nextPromise before := by
  obtain ⟨hactive, -⟩ := hinv.idle hidle
  have hordered := hinv.ordered hpoisoned
  rw [storing, hactive, flatMap_nil, append_nil] at hordered
  refine .inr (.inl ⟨⟨q.nextPromise, .storing q.pending⟩, ?_, rfl, .inr ⟨_, rfl, ?_⟩⟩)
  · simp [DocumentRoom.startFlush, doFlush, hpending, hpoisoned]
  · rw [stored, sameRecord_startFlush.log]
    exact hordered ▸ hbefore

theorem Carries.settles (h : q.Carries promise before) (hinv : q.Inv) {settled : ℕ}
    {rejected : Bool} {rest : List (ℕ × Bool)}
    (hsettling : q.settling = (settled, rejected) :: rest) :
    (settled = promise ∧ rejected = true) ∨ before <+: q.stored := by
  have hsingle := hinv.single
  rw [hsettling, length_cons] at hsingle
  rcases h with hstored | ⟨run, hrun, -⟩ | hrejects
  · exact .inr hstored
  · have := length_pos_of_mem hrun
    omega
  · obtain rfl : rest = [] := length_eq_zero_iff.mp (by omega)
    rw [hsettling, mem_singleton, Prod.mk.injEq] at hrejects
    exact .inl ⟨hrejects.1.symm, hrejects.2.symm⟩

end DocumentRoom

namespace RoomTeardown

variable {s s' : RoomTeardown U}

/-! ### The invariant -/

/-- What is known of the call of `destroy` where it is. -/
def StageInv (s : RoomTeardown U) : TeardownStage → Prop
  | .flushes promise => s.room.Carries promise s.before
  | .told false => s.before <+: s.room.stored
  | _ => True

/-- **The invariant.** -/
structure Inv (s : RoomTeardown U) : Prop where
  room : s.room.Inv
  unpoisoned : s.room.poisoned = false
  accepted : s.before <+: s.room.accepted
  stage : s.StageInv s.stage

theorem Inv.prefix_stored (h : s.Inv) {before : List U} (hbefore : before <+: s.room.accepted)
    (hpending : s.room.pending = []) (hstoring : s.room.storing = []) :
    before <+: s.room.stored := by
  have hordered := h.room.ordered h.unpoisoned
  rw [hpending, hstoring, append_nil, append_nil] at hordered
  rwa [hordered]

theorem Inv.stage_promiseSettles (h : s.Inv) {settled : ℕ} {rejected : Bool}
    {rest : List (ℕ × Bool)} (hsettling : s.room.settling = (settled, rejected) :: rest) :
    StageInv { s with
      room := s.room.promiseSettles settled rejected
      stage := s.follow .promiseSettles } (s.follow .promiseSettles) := by
  have hstage := h.stage
  rw [follow, hsettling, List.head?_cons]
  cases hcall : s.stage with
  | waits k =>
    simp only
    split <;> trivial
  | flushes promise =>
    rw [hcall] at hstage
    have hsettles := DocumentRoom.Carries.settles hstage h.room hsettling
    simp only
    split
    · cases rejected with
      | false => exact hsettles.resolve_left (by simp)
      | true => trivial
    · rename_i hother
      exact .inl (hsettles.resolve_left fun hboth => hother hboth.1)
  | told outcome =>
    rw [hcall] at hstage
    cases outcome with
    | false => exact hstage
    | true => trivial
  | _ => trivial

theorem Inv.stage_flushResumes (h : s.Inv) (hok : ¬ s.Overlooks (.room .flushResumes))
    {rejected : Bool} {rest : List Bool} (hready : s.room.ready = rejected :: rest) :
    StageInv { s with
      room := ({ s.room with ready := rest } : DocumentRoom U).flushResumes rejected
      stage := s.follow .flushResumes } (s.follow .flushResumes) := by
  have hstage := h.stage
  have hstep : s.room.step .flushResumes =
      some (({ s.room with ready := rest } : DocumentRoom U).flushResumes rejected) := by
    simp only [DocumentRoom.step, hready]
  rw [follow, hready, List.head?_cons]
  cases hcall : s.stage with
  | resumes k =>
    cases k with
    | succ k => trivial
    | zero =>
      simp only [Option.some.injEq]
      split
      · trivial
      · rename_i hresolved
        obtain rfl : rejected = false := by simpa using hresolved
        split
        · -- the queue is empty, and so is what is being appended
          rename_i hpending
          have hstoring : s.room.storing = [] :=
            by_contra fun hstoring => hok ⟨hcall, hpending, hstoring⟩
          exact (h.prefix_stored h.accepted hpending hstoring).trans
            (DocumentRoom.prefix_step hstep).1
        · rename_i hpending
          have hrest : ({ s.room with ready := rest } : DocumentRoom U).Inv := {
            ordered := h.room.ordered
            single := h.room.single
            idle := h.room.idle
            resumable := fun _ => h.room.resumable (by simp [hready]) }
          rw [StageInv, DocumentRoom.flushResumes, if_neg Bool.false_ne_true, if_neg hpending]
          exact DocumentRoom.Carries.of_startFlush hrest
            (h.room.resumable (by simp [hready]) hpending) hpending h.unpoisoned h.accepted
  | flushes promise =>
    rw [hcall] at hstage
    exact DocumentRoom.Carries.step hstage h.room hstep (fun _ _ hfails => by cases hfails)
      fun hsettles => by cases hsettles
  | told rejected =>
    rw [hcall] at hstage
    cases rejected with
    | false => exact List.IsPrefix.trans hstage (DocumentRoom.prefix_step hstep).1
    | true => trivial
  | _ => trivial

/-- **A step of the queue** keeps what is known of the call of `destroy`. -/
theorem Inv.stage_follow (h : s.Inv) {e : RoomEvent U} {room : DocumentRoom U}
    (hok : ¬ s.Overlooks (.room e)) (hstep : s.room.step e = some room)
    (hgood : ∀ promise code, e = .appendFails promise code →
      isPermanentWriteFailure code = false) :
    StageInv { s with room, stage := s.follow e } (s.follow e) := by
  have hstage := h.stage
  have hkept : e ≠ .promiseSettles → StageInv { s with room, stage := s.stage } s.stage := by
    intro hnot
    cases hcall : s.stage with
    | flushes promise =>
      rw [hcall] at hstage
      exact DocumentRoom.Carries.step hstage h.room hstep hgood hnot
    | told rejected =>
      rw [hcall] at hstage
      cases rejected with
      | false => exact List.IsPrefix.trans hstage (DocumentRoom.prefix_step hstep).1
      | true => trivial
    | _ => trivial
  cases DocumentRoom.does_of_step hstep with
  | promiseSettles hsettling => exact h.stage_promiseSettles hsettling
  | flushResumes hready => exact h.stage_flushResumes hok hready
  | _ => exact hkept fun hsettles => by cases hsettles

/-- The call of `destroy`. -/
theorem Inv.destroy (h : s.Inv) : s.destroy.Inv := by
  have hstarted : s.room.destroyStarts.Inv := h.room.destroyStarts
  have hsame : s.room.destroyStarts.accepted = s.room.accepted :=
    DocumentRoom.sameRecord_destroyStarts.accepted
  have hunpoisoned : s.room.destroyStarts.poisoned = false := by
    rw [← h.unpoisoned]
    simp only [DocumentRoom.destroyStarts]
    split
    · rfl
    · exact DocumentRoom.poisoned_flush
  rw [RoomTeardown.destroy]
  split
  · exact {
      room := hstarted.congr rfl rfl rfl rfl rfl rfl rfl rfl
      unpoisoned := hunpoisoned
      accepted := by
        rw [hsame]
      stage := trivial }
  · rename_i hpending
    refine ⟨hstarted, hunpoisoned, by rw [hsame], ?_⟩
    simp only
    split
    · trivial
    · rename_i hidle
      rw [Bool.not_eq_true, isSome_eq_false_iff, isNone_iff_eq_none] at hidle
      have hflush : ∀ q : DocumentRoom U, q.flushing = none → q.flush = q.startFlush :=
        fun q hq => by rw [DocumentRoom.flush, hq]
      simp only [StageInv, DocumentRoom.destroyStarts, if_neg hpending]
      rw [hflush { s.room with debounceTimer := .off, maxDelayTimer := .off, destroying := true }
        hidle]
      exact DocumentRoom.Carries.of_startFlush
        (h.room.congr rfl rfl rfl rfl rfl rfl rfl rfl) hidle hpending h.unpoisoned
        (prefix_refl _)

theorem exists_of_step_room {e : RoomEvent U} (hstep : s.step (.room e) = some s') :
    ∃ room, s.room.step e = some room ∧ { s with room, stage := s.follow e } = s' := by
  cases e with
  | destroyStarts => simp [RoomTeardown.step] at hstep
  | destroyEnds => simp [RoomTeardown.step] at hstep
  | _ => exact map_eq_some_iff.mp hstep

/-- **The step lemma.** -/
theorem Inv.step (h : s.Inv) {e : TeardownEvent U} (hok : ¬ s.Overlooks e)
    (hstep : s.step e = some s') : s'.Inv := by
  cases e with
  | room e =>
    obtain ⟨room, hroom, rfl⟩ := exists_of_step_room hstep
    have hgood : ∀ promise code, e = .appendFails promise code →
        isPermanentWriteFailure code = false := by
      rintro promise code rfl
      simpa [Overlooks] using hok
    exact {
      room := h.room.step hroom
      unpoisoned := (DocumentRoom.poisoned_step hroom hgood).trans h.unpoisoned
      accepted := h.accepted.trans (DocumentRoom.prefix_step hroom).2
      stage := h.stage_follow hok hroom hgood }
  | destroy =>
    simp only [RoomTeardown.step, ite_none_right_eq_some, Option.some.injEq] at hstep
    obtain ⟨-, rfl⟩ := hstep
    exact h.destroy
  | destroyEnds =>
    simp only [RoomTeardown.step] at hstep
    split at hstep
    · obtain rfl := some.inj hstep
      exact ⟨h.room.congr rfl rfl rfl rfl rfl rfl rfl rfl, h.unpoisoned, h.accepted, trivial⟩
    · simp at hstep

theorem inv_of_reachesWhen (h : (roomTeardown U).ReachesWhen (fun s e => ¬ s.Overlooks e) s) :
    s.Inv := by
  refine h.invariant ?_ fun _ _ _ hinv hok hstep => hinv.step hok hstep
  rintro _ ⟨throughSeq, rfl⟩
  exact ⟨DocumentRoom.inv_opened throughSeq, rfl, nil_prefix, trivial⟩

theorem follow_ne_ended (e : RoomEvent U) (hstage : s.stage ≠ .ended) : s.follow e ≠ .ended := by
  cases e with
  | promiseSettles =>
    rw [follow]
    split
    · split <;> simp
    · split <;> simp
    · exact hstage
  | flushResumes =>
    rw [follow]
    split
    · split
      · simp
      · split <;> simp
    · simp
    · exact hstage
  | _ => exact hstage

/-- **When `destroy` resolves, what the room had accepted is answered for**, in every run in
which it overlooks no batch: all of it is appended, or `destroy` has logged that its flush
failed, and nothing is being appended. -/
theorem answered_of_reachesWhen {e : TeardownEvent U}
    (h : (roomTeardown U).ReachesWhen (fun s e => ¬ s.Overlooks e) s) (hok : ¬ s.Overlooks e)
    (hstep : (roomTeardown U).step s e = some s') (hstage : s.stage ≠ .ended)
    (hended : s'.stage = .ended) : s'.IsAnswered := by
  have hinv := inv_of_reachesWhen h
  cases e with
  | room e =>
    obtain ⟨room, -, rfl⟩ := exists_of_step_room hstep
    exact absurd hended (follow_ne_ended e hstage)
  | destroy =>
    simp only [roomTeardown, RoomTeardown.step, ite_none_right_eq_some,
      Option.some.injEq] at hstep
    obtain ⟨-, rfl⟩ := hstep
    rw [RoomTeardown.destroy] at hended ⊢
    split at hended
    · rename_i hpending
      have hstoring : s.room.storing = [] :=
        by_contra fun hstoring => hok ⟨hpending, hstoring⟩
      rw [if_pos hpending]
      refine .inl ?_
      have hstored := hinv.prefix_stored (prefix_refl _) hpending hstoring
      rwa [DocumentRoom.stored, show _ = s.room.log from
        DocumentRoom.sameRecord_destroyStarts.log]
    · simp only at hended
      split at hended <;> cases hended
  | destroyEnds =>
    simp only [roomTeardown, RoomTeardown.step] at hstep
    split at hstep
    · rename_i rejected htold
      obtain rfl := some.inj hstep
      cases rejected with
      | false =>
        have hstored := hinv.stage
        rw [htold] at hstored
        exact .inl hstored
      | true => exact .inr ⟨rfl, by_contra fun hstoring => hok ⟨htold, hstoring⟩⟩
    · simp at hstep

/-- A room with one update, destroyed before the timer fires: the update is stored, and
`destroy` resolves. -/
def flushedTeardown : List (TeardownEvent ℕ) :=
  [.room (.docUpdate 0 .writer), .destroy, .room (.appendSucceeds 0 1),
    .room (.projectionSucceeds 0), .room (.compactionEnds 0), .room .promiseSettles]

def openedRoom : RoomTeardown ℕ := ⟨.opened 0, .notCalled, [], false⟩

theorem openedRoom_init : (roomTeardown ℕ).init openedRoom := ⟨0, rfl⟩

theorem answered_of_reachesWhen_flushed : ∃ s s' : RoomTeardown ℕ,
    (roomTeardown ℕ).ReachesWhen (fun s e => ¬ s.Overlooks e) s ∧
      (roomTeardown ℕ).step s .destroyEnds = some s' ∧ s'.before = [0] ∧ s'.IsAnswered := by
  obtain ⟨s, hs, htold, hbefore⟩ : ∃ s,
      (roomTeardown ℕ).ReachesWhen (fun s e => ¬ s.Overlooks e) s ∧ s.stage = .told false ∧
        s.before = [0] :=
    Machine.exists_reachesWhen_of_runWhen flushedTeardown openedRoom_init (by decide +kernel)
  have hstep : (roomTeardown ℕ).step s .destroyEnds = some
      { s with room := { s.room with destroyed := true }, stage := .ended, reported := false } := by
    simp [roomTeardown, RoomTeardown.step, htold]
  have hok : ¬ s.Overlooks .destroyEnds := by
    rintro ⟨htrue, -⟩
    exact absurd (htold.symm.trans htrue) (by decide)
  exact ⟨s, _, hs, hstep, hbefore, answered_of_reachesWhen hs hok hstep (by simp [htold]) rfl⟩

/-- **A batch is left in flight**: the timer has taken the queue when `destroy` is called, which
waits for nothing. -/
theorem not_answered_inFlight :
    ¬ ∀ (s s' : RoomTeardown ℕ) (e : TeardownEvent ℕ), (roomTeardown ℕ).Reaches s →
      (roomTeardown ℕ).step s e = some s' → s.stage ≠ .ended → s'.stage = .ended →
        s'.IsAnswered := by
  intro hall
  obtain ⟨s, hs, hstage, hpending, haccepted, hlog, hreported⟩ : ∃ s,
      (roomTeardown ℕ).Reaches s ∧ s.stage = .notCalled ∧ s.room.pending = [] ∧
        s.room.accepted = [0] ∧ s.room.log = [] ∧ s.reported = false :=
    Machine.exists_reachesWhen_of_runWhen
      [.room (.docUpdate 0 .writer), .room .debounceFires] openedRoom_init (by decide +kernel)
  have hstep : (roomTeardown ℕ).step s .destroy = some s.destroy := if_pos hstage
  have hended : s.destroy.stage = .ended := by rw [destroy, if_pos hpending]
  rcases hall s s.destroy .destroy hs hstep (by simp [hstage]) hended with hstored | ⟨hlogged, -⟩
  · rw [destroy, if_pos hpending] at hstored
    rw [DocumentRoom.stored, show _ = s.room.log from
      DocumentRoom.sameRecord_destroyStarts.log, hlog, haccepted] at hstored
    simp at hstored
  · rw [destroy, if_pos hpending, hreported] at hlogged
    cases hlogged

end RoomTeardown

end Sone
