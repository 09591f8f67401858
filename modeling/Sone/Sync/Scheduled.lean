import Sone.Sync.Room

/-!
# What stores the queue of a room

`scheduleFlush` arms two timers when an update is accepted, and `doFlush` clears both when it
takes the queue. While a flush is under way a timer that fires becomes a call of `flush` that
waits. So the queue is never left alone: a timer is armed, or a flush is under way, or a call of
`flush` is about to take it (`Scheduled`).

A transient failure puts its batch back with the timers cleared, and ends by rejecting: nobody
is told to try again, and the calls that wait are rejected with it. `Queued.step` says that this
is the only step that strands a queue, `Strands`, and `scheduled_of_reachesWhen` that without it
every queue is to be stored. `Queued` allows for updates that may be stranded, so that it can be
carried on past such a step.
-/

set_option linter.unusedSectionVars false

namespace Sone

open List

universe u

variable {U : Type u} [DecidableEq U]

namespace DocumentRoom

variable {s s' : DocumentRoom U} {run : FlushRun U} {e : RoomEvent U} {R : Set U}

def TimerArmed (s : DocumentRoom U) : Prop :=
  s.debounceTimer = .armed ∨ s.maxDelayTimer = .armed

instance : Decidable s.TimerArmed := inferInstanceAs (Decidable (_ ∨ _))

/-- A flush is in flight: one is running, or a call of `flush` that waited is about to go on. -/
def FlushInFlight (s : DocumentRoom U) : Prop := s.flushing ≠ none ∨ false ∈ s.ready

instance : Decidable s.FlushInFlight := inferInstanceAs (Decidable (_ ∨ _))

/-- **Something is to store the queue.** -/
def Scheduled (s : DocumentRoom U) : Prop := s.TimerArmed ∨ s.FlushInFlight

instance : Decidable s.Scheduled := inferInstanceAs (Decidable (_ ∨ _))

/-- **A step that strands the queue**: a flush that failed for now ends, and no timer is armed. -/
def Strands (s : DocumentRoom U) : RoomEvent U → Prop
  | .promiseSettles => s.settling.head?.any (·.2) = true ∧ ¬s.TimerArmed
  | _ => False

instance : Decidable (s.Strands e) := by
  cases e
  case promiseSettles => exact inferInstanceAs (Decidable (_ ∧ _))
  all_goals exact inferInstanceAs (Decidable False)

/-! ### The invariant -/

/-- The field holds the promise of the run there is. -/
structure Named (s : DocumentRoom U) : Prop where
  active : ∀ run ∈ s.active, s.flushing = some run.promise
  settling : ∀ settled ∈ s.settling, s.flushing = some settled.1

/-- A flush failed for now and is about to reject. -/
def Failing (s : DocumentRoom U) : Prop :=
  (∃ run ∈ s.active, run.phase = .recordingStoreFailure) ∨ ∃ promise, (promise, true) ∈ s.settling

/-- **What is to become of the queue**: all of it may be stranded, or a timer is armed, or a
call of `flush` waits for the run there is, or that run failed, or a call is about to go on. -/
def Queued (R : Set U) (s : DocumentRoom U) : Prop :=
  s.poisoned = false → (∀ update ∈ s.pending, update ∈ R) ∨ s.TimerArmed ∨
    (∃ promise ∈ s.waiters, s.flushing = some promise) ∨ s.Failing ∨ false ∈ s.ready

theorem Queued.of_pending (h : s.pending = []) : s.Queued R := by
  intro _
  left
  simp [h]

theorem Queued.congr (h : s.Queued R) (hpending : s'.pending = s.pending)
    (hpoisoned : s'.poisoned = s.poisoned) (hdebounce : s'.debounceTimer = s.debounceTimer)
    (hmaxDelay : s'.maxDelayTimer = s.maxDelayTimer) (hwaiters : s'.waiters = s.waiters)
    (hflushing : s'.flushing = s.flushing) (hready : s'.ready = s.ready)
    (hfailing : s.Failing → s'.Failing) : s'.Queued R := by
  intro hnot
  rw [hpoisoned] at hnot
  rw [hpending, TimerArmed, hdebounce, hmaxDelay, hwaiters, hflushing, hready]
  exact (h hnot).imp id (Or.imp id (Or.imp id (Or.imp hfailing id)))

/-! ### What each step keeps -/

theorem startFlush_spec (hactive : s.active = []) (hsettling : s.settling = []) :
    s.startFlush.pending = [] ∧ s.startFlush.Named := by
  unfold DocumentRoom.startFlush doFlush
  by_cases hpending : s.pending = []
  · exact ⟨by simp [hpending], by simp [hpending, hactive], by simp [hpending, hsettling]⟩
  · by_cases hpoisoned : s.poisoned = true
    · exact ⟨by simp [hpending, hpoisoned], by simp [hpending, hpoisoned, hactive],
        by simp [hpending, hpoisoned, hsettling]⟩
    · exact ⟨by simp [hpending, hpoisoned], by simp [hpending, hpoisoned, hactive],
        by simp [hpending, hpoisoned, hsettling]⟩

theorem Named.congr (h : s.Named) (hactive : s'.active = s.active)
    (hsettling : s'.settling = s.settling) (hflushing : s'.flushing = s.flushing) : s'.Named where
  active := by simpa only [hactive, hflushing] using h.active
  settling := by simpa only [hsettling, hflushing] using h.settling

theorem flush_spec (hinv : s.Inv) (h : s.Named) : s.flush.Named ∧ s.flush.Queued R := by
  rw [DocumentRoom.flush]
  split
  · rename_i promise hflushing
    refine ⟨h.congr rfl rfl rfl, fun _ => .inr (.inr (.inl ⟨promise, ?_, hflushing⟩))⟩
    simp
  · rename_i hidle
    obtain ⟨hactive, hsettling⟩ := hinv.idle hidle
    obtain ⟨hpending, hnamed⟩ := startFlush_spec hactive hsettling
    exact ⟨hnamed, .of_pending hpending⟩

theorem Named.setPhase (h : s.Named) (hrun : run ∈ s.active) (phase : FlushPhase U) :
    (s.setPhase run phase).Named where
  active := by
    intro other hother
    rcases mem_cons.mp hother with rfl | hother
    · exact h.active run hrun
    · exact h.active other (mem_of_mem_erase hother)
  settling := h.settling

theorem Named.finishRun (h : s.Named) (hrun : run ∈ s.active) (rejected : Bool) :
    (s.finishRun run rejected).Named where
  active := fun other hother => h.active other (mem_of_mem_erase hother)
  settling := by
    intro settled hsettled
    rcases mem_append.mp hsettled with hsettled | hsettled
    · exact h.settling settled hsettled
    · rw [mem_singleton.mp hsettled]
      exact h.active run hrun

theorem Failing.mem_erase (h : s.Failing) (hphase : run.phase ≠ .recordingStoreFailure) :
    (∃ other ∈ s.active.erase run, other.phase = .recordingStoreFailure) ∨
      ∃ promise, (promise, true) ∈ s.settling := by
  refine h.imp ?_ id
  rintro ⟨other, hother, hfailed⟩
  refine ⟨other, (mem_erase_of_ne ?_).mpr hother, hfailed⟩
  rintro rfl
  exact hphase hfailed

theorem Queued.setPhase (h : s.Queued R) (hphase : run.phase ≠ .recordingStoreFailure)
    (phase : FlushPhase U) : (s.setPhase run phase).Queued R := by
  refine h.congr rfl rfl rfl rfl rfl rfl rfl fun hfailing => ?_
  refine (hfailing.mem_erase hphase).imp ?_ id
  rintro ⟨other, hother, hfailed⟩
  exact ⟨other, mem_cons_of_mem _ hother, hfailed⟩

theorem Queued.finishRun (h : s.Queued R) (hphase : run.phase ≠ .recordingStoreFailure)
    (rejected : Bool) : (s.finishRun run rejected).Queued R := by
  refine h.congr rfl rfl rfl rfl rfl rfl rfl fun hfailing => ?_
  refine (hfailing.mem_erase hphase).imp id ?_
  rintro ⟨promise, hpromise⟩
  exact ⟨promise, mem_append_left _ hpromise⟩

theorem Queued.onDocUpdate (h : s.Queued R) (update : U) (origin : UpdateOrigin) :
    (s.onDocUpdate update origin).Queued R := by
  rw [DocumentRoom.onDocUpdate]
  split
  · exact h
  · split
    · exact h
    · rw [scheduleFlush]
      split
      · rename_i hpoisoned
        exact fun hnot => absurd hpoisoned (Bool.eq_false_iff.mp hnot)
      · exact fun _ => .inr (.inl (.inl rfl))

theorem named_onDocUpdate (h : s.Named) (update : U) (origin : UpdateOrigin) :
    (s.onDocUpdate update origin).Named := by
  rw [DocumentRoom.onDocUpdate]
  split
  · exact h
  · split
    · exact h
    · rw [scheduleFlush]
      split <;> exact h.congr rfl rfl rfl

/-- **A promise that settles** hands over to the calls that wait for it, which a rejection
strands where no timer is armed. -/
theorem Queued.promiseSettles {promise : ℕ} {rejected : Bool} {rest : List (ℕ × Bool)}
    (hinv : s.Inv) (hnamed : s.Named) (h : s.Queued R)
    (hsettling : s.settling = (promise, rejected) :: rest) (hok : rejected = true → s.TimerArmed) :
    (s.promiseSettles promise rejected).Queued R := by
  intro hnot
  have hsingle := hinv.single
  rw [hsettling, length_cons] at hsingle
  have hactive : s.active = [] := length_eq_zero_iff.mp (by omega)
  have hrest : rest = [] := length_eq_zero_iff.mp (by omega)
  have hflushing : s.flushing = some promise :=
    hnamed.settling (promise, rejected) (by simp [hsettling])
  rcases h hnot with hpending | harmed | ⟨waiter, hwaiter, hfield⟩ | hfailing | hready
  · exact .inl hpending
  · exact .inr (.inl harmed)
  · cases rejected with
    | true => exact .inr (.inl (hok rfl))
    | false =>
      obtain rfl : promise = waiter := Option.some.inj (hflushing.symm.trans hfield)
      refine .inr (.inr (.inr (.inr (mem_append_right _ ?_))))
      exact List.mem_map.mpr ⟨promise, mem_filter.mpr ⟨hwaiter, by simp⟩, rfl⟩
  · refine .inr (.inl (hok ?_))
    rcases hfailing with ⟨run, hrun, -⟩ | ⟨other, hother⟩
    · simp [hactive] at hrun
    · rw [hsettling, hrest, mem_singleton, Prod.mk.injEq] at hother
      exact hother.2.symm
  · exact .inr (.inr (.inr (.inr (mem_append_left _ hready))))

theorem named_promiseSettles {promise : ℕ} {rejected : Bool} {rest : List (ℕ × Bool)}
    (hinv : s.Inv) (hsettling : s.settling = (promise, rejected) :: rest) :
    (s.promiseSettles promise rejected).Named := by
  have hidle : (s.promiseSettles promise rejected).flushing = none := rfl
  obtain ⟨hactive, hnone⟩ := (hinv.promiseSettles hsettling).idle hidle
  exact ⟨by simp [hactive], by simp [hnone]⟩

/-- **A continuation that runs** takes the queue, unless it was rejected. -/
theorem flushResumes_spec {rejected : Bool} {rest : List Bool} (hinv : s.Inv) (hnamed : s.Named)
    (h : s.Queued R) (hready : s.ready = rejected :: rest) :
    (({ s with ready := rest } : DocumentRoom U).flushResumes rejected).Named ∧
      (({ s with ready := rest } : DocumentRoom U).flushResumes rejected).Queued R := by
  have hrest : ({ s with ready := rest } : DocumentRoom U).Named := hnamed.congr rfl rfl rfl
  rw [DocumentRoom.flushResumes]
  split
  · rename_i hrejected
    refine ⟨hrest, fun hnot => (h hnot).imp id (Or.imp id (Or.imp id (Or.imp id fun hmem => ?_)))⟩
    rw [hready, hrejected] at hmem
    simpa using hmem
  · split
    · rename_i hpending
      exact ⟨hrest, .of_pending hpending⟩
    · rename_i hpending
      have hidle := hinv.resumable (by simp [hready]) hpending
      obtain ⟨hactive, hsettling⟩ := hinv.idle hidle
      obtain ⟨htaken, hnamed⟩ := startFlush_spec (s := { s with ready := rest }) hactive hsettling
      exact ⟨hnamed, .of_pending htaken⟩

theorem destroyStarts_spec (hinv : s.Inv) (h : s.Named) :
    s.destroyStarts.Named ∧ s.destroyStarts.Queued R := by
  have hcleared : ({ s with debounceTimer := .off, maxDelayTimer := .off, destroying := true } :
      DocumentRoom U).Inv := hinv.congr rfl rfl rfl rfl rfl rfl rfl rfl
  simp only [DocumentRoom.destroyStarts]
  split
  · rename_i hpending
    exact ⟨h.congr rfl rfl rfl, .of_pending hpending⟩
  · exact flush_spec hcleared (h.congr rfl rfl rfl)

/-- **The step lemma**: every step but one that strands the queue keeps what is to become of
it. -/
theorem Queued.step (hinv : s.Inv) (hnamed : s.Named) (h : s.Queued R)
    (hok : ∀ promise rest, e = .promiseSettles → s.settling = (promise, true) :: rest →
      s.TimerArmed) (hstep : s.step e = some s') : s'.Named ∧ s'.Queued R := by
  cases does_of_step hstep with
  | docUpdate update origin =>
    exact ⟨named_onDocUpdate hnamed update origin, h.onDocUpdate update origin⟩
  | debounceFires | maxDelayFires =>
    exact flush_spec (hinv.congr rfl rfl rfl rfl rfl rfl rfl rfl) (hnamed.congr rfl rfl rfl)
  | flush => exact flush_spec hinv hnamed
  | appendSucceeds seq hrun hphase | projectionSucceeds hrun hphase
  | projectionFails _ hrun hphase =>
    exact ⟨(hnamed.setPhase (run?_eq_some hrun).1 _).congr rfl rfl rfl,
      (h.setPhase (by simp [hphase]) _).congr rfl rfl rfl rfl rfl rfl rfl id⟩
  | appendFails code hrun hphase =>
    rw [DocumentRoom.appendFails]
    split
    · exact ⟨(hnamed.finishRun (run?_eq_some hrun).1 false).congr rfl rfl rfl,
        fun hnot => absurd hnot (by simp)⟩
    · refine ⟨(hnamed.setPhase (run?_eq_some hrun).1 _).congr rfl rfl rfl,
        fun _ => .inr (.inr (.inr (.inl (.inl ?_))))⟩
      exact ⟨_, mem_cons_self, rfl⟩
  | @storeFailureRecorded promise run hrun hphase =>
    -- the batch is back in the queue, and the promise is about to reject
    refine ⟨hnamed.finishRun (run?_eq_some hrun).1 true,
      fun _ => .inr (.inr (.inr (.inl (.inr ⟨run.promise, ?_⟩))))⟩
    exact mem_append_right _ (by simp)
  | projectionFailureRecorded hrun hphase =>
    exact ⟨hnamed.setPhase (run?_eq_some hrun).1 _, h.setPhase (by simp [hphase]) _⟩
  | compactionEnds hrun hphase =>
    exact ⟨hnamed.finishRun (run?_eq_some hrun).1 _, h.finishRun (by simp [hphase]) _⟩
  | promiseSettles hsettling =>
    refine ⟨named_promiseSettles hinv hsettling, h.promiseSettles hinv hnamed hsettling ?_⟩
    rintro rfl
    exact hok _ _ rfl hsettling
  | flushResumes hready => exact flushResumes_spec hinv hnamed h hready
  | destroyStarts => exact destroyStarts_spec hinv hnamed
  | destroyEnds => exact ⟨hnamed.congr rfl rfl rfl, h.congr rfl rfl rfl rfl rfl rfl rfl id⟩

/-! ### Runs -/

/-- **What is queued is to be stored** in every run none of whose steps strands the queue: in a
room that is neither poisoned nor destroyed, a timer is armed or a flush is in flight while
anything is pending. -/
theorem scheduled_of_reachesWhen
    (h : (documentRoom U).ReachesWhen (fun s e => ¬s.Strands e) s) (hpoisoned : s.poisoned = false)
    (_hdestroyed : s.destroyed = false) (hpending : s.pending ≠ []) : s.Scheduled := by
  have hall : s.Inv ∧ s.Named ∧ s.Queued ∅ := by
    refine h.invariant (I := fun s => s.Inv ∧ s.Named ∧ s.Queued ∅) ?_ ?_
    · rintro _ ⟨throughSeq, rfl⟩
      exact ⟨inv_opened throughSeq, ⟨by simp [opened], by simp [opened]⟩, .of_pending rfl⟩
    · rintro s e s' ⟨hinv, hnamed, hqueued⟩ hok hstep
      refine ⟨hinv.step hstep, hqueued.step hinv hnamed ?_ hstep⟩
      rintro promise rest rfl hsettling
      by_contra hnot
      exact hok ⟨by simp [hsettling], hnot⟩
  obtain ⟨hinv, hnamed, hqueued⟩ := hall
  rcases hqueued hpoisoned with hnone | harmed | ⟨promise, -, hflushing⟩ | hfailing | hready
  · exact absurd (eq_nil_iff_forall_not_mem.mpr hnone) hpending
  · exact .inl harmed
  · exact .inr (.inl (by simp [hflushing]))
  · refine .inr (.inl ?_)
    rcases hfailing with ⟨run, hrun, -⟩ | ⟨promise, hpromise⟩
    · simp [hnamed.active run hrun]
    · simp [hnamed.settling _ hpromise]
  · exact .inr (.inr hready)

/-- An update arrives while the one before is being stored. That fails for now, and the timer
the second armed stores both. -/
theorem scheduled_of_reachesWhen_typingOn :
    ∃ s : DocumentRoom ℕ, (documentRoom ℕ).ReachesWhen (fun s e => ¬s.Strands e) s ∧
      s.pending = [0, 1] ∧ s.flushing = none ∧ s.Scheduled := by
  have hreach : ∃ s : DocumentRoom ℕ, (documentRoom ℕ).ReachesWhen (fun s e => ¬s.Strands e) s ∧
      s.pending = [0, 1] ∧ s.flushing = none ∧ s.poisoned = false ∧ s.destroyed = false :=
    Machine.exists_reachesWhen_of_runWhen
      [.docUpdate 0 .writer, .debounceFires, .docUpdate 1 .writer, .appendFails 0 none,
        .failureRecorded 0, .promiseSettles] ⟨0, rfl⟩ (by decide)
  obtain ⟨s, hs, hpending, hflushing, hpoisoned, hdestroyed⟩ := hreach
  exact ⟨s, hs, hpending, hflushing,
    scheduled_of_reachesWhen hs hpoisoned hdestroyed (by simp [hpending])⟩

/-- **A transient failure strands the queue**: the batch is put back, and nothing is to store
it. -/
theorem not_scheduled : ¬∀ s : DocumentRoom ℕ, (documentRoom ℕ).Reaches s → s.poisoned = false →
    s.destroyed = false → s.pending ≠ [] → s.Scheduled := by
  intro h
  have hreach : ∃ s : DocumentRoom ℕ, (documentRoom ℕ).Reaches s ∧ s.poisoned = false ∧
      s.destroyed = false ∧ s.pending ≠ [] ∧ ¬s.Scheduled :=
    Machine.exists_reachesWhen_of_runWhen
      [.docUpdate 0 .writer, .debounceFires, .appendFails 0 none, .failureRecorded 0,
        .promiseSettles] ⟨0, rfl⟩ (by decide)
  obtain ⟨s, hs, hpoisoned, hdestroyed, hpending, hnot⟩ := hreach
  exact hnot (h s hs hpoisoned hdestroyed hpending)

end DocumentRoom

end Sone
