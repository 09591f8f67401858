import Sone.Sync.Destroy

/-!
# The queue of a poisoned room

A room that cannot store is poisoned: it goes on serving its document and stores nothing more.
`doFlush` (`sync/room.ts`) then discards the queue, "keeping them would grow without bound". But
`scheduleFlush` arms no timer in a poisoned room, while `onDocUpdate` still queues what it is given.

So what is discarded is what was queued while a timer was left over from before
(`holdsNoBacklog_of_reachesWhen`), and after that nothing bounds the queue.
-/

set_option linter.unusedSectionVars false

namespace Sone

open List

universe u

variable {U : Type u} [DecidableEq U]

namespace DocumentRoom

variable {s s' : DocumentRoom U} {run : FlushRun U} {e : RoomEvent U}

/-- A call of `flush` waits for the run there is, or is about to go on. -/
def FlushWaits (s : DocumentRoom U) : Prop :=
  (∃ promise ∈ s.waiters, s.flushing = some promise) ∨ false ∈ s.ready

instance : Decidable s.FlushWaits := inferInstanceAs (Decidable (_ ∨ _))

/-- The queue is empty, or something is to take it. -/
def Attended (s : DocumentRoom U) : Prop := s.pending = [] ∨ s.TimerArmed ∨ s.FlushWaits

instance : Decidable s.Attended := inferInstanceAs (Decidable (_ ∨ _))

/-- **A poisoned room holds no backlog**: it goes on reporting itself, a timer that fires leaves the
queue empty, and as long as it is not empty something is to discard it. -/
structure HoldsNoBacklog (s : DocumentRoom U) : Prop where
  reported : ∀ e s', s.step e = some s' → s'.poisoned = true
  emptied : ∀ s', s.step .debounceFires = some s' ∨ s.step .maxDelayFires = some s' →
    s'.pending = []
  attended : s.Attended

/-- **An update that nothing discards**: it comes to a poisoned room where no timer is armed. -/
def Leaks (s : DocumentRoom U) : RoomEvent U → Prop
  | .docUpdate _ origin => s.poisoned = true ∧ s.destroyed = false ∧ origin.isReplay = false ∧
      ¬s.TimerArmed
  | _ => False

instance : Decidable (s.Leaks e) :=
  match e with
  | .docUpdate _ _ => inferInstanceAs (Decidable (_ ∧ _))
  | .debounceFires | .maxDelayFires | .flush | .appendSucceeds _ _ | .appendFails _ _
  | .projectionSucceeds _ | .projectionFails _ _ | .failureRecorded _ | .compactionEnds _
  | .promiseSettles | .flushResumes | .destroyStarts | .destroyEnds =>
    inferInstanceAs (Decidable False)

/-! ### The invariant -/

/-- A run is storing its batch, or the room is poisoned: storing may fail, or has failed. -/
def MayDiscard (s : DocumentRoom U) : Prop :=
  s.poisoned = true ∨ ∃ run ∈ s.active, ∃ batch, run.phase = .storing batch

/-- **The invariant.** -/
structure PoisonInv (s : DocumentRoom U) : Prop where
  /-- The field holds a promise only while one is to settle. -/
  busy : s.flushing ≠ none → s.active ≠ [] ∨ s.settling ≠ []
  /-- In a poisoned room nothing is under way, and nothing rejects. -/
  idle : s.poisoned = true → s.active = [] ∧ ∀ settled ∈ s.settling, settled.2 = false
  /-- What is queued while a batch is stored is attended to, should that fail for good. -/
  attended : s.MayDiscard → s.Attended

theorem PoisonInv.congr (h : s.PoisonInv) (hpending : s'.pending = s.pending)
    (hpoisoned : s'.poisoned = s.poisoned) (hdebounce : s'.debounceTimer = s.debounceTimer)
    (hmaxDelay : s'.maxDelayTimer = s.maxDelayTimer) (hwaiters : s'.waiters = s.waiters)
    (hflushing : s'.flushing = s.flushing) (hready : s'.ready = s.ready)
    (hactive : s'.active = s.active) (hsettling : s'.settling = s.settling) : s'.PoisonInv where
  busy := by simpa only [hflushing, hactive, hsettling] using h.busy
  idle := by simpa only [hpoisoned, hactive, hsettling] using h.idle
  attended := by
    simpa only [MayDiscard, Attended, TimerArmed, FlushWaits, hpending, hpoisoned, hdebounce,
      hmaxDelay, hwaiters, hflushing, hready, hactive] using h.attended

theorem poisonInv_opened (throughSeq : ℕ) : (opened throughSeq : DocumentRoom U).PoisonInv where
  busy := by simp [opened]
  idle := by simp [opened]
  attended := fun _ => .inl rfl

theorem PoisonInv.startFlush (hactive : s.active = []) (hsettling : s.settling = []) :
    s.startFlush.PoisonInv := by
  have hpending := (startFlush_spec hactive hsettling).1
  refine ⟨?_, ?_, fun _ => .inl hpending⟩ <;>
  · unfold DocumentRoom.startFlush doFlush
    by_cases hqueue : s.pending = [] <;> by_cases hpoisoned : s.poisoned = true <;>
      simp [hqueue, hpoisoned, hactive, hsettling]

theorem PoisonInv.flush (hinv : s.Inv)
    (hbusy : s.flushing ≠ none → s.active ≠ [] ∨ s.settling ≠ [])
    (hidle : s.poisoned = true → s.active = [] ∧ ∀ settled ∈ s.settling, settled.2 = false) :
    s.flush.PoisonInv := by
  rw [DocumentRoom.flush]
  split
  · rename_i promise hflushing
    exact ⟨hbusy, hidle, fun _ => .inr (.inr (.inl ⟨promise, by simp, hflushing⟩))⟩
  · rename_i hnone
    obtain ⟨hactive, hsettling⟩ := hinv.idle hnone
    exact .startFlush hactive hsettling

theorem PoisonInv.onDocUpdate (h : s.PoisonInv) {update : U} {origin : UpdateOrigin}
    (hok : ¬s.Leaks (.docUpdate update origin)) : (s.onDocUpdate update origin).PoisonInv := by
  rw [DocumentRoom.onDocUpdate]
  split_ifs with hdestroyed hreplay
  · exact h
  · exact h
  · rw [scheduleFlush]
    split
    · rename_i hpoisoned
      -- only a timer that was left over attends to it
      refine ⟨h.busy, h.idle, fun _ => .inr (.inl ?_)⟩
      by_contra hnot
      exact hok ⟨hpoisoned, by simpa using hdestroyed, by simpa using hreplay, hnot⟩
    · exact ⟨h.busy, h.idle, fun _ => .inr (.inl (.inl rfl))⟩

theorem PoisonInv.setPhase {phase : FlushPhase U} (h : s.PoisonInv) (hrun : run ∈ s.active)
    (hphase : ∀ batch, phase ≠ .storing batch) : (s.setPhase run phase).PoisonInv where
  busy _ := .inl (by simp [DocumentRoom.setPhase])
  idle hpoisoned := absurd (h.idle hpoisoned).1 (ne_nil_of_mem hrun)
  attended := by
    rintro (hpoisoned | ⟨other, hother, batch, hstoring⟩)
    · exact h.attended (.inl hpoisoned)
    · rcases mem_cons.mp hother with rfl | hother
      · exact absurd hstoring (hphase batch)
      · exact h.attended (.inr ⟨other, mem_of_mem_erase hother, batch, hstoring⟩)

theorem PoisonInv.finishRun (h : s.PoisonInv) (hrun : run ∈ s.active) (rejected : Bool) :
    (s.finishRun run rejected).PoisonInv where
  busy _ := .inr (by simp [DocumentRoom.finishRun])
  idle hpoisoned := absurd (h.idle hpoisoned).1 (ne_nil_of_mem hrun)
  attended := by
    rintro (hpoisoned | ⟨other, hother, hstoring⟩)
    · exact h.attended (.inl hpoisoned)
    · exact h.attended (.inr ⟨other, mem_of_mem_erase hother, hstoring⟩)

/-- **An append that fails for good** poisons the room, and what was queued meanwhile is attended
to. -/
theorem PoisonInv.appendFails {batch : List U} (hinv : s.Inv) (h : s.PoisonInv)
    (hrun : run ∈ s.active) (hphase : run.phase = .storing batch) (code : Option String) :
    (s.appendFails run batch code).PoisonInv := by
  obtain ⟨hactive, hsettling⟩ := hinv.active_eq hrun
  rw [DocumentRoom.appendFails]
  split
  · refine ⟨(h.finishRun hrun false).busy, fun _ => ?_, fun _ => ?_⟩
    · simp [DocumentRoom.finishRun, hactive, hsettling]
    · exact h.attended (.inr ⟨run, hrun, batch, hphase⟩)
  · have hpoisoned : s.poisoned ≠ true := fun hp =>
      absurd (h.idle hp).1 (ne_nil_of_mem hrun)
    refine ⟨fun _ => .inl (by simp [DocumentRoom.setPhase]), fun hp => absurd hp hpoisoned, ?_⟩
    rintro (hp | ⟨other, hother, _, hstoring⟩)
    · exact absurd hp hpoisoned
    · simp only [DocumentRoom.setPhase, hactive, erase_cons_head, mem_singleton] at hother
      rw [hother] at hstoring
      cases hstoring

theorem PoisonInv.promiseSettles {promise : ℕ} {rejected : Bool} {rest : List (ℕ × Bool)}
    (hinv : s.Inv) (hnamed : s.Named) (h : s.PoisonInv)
    (hsettling : s.settling = (promise, rejected) :: rest) :
    (s.promiseSettles promise rejected).PoisonInv := by
  obtain ⟨hactive, hnone⟩ := (hinv.promiseSettles hsettling).idle rfl
  refine ⟨fun hne => absurd rfl hne, fun _ => ⟨hactive, by simp [hnone]⟩, ?_⟩
  rintro (hpoisoned | ⟨run, hrun, -⟩)
  · have hflushing : s.flushing = some promise :=
      hnamed.settling (promise, rejected) (by simp [hsettling])
    obtain rfl : rejected = false := (h.idle hpoisoned).2 (promise, rejected) (by simp [hsettling])
    rcases h.attended (.inl hpoisoned) with hpending | harmed | ⟨waiter, hwaiter, hfield⟩ | hready
    · exact .inl hpending
    · exact .inr (.inl harmed)
    · obtain rfl : promise = waiter := Option.some.inj (hflushing.symm.trans hfield)
      refine .inr (.inr (.inr (mem_append_right _ ?_)))
      exact List.mem_map.mpr ⟨promise, mem_filter.mpr ⟨hwaiter, by simp⟩, rfl⟩
    · exact .inr (.inr (.inr (mem_append_left _ hready)))
  · simp [hactive] at hrun

theorem PoisonInv.flushResumes {rejected : Bool} {rest : List Bool} (hinv : s.Inv)
    (h : s.PoisonInv) (hready : s.ready = rejected :: rest) :
    (({ s with ready := rest } : DocumentRoom U).flushResumes rejected).PoisonInv := by
  rw [DocumentRoom.flushResumes]
  split
  · rename_i hrejected
    refine ⟨h.busy, h.idle, fun hmay =>
      (h.attended hmay).imp_right (Or.imp_right (Or.imp_right ?_))⟩
    intro hmem
    rw [hready, hrejected] at hmem
    simpa using hmem
  · split
    · rename_i hpending
      exact ⟨h.busy, h.idle, fun _ => .inl hpending⟩
    · rename_i hpending
      obtain ⟨hactive, hsettling⟩ := hinv.idle (hinv.resumable (by simp [hready]) hpending)
      exact .startFlush (s := { s with ready := rest }) hactive hsettling

theorem PoisonInv.destroyStarts (hinv : s.Inv) (h : s.PoisonInv) : s.destroyStarts.PoisonInv := by
  simp only [DocumentRoom.destroyStarts]
  split
  · rename_i hpending
    exact ⟨h.busy, h.idle, fun _ => .inl hpending⟩
  · refine .flush ?_ h.busy h.idle
    exact hinv.congr rfl rfl rfl rfl rfl rfl rfl rfl

/-- **The step lemma**: every step but one that leaks keeps the queue attended to. -/
theorem PoisonInv.step (hinv : s.Inv) (hnamed : s.Named) (h : s.PoisonInv) (hok : ¬s.Leaks e)
    (hstep : s.step e = some s') : s'.PoisonInv := by
  cases does_of_step hstep with
  | docUpdate => exact h.onDocUpdate hok
  | debounceFires | maxDelayFires =>
    refine .flush ?_ h.busy h.idle
    exact hinv.congr rfl rfl rfl rfl rfl rfl rfl rfl
  | flush => exact .flush hinv h.busy h.idle
  | appendSucceeds _ hrun | projectionSucceeds hrun | projectionFails _ hrun =>
    refine PoisonInv.congr (h.setPhase (run?_eq_some hrun).1 ?_)
      rfl rfl rfl rfl rfl rfl rfl rfl rfl
    simp
  | appendFails code hrun hphase => exact h.appendFails hinv (run?_eq_some hrun).1 hphase code
  | storeFailureRecorded hrun => exact h.finishRun (run?_eq_some hrun).1 true
  | projectionFailureRecorded hrun => exact h.setPhase (run?_eq_some hrun).1 (by simp)
  | compactionEnds hrun => exact h.finishRun (run?_eq_some hrun).1 false
  | promiseSettles hsettling => exact h.promiseSettles hinv hnamed hsettling
  | flushResumes hready => exact h.flushResumes hinv hready
  | destroyStarts => exact h.destroyStarts hinv
  | destroyEnds => exact h.congr rfl rfl rfl rfl rfl rfl rfl rfl rfl

/-! ### Runs -/

theorem Named.step (hinv : s.Inv) (h : s.Named) (hstep : s.step e = some s') : s'.Named := by
  by_cases hsettles : e = .promiseSettles
  · subst hsettles
    cases does_of_step hstep with | promiseSettles hsettling
    exact named_promiseSettles hinv hsettling
  · have hqueued : s.Queued Set.univ := fun _ => .inl fun _ _ => trivial
    exact (hqueued.step hinv h (fun _ _ he => absurd he hsettles) hstep).1

theorem poisoned_of_step (h : s.poisoned = true) (hstep : s.step e = some s') :
    s'.poisoned = true := by
  by_cases hgood : ∀ promise code, e = .appendFails promise code →
      isPermanentWriteFailure code = false
  · rw [poisoned_step hstep hgood, h]
  · simp only [not_forall, Bool.not_eq_false] at hgood
    obtain ⟨promise, code, rfl, hfails⟩ := hgood
    obtain ⟨run, -, hstep⟩ := Option.bind_eq_some_iff.mp hstep
    split at hstep
    · obtain rfl := Option.some.inj hstep
      rw [appendFails, if_pos hfails]
    · simp at hstep

theorem pending_flush (hinv : s.Inv)
    (hbusy : s.flushing ≠ none → s.active ≠ [] ∨ s.settling ≠ [])
    (hidle : s.poisoned = true → s.active = [] ∧ ∀ settled ∈ s.settling, settled.2 = false)
    (hpoisoned : s.poisoned = true) (hdrained : s.Drained) : s.flush.pending = [] := by
  have hflushing : s.flushing = none := by
    by_contra hne
    rcases hbusy hne with hactive | hsettling
    · exact hactive (hidle hpoisoned).1
    · exact hsettling hdrained.1
  obtain ⟨hactive, hsettling⟩ := hinv.idle hflushing
  rw [DocumentRoom.flush, hflushing]
  exact (startFlush_spec hactive hsettling).1

theorem pending_timer (hinv : s.Inv) (h : s.PoisonInv) (hpoisoned : s.poisoned = true)
    (hstep : s.step .debounceFires = some s' ∨ s.step .maxDelayFires = some s') :
    s'.pending = [] := by
  simp only [DocumentRoom.step, Option.ite_none_right_eq_some, Option.some.injEq] at hstep
  rcases hstep with ⟨⟨hdrained, -⟩, rfl⟩ | ⟨⟨hdrained, -⟩, rfl⟩
  · exact pending_flush (s := { s with debounceTimer := .fired })
      (hinv.congr rfl rfl rfl rfl rfl rfl rfl rfl) h.busy h.idle hpoisoned hdrained
  · exact pending_flush (s := { s with maxDelayTimer := .fired })
      (hinv.congr rfl rfl rfl rfl rfl rfl rfl rfl) h.busy h.idle hpoisoned hdrained

/-- **A poisoned room holds no backlog** in a run no update of which leaks. -/
theorem holdsNoBacklog_of_reachesWhen
    (h : (documentRoom U).ReachesWhen (fun s e => ¬s.Leaks e) s) (hpoisoned : s.poisoned = true) :
    s.HoldsNoBacklog := by
  have hall : s.Inv ∧ s.Named ∧ s.PoisonInv := by
    refine h.invariant (I := fun s => s.Inv ∧ s.Named ∧ s.PoisonInv) ?_ ?_
    · rintro _ ⟨throughSeq, rfl⟩
      exact ⟨inv_opened throughSeq, ⟨by simp [opened], by simp [opened]⟩,
        poisonInv_opened throughSeq⟩
    · rintro s e s' ⟨hinv, hnamed, hpoison⟩ hok hstep
      exact ⟨hinv.step hstep, hnamed.step hinv hstep, hpoison.step hinv hnamed hok hstep⟩
  obtain ⟨hinv, -, hpoison⟩ := hall
  exact {
    reported := fun _ _ hstep => poisoned_of_step hpoisoned hstep
    emptied := fun _ hstep => pending_timer hinv hpoison hpoisoned hstep
    attended := hpoison.attended (.inl hpoisoned) }

/-- Two updates come while one is being stored, that fails for good, and the timer the two armed
discards them. -/
theorem holdsNoBacklog_of_reachesWhen_leftOver :
    ∃ s : DocumentRoom ℕ, (documentRoom ℕ).ReachesWhen (fun s e => ¬s.Leaks e) s ∧
      s.pending = [1, 2] ∧ s.poisoned = true ∧ s.HoldsNoBacklog := by
  have hreach : ∃ s : DocumentRoom ℕ, (documentRoom ℕ).ReachesWhen (fun s e => ¬s.Leaks e) s ∧
      s.pending = [1, 2] ∧ s.poisoned = true :=
    Machine.exists_reachesWhen_of_runWhen
      [.docUpdate 0 .writer, .debounceFires, .docUpdate 1 .writer, .appendFails 0 (some "22P02"),
        .promiseSettles, .docUpdate 2 .writer] ⟨0, rfl⟩ (by decide +kernel)
  obtain ⟨s, hs, hpending, hpoisoned⟩ := hreach
  exact ⟨s, hs, hpending, hpoisoned, holdsNoBacklog_of_reachesWhen hs hpoisoned⟩

/-! ### What leaks -/

/-- **One update after the failure** stays in the queue. -/
theorem not_holdsNoBacklog : ¬∀ s : DocumentRoom ℕ, (documentRoom ℕ).Reaches s →
    s.poisoned = true → s.HoldsNoBacklog := by
  intro h
  have hreach : ∃ s : DocumentRoom ℕ, (documentRoom ℕ).Reaches s ∧ s.poisoned = true ∧
      ¬s.Attended :=
    Machine.exists_reachesWhen_of_runWhen
      [.docUpdate 0 .writer, .debounceFires, .appendFails 0 (some "22P02"), .promiseSettles,
        .docUpdate 1 .writer] ⟨0, rfl⟩ (by decide +kernel)
  obtain ⟨s, hs, hpoisoned, hnot⟩ := hreach
  exact hnot (h s hs hpoisoned).attended

end DocumentRoom

end Sone
