import Sone.Account.SecondFactor

/-!
# What a second factor accepts

The history of `confirmEnrolment` and `checkSecondFactor` (`secondFactor`, with the statements
of these two alone). Each is a transaction that locks the row of the factor, so what one decides
it decides about the row as it stands at its commit: a step is above the last one that was
accepted, and a recovery code has not been used.

The log of a state is what was accepted, in the order of the commits. `LogKept` ties it to the
tables: the steps in it are no higher than `last_step`, and the recovery codes in it are used.
`accepted_spec` is what follows for every history.
-/

namespace Sone

open List Option

namespace SecondFactor

variable {env : TotpEnv} {s s' : State} {e : Event}

/-! ### Logs -/

def stepsFor (secret : List Char) (log : List Accepted) : List ℕ :=
  log.filterMap fun
    | .step other step => if other = secret then some step else none
    | .recovery _ => none

/-- The recovery codes that were accepted, by their hashes. -/
def recoveries (log : List Accepted) : List String :=
  log.filterMap fun
    | .step _ _ => none
    | .recovery hash => some hash

@[simp]
theorem mem_stepsFor {secret : List Char} {log : List Accepted} {step : ℕ} :
    step ∈ stepsFor secret log ↔ .step secret step ∈ log := by
  constructor
  · intro h
    obtain ⟨entry, hentry, heq⟩ := mem_filterMap.mp h
    cases entry with
    | step other n =>
      simp only at heq
      split_ifs at heq with hother
      cases heq
      exact hother ▸ hentry
    | recovery hash => cases heq
  · exact fun h => mem_filterMap.mpr ⟨_, h, by simp⟩

@[simp]
theorem mem_recoveries {log : List Accepted} {hash : String} :
    hash ∈ recoveries log ↔ .recovery hash ∈ log := by
  constructor
  · intro h
    obtain ⟨entry, hentry, heq⟩ := mem_filterMap.mp h
    cases entry with
    | step other n => cases heq
    | recovery other =>
      cases heq
      exact hentry
  · exact fun h => mem_filterMap.mpr ⟨_, h, rfl⟩

/-- Whether a statement is one of `confirmEnrolment` or `checkSecondFactor`. -/
def Event.IsCheck : Event → Prop
  | .confirmRead _ | .confirmWrite .. | .checkRead _ | .checkWrite .. | .commit _
  | .rollback _ => True
  | .startRead _ | .startWrite _ _ | .removeFactor _ | .removeCodes _ => False

/-! ### What is decided -/

/-- **What a call has to go by**: a confirmation has a row that is not confirmed, and a check one
that is; a step is above the last, and a recovery code to be spent has a row that is not used. -/
def Task.Sound (codes : List RecoveryRow) : Task → Prop
  | .confirm row | .commit row (.confirm _ _) => row.confirmed = false
  | .check row => row.confirmed = true
  | .commit row (.step step) =>
    row.confirmed = true ∧ ∀ last, row.lastStep = some last → last < step
  | .commit row (.spend hash) =>
    row.confirmed = true ∧ ∃ code ∈ codes, code.hash = hash ∧ code.used = false
  | .commit _ .nothing | .startWrite | .removeCodes => True

theorem sound_of_not_locked {codes : List RecoveryRow} {task : Task} (h : task.locked = none) :
    task.Sound codes := by
  cases task with
  | startWrite | removeCodes => trivial
  | confirm | check | commit => cases h

theorem confirmEnrolment_sound {row : FactorRow} {code : List Char} {now : Instant}
    {drawn : Fin TotpEnv.recoveryCount → List UInt8} {write : Write} {codes : List RecoveryRow}
    (hrow : row.confirmed = false) (h : confirmEnrolment env row code now drawn = some write) :
    (Task.commit row write).Sound codes := by
  simp only [confirmEnrolment] at h
  split at h
  · cases h
    trivial
  · obtain ⟨found, -, h⟩ := bind_eq_some_iff.mp h
    cases found with
    | none =>
      cases h
      trivial
    | some step =>
      simp only at h
      split_ifs at h
      cases h
      exact hrow

theorem spendRecovery_sound {row : FactorRow} {codes : List RecoveryRow} (code : List Char)
    (hrow : row.confirmed = true) :
    (Task.commit row (spendRecovery env codes code)).Sound codes := by
  rw [spendRecovery]
  split_ifs with hcount
  · have hpos : 0 < codes.countP fun row => row.hash = env.hashRecoveryCode code && !row.used := by
      rw [hcount]
      exact one_pos
    obtain ⟨unused, hmem, hunused⟩ := countP_pos_iff.mp hpos
    rw [Bool.and_eq_true, decide_eq_true_eq, Bool.not_eq_true'] at hunused
    exact ⟨hrow, unused, hmem, hunused⟩
  · trivial

theorem checkSecondFactor_sound {row : FactorRow} {codes : List RecoveryRow} {code : List Char}
    {now : Instant} {write : Write} (hrow : row.confirmed = true)
    (h : checkSecondFactor env row codes code now = some write) :
    (Task.commit row write).Sound codes := by
  simp only [checkSecondFactor] at h
  split at h
  · cases h
    exact spendRecovery_sound code hrow
  · obtain ⟨found, -, h⟩ := bind_eq_some_iff.mp h
    cases found with
    | none =>
      cases h
      exact spendRecovery_sound code hrow
    | some step =>
      simp only at h
      split_ifs at h with hreplayed
      · cases h
        trivial
      · cases h
        refine ⟨hrow, fun last hlast => ?_⟩
        rw [hlast, any_some, decide_eq_true_eq] at hreplayed
        omega

/-! ### The invariant -/

/-- **The log is kept in the tables.** -/
structure LogKept (s : State) : Prop where
  locked : Locked s
  sound : ∀ call task, s.tasks call = some task → task.Sound s.codes
  steps : ∀ secret step, .step secret step ∈ s.accepted → ∃ row last, s.factor = some row ∧
    row.confirmed = true ∧ row.secret = secret ∧ row.lastStep = some last ∧ step ≤ last
  recoveries : ∀ hash, .recovery hash ∈ s.accepted →
    (∃ row, s.factor = some row ∧ row.confirmed = true) ∧
      ∀ code ∈ s.codes, code.hash = hash → code.used = true
  increasing : ∀ secret, (stepsFor secret s.accepted).Pairwise (· < ·)
  once : (SecondFactor.recoveries s.accepted).Nodup

theorem LogKept.confirmed (h : LogKept s) {entry : Accepted} (hentry : entry ∈ s.accepted) :
    ∃ row, s.factor = some row ∧ row.confirmed = true := by
  cases entry with
  | step secret step =>
    obtain ⟨row, -, hrow, hconfirmed, -⟩ := h.steps secret step hentry
    exact ⟨row, hrow, hconfirmed⟩
  | recovery hash => exact (h.recoveries hash hentry).1

theorem LogKept.of_tables (h : LogKept s) (hlocked : Locked s') (hfactor : s'.factor = s.factor)
    (hcodes : s'.codes = s.codes) (haccepted : s'.accepted = s.accepted)
    (hsound : ∀ call task, s'.tasks call = some task → task.Sound s.codes) : LogKept s' where
  locked := hlocked
  sound := hcodes ▸ hsound
  steps := hfactor ▸ haccepted ▸ h.steps
  recoveries := hfactor ▸ hcodes ▸ haccepted ▸ h.recoveries
  increasing := haccepted ▸ h.increasing
  once := haccepted ▸ h.once

theorem LogKept.sound_goes (h : LogKept s) {call : ℕ} {task : Task} (htask : task.Sound s.codes)
    (c : ℕ) (other : Task) (hother : (s.goes call (some task)).tasks c = some other) :
    other.Sound s.codes := by
  by_cases hc : c = call
  · rw [hc, State.goes_tasks_self] at hother
    cases hother
    exact htask
  · rw [State.goes_tasks_of_ne s hc] at hother
    exact h.sound c other hother

theorem LogKept.sound_ends (h : LogKept s) {call : ℕ} {row : FactorRow} (hcall : Holds s call row)
    {codes : List RecoveryRow} (c : ℕ) (task : Task)
    (htask : (s.goes call none).tasks c = some task) : task.Sound codes :=
  sound_of_not_locked (eq_none_iff_forall_ne_some.mpr fun row' hrow' =>
    h.locked.not_holds_ends hcall c row' ⟨task, htask, hrow'⟩)

@[simp]
theorem stepsFor_append_step (secret other : List Char) (log : List Accepted) (step : ℕ) :
    stepsFor secret (log ++ [.step other step]) =
      stepsFor secret log ++ if other = secret then [step] else [] := by
  rw [stepsFor, filterMap_append]
  by_cases h : other = secret <;> simp [stepsFor, h]

@[simp]
theorem stepsFor_append_recovery (secret : List Char) (log : List Accepted) (hash : String) :
    stepsFor secret (log ++ [.recovery hash]) = stepsFor secret log := by
  simp [stepsFor]

@[simp]
theorem recoveries_append_step (secret : List Char) (log : List Accepted) (step : ℕ) :
    recoveries (log ++ [.step secret step]) = recoveries log := by
  simp [recoveries]

@[simp]
theorem recoveries_append_recovery (log : List Accepted) (hash : String) :
    recoveries (log ++ [.recovery hash]) = recoveries log ++ [hash] := by
  simp [recoveries]

theorem LogKept.increasing_append (h : LogKept s) {row : FactorRow} (hrow : s.factor = some row)
    {step : ℕ} (hstep : ∀ last, row.lastStep = some last → last < step) (secret : List Char) :
    (stepsFor secret (s.accepted ++ [.step row.secret step])).Pairwise (· < ·) := by
  rw [stepsFor_append_step]
  split_ifs with hsecret
  · refine pairwise_append.mpr ⟨h.increasing secret, pairwise_singleton .., ?_⟩
    intro n hn m hm
    obtain ⟨row', last, hrow', -, -, hlast, hle⟩ := h.steps secret n (mem_stepsFor.mp hn)
    cases hrow.symm.trans hrow'
    rw [mem_singleton.mp hm]
    exact lt_of_le_of_lt hle (hstep last hlast)
  · rw [append_nil]
    exact h.increasing secret

/-- **A commit keeps the log in the tables.** -/
theorem logKept_commit (h : LogKept s) {call : ℕ} {row : FactorRow} {write : Write}
    (htask : s.tasks call = some (.commit row write))
    (hlocked : Locked ((s.applies row write).ends call)) :
    LogKept ((s.applies row write).ends call) := by
  have hrow := h.locked.factor_of_commit htask
  have hgone : ∀ codes c task, (s.goes call none).tasks c = some task → Task.Sound codes task :=
    fun codes => h.sound_ends ⟨_, htask, rfl⟩
  cases write with
  | nothing => exact h.of_tables hlocked rfl rfl rfl (hgone _)
  | confirm step hashes =>
    have hpending : row.confirmed = false := h.sound call _ htask
    -- nothing was accepted while the factor was not confirmed
    have hempty : s.accepted = [] := by
      refine eq_nil_iff_forall_not_mem.mpr fun entry hentry => ?_
      obtain ⟨row', hrow', hconfirmed⟩ := h.confirmed hentry
      cases hrow.symm.trans hrow'
      rw [hpending] at hconfirmed
      cases hconfirmed
    have haccepted : ((s.applies row (.confirm step hashes)).ends call).accepted =
        [.step row.secret step] := by
      simp [State.applies, State.ends, State.goes, hempty]
    refine ⟨hlocked, hgone _, fun secret n hn => ?_, fun hash hhash => ?_, fun secret => ?_, ?_⟩
    · rw [haccepted, mem_singleton] at hn
      cases hn
      exact ⟨_, step, rfl, rfl, rfl, rfl, le_rfl⟩
    · rw [haccepted, mem_singleton] at hhash
      cases hhash
    · rw [haccepted, ← nil_append [_], stepsFor_append_step]
      split_ifs <;> simp [stepsFor]
    · rw [haccepted]
      exact nodup_nil
  | step step =>
    obtain ⟨hconfirmed, habove⟩ : row.confirmed = true ∧ ∀ last, row.lastStep = some last →
      last < step := h.sound call _ htask
    refine ⟨hlocked, hgone _, fun secret n hn => ?_, fun hash hhash => ?_,
      h.increasing_append hrow habove, ?_⟩
    · rcases mem_append.mp hn with hn | hn
      · obtain ⟨row', last, hrow', -, hsecret, hlast, hle⟩ := h.steps secret n hn
        cases hrow.symm.trans hrow'
        exact ⟨_, step, rfl, hconfirmed, hsecret, rfl, hle.trans (habove last hlast).le⟩
      · cases mem_singleton.mp hn
        exact ⟨_, step, rfl, hconfirmed, rfl, rfl, le_rfl⟩
    · rcases mem_append.mp hhash with hhash | hhash
      · exact ⟨⟨_, rfl, hconfirmed⟩, (h.recoveries hash hhash).2⟩
      · cases mem_singleton.mp hhash
    · exact (recoveries_append_step row.secret s.accepted step).symm ▸ h.once
  | spend hash =>
    obtain ⟨hconfirmed, unused, hmem, hhash, hused⟩ : row.confirmed = true ∧
      ∃ code ∈ s.codes, code.hash = hash ∧ code.used = false := h.sound call _ htask
    -- what was accepted before is used, and this one is not
    have hnew : hash ∉ recoveries s.accepted := fun hold => by
      have hold' := (h.recoveries hash (mem_recoveries.mp hold)).2 unused hmem hhash
      rw [hused] at hold'
      cases hold'
    refine ⟨hlocked, hgone _, fun secret n hn => ?_, fun other hother => ?_, fun secret => ?_, ?_⟩
    · rcases mem_append.mp hn with hn | hn
      · exact h.steps secret n hn
      · cases mem_singleton.mp hn
    · refine ⟨⟨row, hrow, hconfirmed⟩, fun code hcode hsame => ?_⟩
      obtain ⟨before, hbefore, rfl⟩ := List.mem_map.mp hcode
      split_ifs at hsame ⊢ with hspent
      · rfl
      · rcases mem_append.mp hother with hother | hother
        · exact (h.recoveries other hother).2 before hbefore hsame
        · cases mem_singleton.mp hother
          exact absurd hsame hspent
    · exact (stepsFor_append_recovery secret s.accepted hash).symm ▸ h.increasing secret
    · have happend : recoveries ((s.applies row (.spend hash)).ends call).accepted =
          recoveries s.accepted ++ [hash] := recoveries_append_recovery ..
      rw [happend]
      exact nodup_append.mpr ⟨h.once, nodup_singleton hash, fun a ha b hb hab =>
        hnew (mem_singleton.mp hb ▸ hab ▸ ha)⟩

theorem logKept_step (h : LogKept s) (hcheck : e.IsCheck) (hdoes : Does env s e s') :
    LogKept s' := by
  have hlocked := locked_step h.locked hdoes
  cases hdoes with
  | nothing => exact h
  | startRead | startWrite | removeFactor | removeCodes => cases hcheck
  | locks _ call task row hfree hunlocked hrow htask =>
    refine h.of_tables hlocked rfl rfl rfl (h.sound_goes ?_)
    rcases htask with rfl | ⟨rfl, hconfirmed⟩ | ⟨rfl, hconfirmed⟩
    · trivial
    · exact hconfirmed
    · exact hconfirmed
  | confirmWrite call row write code now drawn htask hwrite =>
    exact h.of_tables hlocked rfl rfl rfl
      (h.sound_goes (confirmEnrolment_sound (h.sound call _ htask) hwrite))
  | checkWrite call row write code now htask hwrite =>
    exact h.of_tables hlocked rfl rfl rfl
      (h.sound_goes (checkSecondFactor_sound (h.sound call _ htask) hwrite))
  | commit call row write htask => exact logKept_commit h htask hlocked
  | rollback call task row htask hrow =>
    exact h.of_tables hlocked rfl rfl rfl (h.sound_ends ⟨task, htask, hrow⟩)

theorem logKept_init (h : (secondFactor env).init s) : LogKept s where
  locked := locked_init h
  sound := fun call task htask => by
    rw [h.1] at htask
    cases htask
  steps := fun secret step hmem => by
    rw [h.2.2.1] at hmem
    cases hmem
  recoveries := fun hash hmem => by
    rw [h.2.2.1] at hmem
    cases hmem
  increasing := fun secret => by
    rw [h.2.2.1]
    exact List.Pairwise.nil
  once := by
    rw [h.2.2.1]
    exact nodup_nil

/-! ### Every history -/

theorem logKept_of_reaches (h : (secondFactor env).ReachesWhen (fun _ e => e.IsCheck) s) :
    LogKept s :=
  h.invariant (fun _ hinit => logKept_init hinit) fun _ _ _ hkept hcheck hstep =>
    logKept_step hkept hcheck (does_of_step hstep)

theorem factor_of_recovery (hlocked : Locked s) (hdoes : Does env s e s') {hash : String}
    (haccepted : s'.accepted = s.accepted ++ [.recovery hash]) :
    ∃ call row, s.tasks call = some (.commit row (.spend hash)) ∧ s.factor = some row ∧
      s'.factor = some row := by
  have hlog : ∀ {log : List Accepted}, log ≠ log ++ [.recovery hash] := fun h => by
    simpa using congrArg List.length h
  cases hdoes with
  | commit call row write htask =>
    have hrow := hlocked.factor_of_commit htask
    cases write with
    | nothing => exact absurd haccepted hlog
    | confirm | step => cases singleton_inj.mp (append_cancel_left haccepted)
    | spend =>
      cases singleton_inj.mp (append_cancel_left haccepted)
      exact ⟨call, row, htask, hrow, hrow⟩
  | nothing | startRead | startWrite | locks | confirmWrite | checkWrite | rollback | removeFactor
  | removeCodes => exact absurd haccepted hlog

/-- **What a history accepts.** The steps accepted for a secret are strictly increasing, no
recovery code is accepted twice, and where one is accepted the factor stays as the call that it
was given to had found and locked it. -/
theorem accepted_spec (h : (secondFactor env).ReachesWhen (fun _ e => e.IsCheck) s) :
    (∀ secret, (stepsFor secret s.accepted).Pairwise (· < ·)) ∧ (recoveries s.accepted).Nodup ∧
      ∀ e s' hash, e.IsCheck → (secondFactor env).step s e = some s' →
        s'.accepted = s.accepted ++ [.recovery hash] →
          ∃ call row, s.tasks call = some (.commit row (.spend hash)) ∧ s.factor = some row ∧
            s'.factor = some row := by
  have hkept := logKept_of_reaches h
  exact ⟨hkept.increasing, hkept.once, fun e s' hash _ hstep haccepted =>
    factor_of_recovery hkept.locked (does_of_step hstep) haccepted⟩

def State.enrolled : State :=
  { State.fresh with factor := some ⟨sampleSealed, false, none⟩ }

instance (e : Event) : Decidable e.IsCheck :=
  match e with
  | .confirmRead _ | .confirmWrite .. | .checkRead _ | .checkWrite .. | .commit _
  | .rollback _ => isTrue trivial
  | .startRead _ | .startWrite _ _ | .removeFactor _ | .removeCodes _ => isFalse id

/-- A sign-in with the first of the recovery codes. -/
def recovers : List Event :=
  [.checkRead 2, .checkWrite 2 (String.toList "AAAA-AAAA-AAA") ⟨89000, by decide⟩, .commit 2]

/-- The hypothesis can be met: the enrolment is confirmed, and one of its recovery codes is
used. -/
theorem accepted_spec_enrolled :
    ∃ s, (secondFactor sampleTotp).ReachesWhen (fun _ e => e.IsCheck) s ∧
      stepsFor sampleSealed s.accepted = [1] ∧ (SecondFactor.recoveries s.accepted).length = 1 ∧
        (SecondFactor.recoveries s.accepted).Nodup := by
  have hreach : ∃ s : State, (secondFactor sampleTotp).ReachesWhen (fun _ e => e.IsCheck) s ∧
      stepsFor sampleSealed s.accepted = [1] ∧
        (SecondFactor.recoveries s.accepted).length = 1 :=
    Machine.exists_reachesWhen_of_runWhen (confirms ++ recovers)
      (⟨rfl, rfl, rfl, rfl⟩ : (secondFactor sampleTotp).init .enrolled) (by decide +kernel)
  obtain ⟨s, hs, hsteps, hrecoveries⟩ := hreach
  exact ⟨s, hs, hsteps, hrecoveries, (accepted_spec hs).2.1⟩

end SecondFactor

end Sone
