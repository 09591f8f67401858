import Sone.Account.Totp

/-!
# The second factor of an account

The row an account has in `second_factors`, its rows in `recovery_codes`, and the four functions
that touch them (`auth/secondFactor.ts`). `secondFactor` is a machine whose events are
statements: `confirmEnrolment` and `checkSecondFactor` are transactions that lock the row with
their first statement and write at their commit, and `startEnrolment` and `removeSecondFactor`
are two statements each, on their own. A statement waits for the lock where it would write the
row or lock it.

`startEnrolment` reads whether a factor is confirmed and then writes whatever it read: between
the two a confirmation can come through, and is taken back. `armed_of_guarded`: this is the only
way a confirmed factor is lost. `accepted_spec`: what is accepted for a secret goes up a step at
a time, and a recovery code is good once.
-/

namespace Sone

open Option

/-- `second_factors`, the row of one account. -/
structure FactorRow where
  secret : List Char
  /-- `confirmed_at IS NOT NULL` -/
  confirmed : Bool
  lastStep : Option ℕ
  deriving DecidableEq

/-- `recovery_codes`, the rows of one account. -/
structure RecoveryRow where
  hash : String
  /-- `used_at IS NOT NULL` -/
  used : Bool
  deriving DecidableEq

/-- What was accepted: a code of a secret, for a step, or a recovery code. -/
inductive Accepted where
  | step (secret : List Char) (step : ℕ)
  | recovery (hash : String)
  deriving DecidableEq

namespace SecondFactor

inductive Write where
  | nothing
  /-- `confirmEnrolment`: the step that was proved and the new recovery codes. -/
  | confirm (step : ℕ) (hashes : List String)
  /-- `checkSecondFactor`: a step, or a recovery code. -/
  | step (step : ℕ)
  | spend (hash : String)
  deriving DecidableEq

inductive Task where
  /-- `startEnrolment` has read that there is no confirmed factor. -/
  | startWrite
  /-- `confirmEnrolment` and `checkSecondFactor` have locked the row. -/
  | confirm (row : FactorRow)
  | check (row : FactorRow)
  /-- A transaction that has only its commit left. -/
  | commit (row : FactorRow) (write : Write)
  /-- `removeSecondFactor` has removed the factor. -/
  | removeCodes
  deriving DecidableEq

/-- The tables of an account, the calls that are under way, the call that holds the lock of the
row, and what has happened: what was accepted, and the secret that was last confirmed, since the
factor was last removed. -/
structure State where
  factor : Option FactorRow
  codes : List RecoveryRow
  tasks : ℕ → Option Task
  lock : Option ℕ
  accepted : List Accepted
  armed : Option (List Char)

inductive Event where
  | startRead (call : ℕ)
  /-- The upsert, with the secret that was made and sealed. -/
  | startWrite (call : ℕ) (sealed : List Char)
  | confirmRead (call : ℕ)
  /-- The code, the moment it is checked at and what is drawn for the recovery codes. -/
  | confirmWrite (call : ℕ) (code : List Char) (now : Instant)
      (drawn : Fin TotpEnv.recoveryCount → List UInt8)
  | checkRead (call : ℕ)
  | checkWrite (call : ℕ) (code : List Char) (now : Instant)
  | commit (call : ℕ)
  | rollback (call : ℕ)
  | removeFactor (call : ℕ)
  | removeCodes (call : ℕ)

/-! ### Deciding -/

variable (env : TotpEnv)

/-- What `confirmEnrolment` writes for a row that is locked and not confirmed, or `none` where it
throws: for a step that has no code, or a hash that is there already. -/
def confirmEnrolment (row : FactorRow) (code : List Char) (now : Instant)
    (drawn : Fin TotpEnv.recoveryCount → List UInt8) : Option Write :=
  match env.openSecret row.secret with
  | none => some .nothing
  | some secret => do
    match ← env.checkCode secret code now with
    | none => return .nothing
    | some step =>
      if (env.newRecoveryHashes drawn).Nodup then
        return .confirm step (env.newRecoveryHashes drawn)
      else none

def spendRecovery (codes : List RecoveryRow) (code : List Char) : Write :=
  if codes.countP (fun row => row.hash = env.hashRecoveryCode code && !row.used) = 1 then
    .spend (env.hashRecoveryCode code)
  else .nothing

/-- What `checkSecondFactor` writes for a row that is locked and confirmed, or `none` where it
throws. -/
def checkSecondFactor (row : FactorRow) (codes : List RecoveryRow) (code : List Char)
    (now : Instant) : Option Write :=
  match env.openSecret row.secret with
  | none => some (spendRecovery env codes code)
  | some secret => do
    match ← env.checkCode secret code now with
    | none => return spendRecovery env codes code
    | some step =>
      -- the same step twice is refused
      if row.lastStep.any (fun lastStep => step ≤ lastStep) then return .nothing
      else return .step step

/-! ### Steps -/

def State.goes (s : State) (call : ℕ) (task : Option Task) : State :=
  { s with tasks := Function.update s.tasks call task }

@[simp]
theorem State.goes_tasks_self (s : State) (call : ℕ) (task : Option Task) :
    (s.goes call task).tasks call = task :=
  Function.update_self ..

theorem State.goes_tasks_of_ne (s : State) {call c : ℕ} (h : c ≠ call) (task : Option Task) :
    (s.goes call task).tasks c = s.tasks c :=
  Function.update_of_ne h ..

def State.locks (s : State) (call : ℕ) (task : Task) : State :=
  { s.goes call (some task) with lock := some call }

def State.ends (s : State) (call : ℕ) : State :=
  { s.goes call none with lock := none }

def State.applies (s : State) (row : FactorRow) : Write → State
  | .nothing => s
  | .confirm step hashes =>
    { s with
      factor := some { row with confirmed := true, lastStep := some step }
      codes := hashes.map fun hash => { hash, used := false }
      accepted := s.accepted ++ [.step row.secret step]
      armed := some row.secret }
  | .step step =>
    { s with
      factor := some { row with lastStep := some step }
      accepted := s.accepted ++ [.step row.secret step] }
  | .spend hash =>
    { s with
      codes := s.codes.map fun code => if code.hash = hash then { code with used := true } else code
      accepted := s.accepted ++ [.recovery hash] }

/-- The state after a statement, or `none` where it is not the call's next, or waits. -/
def step (s : State) : Event → Option State
  | .startRead call =>
    if s.tasks call = none then
      if s.factor.any (·.confirmed) then some s else some (s.goes call (some .startWrite))
    else none
  | .startWrite call sealed =>
    if s.tasks call = some .startWrite ∧ s.lock = none then
      some { s.goes call none with
        factor := some { secret := sealed, confirmed := false, lastStep := none } }
    else none
  | .confirmRead call =>
    if s.tasks call = none then
      match s.factor with
      | none => some s
      | some row =>
        if s.lock ≠ none then none
        else if row.confirmed then some (s.locks call (.commit row .nothing))
        else some (s.locks call (.confirm row))
    else none
  | .confirmWrite call code now drawn =>
    match s.tasks call with
    | some (.confirm row) =>
      (confirmEnrolment env row code now drawn).map fun write =>
        s.goes call (some (.commit row write))
    | _ => none
  | .checkRead call =>
    if s.tasks call = none then
      match s.factor.filter (·.confirmed) with
      | none => some s
      | some row => if s.lock ≠ none then none else some (s.locks call (.check row))
    else none
  | .checkWrite call code now =>
    match s.tasks call with
    | some (.check row) =>
      (checkSecondFactor env row s.codes code now).map fun write =>
        s.goes call (some (.commit row write))
    | _ => none
  | .commit call =>
    match s.tasks call with
    | some (.commit row write) => some ((s.applies row write).ends call)
    | _ => none
  | .rollback call =>
    match s.tasks call with
    | some (.confirm _) | some (.check _) | some (.commit _ _) => some (s.ends call)
    | _ => none
  | .removeFactor call =>
    if s.tasks call = none ∧ s.lock = none then
      some { s.goes call (some .removeCodes) with factor := none, armed := none }
    else none
  | .removeCodes call =>
    if s.tasks call = some .removeCodes then some { s.goes call none with codes := [] } else none

end SecondFactor

open SecondFactor in
/-- **The second factor of one account**, from any tables, with no call under way. -/
def secondFactor (env : TotpEnv) : Machine State Event where
  init s := s.tasks = (fun _ => none) ∧ s.lock = none ∧ s.accepted = [] ∧ s.armed = none
  step := SecondFactor.step env

namespace SecondFactor

variable {env : TotpEnv} {s s' : State} {e : Event}

/-! ### What a statement does -/

def Task.locked : Task → Option FactorRow
  | confirm row | check row | commit row _ => some row
  | startWrite | removeCodes => none

variable (env s) in
/-- **What a statement does**, by its kind. -/
inductive Does : Event → State → Prop
  /-- A call that is over with its first statement. -/
  | nothing (e : Event) : Does e s
  | startRead (call : ℕ) (hfree : s.tasks call = none)
      (hpending : s.factor.any (·.confirmed) = false) :
      Does (.startRead call) (s.goes call (some .startWrite))
  | startWrite (call : ℕ) (sealed : List Char) (hunlocked : s.lock = none) :
      Does (.startWrite call sealed) { s.goes call none with
        factor := some { secret := sealed, confirmed := false, lastStep := none } }
  /-- A transaction begins, with a row that is locked as it stands. -/
  | locks (e : Event) (call : ℕ) (task : Task) (row : FactorRow) (hfree : s.tasks call = none)
      (hunlocked : s.lock = none) (hrow : s.factor = some row)
      (htask : task = .commit row .nothing ∨ (task = .confirm row ∧ row.confirmed = false) ∨
        (task = .check row ∧ row.confirmed = true)) :
      Does e (s.locks call task)
  | confirmWrite (call : ℕ) (row : FactorRow) (write : Write) (code : List Char) (now : Instant)
      (drawn : Fin TotpEnv.recoveryCount → List UInt8) (htask : s.tasks call = some (.confirm row))
      (hwrite : confirmEnrolment env row code now drawn = some write) :
      Does (.confirmWrite call code now drawn) (s.goes call (some (.commit row write)))
  | checkWrite (call : ℕ) (row : FactorRow) (write : Write) (code : List Char) (now : Instant)
      (htask : s.tasks call = some (.check row))
      (hwrite : checkSecondFactor env row s.codes code now = some write) :
      Does (.checkWrite call code now) (s.goes call (some (.commit row write)))
  | commit (call : ℕ) (row : FactorRow) (write : Write)
      (htask : s.tasks call = some (.commit row write)) :
      Does (.commit call) ((s.applies row write).ends call)
  | rollback (call : ℕ) (task : Task) (row : FactorRow) (htask : s.tasks call = some task)
      (hlocked : task.locked = some row) : Does (.rollback call) (s.ends call)
  | removeFactor (call : ℕ) (hfree : s.tasks call = none) (hunlocked : s.lock = none) :
      Does (.removeFactor call)
        { s.goes call (some .removeCodes) with factor := none, armed := none }
  | removeCodes (call : ℕ) (htask : s.tasks call = some .removeCodes) :
      Does (.removeCodes call) { s.goes call none with codes := [] }

theorem does_of_step (h : step env s e = some s') : Does env s e s' := by
  cases e with
  | startRead call =>
    simp only [step] at h
    split_ifs at h with hfree hconfirmed
    · cases h
      exact .nothing _
    · cases h
      exact .startRead call hfree (Bool.eq_false_of_not_eq_true hconfirmed)
  | startWrite call sealed =>
    simp only [step] at h
    split_ifs at h with hready
    cases h
    exact .startWrite call sealed hready.2
  | confirmRead call =>
    cases hrow : s.factor with
    | none =>
      simp only [step, hrow] at h
      split_ifs at h
      cases h
      exact .nothing _
    | some row =>
      simp only [step, hrow] at h
      split_ifs at h with hfree hlock hconfirmed
      · cases h
        exact .locks _ call _ row hfree (not_not.mp hlock) hrow (.inl rfl)
      · cases h
        exact .locks _ call _ row hfree (not_not.mp hlock) hrow
          (.inr (.inl ⟨rfl, Bool.eq_false_of_not_eq_true hconfirmed⟩))
  | confirmWrite call code now drawn =>
    simp only [step] at h
    split at h
    · rename_i row htask
      obtain ⟨write, hwrite, rfl⟩ := map_eq_some_iff.mp h
      exact .confirmWrite call row write code now drawn htask hwrite
    · cases h
  | checkRead call =>
    cases hrow : s.factor.filter (·.confirmed) with
    | none =>
      simp only [step, hrow] at h
      split_ifs at h
      cases h
      exact .nothing _
    | some row =>
      simp only [step, hrow] at h
      split_ifs at h with hfree hlock
      cases h
      obtain ⟨hfactor, hconfirmed⟩ := filter_eq_some_iff.mp hrow
      exact .locks _ call _ row hfree (not_not.mp hlock) hfactor (.inr (.inr ⟨rfl, hconfirmed⟩))
  | checkWrite call code now =>
    simp only [step] at h
    split at h
    · rename_i row htask
      obtain ⟨write, hwrite, rfl⟩ := map_eq_some_iff.mp h
      exact .checkWrite call row write code now htask hwrite
    · cases h
  | commit call =>
    simp only [step] at h
    split at h
    · rename_i row write htask
      cases h
      exact .commit call row write htask
    · cases h
  | rollback call =>
    simp only [step] at h
    split at h
    · rename_i row htask
      cases h
      exact .rollback call _ row htask rfl
    · rename_i row htask
      cases h
      exact .rollback call _ row htask rfl
    · rename_i row write htask
      cases h
      exact .rollback call _ row htask rfl
    · cases h
  | removeFactor call =>
    simp only [step] at h
    split_ifs at h with hready
    cases h
    exact .removeFactor call hready.1 hready.2
  | removeCodes call =>
    simp only [step] at h
    split_ifs at h with htask
    cases h
    exact .removeCodes call htask

/-! ### The lock -/

def Holds (s : State) (call : ℕ) (row : FactorRow) : Prop :=
  ∃ task, s.tasks call = some task ∧ task.locked = some row

/-- **The lock is kept**: a call that locked the row holds the lock, and the row stands as it
locked it. -/
def Locked (s : State) : Prop :=
  ∀ call row, Holds s call row → s.lock = some call ∧ s.factor = some row

theorem holds_goes {call c : ℕ} {task : Option Task} {row : FactorRow} :
    Holds (s.goes call task) c row ↔
      if c = call then ∃ t, task = some t ∧ t.locked = some row else Holds s c row := by
  by_cases hc : c = call
  · simp [Holds, hc]
  · simp [Holds, State.goes_tasks_of_ne s hc, hc]

theorem Locked.not_holds (h : Locked s) (hunlocked : s.lock = none) (call : ℕ) (row : FactorRow) :
    ¬ Holds s call row := fun hholds => by
  have hlock := (h call row hholds).1
  rw [hunlocked] at hlock
  cases hlock

theorem Locked.eq_of_holds (h : Locked s) {c c' : ℕ} {row row' : FactorRow}
    (hc : Holds s c row) (hc' : Holds s c' row') : c = c' :=
  some.inj ((h c row hc).1.symm.trans (h c' row' hc').1)

theorem Locked.not_holds_ends (h : Locked s) {call : ℕ} {row : FactorRow}
    (hcall : Holds s call row) (c : ℕ) (row' : FactorRow) :
    ¬ Holds (s.goes call none) c row' := by
  rw [holds_goes]
  split_ifs with hc
  · rintro ⟨t, ht, -⟩
    cases ht
  · exact fun hother => hc (h.eq_of_holds hother hcall)

theorem locked_step (h : Locked s) (hdoes : Does env s e s') : Locked s' := by
  cases hdoes with
  | nothing => exact h
  | startRead call =>
    intro c row hholds
    rw [holds_goes] at hholds
    split_ifs at hholds with hc
    · obtain ⟨t, ht, hlocked⟩ := hholds
      cases ht
      cases hlocked
    · exact h c row hholds
  | startWrite call sealed hunlocked =>
    intro c row hholds
    have hgoes : Holds (s.goes call none) c row := hholds
    rw [holds_goes] at hgoes
    split_ifs at hgoes with hc
    · obtain ⟨t, ht, -⟩ := hgoes
      cases ht
    · exact absurd hgoes (h.not_holds hunlocked c row)
  | locks _ call task row hfree hunlocked hrow htask =>
    intro c row' hholds
    have hgoes : Holds (s.goes call (some task)) c row' := hholds
    rw [holds_goes] at hgoes
    split_ifs at hgoes with hc
    · obtain ⟨t, ht, hlocked⟩ := hgoes
      cases ht
      rcases htask with rfl | ⟨rfl, -⟩ | ⟨rfl, -⟩ <;> cases hlocked <;> exact ⟨hc ▸ rfl, hrow⟩
    · exact absurd hgoes (h.not_holds hunlocked c row')
  | confirmWrite call row write _ _ _ htask =>
    intro c row' hholds
    rw [holds_goes] at hholds
    split_ifs at hholds with hc
    · obtain ⟨t, ht, hlocked⟩ := hholds
      cases ht
      cases hlocked
      exact hc ▸ h call row ⟨_, htask, rfl⟩
    · exact h c row' hholds
  | checkWrite call row write _ _ htask =>
    intro c row' hholds
    rw [holds_goes] at hholds
    split_ifs at hholds with hc
    · obtain ⟨t, ht, hlocked⟩ := hholds
      cases ht
      cases hlocked
      exact hc ▸ h call row ⟨_, htask, rfl⟩
    · exact h c row' hholds
  | commit call row write htask =>
    intro c row' hholds
    have hgoes : Holds (s.goes call none) c row' := by
      cases write <;> exact hholds
    exact absurd hgoes (h.not_holds_ends ⟨_, htask, rfl⟩ c row')
  | rollback call task row htask hlocked =>
    intro c row' hholds
    exact absurd hholds (h.not_holds_ends ⟨_, htask, hlocked⟩ c row')
  | removeFactor call hfree hunlocked =>
    intro c row hholds
    have hgoes : Holds (s.goes call (some .removeCodes)) c row := hholds
    rw [holds_goes] at hgoes
    split_ifs at hgoes with hc
    · obtain ⟨t, ht, hlocked⟩ := hgoes
      cases ht
      cases hlocked
    · exact absurd hgoes (h.not_holds hunlocked c row)
  | removeCodes call =>
    intro c row hholds
    have hgoes : Holds (s.goes call none) c row := hholds
    rw [holds_goes] at hgoes
    split_ifs at hgoes with hc
    · obtain ⟨t, ht, -⟩ := hgoes
      cases ht
    · exact h c row hgoes

theorem locked_init (h : (secondFactor env).init s) : Locked s := by
  rintro call row ⟨task, htask, -⟩
  rw [h.1] at htask
  cases htask

theorem Locked.factor_of_commit (h : Locked s) {call : ℕ} {row : FactorRow} {write : Write}
    (htask : s.tasks call = some (.commit row write)) : s.factor = some row :=
  (h call row ⟨_, htask, rfl⟩).2

/-! ### A confirmed factor stays armed -/

/-- **The factor is armed** with the secret that was last confirmed, since it was last removed. -/
def Armed (s : State) : Prop :=
  ∀ secret, s.armed = some secret →
    ∃ row, s.factor = some row ∧ row.confirmed = true ∧ row.secret = secret

/-- Whether a statement **writes no secret over a confirmed one**. -/
def Guarded (s : State) : Event → Prop
  | .startWrite _ _ => s.factor.any (·.confirmed) = false
  | _ => True

theorem armed_step (hlocked : Locked s) (h : Armed s) (hguard : Guarded s e)
    (hdoes : Does env s e s') : Armed s' := by
  cases hdoes with
  | nothing | startRead | confirmWrite | checkWrite | rollback | removeCodes | locks => exact h
  | startWrite call sealed =>
    intro secret hsecret
    obtain ⟨row, hrow, hconfirmed, -⟩ := h secret hsecret
    rw [Guarded, hrow, any_some, hconfirmed] at hguard
    cases hguard
  | commit call row write htask =>
    have hrow := hlocked.factor_of_commit htask
    cases write with
    | nothing => exact h
    | confirm step hashes =>
      intro secret hsecret
      exact ⟨_, rfl, rfl, some.inj hsecret⟩
    | step step =>
      intro secret hsecret
      obtain ⟨row', hrow', hconfirmed, hsame⟩ := h secret hsecret
      cases hrow.symm.trans hrow'
      exact ⟨_, rfl, hconfirmed, hsame⟩
    | spend hash => exact h
  | removeFactor call =>
    intro secret hsecret
    cases hsecret

/-- **When a confirmed factor stays armed.** In every run in which `startEnrolment` writes only
where no factor is confirmed, the factor stays confirmed with its secret until it is removed. -/
theorem armed_of_guarded (h : (secondFactor env).ReachesWhen Guarded s) : Armed s := by
  have hboth : Locked s ∧ Armed s := by
    refine h.invariant (I := fun s => Locked s ∧ Armed s)
      (fun s hinit => ⟨locked_init hinit, fun secret hsecret => ?_⟩)
      fun s e s' hinv hguard hstep => ?_
    · rw [hinit.2.2.2] at hsecret
      cases hsecret
    · have hdoes := does_of_step hstep
      exact ⟨locked_step hinv.1 hdoes, armed_step hinv.1 hinv.2 hguard hdoes⟩
  exact hboth.2

/-! ### Two enrolments and a confirmation -/

instance (s : State) (e : Event) : Decidable (Guarded s e) :=
  match e with
  | .startWrite _ _ => inferInstanceAs (Decidable (_ = false))
  | .startRead _ | .confirmRead _ | .confirmWrite .. | .checkRead _ | .checkWrite .. | .commit _
  | .rollback _ | .removeFactor _ | .removeCodes _ => isTrue trivial

/-- The hashes of the recovery codes of eight equal bytes, from 0 to 9. -/
def sampleHashes : List (String × String) :=
  [("aaaaaaaaaaa",
      "28cb017dfc99073aa1b47c1b30f413e3ce774c4991eb4158de50f9dbb36d8043"),
    ("aqebaqebaqe",
      "b1ae122d345bc0e13f14fed3ef4bdda6bc78a0da4f3c8a68691139e0ea169c56"),
    ("agicagicagi",
      "81c024fbe7378d3d42a461d9fa2e68d12bb4115794fd70b16bb91d2484d46f5c"),
    ("awmdawmdawm",
      "5812c24cd11b0fba3611d789439f7696a647f783ca13bf8a50f693bf31617b01"),
    ("baqebaqebaq",
      "efc529036cdeb3725316426488c264d004e952fa40b937fbba10d2aa61f3670f"),
    ("bqufbqufbqu",
      "16317c03b916ecf6cf6859e20d858a4cb4cb56a6163909d69f97a8c52af3dc9f"),
    ("bgygbgygbgy",
      "8c188a91f2e49b1845825a5def97a3772eedd6bc619b1555c570400a9c02f941"),
    ("bwchbwchbwc",
      "f880f9c1a543b44236e0adf22c986e3582276f59cf0b1a5185e7df38576ab0ab"),
    ("cagicagicag",
      "6bc6c8875947eb8ff7beafdcc9daba38aa4282941e96bc099833a4f3722c4ee7"),
    ("cqkjcqkjcqk",
      "6562ec162b1b68569871153cd8f8073ddc73fd5d9df879dddbbf27395cd62c47")]

/-- The secret `12345678901234567890` and its first codes, the secret sealed with a nonce of
zeros under the key `0123456789abcdef0123456789abcdef`, and the hashes of ten recovery codes. -/
def sampleTotp : TotpEnv where
  hmacSha1 := fun secret counter =>
    if secret = utf8 "12345678901234567890" then
      if counter = [0, 0, 0, 0, 0, 0, 0, 0] then
        [204, 147, 207, 24, 80, 141, 148, 147, 76, 100, 182, 93, 139, 167, 102, 127, 183, 205, 228,
          176]
      else if counter = [0, 0, 0, 0, 0, 0, 0, 1] then
        [117, 164, 138, 25, 212, 203, 225, 0, 100, 78, 138, 193, 57, 126, 234, 116, 122, 45, 51,
          171]
      else if counter = [0, 0, 0, 0, 0, 0, 0, 2] then
        [11, 172, 183, 250, 8, 47, 239, 48, 120, 34, 17, 147, 139, 193, 197, 231, 4, 22, 255, 68]
      else []
    else []
  sha256 := fun bytes => ((sampleHashes.find? fun entry => utf8 entry.1 = bytes).map (·.2)).getD ""
  encipher := fun _ _ => ([0, 161, 57, 244, 246, 28, 241, 224, 110, 177, 24, 132, 179, 69, 245, 25],
    [157, 148, 87, 172, 206, 138, 29, 229, 61, 44, 99, 112, 171, 183, 161, 152, 82, 76, 129, 89])
  decipher := fun iv tag body =>
    if iv = List.replicate 12 0 ∧
        tag = [0, 161, 57, 244, 246, 28, 241, 224, 110, 177, 24, 132, 179, 69, 245, 25] ∧
        body = [157, 148, 87, 172, 206, 138, 29, 229, 61, 44, 99, 112, 171, 183, 161, 152, 82, 76,
          129, 89] then
      some (utf8 "12345678901234567890")
    else none
  lowerCase := List.map Char.toLower

theorem openSecret_sealSecret_sample :
    sampleTotp.openSecret (sampleTotp.sealSecret (utf8 "12345678901234567890")
      (List.replicate 12 0)) = some (utf8 "12345678901234567890") :=
  TotpEnv.openSecret_sealSecret (by decide +kernel)

/-- An account without a second factor. -/
def State.fresh : State where
  factor := none
  codes := []
  tasks := fun _ => none
  lock := none
  accepted := []
  armed := none

/-- The secret `12345678901234567890`, sealed. -/
def sampleSealed : List Char :=
  String.toList "v1.AAAAAAAAAAAAAAAA.AKE59PYc8eBusRiEs0X1GQ.nZRXrM6KHeU9LGNwq7ehmFJMgVk"

/-- Enrolling, and the code `287082` a minute into 1970. -/
def enrols : List Event :=
  [.startRead 0, .startWrite 0 sampleSealed]

def confirms : List Event :=
  [.confirmRead 1, .confirmWrite 1 (String.toList "287082") ⟨59000, by decide⟩
    (fun i => List.replicate 8 (UInt8.ofNat i)), .commit 1]

/-- The secret `09876543210987654321`, sealed with a nonce of ones. -/
def otherSealed : List Char :=
  String.toList "v1.AQEBAQEBAQEBAQEB.Q12ejs3nsraX4-N99nqmrw.76wx-zJpAYuyLWjtXp6LoFSc3yI"

theorem fresh_init : (secondFactor env).init .fresh := ⟨rfl, rfl, rfl, rfl⟩

/-- **A confirmed factor is disarmed**: a second enrolment has read that nothing is confirmed
before the first one is, and writes its secret after that. -/
theorem confirmed_factor_disarmed :
    ¬ ∀ (env : TotpEnv) (s : State), (secondFactor env).Reaches s → Armed s := by
  intro hall
  have hreach : ∃ s : State, (secondFactor sampleTotp).Reaches s ∧
      s.armed = some sampleSealed ∧ s.factor.any (·.confirmed) = false :=
    Machine.exists_reachesWhen_of_runWhen
      (enrols ++ [.startRead 2] ++ confirms ++ [.startWrite 2 otherSealed]) fresh_init
      (by decide +kernel)
  obtain ⟨s, hs, harmed, hfactor⟩ := hreach
  obtain ⟨row, hrow, hconfirmed, -⟩ := hall sampleTotp s hs _ harmed
  rw [hrow, any_some, hconfirmed] at hfactor
  cases hfactor

/-- The hypothesis can be met: a factor is enrolled and confirmed. -/
theorem armed_of_guarded_enrolled :
    ∃ s, (secondFactor sampleTotp).ReachesWhen Guarded s ∧ s.armed = some sampleSealed ∧
      Armed s := by
  have hreach : ∃ s : State, (secondFactor sampleTotp).ReachesWhen Guarded s ∧
      s.armed = some sampleSealed :=
    Machine.exists_reachesWhen_of_runWhen (enrols ++ confirms) fresh_init (by decide +kernel)
  obtain ⟨s, hs, harmed⟩ := hreach
  exact ⟨s, hs, harmed, armed_of_guarded hs⟩

end SecondFactor

end Sone
