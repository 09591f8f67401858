import Sone.Transition.Machine
import Mathlib.Algebra.Group.Nat.Defs
import Mathlib.Data.List.Chain

/-!
# Running jobs

The table `jobs` and the runners on it (`jobs/runner.ts`). A runner takes a job with one
statement (`claimJob`), calls its handler, writes what came of it and tells whoever asked;
`jobRunner` is the machine of any number of runners, whose events are the statements and the
calls. A statement of the database has one of three ends (`Ack`): it is done, it fails, or it is
done and fails all the same, where the connection is lost before the answer.

The log of a job is what has happened to it. `IsOrderly` says what a log should look like: claims
and requeues in turn, no claim before a requeue lets it, and at the end the outcome and one call
of `onFinished`. What may go wrong is in the `try` of `runOneJob`, which goes on to `onFinished`
and whose `catch` requeues the job whatever threw (`kept_of_reachesWhen`).
-/

namespace Sone

open List Option Function

namespace Jobs

inductive Outcome where
  | done
  | failed
  deriving DecidableEq

/-- `state` -/
inductive JobState where
  | queued
  | running
  | finished (outcome : Outcome)
  deriving DecidableEq

/-- `jobs`, with the columns the queue reads. -/
structure JobRow where
  kind : String
  state : JobState
  attempts : ℕ
  /-- `run_after`, in milliseconds. -/
  runAfter : ℕ
  deriving DecidableEq

/-- How a statement ends: done, not done, or done with its answer lost. The last two throw. -/
inductive Ack where
  | ok
  | fails
  | lost
  deriving DecidableEq

inductive Mark where
  | claimed (now : ℕ)
  /-- Requeued after a number of attempts. -/
  | requeued (now attempts : ℕ)
  | finished (outcome : Outcome)
  /-- `onFinished` is called. -/
  | told (outcome : Outcome)
  deriving DecidableEq

/-- Where a runner is in `runOneJob`, with the job it claimed and the attempts of it. -/
inductive Task where
  /-- In the handler. -/
  | handling (job attempts : ℕ)
  /-- Before the statement that records success. -/
  | recordDone (job attempts : ℕ)
  /-- Before `tell(…, 'done')`. -/
  | tellDone (job attempts : ℕ)
  /-- In the `catch`, before its statement. -/
  | catches (job attempts : ℕ)
  /-- Before the statement for a job without a handler. -/
  | recordUnknown (job attempts : ℕ)
  /-- Before `tell(job, 'failed')`. -/
  | tellFailed (job attempts : ℕ)
  deriving DecidableEq

def Task.job : Task → ℕ
  | handling job _ | recordDone job _ | tellDone job _ | catches job _ | recordUnknown job _
  | tellFailed job _ => job

/-- The table, the runners, the clock of the database and what has happened to each job. -/
structure State where
  now : ℕ
  jobs : ℕ → Option JobRow
  runners : ℕ → Option Task
  log : ℕ → List Mark

inductive Event where
  | tick (ms : ℕ)
  | enqueue (job : ℕ) (kind : String)
  /-- A runner claims a job. Its handlers are the keys it has, and whether there is one there. -/
  | claim (runner job : ℕ) (handlers : List (String × Bool)) (ack : Ack)
  /-- The handler returns, or it throws. -/
  | handled (runner : ℕ) (returns : Bool)
  /-- The next statement of a runner. -/
  | records (runner : ℕ) (ack : Ack)
  /-- `onFinished` is called. What it returns may be rejected, or it throws itself. -/
  | tells (runner : ℕ) (throws : Bool)
  deriving DecidableEq

/-- `MAX_JOB_ATTEMPTS` -/
def maxJobAttempts : ℕ := 5

def jobRetryDelayMs (attempts : ℕ) : ℕ := min (60000 * 2 ^ (attempts - 1)) (60 * 60000)

/-! ### Steps -/

def State.sets (s : State) (runner : ℕ) (task : Option Task) (job : ℕ) (row : JobRow)
    (marks : List Mark) : State :=
  { s with
    jobs := Function.update s.jobs job (some row)
    runners := Function.update s.runners runner task
    log := Function.update s.log job (s.log job ++ marks) }

/-- `claimJob`, of a job that may be claimed: the rows that others hold are skipped, so that it
may be any. -/
def claimJob (s : State) (runner job : ℕ) (row : JobRow) (handlers : List (String × Bool))
    (ack : Ack) : State :=
  let claimed := { row with state := .running, attempts := row.attempts + 1 }
  match ack with
  | .fails => s
  | .lost => s.sets runner none job claimed [.claimed s.now]
  | .ok =>
    if (row.kind, true) ∈ handlers then
      s.sets runner (some (.handling job claimed.attempts)) job claimed [.claimed s.now]
    else s.sets runner (some (.recordUnknown job claimed.attempts)) job claimed [.claimed s.now]

def record (s : State) (runner : ℕ) (task : Task) (row : JobRow) (ack : Ack) : Option State :=
  let finishes := fun job outcome next =>
    s.sets runner next job { row with state := .finished outcome } [.finished outcome]
  match task, ack with
  | .recordDone job attempts, .ok => some (finishes job .done (some (.tellDone job attempts)))
  | .recordDone job attempts, .lost => some (finishes job .done (some (.catches job attempts)))
  | .recordDone job attempts, .fails =>
    some (s.sets runner (some (.catches job attempts)) job row [])
  | .catches job attempts, ack =>
    if attempts < maxJobAttempts then
      if ack = .fails then some (s.sets runner none job row [])
      else some (s.sets runner none job
        { row with state := .queued, runAfter := s.now + jobRetryDelayMs attempts }
        [.requeued s.now attempts])
    else match ack with
      | .ok => some (finishes job .failed (some (.tellFailed job attempts)))
      | .lost => some (finishes job .failed none)
      | .fails => some (s.sets runner none job row [])
  | .recordUnknown job attempts, .ok =>
    some (finishes job .failed (some (.tellFailed job attempts)))
  | .recordUnknown job _, .lost => some (finishes job .failed none)
  | .recordUnknown job _, .fails => some (s.sets runner none job row [])
  | .handling _ _, _ | .tellDone _ _, _ | .tellFailed _ _, _ => none

/-- The state after an event, or `none` where it cannot happen. -/
def step (s : State) : Event → Option State
  | .tick ms => some { s with now := s.now + ms }
  | .enqueue job kind =>
    if s.jobs job = none then
      some { s with jobs := Function.update s.jobs job (some ⟨kind, .queued, 0, s.now⟩) }
    else none
  | .claim runner job handlers ack =>
    match s.jobs job with
    | some row =>
      if s.runners runner = none ∧ row.state = .queued ∧ row.kind ∈ handlers.map (·.1) ∧
          row.runAfter ≤ s.now then
        some (claimJob s runner job row handlers ack)
      else none
    | none => none
  | .handled runner returns =>
    match s.runners runner with
    | some (.handling job attempts) => (s.jobs job).map fun row =>
      s.sets runner (some (if returns then .recordDone job attempts else .catches job attempts))
        job row []
    | _ => none
  | .records runner ack =>
    match s.runners runner with
    | some task => (s.jobs task.job).bind fun row => record s runner task row ack
    | none => none
  | .tells runner throws =>
    match s.runners runner with
    | some (.tellDone job attempts) => (s.jobs job).map fun row =>
      s.sets runner (if throws then some (.catches job attempts) else none) job row [.told .done]
    | some (.tellFailed job _) => (s.jobs job).map fun row =>
      s.sets runner none job row [.told .failed]
    | _ => none

end Jobs

open Jobs in
/-- **The runners of jobs**, from an empty table. -/
def jobRunner : Machine State Event where
  init s := s.jobs = (fun _ => none) ∧ s.runners = (fun _ => none) ∧ s.log = fun _ => []
  step := Jobs.step

namespace Jobs

variable {s s' : State} {e : Event}

/-! ### What should hold -/

namespace Mark

/-- Whether a job is claimed, is finished, or is told of. -/
def isClaim : Mark → Bool
  | claimed _ => true
  | requeued _ _ | finished _ | told _ => false

def isFinish : Mark → Bool
  | finished _ => true
  | claimed _ | requeued _ _ | told _ => false

def isTold : Mark → Bool
  | told _ => true
  | claimed _ | requeued _ _ | finished _ => false

/-- **What may come next** in a log: a claim is answered by a requeue or an outcome, a requeue by
a claim once its delay has passed, and an outcome by one call. -/
def Follows : Mark → Mark → Prop
  | claimed _, requeued _ _ | claimed _, finished _ => True
  | requeued now attempts, claimed later => now + jobRetryDelayMs attempts ≤ later
  | finished outcome, told other => outcome = other
  | claimed _, claimed _ | claimed _, told _ | requeued _ _, requeued _ _
  | requeued _ _, finished _ | requeued _ _, told _ | finished _, claimed _
  | finished _, requeued _ _ | finished _, finished _ | told _, _ => False

end Mark

/-- **A log is orderly**: it begins with a claim, and each mark may follow the one before it. -/
structure IsOrderly (log : List Mark) : Prop where
  begins : ∀ mark ∈ log.head?, mark.isClaim = true
  chain : log.IsChain Mark.Follows

/-- **The lifecycle of a job is kept.** No job is with two runners; its attempts are its claims
and no more than the maximum; its log is orderly, it is finished once and told of once, and it
stays as it was finished; and once no runner is with it, whoever asked has been told. -/
structure Kept (s : State) : Prop where
  one : ∀ runner other task task', s.runners runner = some task → s.runners other = some task' →
    task.job = task'.job → runner = other
  attempts : ∀ job row, s.jobs job = some row →
    row.attempts = (s.log job).countP Mark.isClaim ∧ row.attempts ≤ maxJobAttempts
  orderly : ∀ job, IsOrderly (s.log job)
  once : ∀ job, (s.log job).countP Mark.isFinish ≤ 1 ∧ (s.log job).countP Mark.isTold ≤ 1
  finished : ∀ job row outcome, s.jobs job = some row →
    (row.state = .finished outcome ↔ .finished outcome ∈ s.log job)
  told : ∀ job row outcome, s.jobs job = some row → row.state = .finished outcome →
    (∀ runner task, s.runners runner = some task → task.job ≠ job) → .told outcome ∈ s.log job

/-- Whether the statement of a runner ends the job. -/
def Task.finishes : Task → Bool
  | recordDone _ _ | recordUnknown _ _ => true
  | catches _ attempts => maxJobAttempts ≤ attempts
  | handling _ _ | tellDone _ _ | tellFailed _ _ => false

def Task.isTellDone : Task → Bool
  | tellDone _ _ => true
  | handling _ _ | recordDone _ _ | catches _ _ | recordUnknown _ _ | tellFailed _ _ => false

/-- **What must not happen**: that the outcome of a job is written and the answer is lost, or that
`onFinished` throws when a job is done. -/
def Guarded (s : State) : Event → Prop
  | .records runner .lost => (s.runners runner).any Task.finishes = false
  | .tells runner true => (s.runners runner).any Task.isTellDone = false
  | _ => True

/-! ### Logs -/

theorem once_of_isChain {log : List Mark} (h : log.IsChain Mark.Follows) :
    log.countP Mark.isFinish ≤ 1 ∧ log.countP Mark.isTold ≤ 1 := by
  induction log with
  | nil => simp
  | cons mark rest ih =>
    cases rest with
    | nil => cases mark <;> simp [Mark.isFinish, Mark.isTold]
    | cons next rest =>
      obtain ⟨hfollows, hrest⟩ := isChain_cons_cons.mp h
      have hcounts := ih hrest
      cases mark with
      | claimed now => simpa [countP_cons, Mark.isFinish, Mark.isTold] using hcounts
      | requeued now attempts =>
        simpa [countP_cons, Mark.isFinish, Mark.isTold] using hcounts
      | finished outcome =>
        cases next with
        | claimed | requeued | finished => cases hfollows
        | told other =>
          -- nothing comes after the call
          cases rest with
          | nil => simp [countP_cons, Mark.isFinish, Mark.isTold]
          | cons after rest => exact ((isChain_cons_cons.mp hrest).1).elim
      | told outcome => exact hfollows.elim

theorem isOrderly_nil : IsOrderly [] where
  begins := fun mark hmark => by cases hmark
  chain := List.IsChain.nil

theorem IsOrderly.append {log : List Mark} (h : IsOrderly log) {mark : Mark}
    (hlast : ∀ last ∈ log.getLast?, Mark.Follows last mark)
    (hfirst : log = [] → mark.isClaim = true) : IsOrderly (log ++ [mark]) where
  begins := fun first hmem => by
    cases log with
    | nil =>
      cases hmem
      exact hfirst rfl
    | cons head rest => exact h.begins first hmem
  chain := isChain_append.mpr
    ⟨h.chain, isChain_singleton _, fun last hmem next hnext => by
    cases hnext
    exact hlast last hmem⟩

/-! ### The invariant -/

def Busy (s : State) (job : ℕ) : Prop :=
  ∃ runner task, s.runners runner = some task ∧ task.job = job

structure RowKept (row : JobRow) (log : List Mark) (busy : Prop) : Prop where
  attempts : row.attempts = log.countP Mark.isClaim ∧ row.attempts ≤ maxJobAttempts
  finished : ∀ outcome, row.state = .finished outcome ↔ .finished outcome ∈ log
  queued : row.state = .queued → row.attempts < maxJobAttempts ∧ ¬ busy ∧
    ∀ last ∈ log.getLast?, ∃ now attempts, last = .requeued now attempts ∧
      now + jobRetryDelayMs attempts ≤ row.runAfter
  running : row.state = .running → ∃ now, log.getLast? = some (.claimed now)
  ended : ∀ outcome, row.state = .finished outcome → log.getLast? = some (.told outcome) ∨
    (log.getLast? = some (.finished outcome) ∧ busy)

/-- What the place of a runner says about the job it has. -/
def Task.Agrees (row : JobRow) (log : List Mark) : Task → Prop
  | handling _ attempts | recordDone _ attempts | catches _ attempts | recordUnknown _ attempts =>
    row.state = .running ∧ attempts = row.attempts
  | tellDone _ _ => row.state = .finished .done ∧ log.getLast? = some (.finished .done)
  | tellFailed _ _ => row.state = .finished .failed ∧ log.getLast? = some (.finished .failed)

/-- **The rows, the runners and the logs agree.** -/
structure Agree (s : State) : Prop where
  one : ∀ runner other task task', s.runners runner = some task → s.runners other = some task' →
    task.job = task'.job → runner = other
  orderly : ∀ job, IsOrderly (s.log job)
  rows : ∀ job row, s.jobs job = some row → RowKept row (s.log job) (Busy s job)
  tasks : ∀ runner task, s.runners runner = some task →
    ∃ row, s.jobs task.job = some row ∧ task.Agrees row (s.log task.job)
  absent : ∀ job, s.jobs job = none → s.log job = []

theorem Agree.kept (h : Agree s) : Kept s where
  one := h.one
  attempts := fun job row hrow => (h.rows job row hrow).attempts
  orderly := h.orderly
  once := fun job => once_of_isChain (h.orderly job).chain
  finished := fun job row outcome hrow => (h.rows job row hrow).finished outcome
  told := fun job row outcome hrow hstate hfree => by
    rcases (h.rows job row hrow).ended outcome hstate with hlast | ⟨-, runner, task, htask, hjob⟩
    · exact mem_of_getLast? hlast
    · exact absurd hjob (hfree runner task htask)

section Sets

variable {runner job : ℕ} {task : Option Task} {row : JobRow} {marks : List Mark}

@[simp]
theorem State.sets_runners :
    (s.sets runner task job row marks).runners = Function.update s.runners runner task :=
  rfl

@[simp]
theorem State.sets_jobs :
    (s.sets runner task job row marks).jobs = Function.update s.jobs job (some row) :=
  rfl

@[simp]
theorem State.sets_log : (s.sets runner task job row marks).log =
    Function.update s.log job (s.log job ++ marks) :=
  rfl

theorem busy_sets_self
    (hothers : ∀ other t, s.runners other = some t → t.job = job → other = runner)
    (htask : ∀ t, task = some t → t.job = job) :
    Busy (s.sets runner task job row marks) job ↔ task.isSome = true := by
  constructor
  · rintro ⟨other, t, ht, hjob⟩
    by_cases hother : other = runner
    · rw [hother, State.sets_runners, update_self] at ht
      rw [ht]
      rfl
    · rw [State.sets_runners, update_of_ne hother] at ht
      exact absurd (hothers other t ht hjob) hother
  · intro hsome
    obtain ⟨t, ht⟩ := isSome_iff_exists.mp hsome
    exact ⟨runner, t, by simp [ht], htask t ht⟩

theorem busy_sets_of_ne {other : ℕ} (hne : other ≠ job)
    (hold : ∀ t, s.runners runner = some t → t.job = job)
    (htask : ∀ t, task = some t → t.job = job) :
    Busy (s.sets runner task job row marks) other ↔ Busy s other := by
  refine exists_congr fun r => ?_
  by_cases hr : r = runner
  · subst hr
    simp only [State.sets_runners, update_self]
    constructor
    · rintro ⟨t, ht, rfl⟩
      exact absurd (htask t ht) hne
    · rintro ⟨t, ht, rfl⟩
      exact absurd (hold t ht) hne
  · simp only [State.sets_runners, update_of_ne hr]

/-- **A step of one runner on one job** keeps the agreement, where the row and the place of the
runner that it leaves agree with the log that it leaves. -/
theorem Agree.sets (h : Agree s)
    (hothers : ∀ other t, s.runners other = some t → t.job = job → other = runner)
    (hold : ∀ t, s.runners runner = some t → t.job = job)
    (htask : ∀ t, task = some t → t.job = job) (horderly : IsOrderly (s.log job ++ marks))
    (hrow : RowKept row (s.log job ++ marks) (task.isSome = true))
    (hagrees : ∀ t, task = some t → t.Agrees row (s.log job ++ marks)) :
    Agree (s.sets runner task job row marks) where
  one := fun a b t t' ha hb hsame => by
    simp only [State.sets_runners, update_apply] at ha hb
    split_ifs at ha hb with hra hrb hrb
    · rw [hra, hrb]
    · rw [hra]
      exact (hothers b t' hb (hsame ▸ htask t ha)).symm
    · rw [hrb]
      exact hothers a t ha (hsame.trans (htask t' hb))
    · exact h.one a b t t' ha hb hsame
  orderly := fun other => by
    by_cases hother : other = job
    · rw [hother, State.sets_log, update_self]
      exact horderly
    · rw [State.sets_log, update_of_ne hother]
      exact h.orderly other
  rows := fun other row' hrow' => by
    by_cases hother : other = job
    · subst hother
      rw [State.sets_jobs, update_self] at hrow'
      cases hrow'
      rw [propext (busy_sets_self hothers htask)]
      simp only [State.sets_log, update_self]
      exact hrow
    · rw [propext (busy_sets_of_ne hother hold htask)]
      simp only [State.sets_jobs, State.sets_log, update_of_ne hother] at hrow' ⊢
      exact h.rows other row' hrow'
  tasks := fun r t ht => by
    by_cases hr : r = runner
    · rw [hr, State.sets_runners, update_self] at ht
      rw [htask t ht]
      exact ⟨row, by simp, by simpa using hagrees t ht⟩
    · rw [State.sets_runners, update_of_ne hr] at ht
      have hne : t.job ≠ job := fun hjob => hr (hothers r t ht hjob)
      obtain ⟨row', hrow', hagree⟩ := h.tasks r t ht
      exact ⟨row', by simpa [hne] using hrow', by simpa [hne] using hagree⟩
  absent := fun other hnone => by
    by_cases hother : other = job
    · rw [hother, State.sets_jobs, update_self] at hnone
      cases hnone
    · simp only [State.sets_jobs, State.sets_log, update_of_ne hother] at hnone ⊢
      exact h.absent other hnone

end Sets

/-! ### Rows and logs, one mark on -/

section Marks

variable {row : JobRow} {log : List Mark} {busy busy' : Prop}

theorem RowKept.of_running (h : RowKept row log busy) (hrun : row.state = .running) :
    RowKept row log busy' where
  attempts := h.attempts
  finished := h.finished
  queued := fun hqueued => by
    rw [hrun] at hqueued
    cases hqueued
  running := h.running
  ended := fun outcome hended => by
    rw [hrun] at hended
    cases hended

theorem RowKept.claimed (h : RowKept row log busy) (horderly : IsOrderly log)
    (hqueued : row.state = .queued) {now : ℕ} (hdue : row.runAfter ≤ now) :
    IsOrderly (log ++ [.claimed now]) ∧
      RowKept { row with state := .running, attempts := row.attempts + 1 } (log ++ [.claimed now])
        busy' := by
  obtain ⟨hless, -, hlast⟩ := h.queued hqueued
  refine ⟨horderly.append (fun last hmem => ?_) fun _ => rfl, ?_, fun outcome => ?_,
    fun hstate => ?_,
    fun _ => ⟨now, by simp⟩, fun outcome hstate => ?_⟩
  · obtain ⟨earlier, attempts, rfl, hdelay⟩ := hlast last hmem
    exact hdelay.trans hdue
  · rw [countP_append, ← h.attempts.1]
    exact ⟨rfl, hless⟩
  · have hnot := h.finished outcome
    rw [hqueued] at hnot
    simpa using hnot
  · cases hstate
  · cases hstate

theorem RowKept.finishes (h : RowKept row log busy) (horderly : IsOrderly log)
    (hrun : row.state = .running) (outcome : Outcome) (hbusy : busy') :
    IsOrderly (log ++ [.finished outcome]) ∧
      RowKept { row with state := .finished outcome } (log ++ [.finished outcome]) busy' := by
  obtain ⟨now, hlast⟩ := h.running hrun
  refine ⟨horderly.append (fun last hmem => ?_) fun hnil => ?_, ?_, fun other => ?_,
    fun hstate => ?_,
    fun hstate => ?_, fun other hstate => ?_⟩
  · rw [hlast] at hmem
    cases hmem
    trivial
  · rw [hnil] at hlast
    cases hlast
  · rw [countP_append]
    exact h.attempts
  · have hnot : .finished other ∉ log := fun hmem => by
      have hended := (h.finished other).mpr hmem
      rw [hrun] at hended
      cases hended
    simp [hnot, eq_comm]
  · cases hstate
  · cases hstate
  · cases hstate
    exact .inr ⟨by simp, hbusy⟩

theorem RowKept.requeues (h : RowKept row log busy) (horderly : IsOrderly log)
    (hrun : row.state = .running) (hless : row.attempts < maxJobAttempts) (now : ℕ)
    (hbusy : ¬ busy') : IsOrderly (log ++ [.requeued now row.attempts]) ∧
      RowKept { row with state := .queued, runAfter := now + jobRetryDelayMs row.attempts }
        (log ++ [.requeued now row.attempts]) busy' := by
  obtain ⟨earlier, hlast⟩ := h.running hrun
  refine ⟨horderly.append (fun last hmem => ?_) fun hnil => ?_, ?_, fun outcome => ?_,
    fun _ => ⟨hless, hbusy, fun last hmem => ?_⟩, fun hstate => ?_, fun outcome hstate => ?_⟩
  · rw [hlast] at hmem
    cases hmem
    trivial
  · rw [hnil] at hlast
    cases hlast
  · rw [countP_append]
    exact h.attempts
  · have hnot := h.finished outcome
    rw [hrun] at hnot
    simpa using hnot
  · rw [List.getLast?_concat] at hmem
    cases hmem
    exact ⟨now, row.attempts, rfl, le_rfl⟩
  · cases hstate
  · cases hstate

/-- A call of `onFinished` is a mark that may come next. -/
theorem RowKept.tells (h : RowKept row log busy) (horderly : IsOrderly log) {outcome : Outcome}
    (hstate : row.state = .finished outcome) (hlast : log.getLast? = some (.finished outcome)) :
    IsOrderly (log ++ [.told outcome]) ∧ RowKept row (log ++ [.told outcome]) busy' := by
  refine ⟨horderly.append (fun last hmem => ?_) fun hnil => ?_, ?_, fun other => ?_,
    fun hother => ?_,
    fun hother => ?_, fun other hother => .inl ?_⟩
  · rw [hlast] at hmem
    cases hmem
    rfl
  · rw [hnil] at hlast
    cases hlast
  · rw [countP_append]
    exact h.attempts
  · simpa using h.finished other
  · rw [hstate] at hother
    cases hother
  · rw [hstate] at hother
    cases hother
  · rw [hstate] at hother
    cases hother
    simp

end Marks

/-! ### Steps keep the agreement -/

theorem Agree.only (h : Agree s) {runner : ℕ} {task : Task} (htask : s.runners runner = some task)
    (other : ℕ) (t : Task) (ht : s.runners other = some t) (hjob : t.job = task.job) :
    other = runner :=
  h.one other runner t task ht htask hjob

theorem agree_claim (h : Agree s) {runner job : ℕ} {row : JobRow}
    {handlers : List (String × Bool)} {ack : Ack} (hrow : s.jobs job = some row)
    (hfree : s.runners runner = none) (hqueued : row.state = .queued)
    (hdue : row.runAfter ≤ s.now) :
    Agree (claimJob s runner job row handlers ack) := by
  have hkept := h.rows job row hrow
  have hnobody : ∀ other t, s.runners other = some t → t.job = job → other = runner :=
    fun other t ht hjob => absurd ⟨other, t, ht, hjob⟩ (hkept.queued hqueued).2.1
  have hold : ∀ t, s.runners runner = some t → t.job = job := fun t ht => by
    rw [hfree] at ht
    cases ht
  have hsets : ∀ task : Option Task, (∀ t, task = some t → t.job = job) →
      (∀ t, task = some t → t.Agrees { row with state := .running, attempts := row.attempts + 1 }
        (s.log job ++ [.claimed s.now])) →
      Agree (s.sets runner task job { row with state := .running, attempts := row.attempts + 1 }
        [.claimed s.now]) := fun task htask hagrees => by
    obtain ⟨horderly, hnext⟩ := hkept.claimed (h.orderly job) hqueued hdue
    exact h.sets hnobody hold htask horderly hnext hagrees
  cases ack with
  | fails => exact h
  | lost => exact hsets none (fun t ht => by cases ht) fun t ht => by cases ht
  | ok =>
    rw [claimJob]
    split_ifs
    · refine hsets _ (fun t ht => ?_) fun t ht => ?_ <;> cases ht
      · rfl
      · exact ⟨rfl, rfl⟩
    · refine hsets _ (fun t ht => ?_) fun t ht => ?_ <;> cases ht
      · rfl
      · exact ⟨rfl, rfl⟩

section Runs

variable {runner : ℕ} {task : Task} {row : JobRow}

theorem Agree.goes (h : Agree s) (htask : s.runners runner = some task)
    (hrow : s.jobs task.job = some row) (hrun : row.state = .running) (next : Option Task)
    (hnext : ∀ t, next = some t → t.job = task.job ∧ t.Agrees row (s.log task.job)) :
    Agree (s.sets runner next task.job row []) := by
  refine h.sets (h.only htask) (fun t ht => ?_) (fun t ht => (hnext t ht).1) ?_ ?_ fun t ht => ?_
  · rw [htask] at ht
    cases ht
    rfl
  · rw [append_nil]
    exact h.orderly task.job
  · rw [append_nil]
    exact (h.rows _ row hrow).of_running hrun
  · rw [append_nil]
    exact (hnext t ht).2

theorem Agree.ends (h : Agree s) (htask : s.runners runner = some task)
    (hrow : s.jobs task.job = some row) (hrun : row.state = .running) (outcome : Outcome)
    (next : Task) (hjob : next.job = task.job)
    (hnext : next.Agrees { row with state := .finished outcome }
      (s.log task.job ++ [.finished outcome])) :
    Agree (s.sets runner (some next) task.job { row with state := .finished outcome }
      [.finished outcome]) := by
  obtain ⟨horderly, hkept⟩ := (h.rows _ row hrow).finishes (h.orderly task.job) hrun outcome
    (rfl : (some next).isSome = true)
  refine h.sets (h.only htask) (fun t ht => ?_) (fun t ht => ?_) horderly hkept fun t ht => ?_
  · rw [htask] at ht
    cases ht
    rfl
  · cases ht
    exact hjob
  · cases ht
    exact hnext

theorem Agree.tellsOf (h : Agree s) (htask : s.runners runner = some task)
    (hrow : s.jobs task.job = some row) {outcome : Outcome}
    (hstate : row.state = .finished outcome)
    (hlast : (s.log task.job).getLast? = some (.finished outcome)) :
    Agree (s.sets runner none task.job row [.told outcome]) := by
  obtain ⟨horderly, hkept⟩ := (h.rows _ row hrow).tells (h.orderly task.job) hstate hlast
  refine h.sets (h.only htask) (fun t ht => ?_) (fun t ht => ?_) horderly hkept fun t ht => ?_
  · rw [htask] at ht
    cases ht
    rfl
  · cases ht
  · cases ht

theorem Agree.requeuesOf (h : Agree s) (htask : s.runners runner = some task)
    (hrow : s.jobs task.job = some row) (hrun : row.state = .running)
    (hless : row.attempts < maxJobAttempts) :
    Agree (s.sets runner none task.job
      { row with state := .queued, runAfter := s.now + jobRetryDelayMs row.attempts }
      [.requeued s.now row.attempts]) := by
  obtain ⟨horderly, hkept⟩ := (h.rows _ row hrow).requeues (h.orderly task.job) hrun hless s.now
    (by simp : ¬ (none : Option Task).isSome = true)
  refine h.sets (h.only htask) (fun t ht => ?_) (fun t ht => ?_) horderly hkept fun t ht => ?_
  · rw [htask] at ht
    cases ht
    rfl
  · cases ht
  · cases ht

theorem agree_record (h : Agree s) {ack : Ack} (htask : s.runners runner = some task)
    (hrow : s.jobs task.job = some row) (hguard : ack = .lost → task.finishes = false)
    (hstep : record s runner task row ack = some s') : Agree s' := by
  obtain ⟨row', hrow', hagrees⟩ := h.tasks runner task htask
  cases hrow.symm.trans hrow'
  have hthrough : ∀ t, (none : Option Task) = some t →
      t.job = task.job ∧ t.Agrees row (s.log task.job) := fun t ht => by cases ht
  cases task with
  | handling job attempts => cases hstep
  | tellDone job attempts => cases hstep
  | tellFailed job attempts => cases hstep
  | recordDone job attempts =>
    cases ack with
    | ok =>
      cases hstep
      exact h.ends htask hrow hagrees.1 .done _ rfl ⟨rfl, by simp⟩
    | fails =>
      cases hstep
      refine h.goes htask hrow hagrees.1 _ fun t ht => ?_
      cases ht
      exact ⟨rfl, hagrees⟩
    | lost => cases hguard rfl
  | catches job attempts =>
    obtain ⟨hrun, rfl⟩ := hagrees
    simp only [record] at hstep
    split_ifs at hstep with hless hfails
    · cases hstep
      exact h.goes htask hrow hrun _ hthrough
    · cases hstep
      exact h.requeuesOf htask hrow hrun hless
    · cases ack with
      | ok =>
        cases hstep
        exact h.ends htask hrow hrun .failed _ rfl ⟨rfl, by simp⟩
      | fails =>
        cases hstep
        exact h.goes htask hrow hrun _ hthrough
      | lost => exact absurd (Nat.not_lt.mp hless) (of_decide_eq_false (hguard rfl))
  | recordUnknown job attempts =>
    cases ack with
    | ok =>
      cases hstep
      exact h.ends htask hrow hagrees.1 .failed _ rfl ⟨rfl, by simp⟩
    | fails =>
      cases hstep
      exact h.goes htask hrow hagrees.1 _ hthrough
    | lost => cases hguard rfl

end Runs

theorem agree_enqueue (h : Agree s) {job : ℕ} (kind : String) (hnone : s.jobs job = none) :
    Agree { s with jobs := Function.update s.jobs job (some ⟨kind, .queued, 0, s.now⟩) } where
  one := h.one
  orderly := h.orderly
  rows := fun other row hrow => by
    by_cases hother : other = job
    · subst hother
      simp only [update_self] at hrow
      cases hrow
      have hfree : ¬ Busy s other := by
        rintro ⟨runner, task, htask, rfl⟩
        obtain ⟨row, hrow, -⟩ := h.tasks runner task htask
        rw [hnone] at hrow
        cases hrow
      rw [h.absent other hnone]
      refine ⟨⟨rfl, Nat.zero_le _⟩, fun outcome => by simp,
        fun _ => ⟨(by decide : 0 < maxJobAttempts), hfree, fun last hlast => ?_⟩, fun hstate => ?_,
        fun outcome hstate => ?_⟩
      · cases hlast
      · cases hstate
      · cases hstate
    · simp only [update_of_ne hother] at hrow
      exact h.rows other row hrow
  tasks := fun runner task htask => by
    obtain ⟨row, hrow, hagrees⟩ := h.tasks runner task htask
    have hne : task.job ≠ job := fun hjob => by
      rw [hjob, hnone] at hrow
      cases hrow
    exact ⟨row, by simpa only [update_of_ne hne] using hrow, hagrees⟩
  absent := fun other hother => by
    by_cases hjob : other = job
    · simp only [hjob, update_self] at hother
      cases hother
    · simp only [update_of_ne hjob] at hother
      exact h.absent other hother

theorem agree_step (h : Agree s) (hguard : Guarded s e) (hstep : step s e = some s') :
    Agree s' := by
  cases e with
  | tick ms =>
    cases hstep
    exact ⟨h.one, h.orderly, h.rows, h.tasks, h.absent⟩
  | enqueue job kind =>
    simp only [step] at hstep
    split_ifs at hstep with hnone
    cases hstep
    exact agree_enqueue h kind hnone
  | claim runner job handlers ack =>
    simp only [step] at hstep
    split at hstep
    · rename_i row hrow
      split_ifs at hstep with hready
      cases hstep
      exact agree_claim h hrow hready.1 hready.2.1 hready.2.2.2
    · cases hstep
  | handled runner returns =>
    simp only [step] at hstep
    split at hstep
    · rename_i job attempts htask
      obtain ⟨row, hrow, rfl⟩ := map_eq_some_iff.mp hstep
      obtain ⟨row', hrow', hagrees⟩ := h.tasks runner _ htask
      cases hrow.symm.trans hrow'
      refine h.goes htask hrow hagrees.1 _ fun t ht => ?_
      cases returns <;> cases ht <;> exact ⟨rfl, hagrees⟩
    · cases hstep
  | records runner ack =>
    simp only [step] at hstep
    split at hstep
    · rename_i task htask
      obtain ⟨row, hrow, hrecord⟩ := bind_eq_some_iff.mp hstep
      refine agree_record h htask hrow (fun hlost => ?_) hrecord
      subst hlost
      rwa [Guarded, htask, any_some] at hguard
    · cases hstep
  | tells runner throws =>
    simp only [step] at hstep
    split at hstep
    · rename_i job attempts htask
      obtain ⟨row, hrow, rfl⟩ := map_eq_some_iff.mp hstep
      obtain ⟨row', hrow', hstate, hlast⟩ := h.tasks runner _ htask
      cases hrow.symm.trans hrow'
      cases throws with
      | true =>
        rw [Guarded, htask] at hguard
        cases hguard
      | false => exact h.tellsOf htask hrow hstate hlast
    · rename_i job attempts htask
      obtain ⟨row, hrow, rfl⟩ := map_eq_some_iff.mp hstep
      obtain ⟨row', hrow', hstate, hlast⟩ := h.tasks runner _ htask
      cases hrow.symm.trans hrow'
      exact h.tellsOf htask hrow hstate hlast
    · cases hstep

theorem agree_init (h : jobRunner.init s) : Agree s := by
  obtain ⟨hjobs, hrunners, hlog⟩ := h
  refine ⟨fun _ _ _ _ ha => ?_, fun job => ?_, fun _ _ hrow => ?_, fun _ _ htask => ?_,
    fun job _ => ?_⟩
  · rw [hrunners] at ha
    cases ha
  · rw [hlog]
    exact isOrderly_nil
  · rw [hjobs] at hrow
    cases hrow
  · rw [hrunners] at htask
    cases htask
  · rw [hlog]

instance (s : State) (e : Event) : Decidable (Guarded s e) :=
  match e with
  | .records _ .lost | .tells _ true => inferInstanceAs (Decidable (_ = false))
  | .records _ .ok | .records _ .fails | .tells _ false | .tick _ | .enqueue _ _ | .claim ..
  | .handled _ _ => isTrue trivial

def State.empty : State where
  now := 0
  jobs := fun _ => none
  runners := fun _ => none
  log := fun _ => []

/-- An export that goes through at the first attempt. -/
def exports : List Event :=
  [.enqueue 0 "export", .claim 0 0 [("export", true)] .ok, .handled 0 true, .records 0 .ok]

end Jobs

end Sone
