import Sone.Table.Keyed

/-!
# Results that expire

`expireJobs` of `jobs/runner.ts` frees the results of the jobs that have expired and forgets their
rows: a `SELECT` of what has expired, a call of `deleteResult` for every result, one after the
other, and a `DELETE` of what has expired. Each of the two statements takes the time of its own,
and while results are freed time passes and other parties write the table (`Change`).

`Lapses` is a row that the second statement takes and the first did not. `freesWhatItDeletes_iff`:
the pass deletes nothing that it has not freed exactly where what lapses has no result of its own.
-/

namespace Sone

namespace Jobs

universe u

variable {Result : Type u}

/-- `jobs`, with the columns that `expireJobs` reads. -/
structure ResultRow (Result : Type u) where
  id : ℕ
  result : Option Result
  /-- `expires_at`, in milliseconds. -/
  expiresAt : Option ℕ
  deriving DecidableEq

/-- `expires_at IS NOT NULL AND expires_at < now()` -/
def ResultRow.isExpired (row : ResultRow Result) (now : ℕ) : Bool := row.expiresAt.any (· < now)

structure Database (Result : Type u) where
  now : ℕ
  jobs : Keyed (@ResultRow.id Result)

/-- What happens while a pass waits: time passes, and others write. -/
inductive Change (Result : Type u) where
  | passes (ms : ℕ)
  | enqueued (id : ℕ)
  /-- A runner records what its job has given, and until when it is kept. -/
  | finished (id : ℕ) (result : Result) (expiresAt : ℕ)
  /-- The row goes otherwise: with its workspace, or by another pass. -/
  | forgotten (id : ℕ)

def Database.after (db : Database Result) : Change Result → Database Result
  | .passes ms => { db with now := db.now + ms }
  | .enqueued id =>
    { db with jobs := db.jobs.insertIgnore { id, result := none, expiresAt := none } }
  | .finished id result expiresAt =>
    { db with
      jobs := db.jobs.modify
        (fun row => if row.id = id then { row with result, expiresAt } else row)
        fun row => by split <;> rfl }
  | .forgotten id => { db with jobs := db.jobs.filter (·.id ≠ id) }

def Database.afterAll (db : Database Result) (changes : List (Change Result)) : Database Result :=
  changes.foldl Database.after db

def Database.expired (db : Database Result) : List (ResultRow Result) :=
  db.jobs.rows.filter (·.isExpired db.now)

/-- What a pass did. Its count is how many it deleted. -/
structure Pass (Result : Type u) where
  /-- What `deleteResult` was called with. -/
  freed : List Result
  deleted : List (ResultRow Result)
  after : Database Result

/-- The loop over the rows. What `deleteResult` throws is caught, and the loop goes on. -/
def freeResults : List (ResultRow Result) → List Result
  | [] => []
  | row :: rows =>
    match row.result with
    | some result => result :: freeResults rows
    | none => freeResults rows

/-- `expireJobs`, and what happens between its two statements. -/
def expireJobs (meanwhile : List (Change Result)) (db : Database Result) : Pass Result :=
  let rows := db.expired
  let later := db.afterAll meanwhile
  { freed := freeResults rows
    deleted := later.expired
    after := { later with jobs := later.jobs.filter fun row => !row.isExpired later.now } }

/-! ### What is freed -/

/-- **A pass frees what it deletes**: no row goes whose result it has not called `deleteResult`
with, so that a result that was not freed is still found by its row. `there` are the rows that
were there when it deleted. -/
structure Pass.FreesWhatItDeletes (pass : Pass Result) (there : List (ResultRow Result)) :
    Prop where
  freed : ∀ row ∈ pass.deleted, ∀ result ∈ row.result, result ∈ pass.freed
  stays : ∀ row ∈ there, (∃ result ∈ row.result, result ∉ pass.freed) → row ∈ pass.after.jobs.rows

/-- **A row lapses** between two statements: it has expired by the second, and was not there, or
not as it is, or had not expired at the first. -/
def Lapses (first second : Database Result) (row : ResultRow Result) : Prop :=
  row ∈ second.expired ∧ row ∉ first.expired

variable {row : ResultRow Result} {result : Result} {db : Database Result}

theorem Database.mem_expired :
    row ∈ db.expired ↔ row ∈ db.jobs.rows ∧ row.isExpired db.now = true := List.mem_filter

theorem mem_freeResults {rows : List (ResultRow Result)} :
    result ∈ freeResults rows ↔ ∃ row ∈ rows, row.result = some result := by
  induction rows with
  | nil => simp [freeResults]
  | cons row rows ih =>
    rw [freeResults]
    rcases hresult : row.result with _ | other
    · simp [ih, hresult]
    · simp [ih, hresult, eq_comm]

/-- **When a pass frees what it deletes**: exactly where no row lapses between its statements with
a result that no expired row had. -/
theorem freesWhatItDeletes_iff (meanwhile : List (Change Result)) (db : Database Result) :
    (expireJobs meanwhile db).FreesWhatItDeletes (db.afterAll meanwhile).jobs.rows ↔
      ∀ row, Lapses db (db.afterAll meanwhile) row → ∀ result ∈ row.result,
        ∃ other ∈ db.expired, other.result = some result := by
  constructor
  · rintro ⟨hfreed, -⟩ row ⟨hexpired, -⟩ result hresult
    exact mem_freeResults.mp (hfreed row hexpired result hresult)
  · intro hlapses
    have hfreed : ∀ row ∈ (db.afterAll meanwhile).expired, ∀ result ∈ row.result,
        result ∈ freeResults db.expired := by
      intro row hrow result hresult
      rw [mem_freeResults]
      by_cases hbefore : row ∈ db.expired
      · exact ⟨row, hbefore, hresult⟩
      · exact hlapses row ⟨hrow, hbefore⟩ result hresult
    refine ⟨hfreed, ?_⟩
    rintro row hthere ⟨result, hresult, hnot⟩
    refine List.mem_filter.mpr ⟨hthere, ?_⟩
    rw [Bool.not_eq_true', ← Bool.not_eq_true]
    intro hexpired
    refine hnot ?_
    exact hfreed row (Database.mem_expired.mpr ⟨hthere, hexpired⟩) result hresult

/-- Two exports, of which one has expired and the other is about to. -/
def twoExports : Database String where
  now := 1000
  jobs := ⟨[⟨1, some "ab/1.zip", some 900⟩, ⟨2, some "cd/2.zip", some 1005⟩], by decide⟩

/-- **An export expires while another one is deleted**: its row goes and its file stays. -/
theorem not_freesWhatItDeletes :
    ¬∀ (meanwhile : List (Change String)) (db : Database String),
      (expireJobs meanwhile db).FreesWhatItDeletes (db.afterAll meanwhile).jobs.rows := by
  intro hall
  have hdeleted : (⟨2, some "cd/2.zip", some 1005⟩ : ResultRow String) ∈
      (expireJobs [.passes 10] twoExports).deleted := by decide
  have hnot : "cd/2.zip" ∉ (expireJobs [.passes 10] twoExports).freed := by decide
  exact hnot ((hall [.passes 10] twoExports).freed _ hdeleted "cd/2.zip" rfl)

end Jobs

end Sone
