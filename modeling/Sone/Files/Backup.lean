import Sone.Transition.Machine
import Sone.Files.Store

/-!
# A backup beside uploads

`createBackup` (`backup/backup.ts`) archives the file store with `tar` and then dumps the
database, and an upload (`files/routes.ts`) puts its bytes into the store and then inserts
its row. `backup` interleaves the two. What `tar` promises is that it reads every file that
was there when it began and stays; whether it comes by a file put in place meanwhile is left
open. The dump is one snapshot of the committed rows.

An upload whose file is put in place after `tar` began and whose row is committed before the
snapshot has a row in the dump and may have no bytes in the archive: the order of the backup
does not rule it out. `complete_of_reachesWhen` says that this is the only way (`Misses`),
but for a `put` that renames the temporary file of another.
-/

namespace Sone

open Option Function

/-- `files`, with the columns that say which bytes a row has. -/
structure FileRow where
  storageKey : String
  sha256 : String
  sizeBytes : ℕ
  deriving DecidableEq

/-- An upload that was let through: what it does next. -/
inductive UploadTask where
  | puts (call : PutCall)
  /-- The `INSERT` of its row. -/
  | inserts (stored : StoredFile)
  deriving DecidableEq

/-- The call of `put` an upload is in. -/
def UploadTask.call : UploadTask → Option PutCall
  | puts call => some call
  | inserts _ => none

/-- An upload whose call has come to something. -/
def UploadTask.afterPut : PutOutcome → Option UploadTask
  | .goesOn call => some (.puts call)
  | .returns stored => some (.inserts stored)
  | .throws => none

inductive BackupStage where
  | notStarted
  /-- The directory is there. -/
  | statted
  /-- `tar` is running; these keys were there when it began and are still to be read. -/
  | archiving (remaining : List String)
  /-- `tar` is done, or there was no directory. -/
  | archived
  | dumped (rows : List FileRow)
  deriving DecidableEq

/-- **The store, the rows, the uploads and the backup.** -/
structure BackupRun where
  now : Time
  disk : Disk StorePath
  /-- The root directory of the store is there. -/
  hasRoot : Bool
  rows : List FileRow
  uploads : ℕ → Option UploadTask
  /-- How many uploads there were. -/
  count : ℕ
  stage : BackupStage
  /-- The keys that were in place when `tar` began. -/
  listed : List String
  /-- What `tar` has read. -/
  archive : String → Option (List UInt8)

inductive BackupEvent where
  | tick (elapsed : Time)
  /-- An upload was let through, in a process. -/
  | upload (bytes : List UInt8) (extension : String) (pid : ℕ)
  | runs (id chunk : ℕ)
  /-- The call or statement of an upload fails. -/
  | fails (id : ℕ)
  /-- The process of an upload ends. -/
  | dies (id : ℕ)
  | stats
  | tarStarts
  | tarReads (key : String)
  | tarEnds
  | dumps

namespace BackupRun

def setUpload (s : BackupRun) (id : ℕ) (task : Option UploadTask) : BackupRun :=
  { s with uploads := Function.update s.uploads id task }

/-- The next call or statement of an upload. -/
def runUpload (env : StoreEnv) (s : BackupRun) (id chunk : ℕ) : UploadTask → BackupRun
  | .puts call =>
    let out := call.run env s.disk s.now chunk
    -- `mkdir` comes before the temporary file is opened
    { s.setUpload id (UploadTask.afterPut out.2) with
      disk := out.1, hasRoot := s.hasRoot || call.stage = .opens }
  | .inserts stored =>
    { s.setUpload id none with
      rows := s.rows ++ [⟨stored.key, stored.sha256, stored.sizeBytes⟩] }

def failUpload (s : BackupRun) (id : ℕ) : UploadTask → BackupRun
  | .puts call => s.setUpload id (call.failed.map .puts)
  | .inserts _ => s.setUpload id none

def step (env : StoreEnv) (s : BackupRun) : BackupEvent → Option BackupRun
  | .tick elapsed => some { s with now := s.now + elapsed }
  | .upload bytes extension pid =>
    some { s.setUpload s.count (some (.puts { bytes, extension, pid })) with count := s.count + 1 }
  | .runs id chunk => (s.uploads id).map (s.runUpload env id chunk)
  | .fails id => (s.uploads id).map (s.failUpload id)
  | .dies id => some (s.setUpload id none)
  | .stats =>
    if s.stage = .notStarted then
      some { s with stage := if s.hasRoot then .statted else .archived }
    else none
  | .tarStarts =>
    if s.stage = .statted then
      some { s with stage := .archiving (storedKeys s.disk), listed := storedKeys s.disk }
    else none
  | .tarReads key =>
    match s.stage, s.disk.lookup (.target key) with
    | .archiving remaining, some file => some { s with
        stage := .archiving (remaining.filter (· ≠ key))
        archive := Function.update s.archive key (some file.content) }
    | _, _ => none
  | .tarEnds => if s.stage = .archiving [] then some { s with stage := .archived } else none
  | .dumps => if s.stage = .archived then some { s with stage := .dumped s.rows } else none

end BackupRun

/-- **The machine of a backup.** It starts with every row's bytes in the store, and nothing
under way. -/
def backup (env : StoreEnv) : Machine BackupRun BackupEvent where
  init s := (∀ row ∈ s.rows, (s.disk.names (.target row.storageKey)).isSome) ∧
    (∀ key file, s.disk.names (.target key) = some file →
      IsContentOf env key (s.disk.files file).content) ∧
    (s.hasRoot = false → storedKeys s.disk = []) ∧
    s.uploads = (fun _ => none) ∧ s.stage = .notStarted ∧ s.listed = [] ∧
    s.archive = fun _ => none
  step := BackupRun.step env

namespace BackupRun

variable {env : StoreEnv} {s s' : BackupRun}

/-- Every row of the dump has its key's bytes in the archive. -/
def IsComplete (env : StoreEnv) (s : BackupRun) : Prop :=
  ∀ rows, s.stage = .dumped rows → ∀ row ∈ rows,
    ∃ content ∈ s.archive row.storageKey, IsContentOf env row.storageKey content

/-- The steps at which bytes go missing: the snapshot is taken with a row whose file was put
in place after `tar` began and that `tar` did not come by, or a `put` renames a temporary
file that another made. -/
def Misses (env : StoreEnv) (s : BackupRun) : BackupEvent → Prop
  | .dumps => ∃ row ∈ s.rows, row.storageKey ∉ s.listed ∧ s.archive row.storageKey = none
  | .runs id _ => ∃ task ∈ s.uploads id, ∃ call ∈ task.call, call.TakesOver env s.disk
  | _ => False

instance (env : StoreEnv) (s : BackupRun) (event : BackupEvent) :
    Decidable (s.Misses env event) := by
  unfold Misses
  split <;> infer_instance

/-- The calls of `put` under way. -/
def calls (s : BackupRun) (id : ℕ) : Option PutCall := (s.uploads id).bind (·.call)

/-- **The invariant.** -/
structure Inv (env : StoreEnv) (s : BackupRun) : Prop where
  puts : PutsInv env s.disk s.calls
  archive : ∀ key content, s.archive key = some content → IsContentOf env key content
  /-- What was there when `tar` began is read, or still to be read. -/
  listed : ∀ key ∈ s.listed, (s.archive key).isSome ∨
    ∃ remaining, s.stage = .archiving remaining ∧ key ∈ remaining
  complete : s.IsComplete env

theorem calls_setUpload {id : ℕ} {task : Option UploadTask} :
    (s.setUpload id task).calls = Function.update s.calls id (task.bind (·.call)) := by
  funext other
  by_cases heq : other = id
  · simp [heq, calls, setUpload]
  · simp [heq, calls, setUpload]

theorem Inv.of_puts (h : s.Inv env) (hputs : PutsInv env s'.disk s'.calls)
    (hstage : s'.stage = s.stage) (hlisted : s'.listed = s.listed)
    (harchive : s'.archive = s.archive) : s'.Inv env where
  puts := hputs
  archive := harchive ▸ h.archive
  listed := by
    rw [hlisted, harchive, hstage]
    exact h.listed
  complete := by
    rw [IsComplete, hstage, harchive]
    exact h.complete

theorem Inv.setUpload (h : s.Inv env) (id : ℕ) {task : Option UploadTask}
    (htask : ∀ call ∈ task.bind (·.call), call.made = none) :
    (s.setUpload id task).Inv env := by
  refine h.of_puts ?_ rfl rfl rfl
  rw [calls_setUpload]
  exact h.puts.update id fun call hcall => .inl (htask call hcall)

theorem call_afterPut (out : PutOutcome) :
    (UploadTask.afterPut out).bind (·.call) = out.call := by
  cases out <;> rfl

/-- **A call or statement of an upload**, where it takes nothing over. -/
theorem Inv.runUpload (h : s.Inv env) {id chunk : ℕ} {task : UploadTask}
    (htask : s.uploads id = some task)
    (hown : ∀ call ∈ task.call, ¬ call.TakesOver env s.disk) :
    (s.runUpload env id chunk task).Inv env := by
  cases task with
  | inserts stored =>
    have hnone : (s.setUpload id none).Inv env := h.setUpload id (by simp)
    exact hnone.of_puts hnone.puts rfl rfl rfl
  | puts call =>
    refine h.of_puts ?_ rfl rfl rfl
    have hcall : s.calls id = some call := by simp [calls, htask, UploadTask.call]
    have hputs : PutsInv env (call.run env s.disk s.now chunk).1
        (Function.update s.calls id (call.run env s.disk s.now chunk).2.call) :=
      h.puts.run hcall (hown call rfl)
    rw [← call_afterPut, ← calls_setUpload] at hputs
    exact hputs

/-- **A step** that does not miss keeps the invariant. -/
theorem Inv.step (h : s.Inv env) {event : BackupEvent} (hgood : ¬ s.Misses env event)
    (hstep : s.step env event = some s') : s'.Inv env := by
  cases event with
  | tick elapsed =>
    obtain rfl := some.inj hstep
    exact h.of_puts h.puts rfl rfl rfl
  | upload bytes extension pid =>
    obtain rfl := some.inj hstep
    have hputs : (s.setUpload s.count (some (.puts { bytes, extension, pid }))).Inv env :=
      h.setUpload s.count (by simp [UploadTask.call, PutCall.made])
    exact hputs.of_puts hputs.puts rfl rfl rfl
  | runs id chunk =>
    obtain ⟨task, htask, rfl⟩ := map_eq_some_iff.mp hstep
    exact h.runUpload htask fun call hcall htakes => hgood ⟨task, htask, call, hcall, htakes⟩
  | fails id =>
    obtain ⟨task, htask, rfl⟩ := map_eq_some_iff.mp hstep
    cases task with
    | inserts stored => exact h.setUpload id (by simp)
    | puts call =>
      refine h.setUpload id fun next hnext => ?_
      obtain ⟨task, hfailed, hcall⟩ := bind_eq_some_iff.mp hnext
      obtain ⟨failed, hmem, rfl⟩ := map_eq_some_iff.mp hfailed
      obtain rfl := some.inj hcall
      exact PutCall.made_of_mem_failed hmem
  | dies id =>
    obtain rfl := some.inj hstep
    exact h.setUpload id (by simp)
  | stats =>
    obtain ⟨hstage, heq⟩ := ite_none_right_eq_some.mp hstep
    obtain rfl := some.inj heq
    refine ⟨h.puts, h.archive, fun key hkey => ?_, fun rows hrows => ?_⟩
    · have hread := h.listed key hkey
      simp only [hstage, reduceCtorEq, false_and, exists_false, or_false] at hread
      exact .inl hread
    · cases hroot : s.hasRoot <;> simp [hroot] at hrows
  | tarStarts =>
    obtain ⟨hstage, heq⟩ := ite_none_right_eq_some.mp hstep
    obtain rfl := some.inj heq
    refine ⟨h.puts, h.archive, fun key hkey => ?_, fun rows hrows => ?_⟩
    · exact .inr ⟨_, rfl, hkey⟩
    · simp at hrows
  | tarReads key =>
    rw [BackupRun.step] at hstep
    split at hstep
    · rename_i remaining file hstage hfile
      obtain rfl := some.inj hstep
      obtain ⟨number, hnumber, rfl⟩ := map_eq_some_iff.mp hfile
      refine ⟨h.puts, fun other content hother => ?_, fun other hother => ?_, ?_⟩
      · -- a file under a key is complete, so what was read of it is
        by_cases heq : other = key
        · subst heq
          replace hother : Function.update s.archive other (some (s.disk.files number).content)
            other = some content := hother
          rw [update_self, Option.some.injEq] at hother
          exact hother ▸ h.puts.complete other number hnumber
        · replace hother : Function.update s.archive key (some (s.disk.files number).content)
            other = some content := hother
          rw [update_of_ne heq] at hother
          exact h.archive other content hother
      · by_cases heq : other = key
        · exact .inl (by simp [heq])
        · rcases h.listed other hother with hread | ⟨_, hsame, hleft⟩
          · exact .inl (by simpa [update_of_ne heq] using hread)
          · obtain rfl := BackupStage.archiving.inj (hstage.symm.trans hsame)
            exact .inr ⟨_, rfl, by simpa using ⟨hleft, heq⟩⟩
      · rintro rows hrows
        simp at hrows
    · simp at hstep
  | tarEnds =>
    obtain ⟨hstage, heq⟩ := ite_none_right_eq_some.mp hstep
    obtain rfl := some.inj heq
    refine ⟨h.puts, h.archive, fun key hkey => ?_, fun rows hrows => ?_⟩
    · have hread := h.listed key hkey
      simp only [hstage, BackupStage.archiving.injEq, exists_eq_left', List.not_mem_nil,
        or_false] at hread
      exact .inl hread
    · simp at hrows
  | dumps =>
    obtain ⟨hstage, heq⟩ := ite_none_right_eq_some.mp hstep
    obtain rfl := some.inj heq
    have hread : ∀ key ∈ s.listed, (s.archive key).isSome := by
      intro key hkey
      have hread := h.listed key hkey
      simp only [hstage, reduceCtorEq, false_and, exists_false, or_false] at hread
      exact hread
    refine ⟨h.puts, h.archive, fun key hkey => .inl (hread key hkey), ?_⟩
    intro rows hrows row hrow
    obtain rfl := BackupStage.dumped.inj hrows
    -- a row that is not among what tar found, tar came by
    have hsome : (s.archive row.storageKey).isSome := by
      by_cases hlisted : row.storageKey ∈ s.listed
      · exact hread _ hlisted
      · rw [isSome_iff_ne_none]
        exact fun hnone => hgood ⟨row, hrow, hlisted, hnone⟩
    obtain ⟨content, hcontent⟩ := isSome_iff_exists.mp hsome
    exact ⟨content, hcontent, h.archive _ _ hcontent⟩

theorem Inv.of_init (h : (backup env).init s) : s.Inv env := by
  obtain ⟨-, hcomplete, -, huploads, hstage, hlisted, harchive⟩ := h
  have hcalls : s.calls = fun _ => none := by
    funext id
    simp [calls, huploads]
  refine ⟨⟨hcomplete, by simp [hcalls], by simp [hcalls]⟩, ?_, ?_, ?_⟩
  · simp [harchive]
  · simp [hlisted]
  · simp [IsComplete, hstage]

/-- **A backup has the bytes of every row it dumps**, at every point of a run in which no row
is dumped whose file was put in place after `tar` began and was missed by it, and no `put`
renames the temporary file of another. -/
theorem complete_of_reachesWhen
    (h : (backup env).ReachesWhen (fun s event => ¬ s.Misses env event) s) : s.IsComplete env :=
  (h.invariant (fun _ => Inv.of_init) fun _ _ _ hinv hgood hstep => hinv.step hgood hstep).complete

/-! ### An upload, and a backup -/

/-- A store that was set up and never used. -/
def emptyStore : BackupRun where
  now := 0
  disk := .empty
  hasRoot := true
  rows := []
  uploads := fun _ => none
  count := 0
  stage := .notStarted
  listed := []
  archive := fun _ => none

theorem emptyStore_init (env : StoreEnv) : (backup env).init emptyStore := by
  simp [backup, emptyStore, Disk.empty]

/-- The upload of a byte: what it asks for, the five calls of `put`, the `INSERT`. -/
def exampleUpload : List BackupEvent :=
  .upload [1] "bin" 7 :: List.replicate 6 (.runs 0 0)

example : ((backup exampleStore).run emptyStore exampleUpload).map (·.rows.map (·.storageKey)) =
  some [exampleKey] := by decide +kernel

/-- **A backup beside an upload**: the upload is through before `tar` begins, and the archive
has its byte. -/
theorem complete_of_reachesWhen_afterUpload :
    ∃ s : BackupRun, s.IsComplete exampleStore ∧
      s.stage = .dumped [⟨exampleKey, exampleStore.sha256Hex [1], 1⟩] := by
  have hreach : ∃ s : BackupRun,
      (backup exampleStore).ReachesWhen (fun s event => ¬ s.Misses exampleStore event) s ∧
        s.stage = .dumped [⟨exampleKey, exampleStore.sha256Hex [1], 1⟩] :=
    Machine.exists_reachesWhen_of_runWhen
      (exampleUpload ++ [.stats, .tarStarts, .tarReads exampleKey, .tarEnds, .dumps])
      (emptyStore_init exampleStore) (by decide +kernel)
  obtain ⟨s, hs, hstage⟩ := hreach
  exact ⟨s, complete_of_reachesWhen hs, hstage⟩

/-- **A backup can name a row without its bytes**: `tar` is through with the store when an
upload puts its file there, and the row is committed before the snapshot. -/
theorem not_isComplete : ¬ ∀ env s, (backup env).Reaches s → s.IsComplete env := by
  intro hall
  have hreach : ∃ s : BackupRun, (backup exampleStore).Reaches s ∧
      s.stage = .dumped [⟨exampleKey, exampleStore.sha256Hex [1], 1⟩] ∧
        s.archive exampleKey = none :=
    Machine.exists_reachesWhen_of_runWhen
      ([.stats, .tarStarts, .tarEnds] ++ exampleUpload ++ [.dumps])
      (emptyStore_init exampleStore) (by decide +kernel)
  obtain ⟨s, hs, hstage, harchive⟩ := hreach
  obtain ⟨content, hcontent, -⟩ := hall exampleStore s hs _ hstage _ (List.mem_singleton_self _)
  rw [harchive] at hcontent
  simp at hcontent

end BackupRun

end Sone
