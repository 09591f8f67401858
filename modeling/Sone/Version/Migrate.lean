import Sone.Table.Keyed
import Sone.Transition.Machine
import Mathlib.Data.List.Infix

/-!
# Applying migrations

`migrate` of `db/migrate.ts`: a run reads which versions are recorded, once, and applies the others
in the order of their names. Every file is a transaction of its own, which may record its version
in it; the run records it afterwards where the file did not. Any number of runs are under way at
once (`migrating`), and each may fail or be interrupted wherever it is.

Nothing keeps two runs apart, and a file that does not record itself is committed for a moment
without being recorded. `migrationsKept_of_reachesWhen`: but for these two ways of going wrong
(`GoesWrong`), what is committed is the first so many files, each once, and a run applies exactly
the others.
-/

namespace Sone

open List Option Function

namespace Migrate

/-- Whether a file records its version in its transaction, and whether that fails where it is
recorded. -/
inductive Recording where
  | never
  | strictly
  /-- `ON CONFLICT (version) DO NOTHING` -/
  | unlessThere
  deriving DecidableEq

/-- `MigrationFile`, as far as its statements are about `schema_migrations`. -/
structure MigrationFile where
  version : String
  /-- It creates `schema_migrations`. -/
  createsTable : Bool
  recording : Recording
  deriving DecidableEq

structure MigrateResult where
  applied : List String
  skipped : List String
  deriving DecidableEq

/-- A run of `migrate`. -/
structure Run where
  already : List String
  /-- What the loop has still to come to. -/
  todo : List MigrationFile
  applied : List String
  skipped : List String
  /-- The first of these is committed, and the run is about to see whether it is recorded. -/
  isRecording : Bool
  /-- What was committed when the run read `already`. -/
  began : List String
  deriving DecidableEq

/-- The database, the runs, and what those that returned have returned, with what was committed
when they began. -/
structure State where
  /-- The files whose statements were committed, one after the other. -/
  committed : List String
  /-- `schema_migrations` -/
  recorded : List String
  runs : ℕ → Option Run
  returned : ℕ → Option (List String × MigrateResult)

/-- The migrations of a directory: their names are different, and in order. -/
abbrev Migrations : Type := Keyed MigrationFile.version

inductive Event where
  | starts (run : ℕ)
  | skips (run : ℕ)
  /-- The transaction of a file, which is committed or fails. -/
  | applies (run : ℕ) (isCommitted : Bool)
  /-- The statements after it, which may fail. -/
  | records (run : ℕ) (isDone : Bool)
  | returns (run : ℕ)
  /-- The process ends. -/
  | dies (run : ℕ)
  deriving DecidableEq

variable (migrations : Migrations)

/-- `to_regclass('public.schema_migrations') IS NOT NULL` -/
def hasTable (s : State) : Bool :=
  migrations.rows.any fun file => file.createsTable && decide (file.version ∈ s.committed)

def appliedVersions (s : State) : List String := if hasTable migrations s then s.recorded else []

/-- Whether nothing about `schema_migrations` keeps a file from being committed: there is a table
to record it in, and it is not recorded already. -/
def MayCommit (s : State) (file : MigrationFile) : Prop :=
  match file.recording with
  | .never => True
  | .strictly => (hasTable migrations s || file.createsTable) = true ∧ file.version ∉ s.recorded
  | .unlessThere => (hasTable migrations s || file.createsTable) = true

instance (s : State) (file : MigrationFile) : Decidable (MayCommit migrations s file) :=
  match h : file.recording with
  | .never => isTrue (by rw [MayCommit, h]; trivial)
  | .strictly => decidable_of_iff
      ((hasTable migrations s || file.createsTable) = true ∧ file.version ∉ s.recorded)
      (by rw [MayCommit, h])
  | .unlessThere => decidable_of_iff ((hasTable migrations s || file.createsTable) = true)
      (by rw [MayCommit, h])

def State.setRun (s : State) (run : ℕ) (next : Option Run) : State :=
  { s with runs := Function.update s.runs run next }

def Run.head (run : Run) : Option MigrationFile := run.todo.head?

def commit (s : State) (run : ℕ) (of : Run) (file : MigrationFile) : State :=
  { s.setRun run (some { of with isRecording := true }) with
    committed := s.committed ++ [file.version]
    recorded :=
      if file.recording = .never ∨ file.version ∈ s.recorded then s.recorded
      else s.recorded ++ [file.version] }

def record (s : State) (run : ℕ) (of : Run) (file : MigrationFile) : State :=
  { s.setRun run (some { of with
      todo := of.todo.tail, applied := of.applied ++ [file.version], isRecording := false }) with
    recorded :=
      if file.version ∈ s.recorded then s.recorded else s.recorded ++ [file.version] }

/-- The state after an event, or `none` where it cannot happen. -/
def step (s : State) : Event → Option State
  | .starts run =>
    if s.runs run = none ∧ s.returned run = none then
      -- `no migrations found`
      if migrations.rows = [] then some s
      else some (s.setRun run (some {
        already := appliedVersions migrations s, todo := migrations.rows, applied := [],
        skipped := [], isRecording := false, began := s.committed }))
    else none
  | .skips run => (s.runs run).bind fun of => of.head.bind fun file =>
    if of.isRecording = false ∧ file.version ∈ of.already then
      some (s.setRun run (some { of with
        todo := of.todo.tail, skipped := of.skipped ++ [file.version] }))
    else none
  | .applies run isCommitted => (s.runs run).bind fun of => of.head.bind fun file =>
    if of.isRecording = false ∧ file.version ∉ of.already then
      if isCommitted then
        if MayCommit migrations s file then some (commit s run of file) else none
      else some (s.setRun run none)
    else none
  | .records run isDone => (s.runs run).bind fun of => of.head.bind fun file =>
    if of.isRecording then
      if isDone ∧ hasTable migrations s then some (record s run of file)
      else some (s.setRun run none)
    else none
  | .returns run => (s.runs run).bind fun of =>
    if of.todo = [] then
      some { s.setRun run none with
        returned := Function.update s.returned run (some (of.began, ⟨of.applied, of.skipped⟩)) }
    else none
  | .dies run => (s.runs run).map fun _ => s.setRun run none

end Migrate

open Migrate in
/-- **The machine of migrations**, from an empty database. -/
def migrating (migrations : Migrations) : Machine State Event where
  init s := s.committed = [] ∧ s.recorded = [] ∧ s.runs = (fun _ => none) ∧
    s.returned = fun _ => none
  step := step migrations

namespace Migrate

variable (migrations : Migrations)

/-- **Migrations are kept.** The files that were committed are the first so many, in their order and
each once; where no run is under way, the next one finds what is not committed; and a run that
returned has applied exactly what was not committed when it began. -/
structure Kept (s : State) : Prop where
  once : s.committed.Nodup
  inOrder : s.committed <+: migrations.rows.map MigrationFile.version
  next : (∀ run, s.runs run = none) → ∀ file ∈ migrations.rows,
    file.version ∉ appliedVersions migrations s ↔ file.version ∉ s.committed
  returned : ∀ run began result, s.returned run = some (began, result) →
    result.applied = (migrations.rows.map MigrationFile.version).filter (· ∉ began)

/-- A list that a run has read **is out of date**: a file was committed that is not in it, and that
the run has not applied itself. -/
def Run.IsOutOfDate (of : Run) (s : State) : Prop :=
  ∃ version ∈ s.committed, version ∉ of.already ∧ version ∉ of.applied
  deriving Decidable

/-- A run has committed a file that is not recorded. -/
def Run.IsUnrecorded (of : Run) (s : State) : Prop :=
  of.isRecording = true ∧ ∃ file ∈ of.head, file.version ∉ s.recorded
  deriving Decidable

/-- **The steps that a run is to be without**: a file is applied by a list that is out of date, and
nothing in it refuses to be applied again; or a run ends, or fails, between the commit of a file
that does not record itself and its record. -/
def GoesWrong (s : State) : Event → Prop
  | .applies run isCommitted => isCommitted = true ∧ ∃ of ∈ s.runs run, of.IsOutOfDate s
  | .records run isDone => ¬(isDone = true ∧ hasTable migrations s = true) ∧
      ∃ of ∈ s.runs run, of.IsUnrecorded s
  | .dies run => ∃ of ∈ s.runs run, of.IsUnrecorded s
  | .starts _ | .skips _ | .returns _ => False

instance (s : State) (event : Event) : Decidable (GoesWrong migrations s event) :=
  match event with
  | .applies _ _ => inferInstanceAs (Decidable (_ ∧ _))
  | .records _ _ => inferInstanceAs (Decidable (_ ∧ _))
  | .dies run => inferInstanceAs (Decidable (∃ of ∈ s.runs run, of.IsUnrecorded s))
  | .starts _ | .skips _ | .returns _ => isFalse fun h => h

variable {migrations} {s s' : State} {of : Run} {run : ℕ} {file : MigrationFile}

/-! ### The invariant -/

/-- What holds of a run: it has applied what it has come by and has not read, none of which was
committed when it began. -/
structure RunInv (migrations : Migrations) (committed : List String) (of : Run) : Prop where
  split : ∃ done, migrations.rows = done ++ of.todo ∧
    of.applied = (done.map MigrationFile.version).filter (· ∉ of.already)
  already_sub : of.already ⊆ of.began
  began_sub : of.began ⊆ committed
  applied_sub : of.applied ⊆ committed
  applied_new : ∀ version ∈ of.applied, version ∉ of.began
  recording : of.isRecording = true → ∀ file ∈ of.head,
    file.version ∈ committed ∧ file.version ∉ of.already ∧ file.version ∉ of.began

theorem RunInv.mono {committed committed' : List String} (h : RunInv migrations committed of)
    (hsub : committed ⊆ committed') : RunInv migrations committed' of where
  split := h.split
  already_sub := h.already_sub
  began_sub := List.Subset.trans h.began_sub hsub
  applied_sub := List.Subset.trans h.applied_sub hsub
  applied_new := h.applied_new
  recording := fun hrecording file hfile =>
    let ⟨hcommitted, hnew⟩ := h.recording hrecording file hfile
    ⟨hsub hcommitted, hnew⟩

/-- **The invariant**: what is committed is recorded, or a run is about to record it. -/
structure Inv (migrations : Migrations) (s : State) : Prop where
  inOrder : s.committed <+: migrations.rows.map MigrationFile.version
  recorded_sub : s.recorded ⊆ s.committed
  unrecorded : ∀ version ∈ s.committed, version ∈ s.recorded ∨ ∃ run of file,
    s.runs run = some of ∧ of.isRecording = true ∧ of.head = some file ∧ file.version = version
  table : s.recorded ≠ [] → hasTable migrations s = true
  runs : ∀ run of, s.runs run = some of → RunInv migrations s.committed of
  returned : ∀ run began result, s.returned run = some (began, result) →
    result.applied = (migrations.rows.map MigrationFile.version).filter (· ∉ began)

theorem Inv.appliedVersions_eq (h : Inv migrations s) :
    appliedVersions migrations s = s.recorded := by
  rw [appliedVersions]
  split_ifs with htable
  · rfl
  · exact (not_not.mp fun hne => htable (h.table hne)).symm

@[simp] theorem runs_setRun_self (next : Option Run) : (s.setRun run next).runs run = next :=
  update_self _ _ _

theorem runs_setRun_of_ne {other : ℕ} (h : other ≠ run) (next : Option Run) :
    (s.setRun run next).runs other = s.runs other := update_of_ne h _ _

theorem Inv.ends (h : Inv migrations s) (hrun : s.runs run = some of)
    (hdone : ¬of.IsUnrecorded s) : Inv migrations (s.setRun run none) where
  inOrder := h.inOrder
  recorded_sub := h.recorded_sub
  unrecorded := by
    intro version hversion
    rcases h.unrecorded version hversion with hrecorded | ⟨other, of', file, hother, hof⟩
    · exact .inl hrecorded
    by_cases heq : other = run
    · obtain rfl := some.inj (hrun.symm.trans (heq ▸ hother))
      obtain ⟨hrecording, hhead, rfl⟩ := hof
      exact .inl (by_contra fun hnot => hdone ⟨hrecording, file, hhead, hnot⟩)
    · exact .inr ⟨other, of', file, (runs_setRun_of_ne heq _).trans hother, hof⟩
  table := h.table
  runs := by
    intro other of' hother
    by_cases heq : other = run
    · rw [heq, runs_setRun_self] at hother
      contradiction
    · exact h.runs other of' (runs_setRun_of_ne heq _ ▸ hother)
  returned := h.returned

theorem Inv.goesOn (h : Inv migrations s) {next : Run}
    (hrun : ∀ of, s.runs run = some of → of.isRecording = false)
    (hnext : RunInv migrations s.committed next) :
    Inv migrations (s.setRun run (some next)) where
  inOrder := h.inOrder
  recorded_sub := h.recorded_sub
  unrecorded := by
    intro version hversion
    rcases h.unrecorded version hversion with hrecorded | ⟨other, of', file, hother, hof⟩
    · exact .inl hrecorded
    have hne : other ≠ run := by
      rintro rfl
      exact absurd hof.1 (by rw [hrun of' hother]; decide)
    exact .inr ⟨other, of', file, (runs_setRun_of_ne hne _).trans hother, hof⟩
  table := h.table
  runs := by
    intro other of' hother
    by_cases heq : other = run
    · rw [heq, runs_setRun_self] at hother
      exact some.inj hother ▸ hnext
    · exact h.runs other of' (runs_setRun_of_ne heq _ ▸ hother)
  returned := h.returned

theorem append_singleton_prefix {xs done rest : List String} {version : String}
    (hnodup : (done ++ version :: rest).Nodup) (h : xs <+: done ++ version :: rest)
    (hdone : done ⊆ xs) (hnot : version ∉ xs) : xs ++ [version] <+: done ++ version :: rest := by
  obtain ⟨after, hafter⟩ := h
  rcases append_eq_append_iff.mp hafter with ⟨more, rfl, hrest⟩ | ⟨more, rfl, hrest⟩
  · rcases more with _ | ⟨other, more⟩
    · rw [append_nil]
      exact ⟨rest, by simp⟩
    · -- what is before the entry and not in the prefix would be in it
      have hnodup' := (nodup_append.mp hnodup).1
      have hmem : other ∈ xs := hdone (mem_append_right _ mem_cons_self)
      exact absurd rfl ((nodup_append.mp hnodup').2.2 _ hmem _ mem_cons_self)
  · rcases more with _ | ⟨other, more⟩
    · rw [append_nil]
      exact ⟨rest, by simp⟩
    · obtain ⟨rfl, -⟩ := cons_eq_cons.mp hrest
      exact absurd (mem_append_right _ mem_cons_self) hnot

theorem todo_eq_of_head (h : of.head = some file) : of.todo = file :: of.todo.tail :=
  (List.cons_head?_tail h).symm

theorem Inv.commits (h : Inv migrations s) (hrun : s.runs run = some of)
    (hhead : of.head = some file) (hnew : file.version ∉ of.already)
    (hlist : ¬of.IsOutOfDate s) : file.version ∉ s.committed ∧
      s.committed ++ [file.version] <+: migrations.rows.map MigrationFile.version := by
  obtain ⟨⟨done, hrows, happlied⟩, halready, hbegan, hsub, -, -⟩ := h.runs run of hrun
  have hversions : migrations.rows.map MigrationFile.version = done.map MigrationFile.version ++
      file.version :: of.todo.tail.map MigrationFile.version := by
    rw [hrows, map_append, todo_eq_of_head hhead, map_cons, tail_cons]
  have hnodup := migrations.nodup
  rw [hversions] at hnodup
  have hnot : file.version ∉ s.committed := by
    intro hmem
    refine hlist ⟨_, hmem, hnew, fun hin => ?_⟩
    rw [happlied] at hin
    exact (nodup_append.mp hnodup).2.2 _ (mem_filter.mp hin).1 _ mem_cons_self rfl
  have hdone : done.map MigrationFile.version ⊆ s.committed := by
    intro version hversion
    by_cases hread : version ∈ of.already
    · exact hbegan (halready hread)
    · exact hsub (happlied ▸ mem_filter.mpr ⟨hversion, decide_eq_true hread⟩)
  refine ⟨hnot, ?_⟩
  have horder := h.inOrder
  rw [hversions] at horder ⊢
  exact append_singleton_prefix hnodup horder hdone hnot

theorem mem_rows_of_head (h : RunInv migrations s.committed of) (hhead : of.head = some file) :
    file ∈ migrations.rows := by
  obtain ⟨done, hrows, -⟩ := h.split
  rw [hrows, todo_eq_of_head hhead]
  exact mem_append_right _ mem_cons_self

theorem hasTable_mono (hsub : s.committed ⊆ s'.committed) (h : hasTable migrations s = true) :
    hasTable migrations s' = true := by
  rw [hasTable, List.any_eq_true] at h ⊢
  obtain ⟨file, hfile, htable⟩ := h
  rw [Bool.and_eq_true, decide_eq_true_eq] at htable
  exact ⟨file, hfile, by simp [htable.1, hsub htable.2]⟩

theorem hasTable_commit (hrow : file ∈ migrations.rows) (hmay : MayCommit migrations s file)
    (hrecording : file.recording ≠ .never) (hsub : s.committed ⊆ s'.committed)
    (hmem : file.version ∈ s'.committed) : hasTable migrations s' = true := by
  have htable : (hasTable migrations s || file.createsTable) = true := by
    rcases hkind : file.recording <;> rw [MayCommit, hkind] at hmay
    · exact absurd hkind hrecording
    · exact hmay.1
    · exact hmay
  rcases Bool.or_eq_true _ _ |>.mp htable with htable | hcreates
  · exact hasTable_mono hsub htable
  · exact List.any_eq_true.mpr ⟨file, hrow, by simp [hcreates, hmem]⟩

theorem Inv.commit (h : Inv migrations s) (hrun : s.runs run = some of)
    (hhead : of.head = some file) (hidle : of.isRecording = false)
    (hnew : file.version ∉ of.already) (hlist : ¬of.IsOutOfDate s)
    (hmay : MayCommit migrations s file) : Inv migrations (commit s run of file) := by
  obtain ⟨hnot, horder⟩ := h.commits hrun hhead hnew hlist
  have hrunInv := h.runs run of hrun
  have hsub : s.committed ⊆ s.committed ++ [file.version] := subset_append_left _ _
  have hmem : file.version ∈ s.committed ++ [file.version] :=
    mem_append_right _ (mem_singleton_self _)
  have hrecorded : s.recorded ⊆ (Migrate.commit s run of file).recorded := by
    rw [Migrate.commit]
    dsimp only
    split_ifs
    · exact List.Subset.refl _
    · exact subset_append_left _ _
  refine ⟨horder, ?_, ?_, ?_, ?_, h.returned⟩
  · rw [Migrate.commit]
    dsimp only
    split_ifs
    · exact List.Subset.trans h.recorded_sub hsub
    · exact append_subset.mpr ⟨List.Subset.trans h.recorded_sub hsub, fun version hversion =>
        mem_append_right _ hversion⟩
  · intro version hversion
    rcases mem_append.mp hversion with hversion | hversion
    · rcases h.unrecorded version hversion with hin | ⟨other, of', file', hother, hof⟩
      · exact .inl (hrecorded hin)
      have hne : other ≠ run := by
        rintro rfl
        obtain rfl := some.inj (hrun.symm.trans hother)
        exact absurd hof.1 (by rw [hidle]; decide)
      exact .inr ⟨other, of', file', (runs_setRun_of_ne hne _).trans hother, hof⟩
    · obtain rfl := mem_singleton.mp hversion
      exact .inr ⟨run, _, file, runs_setRun_self _, rfl, hhead, rfl⟩
  · intro hne
    by_cases hkept : file.recording = .never ∨ file.version ∈ s.recorded
    · rw [Migrate.commit] at hne
      dsimp only at hne
      rw [if_pos hkept] at hne
      exact hasTable_mono hsub (h.table hne)
    · exact hasTable_commit (mem_rows_of_head hrunInv hhead) hmay (not_or.mp hkept).1 hsub hmem
  · intro other of' hother
    by_cases heq : other = run
    · obtain rfl := some.inj ((runs_setRun_self _).symm.trans (heq ▸ hother))
      refine { hrunInv.mono hsub with recording := fun _ file' hfile' => ?_ }
      obtain rfl := some.inj (hhead.symm.trans hfile')
      exact ⟨hmem, hnew, fun hbegan => hnot (hrunInv.began_sub hbegan)⟩
    · exact (h.runs other of' ((runs_setRun_of_ne heq _).symm.trans hother)).mono hsub

theorem Inv.record (h : Inv migrations s) (hrun : s.runs run = some of)
    (hhead : of.head = some file) (hrecording : of.isRecording = true)
    (htable : hasTable migrations s = true) : Inv migrations (record s run of file) := by
  have hrunInv := h.runs run of hrun
  obtain ⟨hcommitted, hnew, hbegan⟩ := hrunInv.recording hrecording file hhead
  have hmem : file.version ∈ (Migrate.record s run of file).recorded := by
    rw [Migrate.record]
    dsimp only
    split_ifs with hin
    · exact hin
    · exact mem_append_right _ (mem_singleton_self _)
  have hsub : s.recorded ⊆ (Migrate.record s run of file).recorded := by
    rw [Migrate.record]
    dsimp only
    split_ifs
    · exact List.Subset.refl _
    · exact subset_append_left _ _
  refine ⟨h.inOrder, ?_, ?_, fun _ => htable, ?_, h.returned⟩
  · rw [Migrate.record]
    dsimp only
    split_ifs
    · exact h.recorded_sub
    · exact append_subset.mpr ⟨h.recorded_sub, fun version hversion =>
        mem_singleton.mp hversion ▸ hcommitted⟩
  · intro version hversion
    rcases h.unrecorded version hversion with hin | ⟨other, of', file', hother, hof⟩
    · exact .inl (hsub hin)
    by_cases heq : other = run
    · obtain rfl := some.inj (hrun.symm.trans (heq ▸ hother))
      obtain ⟨-, hhead', rfl⟩ := hof
      obtain rfl := some.inj (hhead.symm.trans hhead')
      exact .inl hmem
    · exact .inr ⟨other, of', file', (runs_setRun_of_ne heq _).trans hother, hof⟩
  · intro other of' hother
    by_cases heq : other = run
    · obtain rfl := some.inj ((runs_setRun_self _).symm.trans (heq ▸ hother))
      obtain ⟨⟨done, hrows, happlied⟩, halready, hbeganSub, happliedSub, happliedNew, -⟩ := hrunInv
      refine ⟨⟨done ++ [file], ?_, ?_⟩, halready, hbeganSub, ?_, ?_, fun hnone => by contradiction⟩
      · rw [hrows, append_assoc, singleton_append, ← todo_eq_of_head hhead]
      · have hkeep : [file.version].filter (· ∉ of.already) = [file.version] := by simp [hnew]
        rw [happlied, map_append, filter_append, map_singleton, hkeep]
      · exact append_subset.mpr ⟨happliedSub, fun version hversion =>
          mem_singleton.mp hversion ▸ hcommitted⟩
      · intro version hversion
        rcases mem_append.mp hversion with hversion | hversion
        · exact happliedNew version hversion
        · exact mem_singleton.mp hversion ▸ hbegan
    · exact h.runs other of' ((runs_setRun_of_ne heq _).symm.trans hother)

theorem RunInv.applied_eq (h : RunInv migrations s.committed of) (htodo : of.todo = []) :
    of.applied = (migrations.rows.map MigrationFile.version).filter (· ∉ of.began) := by
  obtain ⟨done, hrows, happlied⟩ := h.split
  rw [htodo, append_nil] at hrows
  rw [hrows]
  refine happlied.trans (filter_congr fun version hversion => ?_)
  rw [decide_eq_decide]
  refine ⟨fun hread hbegan => ?_, fun hbegan hread => hbegan (h.already_sub hread)⟩
  refine h.applied_new version ?_ hbegan
  exact happlied ▸ mem_filter.mpr ⟨hversion, decide_eq_true hread⟩

/-! ### Runs -/

/-- **A step** that does not go wrong keeps the invariant. -/
theorem Inv.step (h : Inv migrations s) {event : Event} (hfine : ¬GoesWrong migrations s event)
    (hstep : step migrations s event = some s') : Inv migrations s' := by
  rcases event with run | run | ⟨run, isCommitted⟩ | ⟨run, isDone⟩ | run | run
  · simp only [Migrate.step] at hstep
    split_ifs at hstep with hfree hnone
    · exact some.inj hstep ▸ h
    · obtain rfl := some.inj hstep
      refine h.goesOn (fun of hrun => by rw [hfree.1] at hrun; contradiction) ?_
      refine ⟨⟨[], rfl, rfl⟩, ?_, List.Subset.refl _, nil_subset _,
        fun _ hmem => absurd hmem not_mem_nil, fun hnone => by contradiction⟩
      exact h.appliedVersions_eq ▸ h.recorded_sub
  · obtain ⟨of, hrun, hstep⟩ := bind_eq_some_iff.mp hstep
    obtain ⟨file, hhead, hstep⟩ := bind_eq_some_iff.mp hstep
    split_ifs at hstep with hskips
    obtain rfl := some.inj hstep
    obtain ⟨⟨done, hrows, happlied⟩, halready, hbegan, hsub, hnew, -⟩ := h.runs run of hrun
    refine h.goesOn (fun of' hrun' => some.inj (hrun.symm.trans hrun') ▸ hskips.1)
      ⟨⟨done ++ [file], ?_, ?_⟩, halready, hbegan, hsub, hnew, fun hrecording => ?_⟩
    · rw [hrows, append_assoc, singleton_append, ← todo_eq_of_head hhead]
    · have hdrop : [file.version].filter (· ∉ of.already) = [] := by simp [hskips.2]
      rw [map_append, filter_append, map_singleton, hdrop, append_nil]
      exact happlied
    · exact absurd hrecording (by rw [hskips.1]; decide)
  · obtain ⟨of, hrun, hstep⟩ := bind_eq_some_iff.mp hstep
    obtain ⟨file, hhead, hstep⟩ := bind_eq_some_iff.mp hstep
    split_ifs at hstep with hidle hcommits hmay
    · obtain rfl := some.inj hstep
      exact h.commit hrun hhead hidle.1 hidle.2
        (fun hlist => hfine ⟨hcommits, of, hrun, hlist⟩) hmay
    · obtain rfl := some.inj hstep
      exact h.ends hrun fun hunrecorded => absurd hunrecorded.1 (by rw [hidle.1]; decide)
  · obtain ⟨of, hrun, hstep⟩ := bind_eq_some_iff.mp hstep
    obtain ⟨file, hhead, hstep⟩ := bind_eq_some_iff.mp hstep
    split_ifs at hstep with hrecording hdone
    · obtain rfl := some.inj hstep
      exact h.record hrun hhead hrecording hdone.2
    · obtain rfl := some.inj hstep
      exact h.ends hrun fun hunrecorded => hfine ⟨hdone, of, hrun, hunrecorded⟩
  · obtain ⟨of, hrun, hstep⟩ := bind_eq_some_iff.mp hstep
    split_ifs at hstep with htodo
    obtain rfl := some.inj hstep
    have hends : Inv migrations (s.setRun run none) := h.ends hrun fun ⟨_, file, hhead, _⟩ => by
      rw [Run.head, htodo] at hhead
      contradiction
    refine { hends with returned := fun other began result hreturned => ?_ }
    by_cases heq : other = run
    · change Function.update s.returned run _ other = _ at hreturned
      rw [heq, update_self] at hreturned
      obtain ⟨rfl, rfl⟩ := Prod.mk.inj (some.inj hreturned)
      exact (h.runs run of hrun).applied_eq htodo
    · exact h.returned other began result ((update_of_ne heq _ _).symm.trans hreturned)
  · obtain ⟨of, hrun, rfl⟩ := map_eq_some_iff.mp hstep
    exact h.ends hrun fun hunrecorded => hfine ⟨of, hrun, hunrecorded⟩

theorem Inv.kept (h : Inv migrations s) : Kept migrations s where
  once := h.inOrder.sublist.nodup migrations.nodup
  inOrder := h.inOrder
  next := by
    intro hnone file hfile
    rw [h.appliedVersions_eq, not_iff_not]
    refine ⟨fun hrecorded => h.recorded_sub hrecorded, fun hcommitted => ?_⟩
    rcases h.unrecorded _ hcommitted with hrecorded | ⟨run, of, file', hrun, -⟩
    · exact hrecorded
    · rw [hnone run] at hrun
      contradiction
  returned := h.returned

/-- **When migrations are kept.** In every run in which no file is applied by a list that is out of
date, and none is cut off between the commit of a file that does not record itself and its record,
they are kept in every state. -/
theorem migrationsKept_of_reachesWhen
    (h : (migrating migrations).ReachesWhen (fun s e => ¬GoesWrong migrations s e) s) :
    Kept migrations s := by
  refine (h.invariant (fun s hinit => ?_) fun s e s' hinv hfine hstep =>
    hinv.step hfine hstep : Inv migrations s).kept
  obtain ⟨hcommitted, hrecorded, hruns, hreturned⟩ := hinit
  refine ⟨?_, ?_, ?_, ?_, ?_, ?_⟩
  · rw [hcommitted]
    exact nil_prefix
  all_goals simp [hcommitted, hrecorded, hruns, hreturned]

/-! ### Two starts -/

/-- The first migration, and one that may be applied again and does not mind that it is recorded. -/
def twoFiles : Migrations where
  rows := [⟨"0001_init", true, .strictly⟩, ⟨"0034_page_versions", false, .unlessThere⟩]
  nodup := by decide

def emptyDatabase : State where
  committed := []
  recorded := []
  runs := fun _ => none
  returned := fun _ => none

/-- One run applies the first file and the other one skips it; then both apply the second. -/
def twoStarts : List Event :=
  [.starts 0, .applies 0 true, .records 0 true, .starts 1, .skips 1, .applies 0 true,
    .applies 1 true]

/-- **Two starts at once** commit a file twice. -/
theorem not_kept_twoStarts :
    ¬∀ migrations s, (migrating migrations).Reaches s → Kept migrations s := by
  intro hall
  have hreach : ∃ s, (migrating twoFiles).Reaches s ∧ ¬s.committed.Nodup :=
    Machine.exists_reachesWhen_of_runWhen twoStarts
      (⟨rfl, rfl, rfl, rfl⟩ : (migrating twoFiles).init emptyDatabase) (by decide +kernel)
  obtain ⟨s, hs, htwice⟩ := hreach
  exact htwice (hall _ s hs).once

/-- The hypothesis can be met: a start that fails at the second file, and one that applies it. -/
theorem migrationsKept_of_reachesWhen_startsAgain :
    ∃ s, (migrating twoFiles).ReachesWhen (fun s e => ¬GoesWrong twoFiles s e) s ∧
      s.returned 1 = some (["0001_init"], ⟨["0034_page_versions"], ["0001_init"]⟩) ∧
      Kept twoFiles s := by
  have hreach : ∃ s, (migrating twoFiles).ReachesWhen (fun s e => ¬GoesWrong twoFiles s e) s ∧
      s.returned 1 = some (["0001_init"], ⟨["0034_page_versions"], ["0001_init"]⟩) :=
    Machine.exists_reachesWhen_of_runWhen
      [.starts 0, .applies 0 true, .records 0 true, .applies 0 false, .starts 1, .skips 1,
        .applies 1 true, .records 1 true, .returns 1]
      (⟨rfl, rfl, rfl, rfl⟩ : (migrating twoFiles).init emptyDatabase) (by decide +kernel)
  obtain ⟨s, hs, hreturned⟩ := hreach
  exact ⟨s, hs, hreturned, migrationsKept_of_reachesWhen hs⟩

end Migrate

end Sone
