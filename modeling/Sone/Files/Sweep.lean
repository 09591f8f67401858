import Mathlib.Data.Rat.Cast.Order
import Sone.Transition.Machine
import Sone.Files.Store

/-!
# The sweep of files that nothing names

`sweepOrphanFiles` (`files/sweepOrphanFiles.ts`) removes bytes that belong to no row: it reads
the keys the database names, takes a cutoff, lists the store with the age of each file, and
deletes, one by one, the files that are older than the cutoff and were not named when it read.
An upload, an import, a new avatar or logo puts its bytes into the store and then writes the
row or setting that names their key; between the two, only the age of the file protects it.

Keys are hashes, and `put` leaves a file that is already there as it is, with the age it has.
So bytes nobody names may be put again between the sweep's read and its deletion, and the row
that is then written names a file that goes. `safe_of_reachesWhen` says that a key that is
named is in the store at every point of a run in which no put returns a key the sweep is
about to take, and the sweep does not take its cutoff past a key that a row or a put in flight
has got since the read (`Collides`).
-/

namespace Sone

open List Option

/-- What names a key: a row of `files`, an avatar, the result of a job, a logo. -/
inductive KeyHolder where
  | file (id : ℕ)
  | avatar (user : ℕ)
  | jobResult (job : ℕ)
  | brandLogo
  | brandLogoOnDark
  deriving DecidableEq

/-- An upload, an import, a change of an avatar or a logo: a `put`, then a write. -/
inductive NamingStage where
  | puts (call : PutCall)
  /-- The row or setting is to be written, with a key that was returned at a time. -/
  | writes (key : String) (returnedAt : Time)
  deriving DecidableEq

/-- What is under way, and which row or setting it is for. -/
structure Naming where
  holder : KeyHolder
  stage : NamingStage
  deriving DecidableEq

structure SweepFilesOptions where
  olderThanHours : Option ℚ := none
  apply : Bool := false
  limit : Option ℕ := none

/-- How old a file must be, in milliseconds: a week by default. -/
def SweepFilesOptions.ageLimit (opts : SweepFilesOptions) : ℚ :=
  max 0 (opts.olderThanHours.getD (24 * 7)) * 3600000

structure StoredObject where
  key : String
  sizeBytes : ℕ
  modifiedAt : Time
  deriving DecidableEq

/-- A file is **older than a cutoff**. -/
def IsOlder (cutoff : ℚ) (modifiedAt : Time) : Prop := (modifiedAt : ℚ) < cutoff

instance (cutoff : ℚ) (modifiedAt : Time) : Decidable (IsOlder cutoff modifiedAt) :=
  inferInstanceAs (Decidable ((modifiedAt : ℚ) < cutoff))

structure SweepFilesReport where
  files : ℕ
  bytes : ℕ
  applied : Bool
  sample : List String
  deriving DecidableEq

inductive SweepStage where
  | idle
  /-- The keys that are named were read. -/
  | read (live : List String)
  /-- The cutoff was taken. -/
  | aged (live : List String) (cutoff : ℚ)
  /-- The store is being listed: directories and names that are left, and what was found. -/
  | listing (live : List String) (cutoff : ℚ) (prefixes names : List String)
      (found : List StoredObject)
  | deleting (orphans : List StoredObject) (report : SweepFilesReport)
  | done (report : SweepFilesReport)
  deriving DecidableEq

def SweepStage.cutoff : SweepStage → Option ℚ
  | aged _ cutoff | listing _ cutoff _ _ _ => some cutoff
  | _ => none

/-- `[0-9a-f]{2}`: what `list` takes for a directory. -/
def isStoragePrefix (name : String) : Bool :=
  name.toList.length == 2 && name.toList.all isHexadecimal

def keyPrefix (key : String) : String := String.ofList (key.toList.take 2)

/-- The files a sweep takes, out of those it found: the oldest first, up to a limit. -/
def orphansOf (opts : SweepFilesOptions) (live : List String) (cutoff : ℚ)
    (found : List StoredObject) : List StoredObject :=
  ((found.filter fun one => one.key ∉ live ∧ IsOlder cutoff one.modifiedAt).mergeSort
    fun a b => a.modifiedAt ≤ b.modifiedAt).take (max 1 (opts.limit.getD 100000))

def reportOf (opts : SweepFilesOptions) (orphans : List StoredObject) : SweepFilesReport where
  files := orphans.length
  bytes := (orphans.map (·.sizeBytes)).sum
  applied := opts.apply
  sample := (orphans.take 20).map (·.key)

/-- **The store, what names its keys, and a sweep.** -/
structure SweepRun where
  now : Time
  disk : Disk StorePath
  named : List (KeyHolder × String)
  namings : List Naming
  stage : SweepStage
  /-- Keys that were named from the start, had no file, and were not put since. -/
  missing : List String

inductive SweepEvent where
  | tick (elapsed : Time)
  | asks (holder : KeyHolder) (bytes : List UInt8) (extension : String) (pid : ℕ)
  /-- The next call or statement of one that is under way. -/
  | runs (index chunk : ℕ)
  | fails (index : ℕ)
  /-- The process of one that is under way ends. -/
  | dies (index : ℕ)
  /-- A row or setting is removed. -/
  | forgets (holder : KeyHolder)
  /-- The next call of the sweep, which may fail. -/
  | sweeps (fails : Bool)

/-- A row or setting names a key, and no other. -/
def setHolder (named : List (KeyHolder × String)) (holder : KeyHolder) (key : String) :
    List (KeyHolder × String) :=
  (holder, key) :: named.filter (·.1 ≠ holder)

namespace SweepRun

/-- One that is under way goes on, or ends. -/
def setNaming (s : SweepRun) (index : ℕ) (next : Option Naming) : SweepRun :=
  { s with
    namings := match next with
      | some naming => s.namings.set index naming
      | none => s.namings.eraseIdx index }

/-- The call of `put` came to something. -/
def afterPut (s : SweepRun) (index : ℕ) (holder : KeyHolder) : PutOutcome → SweepRun
  | .goesOn call => s.setNaming index (some ⟨holder, .puts call⟩)
  | .returns stored =>
    { s.setNaming index (some ⟨holder, .writes stored.key s.now⟩) with
      missing := s.missing.filter (· ≠ stored.key) }
  | .throws => s.setNaming index none

/-- The next call or statement of one that is under way. The write comes within the age
limit. -/
def runNaming (env : StoreEnv) (opts : SweepFilesOptions) (s : SweepRun) (index chunk : ℕ)
    (naming : Naming) : Option SweepRun :=
  match naming.stage with
  | .puts call =>
    let out := call.run env s.disk s.now chunk
    some (afterPut { s with disk := out.1 } index naming.holder out.2)
  | .writes key returnedAt =>
    if (s.now : ℚ) < returnedAt + opts.ageLimit then
      some { s.setNaming index none with named := setHolder s.named naming.holder key }
    else none

def failNaming (s : SweepRun) (index : ℕ) (naming : Naming) : SweepRun :=
  match naming.stage with
  | .puts call => s.setNaming index (call.failed.map fun next => ⟨naming.holder, .puts next⟩)
  | .writes _ _ => s.setNaming index none

/-- The next call of a sweep: a directory or a file it cannot look at is passed over, and a
file it cannot delete stays. -/
def sweep (opts : SweepFilesOptions) (s : SweepRun) (fails : Bool) : SweepRun :=
  match s.stage with
  | .idle | .done _ =>
    { s with stage := if fails then .idle else .read (s.named.map (·.2)) }
  | .read live => { s with stage := .aged live (s.now - opts.ageLimit) }
  | .aged live cutoff =>
    let prefixes := if fails then [] else
      ((storedKeys s.disk).map keyPrefix).dedup.filter isStoragePrefix
    { s with stage := .listing live cutoff prefixes [] [] }
  | .listing live cutoff prefixes (name :: names) found =>
    match if fails then none else s.disk.lookup (.target name) with
    | some file =>
      let found := found ++ [⟨name, file.content.length, file.modifiedAt⟩]
      { s with stage := .listing live cutoff prefixes names found }
    | none => { s with stage := .listing live cutoff prefixes names found }
  | .listing live cutoff (directory :: prefixes) [] found =>
    let names := if fails then [] else
      (storedKeys s.disk).filter fun key => keyPrefix key = directory ∧ isStorageKey key
    { s with stage := .listing live cutoff prefixes names found }
  | .listing live cutoff [] [] found =>
    let orphans := orphansOf opts live cutoff found
    { s with
      stage := if opts.apply then .deleting orphans (reportOf opts orphans)
        else .done (reportOf opts orphans) }
  | .deleting (one :: orphans) report =>
    { s with
      disk := if fails then s.disk else deleteKey s.disk one.key
      stage := .deleting orphans report }
  | .deleting [] report => { s with stage := .done report }

def step (env : StoreEnv) (opts : SweepFilesOptions) (s : SweepRun) :
    SweepEvent → Option SweepRun
  | .tick elapsed => some { s with now := s.now + elapsed }
  | .asks holder bytes extension pid =>
    some { s with namings := s.namings ++ [⟨holder, .puts { bytes, extension, pid }⟩] }
  | .runs index chunk => s.namings[index]?.bind (s.runNaming env opts index chunk)
  | .fails index => s.namings[index]?.map (s.failNaming index)
  | .dies index => some (s.setNaming index none)
  | .forgets holder => some { s with named := s.named.filter (·.1 ≠ holder) }
  | .sweeps fails => some (s.sweep opts fails)

end SweepRun

/-- **The machine of a sweep.** It starts with any store, nothing under way. -/
def sweepOrphanFiles (env : StoreEnv) (opts : SweepFilesOptions) :
    Machine SweepRun SweepEvent where
  init s := s.namings = [] ∧ s.stage = .idle ∧
    ∀ one ∈ s.named, one.2 ∈ s.missing ∨ (s.disk.names (.target one.2)).isSome
  step := SweepRun.step env opts

/-- The file under a key is **older than a cutoff**. -/
def StoredOlder (disk : Disk StorePath) (cutoff : ℚ) (key : String) : Prop :=
  ∃ file ∈ disk.lookup (.target key), IsOlder cutoff file.modifiedAt

instance (disk : Disk StorePath) (cutoff : ℚ) (key : String) :
    Decidable (StoredOlder disk cutoff key) :=
  inferInstanceAs
    (Decidable (∃ file ∈ disk.lookup (.target key), IsOlder cutoff file.modifiedAt))

/-- A sweep that applies **is about to take a key**: it is past its cutoff, the key was not
named when it read, and the file is older or was found to be; or it is to be deleted. -/
def SweepStage.Targets (opts : SweepFilesOptions) (disk : Disk StorePath) (key : String) :
    SweepStage → Prop
  | idle | read _ | done _ => False
  | aged live cutoff => opts.apply = true ∧ key ∉ live ∧ StoredOlder disk cutoff key
  | listing live cutoff _ _ found => opts.apply = true ∧ key ∉ live ∧
      (StoredOlder disk cutoff key ∨
        ∃ one ∈ found, one.key = key ∧ IsOlder cutoff one.modifiedAt)
  | deleting orphans _ => ∃ one ∈ orphans, one.key = key

instance (opts : SweepFilesOptions) (disk : Disk StorePath) (key : String) :
    (stage : SweepStage) → Decidable (stage.Targets opts disk key)
  | .idle | .read _ | .done _ => inferInstanceAs (Decidable False)
  | .aged _ cutoff => inferInstanceAs (Decidable (_ ∧ _ ∧ StoredOlder disk cutoff key))
  | .listing _ cutoff _ _ found => inferInstanceAs (Decidable (_ ∧ _ ∧
      (StoredOlder disk cutoff key ∨
        ∃ one ∈ found, one.key = key ∧ IsOlder cutoff one.modifiedAt)))
  | .deleting orphans _ => inferInstanceAs (Decidable (∃ one ∈ orphans, one.key = key))

/-- One that is under way has got a key, and may still write it. -/
def Naming.MayWrite (opts : SweepFilesOptions) (now : Time) (key : String) (naming : Naming) :
    Prop :=
  match naming.stage with
  | .puts _ => False
  | .writes returned returnedAt => returned = key ∧ (now : ℚ) < returnedAt + opts.ageLimit

instance (opts : SweepFilesOptions) (now : Time) (key : String) (naming : Naming) :
    Decidable (naming.MayWrite opts now key) := by
  unfold Naming.MayWrite
  split <;> infer_instance

/-- The key a call of `put` returns, where its next call to the file system is the last. -/
def Naming.returnsNow (env : StoreEnv) (disk : Disk StorePath) (naming : Naming) :
    Option String :=
  match naming.stage with
  | .puts call =>
    match call.stage with
    | .checks => if (disk.names (call.target env)).isSome then some (call.key env) else none
    | .renames _ => if (disk.names (call.temporary env)).isSome then some (call.key env) else none
    | _ => none
  | .writes _ _ => none

namespace SweepRun

variable {env : StoreEnv} {opts : SweepFilesOptions} {s s' : SweepRun} {key : String}

/-- Every key that is named is in the store, but for those that were missing. -/
def IsSafe (s : SweepRun) : Prop :=
  ∀ one ∈ s.named, one.2 ∉ s.missing → (s.disk.names (.target one.2)).isSome

/-- A row or setting has the key, or may still get it. -/
def IsHeld (opts : SweepFilesOptions) (s : SweepRun) (key : String) : Prop :=
  (∃ one ∈ s.named, one.2 = key) ∨ ∃ naming ∈ s.namings, naming.MayWrite opts s.now key

instance (opts : SweepFilesOptions) (s : SweepRun) (key : String) :
    Decidable (s.IsHeld opts key) :=
  inferInstanceAs (Decidable (_ ∨ _))

/-- The steps at which a sweep and the others collide: a put returns a key the sweep is about
to take, or the sweep takes its cutoff where a key that was not named when it read has an
older file and is held by now. -/
def Collides (env : StoreEnv) (opts : SweepFilesOptions) (s : SweepRun) : SweepEvent → Prop
  | .runs index chunk => ∃ naming ∈ s.namings[index]?, ∃ key ∈ naming.returnsNow env s.disk,
      ∃ s' ∈ s.runNaming env opts index chunk naming,
        s.stage.Targets opts s.disk key ∨ s'.stage.Targets opts s'.disk key
  | .sweeps _ => ∃ key ∈ storedKeys s.disk, s.IsHeld opts key ∧
      match s.stage with
      | .read live => opts.apply = true ∧ key ∉ live ∧
          StoredOlder s.disk (s.now - opts.ageLimit) key
      | _ => False
  | _ => False

instance (env : StoreEnv) (opts : SweepFilesOptions) (s : SweepRun) (event : SweepEvent) :
    Decidable (s.Collides env opts event) := by
  unfold Collides
  split
  · infer_instance
  · cases s.stage <;> infer_instance
  · infer_instance

/-! ### What a put does to the keys a sweep is after -/

theorem returnsNow_of_returns {holder : KeyHolder} {call : PutCall} {disk : Disk StorePath}
    {now : Time} {chunk : ℕ} {stored : StoredFile}
    (h : (call.run env disk now chunk).2 = .returns stored) :
    Naming.returnsNow env disk ⟨holder, .puts call⟩ = some stored.key := by
  rw [PutCall.run] at h
  rw [Naming.returnsNow]
  split at h
  · rename_i hstage
    split at h
    · rename_i hthere
      rw [← PutOutcome.returns.inj h]
      simp [hstage, hthere, PutCall.stored]
    · simp at h
  · split at h <;> simp at h
  · simp at h
  · simp at h
  · rename_i hstage
    split at h
    · rename_i hthere
      rw [← PutOutcome.returns.inj h]
      simp [hstage, hthere, PutCall.stored]
    · simp at h
  · simp at h

theorem storedOlder_run {call : PutCall} {disk : Disk StorePath} {now : Time} {chunk : ℕ}
    {cutoff : ℚ} (hcutoff : cutoff ≤ now)
    (h : StoredOlder (call.run env disk now chunk).1 cutoff key) :
    StoredOlder disk cutoff key ∨
      ∃ stored, (call.run env disk now chunk).2 = .returns stored ∧ stored.key = key := by
  obtain ⟨file, hfile, holder⟩ := h
  rcases PutCall.lookup_run hfile with hsame | hnow | ⟨hreturns, hkey⟩
  · exact .inl ⟨file, hsame, holder⟩
  · rw [IsOlder, hnow] at holder
    exact absurd hcutoff (not_le_of_gt holder)
  · exact .inr ⟨_, hreturns, hkey.symm⟩

theorem targets_run {call : PutCall} {disk : Disk StorePath} {now : Time} {chunk : ℕ}
    {stage : SweepStage} (hcutoff : ∀ cutoff ∈ stage.cutoff, cutoff ≤ (now : ℚ))
    (h : stage.Targets opts (call.run env disk now chunk).1 key) :
    stage.Targets opts disk key ∨
      ∃ stored, (call.run env disk now chunk).2 = .returns stored ∧ stored.key = key := by
  cases stage with
  | idle => exact h.elim
  | read live => exact h.elim
  | done report => exact h.elim
  | aged live cutoff =>
    obtain ⟨happly, hlive, hold⟩ := h
    exact (storedOlder_run (hcutoff cutoff rfl) hold).imp_left fun hold => ⟨happly, hlive, hold⟩
  | listing live cutoff prefixes names found =>
    obtain ⟨happly, hlive, hold | hfound⟩ := h
    · exact (storedOlder_run (hcutoff cutoff rfl) hold).imp_left
        fun hold => ⟨happly, hlive, .inl hold⟩
    · exact .inl ⟨happly, hlive, .inr hfound⟩
  | deleting orphans report => exact .inl h

/-! ### The invariant -/

/-- **The invariant**: what is held is in the store, and no sweep is about to take it. -/
structure Inv (opts : SweepFilesOptions) (s : SweepRun) : Prop where
  safe : ∀ key, s.IsHeld opts key → key ∉ s.missing → (s.disk.names (.target key)).isSome
  spared : ∀ key, s.stage.Targets opts s.disk key → ¬ s.IsHeld opts key
  cutoff_le : ∀ cutoff ∈ s.stage.cutoff, cutoff ≤ (s.now : ℚ)

theorem Inv.of_isHeld (h : s.Inv opts) (hheld : ∀ key, s'.IsHeld opts key → s.IsHeld opts key)
    (hdisk : s'.disk = s.disk) (hstage : s'.stage = s.stage) (hmissing : s'.missing = s.missing)
    (hnow : s.now ≤ s'.now) : s'.Inv opts where
  safe := by
    intro key hkey hnot
    rw [hdisk]
    exact h.safe key (hheld key hkey) (hmissing ▸ hnot)
  spared := by
    intro key htargets hkey
    rw [hdisk, hstage] at htargets
    exact h.spared key htargets (hheld key hkey)
  cutoff_le := by
    intro cutoff hcutoff
    rw [hstage] at hcutoff
    exact (h.cutoff_le cutoff hcutoff).trans (by exact_mod_cast hnow)

theorem Inv.withStage (h : s.Inv opts) {stage : SweepStage}
    (htargets : ∀ key, stage.Targets opts s.disk key → ¬ s.IsHeld opts key)
    (hcutoff : ∀ cutoff ∈ stage.cutoff, cutoff ≤ (s.now : ℚ)) :
    Inv opts { s with stage } :=
  ⟨h.safe, htargets, hcutoff⟩

theorem isHeld_setNaming {index : ℕ} {next : Option Naming}
    (h : (s.setNaming index next).IsHeld opts key) :
    s.IsHeld opts key ∨ ∃ naming, next = some naming ∧ naming.MayWrite opts s.now key := by
  cases next with
  | none =>
    rcases h with hnamed | ⟨naming, hnaming, hmay⟩
    · exact .inl (.inl hnamed)
    · exact .inl (.inr ⟨naming, mem_of_mem_eraseIdx hnaming, hmay⟩)
  | some after =>
    rcases h with hnamed | ⟨naming, hnaming, hmay⟩
    · exact .inl (.inl hnamed)
    · rcases mem_or_eq_of_mem_set hnaming with hmem | rfl
      · exact .inl (.inr ⟨naming, hmem, hmay⟩)
      · exact .inr ⟨naming, rfl, hmay⟩

theorem Inv.afterPut (h : s.Inv opts) {index chunk : ℕ} {holder : KeyHolder} {call : PutCall}
    (hgood : ∀ stored, (call.run env s.disk s.now chunk).2 = .returns stored →
      ¬ s.stage.Targets opts s.disk stored.key ∧
        ¬ s.stage.Targets opts (call.run env s.disk s.now chunk).1 stored.key) :
    Inv opts (SweepRun.afterPut { s with disk := (call.run env s.disk s.now chunk).1 } index holder
      (call.run env s.disk s.now chunk).2) := by
  have htargets : ∀ key, s.stage.Targets opts (call.run env s.disk s.now chunk).1 key →
      s.stage.Targets opts s.disk key := by
    intro key htargets
    rcases targets_run h.cutoff_le htargets with hbefore | ⟨stored, hreturns, rfl⟩
    · exact hbefore
    · exact absurd htargets (hgood stored hreturns).2
  cases hout : (call.run env s.disk s.now chunk).2 with
  | goesOn next =>
    have hheld : ∀ key, (s.setNaming index (some ⟨holder, .puts next⟩)).IsHeld opts key →
        s.IsHeld opts key := by
      intro key hkey
      rcases isHeld_setNaming hkey with hbefore | ⟨naming, ⟨⟩, hmay⟩
      · exact hbefore
      · exact hmay.elim
    refine ⟨fun key hkey hnot => PutCall.isSome_run (h.safe key (hheld key hkey) hnot), ?_, ?_⟩
    · exact fun key hkey hheld' => h.spared key (htargets key hkey) (hheld key hheld')
    · exact h.cutoff_le
  | throws =>
    have hheld : ∀ key, (s.setNaming index none).IsHeld opts key → s.IsHeld opts key := by
      intro key hkey
      rcases isHeld_setNaming hkey with hbefore | ⟨naming, hnaming, -⟩
      · exact hbefore
      · simp at hnaming
    refine ⟨fun key hkey hnot => PutCall.isSome_run (h.safe key (hheld key hkey) hnot), ?_, ?_⟩
    · exact fun key hkey hheld' => h.spared key (htargets key hkey) (hheld key hheld')
    · exact h.cutoff_le
  | returns stored =>
    have hheld : ∀ key,
        (s.setNaming index (some ⟨holder, .writes stored.key s.now⟩)).IsHeld opts key →
          s.IsHeld opts key ∨ stored.key = key := by
      intro key hkey
      rcases isHeld_setNaming hkey with hbefore | ⟨naming, ⟨⟩, hmay⟩
      · exact .inl hbefore
      · exact .inr hmay.1
    refine ⟨fun key hkey hnot => ?_, fun key hkey hheld' => ?_, h.cutoff_le⟩
    · by_cases heq : stored.key = key
      · exact heq ▸ PutCall.isSome_of_returns hout
      · -- another key is missing only where it was
        have hnot' : key ∉ s.missing := fun hmem =>
          hnot (mem_filter.mpr ⟨hmem, by simpa using Ne.symm heq⟩)
        exact PutCall.isSome_run (h.safe key ((hheld key hkey).resolve_right heq) hnot')
    · rcases hheld key hheld' with hbefore | rfl
      · exact h.spared key (htargets key hkey) hbefore
      · exact (hgood stored hout).2 hkey

theorem Inv.runNaming (h : s.Inv opts) {index chunk : ℕ} {naming : Naming}
    (hnaming : naming ∈ s.namings) (hstep : s.runNaming env opts index chunk naming = some s')
    (hgood : ∀ key ∈ naming.returnsNow env s.disk,
      ¬ s.stage.Targets opts s.disk key ∧ ¬ s'.stage.Targets opts s'.disk key) :
    s'.Inv opts := by
  obtain ⟨holder, stage⟩ := naming
  cases stage with
  | puts call =>
    obtain rfl := some.inj hstep
    refine h.afterPut fun stored hreturns => ?_
    have hboth := hgood stored.key (returnsNow_of_returns hreturns)
    simp only [hreturns] at hboth
    exact hboth
  | writes key returnedAt =>
    obtain ⟨hintime, heq⟩ := ite_none_right_eq_some.mp hstep
    obtain rfl := some.inj heq
    refine h.of_isHeld ?_ rfl rfl rfl le_rfl
    rintro other (⟨one, hone, rfl⟩ | ⟨naming, hmem, hmay⟩)
    · rcases mem_cons.mp hone with rfl | hone
      · exact .inr ⟨_, hnaming, rfl, hintime⟩
      · exact .inl ⟨one, (mem_filter.mp hone).1, rfl⟩
    · exact .inr ⟨naming, mem_of_mem_eraseIdx hmem, hmay⟩

theorem Inv.failNaming (h : s.Inv opts) (index : ℕ) (naming : Naming) :
    (s.failNaming index naming).Inv opts := by
  obtain ⟨holder, stage⟩ := naming
  cases stage with
  | puts call =>
    refine h.of_isHeld (fun key hkey => ?_) rfl rfl rfl le_rfl
    rcases isHeld_setNaming hkey with hbefore | ⟨naming, hnaming, hmay⟩
    · exact hbefore
    · obtain ⟨next, -, rfl⟩ := map_eq_some_iff.mp hnaming
      exact hmay.elim
  | writes key returnedAt =>
    refine h.of_isHeld (fun key hkey => ?_) rfl rfl rfl le_rfl
    rcases isHeld_setNaming hkey with hbefore | ⟨naming, hnaming, -⟩
    · exact hbefore
    · simp at hnaming

/-! ### The sweep's own steps -/

theorem ageLimit_nonneg (opts : SweepFilesOptions) : 0 ≤ opts.ageLimit :=
  mul_nonneg (le_max_left _ _) (by norm_num)

theorem storedOlder_of_lookup {cutoff : ℚ} {file : DiskFile} {disk : Disk StorePath}
    (hfile : disk.lookup (.target key) = some file) (hold : IsOlder cutoff file.modifiedAt) :
    StoredOlder disk cutoff key :=
  ⟨file, hfile, hold⟩

theorem mem_of_mem_orphansOf {live : List String} {cutoff : ℚ} {found : List StoredObject}
    {one : StoredObject} (h : one ∈ orphansOf opts live cutoff found) :
    one ∈ found ∧ one.key ∉ live ∧ IsOlder cutoff one.modifiedAt := by
  have hsorted := mem_of_mem_take h
  rw [mem_mergeSort, mem_filter] at hsorted
  exact ⟨hsorted.1, by simpa using hsorted.2⟩

/-- **The next call of the sweep**, which does not take its cutoff past a key that is held. -/
theorem Inv.sweep (h : s.Inv opts) {fails : Bool} (hgood : ¬ s.Collides env opts (.sweeps fails)) :
    (s.sweep opts fails).Inv opts := by
  unfold SweepRun.sweep
  split
  · cases fails <;> exact h.withStage (fun key hkey => hkey.elim) (by simp [SweepStage.cutoff])
  · cases fails <;> exact h.withStage (fun key hkey => hkey.elim) (by simp [SweepStage.cutoff])
  · rename_i live hstage
    refine h.withStage ?_ ?_
    · rintro key ⟨happly, hlive, hold⟩ hheld
      refine hgood ⟨key, ?_, hheld, ?_⟩
      · obtain ⟨file, hfile, -⟩ := hold
        obtain ⟨number, hnumber, -⟩ := map_eq_some_iff.mp hfile
        exact mem_storedKeys.mpr (by simp [hnumber])
      · rw [hstage]
        exact ⟨happly, hlive, hold⟩
    · rintro cutoff ⟨⟩
      exact sub_le_self _ (ageLimit_nonneg opts)
  · rename_i live cutoff hstage
    have hspared := h.spared
    have hcutoff := h.cutoff_le
    rw [hstage] at hspared hcutoff
    refine h.withStage ?_ hcutoff
    rintro key ⟨happly, hlive, hold | ⟨one, hone, -⟩⟩
    · exact hspared key ⟨happly, hlive, hold⟩
    · simp at hone
  · rename_i live cutoff prefixes name names found hstage
    have hspared := h.spared
    have hcutoff := h.cutoff_le
    rw [hstage] at hspared hcutoff
    split
    · rename_i file hfile
      have hlookup : s.disk.lookup (.target name) = some file := by
        cases fails
        · exact hfile
        · simp at hfile
      refine h.withStage ?_ hcutoff
      rintro key ⟨happly, hlive, hold | ⟨one, hone, rfl, hold⟩⟩
      · exact hspared key ⟨happly, hlive, .inl hold⟩
      · rcases mem_append.mp hone with hone | hone
        · exact hspared _ ⟨happly, hlive, .inr ⟨one, hone, rfl, hold⟩⟩
        · obtain rfl := mem_singleton.mp hone
          exact hspared _ ⟨happly, hlive, .inl (storedOlder_of_lookup hlookup hold)⟩
    · exact h.withStage hspared hcutoff
  · rename_i live cutoff directory prefixes found hstage
    have hspared := h.spared
    have hcutoff := h.cutoff_le
    rw [hstage] at hspared hcutoff
    exact h.withStage hspared hcutoff
  · rename_i live cutoff found hstage
    have hspared := h.spared
    rw [hstage] at hspared
    split
    · rename_i happly
      refine h.withStage ?_ (by simp [SweepStage.cutoff])
      rintro key ⟨one, hone, rfl⟩
      obtain ⟨hfound, hlive, hold⟩ := mem_of_mem_orphansOf hone
      exact hspared _ ⟨happly, hlive, .inr ⟨one, hfound, rfl, hold⟩⟩
    · exact h.withStage (fun key hkey => hkey.elim) (by simp [SweepStage.cutoff])
  · rename_i one orphans report hstage
    have hspared := h.spared
    rw [hstage] at hspared
    refine ⟨fun key hkey hnot => ?_, fun key hkey => ?_, by simp [SweepStage.cutoff]⟩
    · -- what is held is not what is deleted
      have hne : key ≠ one.key := by
        rintro rfl
        exact hspared _ ⟨one, mem_cons_self, rfl⟩ hkey
      have hsome := h.safe key hkey hnot
      cases fails
      · simpa [deleteKey, hne] using hsome
      · exact hsome
    · obtain ⟨other, hother, rfl⟩ := hkey
      exact hspared _ ⟨other, mem_cons_of_mem _ hother, rfl⟩
  · exact h.withStage (fun key hkey => hkey.elim) (by simp [SweepStage.cutoff])

/-- **A step** that does not collide keeps the invariant. -/
theorem Inv.step (h : s.Inv opts) {event : SweepEvent} (hgood : ¬ s.Collides env opts event)
    (hstep : s.step env opts event = some s') : s'.Inv opts := by
  cases event with
  | tick elapsed =>
    obtain rfl := some.inj hstep
    refine h.of_isHeld ?_ rfl rfl rfl (Nat.le_add_right _ _)
    rintro key (hnamed | ⟨naming, hnaming, hmay⟩)
    · exact .inl hnamed
    · refine .inr ⟨naming, hnaming, ?_⟩
      obtain ⟨holder, stage⟩ := naming
      cases stage with
      | puts call => exact hmay
      | writes returned returnedAt =>
        refine ⟨hmay.1, lt_of_le_of_lt ?_ hmay.2⟩
        exact_mod_cast Nat.le_add_right _ _
  | asks holder bytes extension pid =>
    obtain rfl := some.inj hstep
    refine h.of_isHeld ?_ rfl rfl rfl le_rfl
    rintro key (hnamed | ⟨naming, hnaming, hmay⟩)
    · exact .inl hnamed
    · rcases mem_append.mp hnaming with hmem | hmem
      · exact .inr ⟨naming, hmem, hmay⟩
      · obtain rfl := mem_singleton.mp hmem
        exact hmay.elim
  | runs index chunk =>
    obtain ⟨naming, hnaming, hrun⟩ := bind_eq_some_iff.mp hstep
    refine h.runNaming (mem_of_getElem? hnaming) hrun fun key hkey => ⟨?_, ?_⟩
    · exact fun htargets => hgood ⟨naming, hnaming, key, hkey, s', hrun, .inl htargets⟩
    · exact fun htargets => hgood ⟨naming, hnaming, key, hkey, s', hrun, .inr htargets⟩
  | fails index =>
    obtain ⟨naming, -, rfl⟩ := map_eq_some_iff.mp hstep
    exact h.failNaming index naming
  | dies index =>
    obtain rfl := some.inj hstep
    refine h.of_isHeld (fun key hkey => ?_) rfl rfl rfl le_rfl
    rcases isHeld_setNaming hkey with hbefore | ⟨naming, hnaming, -⟩
    · exact hbefore
    · simp at hnaming
  | forgets holder =>
    obtain rfl := some.inj hstep
    refine h.of_isHeld ?_ rfl rfl rfl le_rfl
    rintro key (⟨one, hone, rfl⟩ | hmay)
    · exact .inl ⟨one, (mem_filter.mp hone).1, rfl⟩
    · exact .inr hmay
  | sweeps fails =>
    obtain rfl := some.inj hstep
    exact h.sweep hgood

theorem Inv.of_init (h : (sweepOrphanFiles env opts).init s) : s.Inv opts := by
  obtain ⟨hnamings, hstage, hnamed⟩ := h
  refine ⟨?_, ?_, ?_⟩
  · rintro key (⟨one, hone, rfl⟩ | ⟨naming, hnaming, -⟩) hnot
    · exact (hnamed one hone).resolve_left hnot
    · simp [hnamings] at hnaming
  · intro key htargets
    rw [hstage] at htargets
    exact htargets.elim
  · simp [hstage, SweepStage.cutoff]

/-- **The sweep takes nothing that is named**, at every point of a run in which no put returns
a key the sweep is about to take, and the sweep does not take its cutoff past a key that is
held. -/
theorem safe_of_reachesWhen
    (h : (sweepOrphanFiles env opts).ReachesWhen
      (fun s event => ¬ s.Collides env opts event) s) : s.IsSafe := by
  have hinv : s.Inv opts := h.invariant (fun _ => Inv.of_init)
    fun _ _ _ hinv hgood hstep => hinv.step hgood hstep
  exact fun one hone hnot => hinv.safe one.2 (.inl ⟨one, hone, rfl⟩) hnot

/-! ### A picture that is put again -/

/-- A week after a byte was put, with nothing that names it. -/
def staleStore : SweepRun where
  now := 604800001
  disk := (Disk.empty.create (.target exampleKey) 0).append 0 [1] 0
  named := []
  namings := []
  stage := .idle
  missing := []

theorem staleStore_init (env : StoreEnv) (opts : SweepFilesOptions) :
    (sweepOrphanFiles env opts).init staleStore := by
  simp [sweepOrphanFiles, staleStore]

/-- A sweep up to where it deletes: it reads, takes its cutoff, lists, and judges. -/
def sweepsToDelete : List SweepEvent := List.replicate 6 (.sweeps false)

/-- The byte is put again, and its row is written. -/
def putsAgain : List SweepEvent := [.asks (.file 0) [1] "bin" 7, .runs 0 0, .runs 0 0]

example : ((sweepOrphanFiles exampleStore { apply := true }).run staleStore sweepsToDelete).map
    (·.stage) = some (.deleting [⟨exampleKey, 1, 0⟩] ⟨1, 1, true, [exampleKey]⟩) := by
  decide +kernel

/-- **A sweep beside an upload**: the row is written before the sweep reads, and the old file
stays. -/
theorem safe_of_reachesWhen_putsAgain :
    ∃ s : SweepRun, s.IsSafe ∧ s.named = [(.file 0, exampleKey)] ∧
      s.stage = .done ⟨0, 0, true, []⟩ := by
  have hreach : ∃ s : SweepRun, (sweepOrphanFiles exampleStore { apply := true }).ReachesWhen
      (fun s event => ¬ s.Collides exampleStore { apply := true } event) s ∧
        s.named = [(.file 0, exampleKey)] ∧ s.stage = .done ⟨0, 0, true, []⟩ :=
    Machine.exists_reachesWhen_of_runWhen (putsAgain ++ sweepsToDelete ++ [.sweeps false])
      (staleStore_init exampleStore _) (by decide +kernel)
  obtain ⟨s, hs, hnamed, hstage⟩ := hreach
  exact ⟨s, safe_of_reachesWhen hs, hnamed, hstage⟩

/-- **The sweep can take live bytes**: they are put again once it has judged the file, which
stays as old as it was, and the row that is then written names a file that goes. -/
theorem not_isSafe : ¬ ∀ env opts s, 1 ≤ opts.olderThanHours.getD (24 * 7) → opts.apply = true →
    (sweepOrphanFiles env opts).Reaches s → s.namings = [] → (∃ report, s.stage = .done report) →
      s.IsSafe := by
  intro hall
  have hreach : ∃ s : SweepRun, (sweepOrphanFiles exampleStore { apply := true }).Reaches s ∧
      s.namings = [] ∧ s.stage = .done ⟨1, 1, true, [exampleKey]⟩ ∧
        s.named = [(.file 0, exampleKey)] ∧ s.missing = [] ∧
          s.disk.names (.target exampleKey) = none :=
    Machine.exists_reachesWhen_of_runWhen
      (sweepsToDelete ++ putsAgain ++ [.sweeps false, .sweeps false])
      (staleStore_init exampleStore _) (by decide +kernel)
  obtain ⟨s, hs, hnamings, hstage, hnamed, hmissing, hgone⟩ := hreach
  have hsafe : s.IsSafe :=
    hall exampleStore { apply := true } s (by decide +kernel) rfl hs hnamings ⟨_, hstage⟩
  have hthere := hsafe (.file 0, exampleKey) (by simp [hnamed]) (by simp [hmissing])
  simp [hgone] at hthere

end SweepRun

end Sone
