import Sone.Transition.Machine
import Mathlib.Data.Finset.Insert
import Mathlib.Data.Finset.Lattice.Basic
import Mathlib.Data.List.Sort

/-!
# The document log

`doc/docStore.ts`: a document is the merge of its snapshot with every update after it.
`appendUpdate` adds a row, `compactDoc` folds the rows into a new snapshot and deletes what
it folded, `loadDoc` reads the two. The machine `docLog` is one document's log with every
atomic step of these on its own, in any order:

* an append takes its number from the sequence when it starts, and its row appears when it
  commits; other documents take numbers from the same sequence;
* a compaction holds the advisory lock, reads the snapshot, reads the rows, deletes what it
  then sees up to the highest number it read, and commits, each statement seeing what has
  committed by then;
* a load on the pool reads the snapshot and the rows in two statements of its own.

A document's content is the set of the log's rows that were merged into it: merging is
commutative and idempotent, so the content depends on nothing else.

The numbers are given out in one order and the rows appear in another. A compaction whose
read skips a number still to be committed stores a snapshot that says it contains it
(`LateNumber`), and a load whose two statements lie around a compaction's commit misses
what the compaction moved (`TornLoad`). `keepsCommitted_of_reachesWhen` and
`loadsComplete_of_reachesWhen` say that nothing else loses an update.
-/

set_option linter.unusedSectionVars false

namespace Sone

open List Option Nat

universe u

/-- A row of `doc_updates`, for one document. -/
structure UpdateRow (U : Type u) where
  seq : ℕ
  payload : U
  deriving DecidableEq

/-- A row of `doc_snapshots`, for one document. -/
structure SnapshotRow (U : Type u) where
  throughSeq : ℕ
  state : Finset (UpdateRow U)
  deriving DecidableEq

structure LoadedDoc (U : Type u) where
  doc : Finset (UpdateRow U)
  /-- Highest sequence number applied. -/
  throughSeq : ℕ
  updateCount : ℕ
  deriving DecidableEq

variable {U : Type u} [DecidableEq U]

/-- What a snapshot contains; nothing where there is none. -/
def snapshotState (snapshot : Option (SnapshotRow U)) : Finset (UpdateRow U) :=
  (snapshot.map (·.state)).getD ∅

/-- The number a snapshot says it goes through; 0 where there is none. -/
def snapshotThrough (snapshot : Option (SnapshotRow U)) : ℕ :=
  (snapshot.map (·.throughSeq)).getD 0

/-- The rows `loadDoc` selects: `seq > through_seq`, in the order of the numbers. -/
def selectedUpdates (snapshot : Option (SnapshotRow U)) (rows : List (UpdateRow U)) :
    List (UpdateRow U) :=
  (rows.filter fun row => snapshotThrough snapshot < row.seq).insertionSort
    fun a b => a.seq ≤ b.seq

/-- `loadDoc`, from what its two statements returned. -/
def loadDoc (snapshot : Option (SnapshotRow U)) (rows : List (UpdateRow U)) : LoadedDoc U :=
  let updates := selectedUpdates snapshot rows
  { doc := snapshotState snapshot ∪ updates.toFinset
    throughSeq := (updates.getLast?.map (·.seq)).getD (snapshotThrough snapshot)
    updateCount := updates.length }

section LoadDoc

variable {snapshot : Option (SnapshotRow U)} {rows : List (UpdateRow U)} {row : UpdateRow U}

theorem mem_selectedUpdates :
    row ∈ selectedUpdates snapshot rows ↔ row ∈ rows ∧ snapshotThrough snapshot < row.seq := by
  simp [selectedUpdates]

theorem mem_loadDoc :
    row ∈ (loadDoc snapshot rows).doc ↔
      row ∈ snapshotState snapshot ∨ row ∈ rows ∧ snapshotThrough snapshot < row.seq := by
  simp [loadDoc, mem_selectedUpdates]

theorem loadDoc_throughSeq_cases (snapshot : Option (SnapshotRow U))
    (rows : List (UpdateRow U)) :
    (loadDoc snapshot rows).throughSeq = snapshotThrough snapshot ∨
      ∃ row ∈ rows, row.seq = (loadDoc snapshot rows).throughSeq := by
  cases h : (selectedUpdates snapshot rows).getLast? with
  | none => exact .inl (by simp [loadDoc, h])
  | some last =>
    exact .inr ⟨last, (mem_selectedUpdates.mp (mem_of_getLast? h)).1, by simp [loadDoc, h]⟩

end LoadDoc

/-! ### The log and its steps -/

/-- Where a `compactDoc` transaction is. -/
inductive CompactStage (U : Type u) where
  /-- It holds the advisory lock and has read nothing. -/
  | locked
  /-- It has read the snapshot. -/
  | snapshotRead (snapshot : Option (SnapshotRow U))
  /-- It has read the rows; the snapshot it writes is not visible before it commits. -/
  | loaded (loaded : LoadedDoc U)
  /-- It has deleted the rows it saw, by number; they are gone when it commits. -/
  | deleted (loaded : LoadedDoc U) (victims : List ℕ)
  deriving DecidableEq

/-- A `loadDoc` on the pool that has not returned. -/
structure PoolLoad (U : Type u) where
  id : ℕ
  /-- The updates that had committed when the call started. -/
  base : Finset (UpdateRow U)
  /-- What the first statement returned, once it has. -/
  snapshot : Option (Option (SnapshotRow U))
  deriving DecidableEq

/-- What a `loadDoc` on the pool returned. -/
structure FinishedLoad (U : Type u) where
  base : Finset (UpdateRow U)
  loaded : LoadedDoc U

structure DocLog (U : Type u) where
  /-- The next value of `doc_update_seq`. -/
  nextSeq : ℕ
  /-- `doc_updates`: the committed rows. -/
  rows : List (UpdateRow U)
  /-- `doc_snapshots`. -/
  snapshot : Option (SnapshotRow U)
  /-- The appends that have taken a number and not ended. -/
  inFlight : List (UpdateRow U)
  /-- The compaction that holds the advisory lock. -/
  compaction : Option (CompactStage U)
  /-- The loads on the pool that have not returned. -/
  loads : List (PoolLoad U)
  /-- The loads that have. -/
  finished : List (FinishedLoad U)
  /-- Every update whose append has committed. -/
  committed : Finset (UpdateRow U)

/-- An atomic step of one of the parties. -/
inductive DocEvent (U : Type u) where
  | beginAppend (payload : U)
  | commitAppend (seq : ℕ)
  | abortAppend (seq : ℕ)
  /-- Another document takes a number. -/
  | skipSeq
  | lockCompaction
  | compactionReadsSnapshot
  | compactionReadsUpdates
  | compactionDeletes
  | commitCompaction
  | rollbackCompaction
  | startLoad (id : ℕ)
  | loadReadsSnapshot (id : ℕ)
  | loadReadsUpdates (id : ℕ)
  deriving DecidableEq

namespace DocLog

/-- `nextval('doc_update_seq')`, in an append of this document. -/
def beginAppend (s : DocLog U) (payload : U) : DocLog U :=
  { s with nextSeq := s.nextSeq + 1, inFlight := ⟨s.nextSeq, payload⟩ :: s.inFlight }

def commitAppend (s : DocLog U) (row : UpdateRow U) : DocLog U :=
  { s with
    inFlight := s.inFlight.erase row
    rows := s.rows ++ [row]
    committed := insert row s.committed }

/-- An append ends without a row; the number it took is gone. -/
def abortAppend (s : DocLog U) (row : UpdateRow U) : DocLog U :=
  { s with inFlight := s.inFlight.erase row }

/-- A compaction that has read the snapshot reads the rows: it returns when there are
none. -/
def compactionReadsUpdates (s : DocLog U) (snapshot : Option (SnapshotRow U)) : DocLog U :=
  let loaded := loadDoc snapshot s.rows
  { s with compaction := if loaded.updateCount = 0 then none else some (.loaded loaded) }

/-- `DELETE FROM doc_updates WHERE seq <= throughSeq`, on the rows committed by now. -/
def compactionDeletes (s : DocLog U) (loaded : LoadedDoc U) : DocLog U :=
  { s with compaction := some (.deleted loaded
      ((s.rows.filter fun row => row.seq ≤ loaded.throughSeq).map (·.seq))) }

/-- A compaction commits: its snapshot replaces the old one and the rows it deleted are
gone. -/
def commitCompaction (s : DocLog U) (loaded : LoadedDoc U) (victims : List ℕ) : DocLog U :=
  { s with
    snapshot := some ⟨loaded.throughSeq, loaded.doc⟩
    rows := s.rows.filter fun row => row.seq ∉ victims
    compaction := none }

def loadReadsSnapshot (s : DocLog U) (load : PoolLoad U) : DocLog U :=
  { s with loads := { load with snapshot := some s.snapshot } :: s.loads.erase load }

/-- The second statement of a load on the pool, which then returns. -/
def loadReadsUpdates (s : DocLog U) (load : PoolLoad U) (snapshot : Option (SnapshotRow U)) :
    DocLog U :=
  { s with
    loads := s.loads.erase load
    finished := ⟨load.base, loadDoc snapshot s.rows⟩ :: s.finished }

def step (s : DocLog U) : DocEvent U → Option (DocLog U)
  | .beginAppend payload => some (s.beginAppend payload)
  | .commitAppend seq => (s.inFlight.find? fun row => row.seq = seq).map s.commitAppend
  | .abortAppend seq => (s.inFlight.find? fun row => row.seq = seq).map s.abortAppend
  | .skipSeq => some { s with nextSeq := s.nextSeq + 1 }
  | .lockCompaction =>
    match s.compaction with
    | none => some { s with compaction := some .locked }
    | some _ => none
  | .compactionReadsSnapshot =>
    match s.compaction with
    | some .locked => some { s with compaction := some (.snapshotRead s.snapshot) }
    | _ => none
  | .compactionReadsUpdates =>
    match s.compaction with
    | some (.snapshotRead snapshot) => some (s.compactionReadsUpdates snapshot)
    | _ => none
  | .compactionDeletes =>
    match s.compaction with
    | some (.loaded loaded) => some (s.compactionDeletes loaded)
    | _ => none
  | .commitCompaction =>
    match s.compaction with
    | some (.deleted loaded victims) => some (s.commitCompaction loaded victims)
    | _ => none
  | .rollbackCompaction =>
    match s.compaction with
    | some _ => some { s with compaction := none }
    | none => none
  | .startLoad id => some { s with loads := ⟨id, s.committed, none⟩ :: s.loads }
  | .loadReadsSnapshot id =>
    (s.loads.find? fun load => load.id = id ∧ load.snapshot = none).map s.loadReadsSnapshot
  | .loadReadsUpdates id =>
    (s.loads.find? fun load => load.id = id ∧ load.snapshot ≠ none).bind fun load =>
      load.snapshot.map (s.loadReadsUpdates load)

/-- A document nobody has written to yet. -/
def empty : DocLog U where
  nextSeq := 1
  rows := []
  snapshot := none
  inFlight := []
  compaction := none
  loads := []
  finished := []
  committed := ∅

end DocLog

/-- **The machine of one document's log.** -/
def docLog (U : Type u) [DecidableEq U] : Machine (DocLog U) (DocEvent U) where
  init s := s = .empty
  step := DocLog.step

namespace DocLog

/-! ### What is asked, and where it can fail -/

/-- **No committed update is lost**: what a load now would contain has every update whose
append has committed. -/
def KeepsCommitted (s : DocLog U) : Prop := s.committed ⊆ (loadDoc s.snapshot s.rows).doc

/-- **Loads are complete**: a document `loadDoc` returned contains every update that had
committed before the call started. -/
def LoadsComplete (s : DocLog U) : Prop := ∀ f ∈ s.finished, f.base ⊆ f.loaded.doc

/-- A compaction reads the rows while an append that took a lower number than some row has
is still to commit. -/
def LateNumber (s : DocLog U) (e : DocEvent U) : Prop :=
  e = .compactionReadsUpdates ∧ ∃ late ∈ s.inFlight, ∃ row ∈ s.rows, late.seq ≤ row.seq

/-- The numbers of the rows the compaction has deleted, which go when it commits. -/
def victims (s : DocLog U) : List ℕ :=
  match s.compaction with
  | some (.deleted _ victims) => victims
  | _ => []

/-- A compaction commits while a load on the pool has read the snapshot and not the rows,
and deletes a row that had committed before that load started. -/
def TornLoad (s : DocLog U) (e : DocEvent U) : Prop :=
  e = .commitCompaction ∧ ∃ load ∈ s.loads, load.snapshot ≠ none ∧
    ∃ row ∈ s.rows, row ∈ load.base ∧ row.seq ∈ s.victims

/-! ### The invariant -/

/-- What a compaction has loaded is still good to replace the rows up to its number. -/
structure Folds (s : DocLog U) (loaded : LoadedDoc U) : Prop where
  state_subset : snapshotState s.snapshot ⊆ loaded.doc
  rows_folded : ∀ row ∈ s.rows, row.seq ≤ loaded.throughSeq → row ∈ loaded.doc
  inFlight_above : ∀ row ∈ s.inFlight, loaded.throughSeq < row.seq
  throughSeq_lt : loaded.throughSeq < s.nextSeq

def CompactionInv (s : DocLog U) : Option (CompactStage U) → Prop
  | none => True
  | some .locked => True
  | some (.snapshotRead snapshot) => snapshot = s.snapshot
  | some (.loaded loaded) => s.Folds loaded
  | some (.deleted loaded victims) => s.Folds loaded ∧
      (∀ seq ∈ victims, seq ≤ loaded.throughSeq) ∧
      ∀ row ∈ s.rows, row.seq ≤ loaded.throughSeq → row.seq ∈ victims

/-- **The invariant of the log**: the snapshot's number is below every row's and every
number still in flight, and nothing committed is outside the snapshot and the rows. -/
structure Inv (s : DocLog U) : Prop where
  rows_above : ∀ row ∈ s.rows, snapshotThrough s.snapshot < row.seq
  inFlight_above : ∀ row ∈ s.inFlight, snapshotThrough s.snapshot < row.seq
  rows_lt : ∀ row ∈ s.rows, row.seq < s.nextSeq
  inFlight_lt : ∀ row ∈ s.inFlight, row.seq < s.nextSeq
  through_lt : snapshotThrough s.snapshot < s.nextSeq
  kept : ∀ row ∈ s.committed, row ∈ snapshotState s.snapshot ∨ row ∈ s.rows
  compaction : s.CompactionInv s.compaction

/-- What a load between its two statements can still come to contain. -/
def LoadInv (s : DocLog U) (load : PoolLoad U) : Prop :=
  load.base ⊆ s.committed ∧ ∀ snapshot, load.snapshot = some snapshot →
    ∀ row ∈ load.base, row ∈ snapshotState snapshot ∨
      row ∈ s.rows ∧ snapshotThrough snapshot < row.seq

variable {s s' : DocLog U} {row : UpdateRow U} {loaded : LoadedDoc U}

theorem Inv.keepsCommitted (h : s.Inv) : s.KeepsCommitted := by
  intro row hrow
  rw [mem_loadDoc]
  exact (h.kept row hrow).imp_right fun hmem => ⟨hmem, h.rows_above row hmem⟩

theorem inv_empty : (empty : DocLog U).Inv where
  rows_above := by simp [empty]
  inFlight_above := by simp [empty]
  rows_lt := by simp [empty]
  inFlight_lt := by simp [empty]
  through_lt := by simp [empty, snapshotThrough]
  kept := by simp [empty]
  compaction := trivial

/-! ### What each step keeps -/

theorem Folds.beginAppend (h : s.Folds loaded) (payload : U) :
    (s.beginAppend payload).Folds loaded where
  state_subset := h.state_subset
  rows_folded := h.rows_folded
  inFlight_above := by
    simp only [DocLog.beginAppend, mem_cons, forall_eq_or_imp]
    exact ⟨h.throughSeq_lt, h.inFlight_above⟩
  throughSeq_lt := lt_succ_of_lt h.throughSeq_lt

theorem Folds.commitAppend (h : s.Folds loaded) (hrow : row ∈ s.inFlight) :
    (s.commitAppend row).Folds loaded where
  state_subset := h.state_subset
  rows_folded := by
    simp only [DocLog.commitAppend, mem_append, mem_singleton]
    rintro r (hr | rfl) hle
    · exact h.rows_folded r hr hle
    · -- a number still in flight is above what the compaction read
      exact absurd hle (Nat.not_le.mpr (h.inFlight_above r hrow))
  inFlight_above := fun r hr => h.inFlight_above r (mem_of_mem_erase hr)
  throughSeq_lt := h.throughSeq_lt

theorem CompactionInv.mono {stage : Option (CompactStage U)} (h : s.CompactionInv stage)
    (hsnapshot : s'.snapshot = s.snapshot)
    (hfolds : ∀ loaded, s.Folds loaded → s'.Folds loaded)
    (hrows : ∀ loaded, s.Folds loaded → ∀ row ∈ s'.rows, row.seq ≤ loaded.throughSeq →
      row ∈ s.rows) : s'.CompactionInv stage := by
  match stage, h with
  | none, _ => trivial
  | some .locked, _ => trivial
  | some (.snapshotRead snapshot), h => exact h.trans hsnapshot.symm
  | some (.loaded loaded), h => exact hfolds loaded h
  | some (.deleted loaded victims), ⟨hf, hle, hall⟩ =>
    exact ⟨hfolds loaded hf, hle, fun row hrow hseq =>
      hall row (hrows loaded hf row hrow hseq) hseq⟩

theorem Inv.beginAppend (h : s.Inv) (payload : U) : (s.beginAppend payload).Inv where
  rows_above := h.rows_above
  inFlight_above := by
    simp only [DocLog.beginAppend, mem_cons, forall_eq_or_imp]
    exact ⟨h.through_lt, h.inFlight_above⟩
  rows_lt := fun r hr => lt_succ_of_lt (h.rows_lt r hr)
  inFlight_lt := by
    simp only [DocLog.beginAppend, mem_cons, forall_eq_or_imp]
    exact ⟨lt_succ_self _, fun r hr => lt_succ_of_lt (h.inFlight_lt r hr)⟩
  through_lt := lt_succ_of_lt h.through_lt
  kept := h.kept
  compaction := h.compaction.mono rfl (fun _ hf => hf.beginAppend payload)
    fun _ _ _ hrow _ => hrow

theorem Inv.commitAppend (h : s.Inv) (hrow : row ∈ s.inFlight) : (s.commitAppend row).Inv where
  rows_above := by
    simp only [DocLog.commitAppend, mem_append, mem_singleton]
    rintro r (hr | rfl)
    · exact h.rows_above r hr
    · exact h.inFlight_above r hrow
  inFlight_above := fun r hr => h.inFlight_above r (mem_of_mem_erase hr)
  rows_lt := by
    simp only [DocLog.commitAppend, mem_append, mem_singleton]
    rintro r (hr | rfl)
    · exact h.rows_lt r hr
    · exact h.inFlight_lt r hrow
  inFlight_lt := fun r hr => h.inFlight_lt r (mem_of_mem_erase hr)
  through_lt := h.through_lt
  kept := by
    simp only [DocLog.commitAppend, Finset.mem_insert, mem_append, mem_singleton]
    rintro r (rfl | hr)
    · exact .inr (.inr rfl)
    · exact (h.kept r hr).imp_right .inl
  compaction := h.compaction.mono rfl (fun _ hf => hf.commitAppend hrow) (by
    simp only [DocLog.commitAppend, mem_append, mem_singleton]
    rintro loaded hf r (hr | rfl) hle
    · exact hr
    · exact absurd hle (Nat.not_le.mpr (hf.inFlight_above r hrow)))

theorem Inv.of_inFlight_subset (h : s.Inv) (hrows : s'.rows = s.rows)
    (hsnapshot : s'.snapshot = s.snapshot) (hcommitted : s'.committed = s.committed)
    (hcompaction : s'.compaction = s.compaction) (hsubset : ∀ row ∈ s'.inFlight, row ∈ s.inFlight)
    (hseq : s.nextSeq ≤ s'.nextSeq) : s'.Inv where
  rows_above := by rw [hrows, hsnapshot]; exact h.rows_above
  inFlight_above := by
    rw [hsnapshot]
    exact fun r hr => h.inFlight_above r (hsubset r hr)
  rows_lt := by
    rw [hrows]
    exact fun r hr => (h.rows_lt r hr).trans_le hseq
  inFlight_lt := fun r hr => (h.inFlight_lt r (hsubset r hr)).trans_le hseq
  through_lt := by
    rw [hsnapshot]
    exact h.through_lt.trans_le hseq
  kept := by rw [hcommitted, hsnapshot, hrows]; exact h.kept
  compaction := by
    rw [hcompaction]
    refine h.compaction.mono hsnapshot (fun loaded hf => ?_) fun _ _ r hr _ => hrows ▸ hr
    exact ⟨hsnapshot ▸ hf.state_subset, hrows ▸ hf.rows_folded,
      fun r hr => hf.inFlight_above r (hsubset r hr), hf.throughSeq_lt.trans_le hseq⟩

theorem Inv.withCompaction (h : s.Inv) {stage : Option (CompactStage U)}
    (hstage : s.CompactionInv stage) : ({ s with compaction := stage } : DocLog U).Inv where
  rows_above := h.rows_above
  inFlight_above := h.inFlight_above
  rows_lt := h.rows_lt
  inFlight_lt := h.inFlight_lt
  through_lt := h.through_lt
  kept := h.kept
  compaction := hstage.mono rfl (fun _ hf =>
    ⟨hf.state_subset, hf.rows_folded, hf.inFlight_above, hf.throughSeq_lt⟩) fun _ _ _ hr _ => hr

theorem Inv.folds_loadDoc (h : s.Inv)
    (hquiet : ∀ late ∈ s.inFlight, ∀ row ∈ s.rows, row.seq < late.seq) :
    s.Folds (loadDoc s.snapshot s.rows) where
  state_subset := fun r hr => mem_loadDoc.mpr (.inl hr)
  rows_folded := fun r hr _ => mem_loadDoc.mpr (.inr ⟨hr, h.rows_above r hr⟩)
  inFlight_above := fun late hlate => by
    rcases loadDoc_throughSeq_cases s.snapshot s.rows with heq | ⟨r, hr, heq⟩
    · exact heq ▸ h.inFlight_above late hlate
    · exact heq ▸ hquiet late hlate r hr
  throughSeq_lt := by
    rcases loadDoc_throughSeq_cases s.snapshot s.rows with heq | ⟨r, hr, heq⟩
    · exact heq ▸ h.through_lt
    · exact heq ▸ h.rows_lt r hr

theorem Inv.compactionDeletes (h : s.Inv) (hf : s.Folds loaded) :
    (s.compactionDeletes loaded).Inv := by
  refine h.withCompaction ⟨hf, ?_, fun r hr hle => ?_⟩
  · simp only [List.mem_map, mem_filter, decide_eq_true_iff]
    rintro seq ⟨r, ⟨-, hle⟩, rfl⟩
    exact hle
  · exact List.mem_map.mpr ⟨r, mem_filter.mpr ⟨hr, decide_eq_true hle⟩, rfl⟩

/-- **The commit of a compaction**: what it deletes it has folded, and what it leaves is
above its number. -/
theorem Inv.commitCompaction {victims : List ℕ} (h : s.Inv) (hf : s.Folds loaded)
    (hle : ∀ seq ∈ victims, seq ≤ loaded.throughSeq)
    (hall : ∀ row ∈ s.rows, row.seq ≤ loaded.throughSeq → row.seq ∈ victims) :
    (s.commitCompaction loaded victims).Inv where
  rows_above := by
    simp only [DocLog.commitCompaction, mem_filter, decide_eq_true_iff]
    rintro r ⟨hr, hnot⟩
    exact Nat.lt_of_not_le fun hseq => hnot (hall r hr hseq)
  inFlight_above := hf.inFlight_above
  rows_lt := fun r hr => h.rows_lt r (mem_of_mem_filter hr)
  inFlight_lt := h.inFlight_lt
  through_lt := hf.throughSeq_lt
  kept := by
    simp only [DocLog.commitCompaction, mem_filter, decide_eq_true_iff]
    intro r hr
    rcases h.kept r hr with hmem | hmem
    · exact .inl (hf.state_subset hmem)
    · -- a row is deleted, and then folded, or it stays
      by_cases hv : r.seq ∈ victims
      · exact .inl (hf.rows_folded r hmem (hle r.seq hv))
      · exact .inr ⟨hmem, hv⟩
  compaction := trivial

/-- **The step lemma.** Every step that is not a compaction reading past a late number keeps
the invariant. -/
theorem Inv.step {e : DocEvent U} (h : s.Inv) (hlate : ¬ s.LateNumber e)
    (hstep : s.step e = some s') : s'.Inv := by
  cases e with
  | beginAppend payload =>
    obtain rfl := some.inj hstep
    exact h.beginAppend payload
  | commitAppend seq =>
    obtain ⟨r, hr, rfl⟩ := map_eq_some_iff.mp hstep
    exact h.commitAppend (List.mem_of_find?_eq_some hr)
  | abortAppend seq =>
    obtain ⟨r, hr, rfl⟩ := map_eq_some_iff.mp hstep
    exact h.of_inFlight_subset rfl rfl rfl rfl (fun _ => mem_of_mem_erase) le_rfl
  | skipSeq =>
    obtain rfl := some.inj hstep
    exact h.of_inFlight_subset rfl rfl rfl rfl (fun _ hmem => hmem) (le_succ _)
  | lockCompaction =>
    simp only [DocLog.step] at hstep
    split at hstep
    · obtain rfl := some.inj hstep
      exact h.withCompaction trivial
    · simp at hstep
  | compactionReadsSnapshot =>
    simp only [DocLog.step] at hstep
    split at hstep
    · obtain rfl := some.inj hstep
      exact h.withCompaction rfl
    · simp at hstep
  | compactionReadsUpdates =>
    simp only [DocLog.step] at hstep
    split at hstep
    · rename_i snapshot hstage
      obtain rfl := some.inj hstep
      obtain rfl : s.CompactionInv (some (.snapshotRead snapshot)) := hstage ▸ h.compaction
      have hquiet : ∀ late ∈ s.inFlight, ∀ row ∈ s.rows, row.seq < late.seq := by
        simpa [LateNumber] using hlate
      refine h.withCompaction ?_
      split
      · trivial
      · exact h.folds_loadDoc hquiet
    · simp at hstep
  | compactionDeletes =>
    simp only [DocLog.step] at hstep
    split at hstep
    · rename_i loaded hstage
      obtain rfl := some.inj hstep
      have hf : s.CompactionInv (some (.loaded loaded)) := hstage ▸ h.compaction
      exact h.compactionDeletes hf
    · simp at hstep
  | commitCompaction =>
    simp only [DocLog.step] at hstep
    split at hstep
    · rename_i loaded victims hstage
      obtain rfl := some.inj hstep
      obtain ⟨hf, hle, hall⟩ : s.CompactionInv (some (.deleted loaded victims)) :=
        hstage ▸ h.compaction
      exact h.commitCompaction hf hle hall
    · simp at hstep
  | rollbackCompaction =>
    simp only [DocLog.step] at hstep
    split at hstep
    · obtain rfl := some.inj hstep
      exact h.withCompaction trivial
    · simp at hstep
  | startLoad id =>
    obtain rfl := some.inj hstep
    exact h.of_inFlight_subset rfl rfl rfl rfl (fun _ hmem => hmem) le_rfl
  | loadReadsSnapshot id =>
    obtain ⟨load, -, rfl⟩ := map_eq_some_iff.mp hstep
    exact h.of_inFlight_subset rfl rfl rfl rfl (fun _ hmem => hmem) le_rfl
  | loadReadsUpdates id =>
    obtain ⟨load, -, hstep⟩ := bind_eq_some_iff.mp hstep
    obtain ⟨snapshot, -, rfl⟩ := map_eq_some_iff.mp hstep
    exact h.of_inFlight_subset rfl rfl rfl rfl (fun _ hmem => hmem) le_rfl

/-! ### Loads on the pool -/

/-- **The invariant of the loads**: each can still come to contain what had committed when
it started, and each that returned does. -/
structure LoadsInv (s : DocLog U) : Prop where
  running : ∀ load ∈ s.loads, s.LoadInv load
  complete : s.LoadsComplete

theorem loadsInv_empty : (empty : DocLog U).LoadsInv where
  running := by simp [empty]
  complete := by simp [empty, LoadsComplete]

theorem LoadInv.mono {load : PoolLoad U} (h : s.LoadInv load)
    (hcommitted : s.committed ⊆ s'.committed)
    (hrows : load.snapshot ≠ none → ∀ row ∈ s.rows, row ∈ load.base → row ∈ s'.rows) :
    s'.LoadInv load := by
  refine ⟨h.1.trans hcommitted, fun snapshot hsnapshot row hrow => ?_⟩
  refine (h.2 snapshot hsnapshot row hrow).imp_right fun ⟨hmem, hseq⟩ => ⟨?_, hseq⟩
  exact hrows (by simp [hsnapshot]) row hmem hrow

theorem LoadsInv.mono (h : s.LoadsInv) (hloads : s'.loads = s.loads)
    (hfinished : s'.finished = s.finished) (hcommitted : s.committed ⊆ s'.committed)
    (hrows : ∀ load ∈ s.loads, load.snapshot ≠ none → ∀ row ∈ s.rows, row ∈ load.base →
      row ∈ s'.rows) : s'.LoadsInv where
  running := by
    rw [hloads]
    exact fun load hload => (h.running load hload).mono hcommitted (hrows load hload)
  complete := by
    rw [LoadsComplete, hfinished]
    exact h.complete

theorem LoadsInv.loadReadsSnapshot {load : PoolLoad U} (h : s.LoadsInv) (hinv : s.Inv)
    (hload : load ∈ s.loads) : (s.loadReadsSnapshot load).LoadsInv where
  running := by
    simp only [DocLog.loadReadsSnapshot, mem_cons, forall_eq_or_imp]
    refine ⟨⟨(h.running load hload).1, ?_⟩, fun l hl => ?_⟩
    · rintro snapshot hsnapshot row hrow
      obtain rfl := some.inj hsnapshot
      -- what had committed is in the snapshot read or among the rows after it
      refine (hinv.kept row ((h.running load hload).1 hrow)).imp_right fun hmem => ?_
      exact ⟨hmem, hinv.rows_above row hmem⟩
    · exact (h.running l (mem_of_mem_erase hl)).mono (Finset.Subset.refl _)
        fun _ _ hmem _ => hmem
  complete := h.complete

theorem LoadsInv.loadReadsUpdates {load : PoolLoad U} {snapshot : Option (SnapshotRow U)}
    (h : s.LoadsInv) (hload : load ∈ s.loads) (hsnapshot : load.snapshot = some snapshot) :
    (s.loadReadsUpdates load snapshot).LoadsInv where
  running := fun l hl => h.running l (mem_of_mem_erase hl)
  complete := by
    simp only [LoadsComplete, DocLog.loadReadsUpdates, mem_cons, forall_eq_or_imp]
    refine ⟨fun row hrow => ?_, h.complete⟩
    exact mem_loadDoc.mpr ((h.running load hload).2 snapshot hsnapshot row hrow)

/-- **The step lemma for loads.** Every step that is not a compaction committing around a
load keeps their invariant. -/
theorem LoadsInv.step {e : DocEvent U} (h : s.LoadsInv) (hinv : s.Inv) (htorn : ¬ s.TornLoad e)
    (hstep : s.step e = some s') : s'.LoadsInv := by
  have hstays : ∀ load ∈ s.loads, load.snapshot ≠ none → ∀ row ∈ s.rows, row ∈ load.base →
      row ∈ s.rows := fun _ _ _ _ hrow _ => hrow
  cases e with
  | beginAppend payload =>
    obtain rfl := some.inj hstep
    exact h.mono rfl rfl (Finset.Subset.refl _) hstays
  | commitAppend seq =>
    obtain ⟨r, -, rfl⟩ := map_eq_some_iff.mp hstep
    exact h.mono rfl rfl (Finset.subset_insert _ _) fun _ _ _ row hrow _ =>
      mem_append_left _ hrow
  | abortAppend seq =>
    obtain ⟨r, -, rfl⟩ := map_eq_some_iff.mp hstep
    exact h.mono rfl rfl (Finset.Subset.refl _) hstays
  | skipSeq =>
    obtain rfl := some.inj hstep
    exact h.mono rfl rfl (Finset.Subset.refl _) hstays
  | lockCompaction | compactionReadsSnapshot | compactionReadsUpdates | compactionDeletes |
      rollbackCompaction =>
    simp only [DocLog.step] at hstep
    split at hstep
    · obtain rfl := some.inj hstep
      exact h.mono rfl rfl (Finset.Subset.refl _) hstays
    · simp at hstep
  | commitCompaction =>
    simp only [DocLog.step] at hstep
    split at hstep
    · rename_i loaded gone hstage
      obtain rfl := some.inj hstep
      refine h.mono rfl rfl (Finset.Subset.refl _) fun load hload hread row hrow hbase => ?_
      refine mem_filter.mpr ⟨hrow, decide_eq_true fun hv => htorn ?_⟩
      exact ⟨rfl, load, hload, hread, row, hrow, hbase, by simpa [victims, hstage] using hv⟩
    · simp at hstep
  | startLoad id =>
    obtain rfl := some.inj hstep
    refine ⟨?_, h.complete⟩
    simp only [mem_cons, forall_eq_or_imp]
    exact ⟨⟨Finset.Subset.refl _, by simp⟩, h.running⟩
  | loadReadsSnapshot id =>
    obtain ⟨load, hload, rfl⟩ := map_eq_some_iff.mp hstep
    exact h.loadReadsSnapshot hinv (List.mem_of_find?_eq_some hload)
  | loadReadsUpdates id =>
    obtain ⟨load, hload, hstep⟩ := bind_eq_some_iff.mp hstep
    obtain ⟨snapshot, hsnapshot, rfl⟩ := map_eq_some_iff.mp hstep
    exact h.loadReadsUpdates (List.mem_of_find?_eq_some hload) hsnapshot

/-! ### Runs -/

theorem inv_of_reachesWhen (h : (docLog U).ReachesWhen (fun s e => ¬ s.LateNumber e) s) :
    s.Inv :=
  h.invariant (fun _ h₀ => h₀ ▸ inv_empty) fun _ _ _ hinv hlate hstep => hinv.step hlate hstep

/-- **No update is lost** in any run in which no compaction reads the rows while an append
that took a lower number than one of them is still to commit. -/
theorem keepsCommitted_of_reachesWhen
    (h : (docLog U).ReachesWhen (fun s e => ¬ s.LateNumber e) s) : s.KeepsCommitted :=
  (inv_of_reachesWhen h).keepsCommitted

/-- **Loads are complete** in any run in which, besides, no compaction commits between the
two statements of a load and deletes a row that load was to find. -/
theorem loadsComplete_of_reachesWhen
    (h : (docLog U).ReachesWhen (fun s e => ¬ s.LateNumber e ∧ ¬ s.TornLoad e) s) :
    s.LoadsComplete := by
  have hboth : s.Inv ∧ s.LoadsInv := by
    refine h.invariant (I := fun s => s.Inv ∧ s.LoadsInv) ?_ ?_
    · rintro _ rfl
      exact ⟨inv_empty, loadsInv_empty⟩
    · rintro s e s' ⟨hinv, hloads⟩ ⟨hlate, htorn⟩ hstep
      exact ⟨hinv.step hlate hstep, hloads.step hinv htorn hstep⟩
  exact hboth.2.complete

/-! ### Runs that meet the conditions, and runs that do not -/

instance (s : DocLog U) : Decidable s.KeepsCommitted :=
  inferInstanceAs (Decidable (s.committed ⊆ _))

instance (s : DocLog U) : Decidable s.LoadsComplete :=
  inferInstanceAs (Decidable (∀ f ∈ s.finished, f.base ⊆ f.loaded.doc))

instance (s : DocLog U) (e : DocEvent U) : Decidable (s.LateNumber e) :=
  inferInstanceAs (Decidable (_ ∧ ∃ late ∈ s.inFlight, ∃ row ∈ s.rows, _))

instance (s : DocLog U) (e : DocEvent U) : Decidable (s.TornLoad e) :=
  inferInstanceAs (Decidable (_ ∧ ∃ load ∈ s.loads, _ ∧ ∃ row ∈ s.rows, _ ∧ _))

/-- Two appends commit and a third overlaps the compaction that folds them. -/
def overlappingRun : List (DocEvent ℕ) :=
  [.beginAppend 0, .beginAppend 1, .commitAppend 2, .commitAppend 1, .lockCompaction,
    .compactionReadsSnapshot, .compactionReadsUpdates, .beginAppend 2, .commitAppend 3,
    .compactionDeletes, .commitCompaction]

theorem keepsCommitted_of_reachesWhen_overlappingRun :
    ∃ s, (docLog ℕ).runWhen (fun s e => ¬ s.LateNumber e) .empty overlappingRun = some s ∧
      s.KeepsCommitted := by
  have hsome : ((docLog ℕ).runWhen (fun s e => ¬ s.LateNumber e) .empty
    overlappingRun).isSome = true := by decide
  obtain ⟨s, hs⟩ := isSome_iff_exists.mp hsome
  exact ⟨s, hs, keepsCommitted_of_reachesWhen (Machine.reachesWhen_of_runWhen rfl hs)⟩

/-- **An update is lost**: the append with the lower number commits after the compaction
that read the higher one. -/
theorem not_keepsCommitted :
    ¬ ∀ s, (docLog ℕ).Reaches s → s.KeepsCommitted := by
  intro h
  have hlost : ∃ s, (docLog ℕ).Reaches s ∧ ¬ s.KeepsCommitted :=
    Machine.exists_reachesWhen_of_runWhen
      [.beginAppend 0, .beginAppend 1, .commitAppend 2, .lockCompaction,
        .compactionReadsSnapshot, .compactionReadsUpdates, .compactionDeletes,
        .commitCompaction, .commitAppend 1] rfl (by decide)
  obtain ⟨s, hs, hnot⟩ := hlost
  exact hnot (h s hs)

/-- A load reads around a compaction that had committed before its first statement, and
around an append that commits between its two. -/
def overlappingLoad : List (DocEvent ℕ) :=
  [.beginAppend 0, .commitAppend 1, .startLoad 0, .lockCompaction, .compactionReadsSnapshot,
    .compactionReadsUpdates, .compactionDeletes, .commitCompaction, .loadReadsSnapshot 0,
    .beginAppend 1, .commitAppend 2, .loadReadsUpdates 0]

theorem loadsComplete_of_reachesWhen_overlappingLoad :
    ∃ s, (docLog ℕ).runWhen (fun s e => ¬ s.LateNumber e ∧ ¬ s.TornLoad e) .empty
      overlappingLoad = some s ∧ s.LoadsComplete := by
  have hsome : ((docLog ℕ).runWhen (fun s e => ¬ s.LateNumber e ∧ ¬ s.TornLoad e) .empty
    overlappingLoad).isSome = true := by decide
  obtain ⟨s, hs⟩ := isSome_iff_exists.mp hsome
  exact ⟨s, hs, loadsComplete_of_reachesWhen (Machine.reachesWhen_of_runWhen rfl hs)⟩

/-- **A load comes back short**: it reads no snapshot, the compaction moves the only row
into one, and it reads no row. -/
theorem not_loadsComplete :
    ¬ ∀ s, (docLog ℕ).Reaches s → s.LoadsComplete := by
  intro h
  have hshort : ∃ s, (docLog ℕ).Reaches s ∧ ¬ s.LoadsComplete :=
    Machine.exists_reachesWhen_of_runWhen
      [.beginAppend 0, .commitAppend 1, .startLoad 0, .loadReadsSnapshot 0, .lockCompaction,
        .compactionReadsSnapshot, .compactionReadsUpdates, .compactionDeletes,
        .commitCompaction, .loadReadsUpdates 0] rfl (by decide)
  obtain ⟨s, hs, hnot⟩ := hshort
  exact hnot (h s hs)

end DocLog

end Sone
