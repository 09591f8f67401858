import Sone.Transition.Machine
import Sone.Pages.Archive

/-!
# Archiving the rows of a collection

The rows of a collection go to the trash in two ways of their own (`http/collections.ts`): the
named ones (`POST /api/collections/:collectionId/rows/archive`), or all there are
(`DELETE /api/collections/:collectionId/rows`). Both stamp the rows of `pages` and write no
document, where `DELETE /api/pages/:pageId` writes the documents first. The projection takes
`archived_at` from the document, so that what comes after decides: `laterRuns` are the
projections, the edits of other keys and the further archives, in any order.

`staysInTrash_iff`: the rows stay in the trash through all of these exactly where each of their
documents had the key already.
-/

namespace Sone

open Option

/-- `collection_id = $1 AND kind = 'row' AND archived_at IS NULL`. -/
def PageTreeRow.IsLiveRowOf (collectionId : Uuid) (row : PageTreeRow) : Prop :=
  row.collectionId = some collectionId ∧ row.kind = .row ∧ row.archivedAt = none

instance PageTreeRow.decidableIsLiveRowOf (collectionId : Uuid) (row : PageTreeRow) :
    Decidable (row.IsLiveRowOf collectionId) :=
  inferInstanceAs (Decidable (_ ∧ _ ∧ _))

/-- `UPDATE pages SET archived_at = now()`, of one row. -/
def PageTreeRow.archiveIf (p : PageTreeRow → Bool) (now : Time) (row : PageTreeRow) :
    PageTreeRow :=
  if p row then { row with archivedAt := some now } else row

namespace PageTree

/-- The statement of both routes: the rows it takes are stamped, and their ids returned. -/
def archiveWhere (tree : PageTree) (p : PageTreeRow → Bool) (now : Time) :
    PageTree × List Uuid :=
  ({ tree with
      rows := Keyed.modify tree.rows (PageTreeRow.archiveIf p now) fun row => by
        rw [PageTreeRow.archiveIf]
        split <;> rfl },
    (tree.rows.rows.filter p).map (·.id))

/-- `POST /api/collections/:collectionId/rows/archive`, once it is allowed. -/
def archiveRows (tree : PageTree) (collectionId : Uuid) (rowIds : List Uuid) (now : Time) :
    PageTree × List Uuid :=
  tree.archiveWhere (fun row => row.IsLiveRowOf collectionId ∧ row.id ∈ rowIds) now

/-- `DELETE /api/collections/:collectionId/rows`, once it is allowed. -/
def emptyCollection (tree : PageTree) (collectionId : Uuid) (now : Time) :
    PageTree × List Uuid :=
  tree.archiveWhere (fun row => row.IsLiveRowOf collectionId) now

/-- A document is written, with whatever keys, but for the one of the archive. -/
def edit (tree : PageTree) (doc : ReadPage) : PageTree where
  docs := Keyed.upsert tree.docs { doc with archivedAt := (tree.docs.load doc.id).archivedAt }
  rows := tree.rows

/-- What happens to pages that are not restored. -/
inductive Later where
  /-- A projection: after an edit, or by a job. -/
  | rematerialize (pageId workspaceId : Uuid)
  | edit (doc : ReadPage)
  | archive (pageId : Uuid) (now : Time)
  | archiveRows (collectionId : Uuid) (rowIds : List Uuid) (now : Time)
  | emptyCollection (collectionId : Uuid) (now : Time)

def later (tree : PageTree) : Later → PageTree
  | .rematerialize pageId workspaceId => tree.rematerialize pageId workspaceId
  | .edit doc => tree.edit doc
  | .archive pageId now => tree.archive pageId now
  | .archiveRows collectionId rowIds now => (tree.archiveRows collectionId rowIds now).1
  | .emptyCollection collectionId now => (tree.emptyCollection collectionId now).1

def laterRuns (tree : PageTree) : Machine PageTree Later where
  init s := s = tree
  step s op := some (s.later op)

/-- A page **is in the trash**: it is archived, and has an entry or shares the time of something
above it. -/
def IsInTrash (tree : PageTree) (id : Uuid) : Prop :=
  ∃ row ∈ Keyed.find tree.rows id, row.archivedAt ≠ none ∧ (tree.rows.IsListed row ∨
    ∃ a ∈ tree.rows.rows, a.id ∈ row.ancestorIds ∧ a.archivedAt = row.archivedAt)

/-- What a route archived **stays in the trash**, whatever comes after. -/
def StaysInTrash (out : PageTree × List Uuid) : Prop :=
  ∀ s, out.1.laterRuns.Reaches s → ∀ id ∈ out.2, s.IsInTrash id

/-- The rows have **documents that are archived**. -/
def HaveArchivedDocs (tree : PageTree) (p : PageTreeRow → Bool) : Prop :=
  ∀ row ∈ tree.rows.rows, p row = true → (tree.docs.load row.id).archivedAt ≠ none

variable {tree : PageTree} {p : PageTreeRow → Bool} {now : Time} {id : Uuid}

/-- The row and the document of a page are archived. -/
def IsKept (tree : PageTree) (id : Uuid) : Prop :=
  (tree.docs.load id).archivedAt ≠ none ∧
    ∃ row, Keyed.find tree.rows id = some row ∧ row.archivedAt ≠ none

/-! ### What the operations do to a page -/

theorem isInTrash_iff :
    tree.IsInTrash id ↔ ∃ row, Keyed.find tree.rows id = some row ∧ row.archivedAt ≠ none := by
  refine exists_congr fun row => and_congr_right fun _ => ⟨fun h => h.1, fun h => ⟨h, ?_⟩⟩
  by_cases hshared : ∃ a ∈ tree.rows.rows, a.id ∈ row.ancestorIds ∧ a.archivedAt = row.archivedAt
  · exact .inr hshared
  · exact .inl ⟨h, hshared⟩

theorem archiveIf_ne_none {row : PageTreeRow} (h : row.archivedAt ≠ none) :
    (row.archiveIf p now).archivedAt ≠ none := by
  rw [PageTreeRow.archiveIf]
  split
  · simp
  · exact h

theorem IsKept.archiveWhere (h : tree.IsKept id) : (tree.archiveWhere p now).1.IsKept id := by
  obtain ⟨hdoc, row, hrow, harchived⟩ := h
  refine ⟨hdoc, row.archiveIf p now, ?_, archiveIf_ne_none harchived⟩
  rw [PageTree.archiveWhere, Keyed.find_modify, hrow, map_some]

theorem IsKept.rematerialize (h : tree.IsKept id) (pageId workspaceId : Uuid) :
    (tree.rematerialize pageId workspaceId).IsKept id := by
  obtain ⟨hdoc, row, hrow, harchived⟩ := h
  refine ⟨hdoc, ?_⟩
  by_cases hid : pageId = id
  · subst hid
    have hwritten := archivedAt_rematerialize tree pageId workspaceId
    obtain ⟨written, hfind, htime⟩ := map_eq_some_iff.mp hwritten
    exact ⟨written, hfind, htime ▸ hdoc⟩
  · obtain ⟨found, -, hfind⟩ :=
      PageTable.find_materializeDocument tree.rows (tree.docs.load pageId) workspaceId
    refine ⟨PageTable.rewrite found row, ?_, ?_⟩
    · rw [PageTree.rematerialize, hfind, PageDocuments.load_id, if_neg hid, hrow, map_some]
    · rw [PageTable.rewrite]
      split <;> exact harchived

theorem IsKept.edit (h : tree.IsKept id) (doc : ReadPage) : (tree.edit doc).IsKept id := by
  refine ⟨?_, h.2⟩
  rw [PageTree.edit, PageDocuments.load, Keyed.find_upsert]
  split
  · rename_i hid
    rw [getD_some, show doc.id = id from hid]
    exact h.1
  · exact h.1

theorem IsKept.archive (h : tree.IsKept id) (pageId : Uuid) (now : Time) :
    (tree.archive pageId now).IsKept id := by
  obtain ⟨hdoc, row, hrow, harchived⟩ := h
  constructor
  · rw [PageTree.archive, setArchivedInDocuments, PageDocuments.load_foldl_setArchivedAt]
    split
    · simp
    · exact hdoc
  · refine ⟨row.stamp pageId now, ?_, ?_⟩
    · rw [PageTree.archive, Keyed.find_modify, hrow, map_some]
    · rw [PageTreeRow.stamp, if_neg fun hboth => harchived hboth.1]
      exact harchived

theorem IsKept.later (h : tree.IsKept id) (op : Later) : (tree.later op).IsKept id := by
  cases op with
  | rematerialize pageId workspaceId => exact h.rematerialize pageId workspaceId
  | edit doc => exact h.edit doc
  | archive pageId now => exact h.archive pageId now
  | archiveRows collectionId rowIds now => exact h.archiveWhere
  | emptyCollection collectionId now => exact h.archiveWhere

theorem isKept_of_reaches {s : PageTree} (h : tree.laterRuns.Reaches s) (hkept : tree.IsKept id) :
    s.IsKept id := by
  refine h.invariant (I := fun s => s.IsKept id) (fun s hs => hs ▸ hkept) fun s op s' hs hstep => ?_
  rw [← some.inj hstep]
  exact hs.later op

/-! ### What stays in the trash -/

theorem staysInTrash_archiveWhere_iff :
    StaysInTrash (tree.archiveWhere p now) ↔ tree.HaveArchivedDocs p := by
  constructor
  · intro h row hrow hp hdoc
    -- the next projection is that of the document
    let after := (tree.archiveWhere p now).1.rematerialize row.id row.workspaceId
    have hreach : (tree.archiveWhere p now).1.laterRuns.Reaches after :=
      Machine.ReachesWhen.next (Machine.ReachesWhen.start rfl)
        (e := Later.rematerialize row.id row.workspaceId) trivial rfl
    have hin := h after hreach row.id (List.mem_map_of_mem (List.mem_filter.mpr ⟨hrow, hp⟩))
    obtain ⟨written, hfind, harchived⟩ := isInTrash_iff.mp hin
    have htime := archivedAt_rematerialize (tree.archiveWhere p now).1 row.id row.workspaceId
    rw [show Keyed.find ((tree.archiveWhere p now).1.rematerialize row.id row.workspaceId).rows
      row.id = some written from hfind, map_some, Option.some.injEq] at htime
    exact harchived (htime.trans hdoc)
  · intro h s hs id hid
    obtain ⟨row, hmem, rfl⟩ := List.mem_map.mp hid
    obtain ⟨hrow, hp⟩ := List.mem_filter.mp hmem
    refine isInTrash_iff.mpr (isKept_of_reaches hs ⟨h row hrow hp, ?_⟩).2
    refine ⟨row.archiveIf p now, ?_, ?_⟩
    · rw [archiveWhere, Keyed.find_modify, Keyed.mem_rows_iff.mp hrow, map_some]
    · simp [PageTreeRow.archiveIf, hp]

/-- **The rows a route archives stay in the trash**, through all projections, edits and further
archives: exactly where their documents had been archived before. -/
theorem staysInTrash_iff (tree : PageTree) (collectionId : Uuid) (rowIds : List Uuid)
    (now : Time) :
    (StaysInTrash (tree.archiveRows collectionId rowIds now) ↔
      ∀ row ∈ tree.rows.rows, row.IsLiveRowOf collectionId → row.id ∈ rowIds →
        (tree.docs.load row.id).archivedAt ≠ none) ∧
    (StaysInTrash (tree.emptyCollection collectionId now) ↔
      ∀ row ∈ tree.rows.rows, row.IsLiveRowOf collectionId →
        (tree.docs.load row.id).archivedAt ≠ none) := by
  constructor
  · rw [archiveRows, staysInTrash_archiveWhere_iff]
    simp only [HaveArchivedDocs, decide_eq_true_eq, and_imp]
  · rw [emptyCollection, staysInTrash_archiveWhere_iff]
    simp only [HaveArchivedDocs, decide_eq_true_eq]

def tableWithRow : PageTree where
  docs := {
    rows := [⟨1, .page, none, none, "a0", none⟩, ⟨2, .row, some 1, some 5, "a0", none⟩]
    nodup := by decide }
  rows := {
    rows := [⟨⟨1, 7, none, [], false⟩, "a0", .page, none, none⟩,
      ⟨⟨2, 7, some 1, [1], false⟩, "a0", .row, some 5, none⟩]
    nodup := by decide }

/-- **A row that was archived comes back** with its next projection, by either route, also where
the documents and the rows had agreed. -/
theorem not_staysInTrash :
    (¬ ∀ tree collectionId rowIds now, Agrees tree →
      StaysInTrash (tree.archiveRows collectionId rowIds now)) ∧
    ¬ ∀ tree collectionId now, Agrees tree →
      StaysInTrash (tree.emptyCollection collectionId now) := by
  have hagrees : tableWithRow.Agrees := by
    rw [Agrees]
    decide +kernel
  constructor
  · intro hall
    have hdocs := staysInTrash_archiveWhere_iff.mp (hall tableWithRow 5 [2] 20 hagrees)
    exact hdocs ⟨⟨2, 7, some 1, [1], false⟩, "a0", .row, some 5, none⟩ (by decide) (by decide)
      (by decide +kernel)
  · intro hall
    have hdocs := staysInTrash_archiveWhere_iff.mp (hall tableWithRow 5 20 hagrees)
    exact hdocs ⟨⟨2, 7, some 1, [1], false⟩, "a0", .row, some 5, none⟩ (by decide) (by decide)
      (by decide +kernel)

end PageTree

end Sone
