import Sone.Access.Claims
import Sone.Pages.Materialize

/-!
# Archiving a page, and the trash

`DELETE /api/pages/:pageId` (`http/pages.ts`) writes `archivedAt` into the documents of a page
and of all that is under it, and then stamps the rows of those that were not archived yet. The
projection takes `archived_at` from the document, so that the two agree as long as no page of
the subtree had been archived at another time: of one that had, the document gets the new time
and the row keeps the old one (`agrees_archive_iff`). The next projection of that page gives
its row the time of the page above, and the trash, which lists what shares its time with
nothing above it, drops its entry.
-/

namespace Sone

open List Option

structure PageTree where
  docs : PageDocuments
  rows : PageTable

namespace PageDocuments

/-- `applyToDocument`, for the key of the archive. -/
def setArchivedAt (docs : PageDocuments) (archivedAt : Option Time) (id : Uuid) : PageDocuments :=
  Keyed.upsert docs { docs.load id with archivedAt }

variable {docs : PageDocuments} {id : Uuid}

theorem load_setArchivedAt (archivedAt : Option Time) (other : Uuid) :
    (docs.setArchivedAt archivedAt other).load id =
      if other = id then { docs.load id with archivedAt } else docs.load id := by
  have hkey : ({ docs.load other with archivedAt } : ReadPage).id = other := load_id docs other
  rw [load, setArchivedAt, Keyed.find_upsert, hkey]
  by_cases hid : other = id
  · subst hid
    simp
  · rw [if_neg hid, if_neg hid, load]

theorem load_foldl_setArchivedAt (archivedAt : Option Time) (ids : List Uuid) :
    (ids.foldl (setArchivedAt · archivedAt) docs).load id =
      if id ∈ ids then { docs.load id with archivedAt } else docs.load id := by
  induction ids generalizing docs with
  | nil => simp
  | cons first rest ih =>
    rw [foldl_cons, ih, load_setArchivedAt]
    by_cases hfirst : first = id
    · simp [hfirst]
    · simp [hfirst, Ne.symm hfirst]

end PageDocuments

/-- The row a statement stamps: one that is not archived, of the page or under it. -/
def PageTreeRow.stamp (pageId : Uuid) (now : Time) (row : PageTreeRow) : PageTreeRow :=
  if row.archivedAt = none ∧ row.IsWithin pageId then { row with archivedAt := some now } else row

namespace PageTree

def setArchivedInDocuments (tree : PageTree) (pageId : Uuid) (archivedAt : Option Time) :
    PageDocuments :=
  (tree.rows.subtreeIds pageId).foldl (PageDocuments.setArchivedAt · archivedAt) tree.docs

/-- `DELETE /api/pages/:pageId`, once it is allowed. -/
def archive (tree : PageTree) (pageId : Uuid) (now : Time) : PageTree where
  docs := tree.setArchivedInDocuments pageId (some now)
  rows := Keyed.modify tree.rows (PageTreeRow.stamp pageId now) fun row => by
    rw [PageTreeRow.stamp]
    split <;> rfl

def rematerialize (tree : PageTree) (pageId workspaceId : Uuid) : PageTree where
  docs := tree.docs
  rows := (materializeDocument tree.rows (tree.docs.load pageId) workspaceId).1

/-- The documents and the rows **agree** on what is archived. -/
def Agrees (tree : PageTree) : Prop :=
  ∀ row ∈ tree.rows.rows, (tree.docs.load row.id).archivedAt = row.archivedAt

/-- To re-materialise a page leaves its `archived_at`. -/
def KeepsArchivedAt (tree : PageTree) : Prop :=
  ∀ row ∈ tree.rows.rows, ∀ workspaceId,
    (Keyed.find (tree.rematerialize row.id workspaceId).rows row.id).map (·.archivedAt) =
      some row.archivedAt

/-- **What an archive must find**: nothing of the subtree archived at another time, and
elsewhere documents and rows that agree. -/
def IsUnmixed (tree : PageTree) (pageId : Uuid) (now : Time) : Prop :=
  ∀ row ∈ tree.rows.rows,
    if row.IsWithin pageId then row.archivedAt = none ∨ row.archivedAt = some now
    else (tree.docs.load row.id).archivedAt = row.archivedAt

variable {tree : PageTree} {pageId workspaceId : Uuid} {now : Time} {row : PageTreeRow}

/-! ### The documents and the rows after an archive -/

theorem archivedAt_rematerialize (tree : PageTree) (pageId workspaceId : Uuid) :
    (Keyed.find (tree.rematerialize pageId workspaceId).rows pageId).map (·.archivedAt) =
      some (tree.docs.load pageId).archivedAt := by
  obtain ⟨found, -, hfind⟩ :=
    PageTable.find_materializeDocument tree.rows (tree.docs.load pageId) workspaceId
  have hid : (tree.docs.load pageId).id = pageId := PageDocuments.load_id _ _
  rw [rematerialize, hfind, if_pos hid, map_some, map_some]
  rw [PageTable.rewrite]
  split <;> rfl

theorem keepsArchivedAt_iff : tree.KeepsArchivedAt ↔ tree.Agrees := by
  simp only [KeepsArchivedAt, Agrees, archivedAt_rematerialize, Option.some.injEq, forall_const]

theorem load_archive (hrow : row ∈ tree.rows.rows) :
    (tree.archive pageId now).docs.load row.id =
      if row.IsWithin pageId then { tree.docs.load row.id with archivedAt := some now }
      else tree.docs.load row.id := by
  have hmem : row.id ∈ tree.rows.subtreeIds pageId ↔ row.IsWithin pageId := by
    rw [PageTable.subtreeIds, List.mem_map]
    constructor
    · rintro ⟨other, hother, hid⟩
      obtain ⟨hotherRow, hwithin⟩ := mem_filter.mp hother
      obtain rfl := inj_on_of_nodup_map tree.rows.nodup hotherRow hrow hid
      exact of_decide_eq_true hwithin
    · exact fun hwithin => ⟨row, mem_filter.mpr ⟨hrow, decide_eq_true hwithin⟩, rfl⟩
  rw [archive, setArchivedInDocuments]
  simp only [PageDocuments.load_foldl_setArchivedAt, hmem]

/-- **What an archive leaves**: the documents and the rows agree exactly where nothing of the
subtree had been archived at another time. -/
theorem agrees_archive_iff : (tree.archive pageId now).Agrees ↔ tree.IsUnmixed pageId now := by
  have hrow : ∀ row ∈ tree.rows.rows,
      ((tree.archive pageId now).docs.load row.id).archivedAt = (row.stamp pageId now).archivedAt ↔
        if row.IsWithin pageId then row.archivedAt = none ∨ row.archivedAt = some now
        else (tree.docs.load row.id).archivedAt = row.archivedAt := by
    intro row hrow
    rw [load_archive hrow, PageTreeRow.stamp]
    by_cases hwithin : row.IsWithin pageId
    · by_cases hnone : row.archivedAt = none
      · simp [hwithin, hnone]
      · simp [hwithin, hnone, eq_comm]
    · simp [hwithin]
  have hid : ∀ row : PageTreeRow, (row.stamp pageId now).id = row.id := by
    intro row
    rw [PageTreeRow.stamp]
    split <;> rfl
  simp only [Agrees, archive, Keyed.modify, List.forall_mem_map, hid]
  exact forall₂_congr hrow

end PageTree

/-! ### The trash -/

structure TrashEntry where
  id : Uuid
  kind : EntryKind
  archivedAt : Time
  /-- How many archived pages are under it. -/
  descendants : ℕ
  /-- Whether its parent is gone, or archived. -/
  parentMissing : Bool
  deriving DecidableEq, Repr

namespace PageTable

variable (t : PageTable)

/-- A row **is listed** in the trash: it is archived, and shares its time with nothing above
it. -/
def IsListed (row : PageTreeRow) : Prop :=
  row.archivedAt ≠ none ∧
    ¬ ∃ a ∈ t.rows, a.id ∈ row.ancestorIds ∧ a.archivedAt = row.archivedAt

instance (row : PageTreeRow) : Decidable (t.IsListed row) :=
  inferInstanceAs (Decidable (_ ∧ _))

def isVisible (claims : AccessClaims) (workspaceId : Uuid) (row : PageTreeRow) : Bool :=
  (effectiveRole claims
    ⟨row.id, workspaceId, row.ancestorIds, restrictedAt t.tables row.path⟩).isSome

def trashEntry (row : PageTreeRow) : Option TrashEntry :=
  row.archivedAt.map fun archivedAt => {
    id := row.id
    kind := if row.kind = .folder ∨ row.kind = .canvas then row.kind else .page
    archivedAt
    descendants := (t.rows.filter fun c => row.id ∈ c.ancestorIds ∧ c.archivedAt ≠ none).length
    parentMissing := row.parentPageId.any fun parentId =>
      !t.rows.any fun q => q.id = parentId ∧ q.archivedAt = none }

/-- `GET /api/workspaces/:workspaceId/trash`. -/
def trash (claims : AccessClaims) (workspaceId : Uuid) : List TrashEntry :=
  (((t.rows.filter fun row => row.workspaceId = workspaceId ∧ t.IsListed row).mergeSort
    fun a b => b.archivedAt.getD 0 ≤ a.archivedAt.getD 0).filter
      (t.isVisible claims workspaceId)).filterMap t.trashEntry

variable {t} {claims : AccessClaims} {workspaceId : Uuid} {entry : TrashEntry}

theorem mem_trash_iff : entry ∈ t.trash claims workspaceId ↔ ∃ row ∈ t.rows,
    row.workspaceId = workspaceId ∧ t.IsListed row ∧ t.isVisible claims workspaceId row = true ∧
      t.trashEntry row = some entry := by
  simp only [trash, mem_filterMap, mem_filter, mem_mergeSort, decide_eq_true_eq,
    and_assoc]

end PageTable

namespace PageTree

variable {tree : PageTree} {pageId workspaceId : Uuid} {now : Time} {row : PageTreeRow}

def IsInPlace (tree : PageTree) (pageId workspaceId : Uuid) : Prop :=
  (Keyed.find tree.rows pageId).map PageTreeRow.place =
    some (tree.rows.placeFor (tree.docs.load pageId) workspaceId)

/-- An archive **keeps the entries** of the trash: one that was archived at another time, and
whose page is then re-materialised where it is, is listed with its own time. -/
def KeepsEntries (tree : PageTree) (pageId : Uuid) (now : Time) : Prop :=
  ∀ claims workspaceId, ∀ entry ∈ tree.rows.trash claims workspaceId, entry.archivedAt ≠ now →
    (tree.archive pageId now).IsInPlace entry.id workspaceId →
      ∃ kept ∈ ((tree.archive pageId now).rematerialize entry.id workspaceId).rows.trash claims
        workspaceId, kept.id = entry.id ∧ kept.archivedAt = entry.archivedAt

theorem rows_rematerialize (hrow : Keyed.find tree.rows pageId = some row)
    (hplace : tree.IsInPlace pageId workspaceId) :
    (tree.rematerialize pageId workspaceId).rows =
      Keyed.upsert tree.rows
        (projectedRow (some row) (tree.docs.load pageId) workspaceId row.place) := by
  rw [IsInPlace, hrow, map_some, Option.some.injEq] at hplace
  rw [rematerialize, materializeDocument]
  simp only [PageDocuments.load_id, hrow, ← hplace, any_some]
  rw [if_neg (by simp [PageTreeRow.place])]

theorem toPageRow_projectedRow {doc : ReadPage} (hid : doc.id = row.id) :
    (projectedRow (some row) doc workspaceId row.place).toPageRow = row.toPageRow := by
  rw [projectedRow, hid]
  rfl

theorem tables_archive : (tree.archive pageId now).rows.tables = tree.rows.tables := by
  have hrow : ∀ row : PageTreeRow, (row.stamp pageId now).toPageRow = row.toPageRow := by
    intro row
    rw [PageTreeRow.stamp]
    split <;> rfl
  simp only [PageTable.tables, archive, Keyed.modify, List.map_map, Function.comp_def, hrow]

theorem mem_of_mem_archive {a : PageTreeRow} (ha : a ∈ (tree.archive pageId now).rows.rows)
    (hne : a.archivedAt ≠ some now) :
    a ∈ tree.rows.rows := by
  obtain ⟨before, hbefore, rfl⟩ := List.mem_map.mp ha
  unfold PageTreeRow.stamp at hne ⊢
  split at hne
  · exact absurd rfl hne
  · rename_i hnot
    rwa [if_neg hnot]

theorem keepsEntries_of_agrees (h : (tree.archive pageId now).Agrees) :
    tree.KeepsEntries pageId now := by
  intro claims workspaceId entry hentry hne hplace
  obtain ⟨row, hrow, hworkspace, ⟨harchived, halone⟩, hvisible, hsent⟩ :=
    PageTable.mem_trash_iff.mp hentry
  obtain ⟨time, htime, rfl⟩ := map_eq_some_iff.mp hsent
  -- the archive leaves the row, and so does the projection
  have hstamp : row.stamp pageId now = row := if_neg fun hboth => harchived hboth.1
  have hafter : row ∈ (tree.archive pageId now).rows.rows :=
    hstamp ▸ List.mem_map_of_mem hrow
  have hdoc := h row hafter
  obtain ⟨projected, hrows, hsame, htime'⟩ : ∃ projected : PageTreeRow,
      ((tree.archive pageId now).rematerialize row.id workspaceId).rows =
        Keyed.upsert (tree.archive pageId now).rows projected ∧
      projected.toPageRow = row.toPageRow ∧ projected.archivedAt = row.archivedAt := by
    exact ⟨_, rows_rematerialize (Keyed.mem_rows_iff.mp hafter) hplace,
      toPageRow_projectedRow (PageDocuments.load_id _ _), hdoc⟩
  have hid : projected.id = row.id := congrArg PageRow.id hsame
  have hfind : Keyed.find (tree.archive pageId now).rows projected.id = some row := by
    rw [hid]
    exact Keyed.mem_rows_iff.mp hafter
  let after : PageTable := Keyed.upsert (tree.archive pageId now).rows projected
  have htables : after.tables = tree.rows.tables := by
    rw [← @tables_archive tree pageId now, PageTable.tables, PageTable.tables,
      Keyed.map_upsert hfind hsame]
  have hmem : projected ∈ after.rows :=
    Keyed.mem_rows_iff.mpr (by rw [Keyed.find_upsert, if_pos rfl])
  have hpath : projected.ancestorIds = row.ancestorIds := congrArg PageRow.ancestorIds hsame
  have hlisted : after.IsListed projected := by
    refine ⟨htime'.symm ▸ harchived, ?_⟩
    rintro ⟨a, ha, habove, hshares⟩
    rw [Keyed.mem_rows_iff, Keyed.find_upsert] at ha
    rw [hpath] at habove
    rw [htime'] at hshares
    split at ha
    · -- the row itself
      obtain rfl := some.inj ha
      exact halone ⟨row, hrow, hid ▸ habove, rfl⟩
    · refine halone ⟨a, mem_of_mem_archive (Keyed.mem_rows ha) ?_, habove, hshares⟩
      rw [hshares, htime, Ne, Option.some.injEq]
      exact hne
  have hvisibleAfter : after.isVisible claims workspaceId projected = true := by
    rw [← hvisible, PageTable.isVisible, PageTable.isVisible, htables, hsame]
  obtain ⟨kept, hkept, hkeptId, hkeptTime⟩ : ∃ kept, after.trashEntry projected = some kept ∧
      kept.id = row.id ∧ kept.archivedAt = time := by
    rw [PageTable.trashEntry, htime', htime]
    exact ⟨_, rfl, hid, rfl⟩
  rw [hrows]
  exact ⟨kept, PageTable.mem_trash_iff.mpr ⟨projected, hmem,
    (congrArg PageRow.workspaceId hsame).trans hworkspace, hlisted, hvisibleAfter, hkept⟩,
    hkeptId, hkeptTime⟩

/-- **An archive leaves the documents and the rows agreeing**, so that to re-materialise a page
leaves its `archived_at`, and what was trashed on its own keeps its time and its entry: exactly
where they agreed outside the subtree, and nothing in it had been archived at another time. -/
theorem keeps_archive_iff :
    ((tree.archive pageId now).KeepsArchivedAt ∧ tree.KeepsEntries pageId now) ↔
      tree.IsUnmixed pageId now := by
  rw [keepsArchivedAt_iff, ← agrees_archive_iff]
  exact ⟨fun h => h.1, fun h => ⟨h, keepsEntries_of_agrees h⟩⟩

/-! ### A page trashed before its folder -/

def trashedPage : PageTree where
  docs := {
    rows := [⟨1, .folder, none, none, "a0", none⟩, ⟨2, .page, some 1, none, "a0", some 10⟩]
    nodup := by decide }
  rows := {
    rows := [⟨⟨1, 7, none, [], false⟩, "a0", .folder, none, none⟩,
      ⟨⟨2, 7, some 1, [1], false⟩, "a0", .page, none, some 10⟩]
    nodup := by decide }

def editorClaims : AccessClaims := ⟨.user 9 "Ada", 7, some .member, some .editor, [], []⟩

/-- **An archive can merge two entries of the trash**: the page was archived on its own, and
then its folder is; the document of the page gets the time of the folder, and so does its row
when it is next projected. -/
theorem not_keeps_archive :
    ¬ (∀ tree pageId now, Agrees tree → (tree.archive pageId now).KeepsArchivedAt) ∧
      ¬ ∀ tree pageId now, Agrees tree → tree.KeepsEntries pageId now := by
  have hagrees : trashedPage.Agrees := by
    rw [Agrees]
    decide +kernel
  constructor
  · intro hall
    have hkeeps := hall trashedPage 1 20 hagrees
      ⟨⟨2, 7, some 1, [1], false⟩, "a0", .page, none, some 10⟩ (by decide +kernel) 7
    exact absurd hkeeps (by decide +kernel)
  · intro hall
    have hlisted : (⟨2, .page, 10, 0, false⟩ : TrashEntry) ∈
        trashedPage.rows.trash editorClaims 7 := by
      decide +kernel
    obtain ⟨kept, hkept, hid, -⟩ := hall trashedPage 1 20 hagrees editorClaims 7 _ hlisted
      (by decide) (by unfold IsInPlace; decide +kernel)
    have hentries : (((trashedPage.archive 1 20).rematerialize 2 7).rows.trash editorClaims 7).map
        (·.id) = [1] := by
      decide +kernel
    have hmem := List.mem_map_of_mem (f := TrashEntry.id) hkept
    rw [hentries, mem_singleton] at hmem
    exact absurd (hid.symm.trans hmem) (by decide)

end PageTree

end Sone
