import Sone.Pages.Moves

/-!
# Moving an entry to another workspace

`moveToWorkspace` (`pages/moveWorkspace.ts`) takes an entry and everything under it to another
workspace: a folder to its root, anything else into its first folder, last among what is there.
It rewrites the rows only. The document of the entry keeps the parent and the order key it had,
and the row is a projection of the document: `relocation` follows the entry through any number
of projections, permanent deletions in the workspace it left, and moves of other entries.

The order key of the document comes back with the first projection. Its parent comes back once
the projection does not refuse it any more: when the old parent has no row left, or has itself
come to the new workspace. `stable_of_reachesWhen` says that the entry stays where it was put
in every run in which neither happens (`Reverts`).
-/

namespace Sone

open List Option

/-- A row of `files`, `page_search`, `page_tags` or `collections`: it belongs to a page, and is
scoped to a workspace. -/
structure ScopedRow where
  pageId : Option Uuid
  workspaceId : Uuid

/-- `page_relations`. -/
structure PageRelationRow where
  fromPageId : Uuid
  toPageId : Uuid

/-- `favourites`. -/
structure FavouriteRow where
  userId : Uuid
  pageId : Uuid

/-- `workspace_landing`. -/
structure LandingRow where
  pageId : Option Uuid
  lastPageId : Option Uuid

structure MoveTables where
  pages : PageTable
  pagePermissions : List PagePermissionRow := []
  pageGroupPermissions : List PageGroupPermissionRow := []
  shareTokens : List ShareTokenRow := []
  pageRelations : List PageRelationRow := []
  favourites : List FavouriteRow := []
  workspaceMembers : List WorkspaceMemberRow := []
  workspaceLanding : List LandingRow := []
  files : List ScopedRow := []
  pageSearch : List ScopedRow := []
  pageTags : List ScopedRow := []
  collections : List ScopedRow := []

structure MoveCost where
  /-- Pages in the subtree, including the one being moved. -/
  pages : ℕ
  files : ℕ
  /-- Share links that will stop working. -/
  shareLinks : ℕ
  /-- Pages that will arrive without the restriction they have. -/
  restrictions : ℕ
  /-- References to or from pages that stay behind. -/
  references : ℕ
  /-- Favourites of people who are not members there. -/
  favourites : ℕ
  deriving DecidableEq, Repr

/-- A table whose rows are scoped to a workspace, after pages went to another. -/
def rescope (ids : List Uuid) (workspaceId : Uuid) (table : List ScopedRow) : List ScopedRow :=
  table.map fun row => if row.pageId.any (· ∈ ids) then { row with workspaceId } else row

/-- The row after a move of an entry: the entry's own, with its place, and those under it, with
the path above the entry replaced. -/
def PageTreeRow.relocate (pageId workspaceId : Uuid) (parentPageId : Option Uuid) (idx : String)
    (row : PageTreeRow) : PageTreeRow :=
  if row.id = pageId then
    { row with
      workspaceId, parentPageId, idx
      ancestorIds := parentPageId.toList }
  else if pageId ∈ row.ancestorIds then
    { row with
      workspaceId
      ancestorIds := parentPageId.toList ++ row.ancestorIds.dropWhile (· ≠ pageId) }
  else row

@[simp] theorem PageTreeRow.id_relocate (pageId workspaceId : Uuid) (parentPageId : Option Uuid)
    (idx : String) (row : PageTreeRow) :
    (row.relocate pageId workspaceId parentPageId idx).id = row.id := by
  rw [relocate]
  split
  · rfl
  · split <;> rfl

namespace PageTable

variable (t : PageTable)

def firstFolder (workspaceId : Uuid) : Option Uuid :=
  ((t.rows.filter fun row => row.workspaceId = workspaceId ∧ row.kind = .folder ∧
    row.parentPageId = none ∧ row.archivedAt = none).mergeSort
      PageTreeRow.comesBefore).head?.map (·.id)

/-- The last order key under a parent. -/
def lastIdx (workspaceId : Uuid) (parentPageId : Option Uuid) : Option String :=
  ((t.rows.filter fun row => row.workspaceId = workspaceId ∧
    row.parentPageId = parentPageId).mergeSort PageTreeRow.comesBefore).getLast?.map (·.idx)

end PageTable

namespace MoveTables

variable (db : MoveTables)

def costOf (ids : List Uuid) (targetWorkspaceId : Uuid) : MoveCost where
  pages := ids.length
  files := (db.files.filter fun row => row.pageId.any (· ∈ ids)).length
  shareLinks := (db.shareTokens.filter fun row =>
    row.scopePageId ∈ ids ∧ row.revokedAt = none).length
  restrictions := ((db.pagePermissions.map (·.pageId) ++
    db.pageGroupPermissions.map (·.pageId)).filter (· ∈ ids)).dedup.length
  references := (db.pageRelations.filter fun row =>
    decide (row.fromPageId ∈ ids) ≠ decide (row.toPageId ∈ ids)).length
  favourites := (db.favourites.filter fun row => row.pageId ∈ ids ∧
    ¬ db.workspaceMembers.any fun m =>
      m.workspaceId = targetWorkspaceId ∧ m.userId = row.userId).length

/-- `moveable`: the workspace and the kind of an entry, where it may move at all. -/
def moveable (pageId : Uuid) : Except MoveFailure (Uuid × EntryKind) :=
  match Keyed.find db.pages pageId with
  | none => .error ⟨404, "not_found"⟩
  | some page =>
    if page.collectionId ≠ none then .error ⟨409, "is_collection_row"⟩
    else if db.pages.rows.any fun row => row.id ∈ page.ancestorIds ∧ row.kind = .container then
      .error ⟨409, "inside_protected_section"⟩
    else .ok (page.workspaceId, page.kind)

/-- What a move takes from pages that go to another workspace, at a time. -/
def withLosses (ids : List Uuid) (targetWorkspaceId : Uuid) (now : Time) : MoveTables :=
  { db with
    pagePermissions := db.pagePermissions.filter (·.pageId ∉ ids)
    pageGroupPermissions := db.pageGroupPermissions.filter (·.pageId ∉ ids)
    shareTokens := db.shareTokens.map fun row =>
      if row.scopePageId ∈ ids ∧ row.revokedAt = none then { row with revokedAt := some now }
      else row
    pageRelations := db.pageRelations.filter fun row =>
      decide (row.fromPageId ∈ ids) = decide (row.toPageId ∈ ids)
    favourites := db.favourites.filter fun row => row.pageId ∉ ids ∨
      db.workspaceMembers.any fun m => m.workspaceId = targetWorkspaceId ∧ m.userId = row.userId
    workspaceLanding := db.workspaceLanding.map fun row =>
      ⟨row.pageId.filter (· ∉ ids), row.lastPageId.filter (· ∉ ids)⟩ }

/-- The folder an entry goes into: none for a folder, which goes to the root. -/
def landing (kind : EntryKind) (targetWorkspaceId : Uuid) : Except MoveFailure (Option Uuid) :=
  if kind = .folder then .ok none
  else
    match db.pages.firstFolder targetWorkspaceId with
    | none => .error ⟨409, "no_folder_in_target"⟩
    | some folder => .ok (some folder)

/-- `moveToWorkspace`: nothing where `generateKeyBetween` throws. -/
def moveToWorkspace (env : MoveEnv) (now : Time) (pageId targetWorkspaceId : Uuid)
    (dryRun : Bool) : Option (Except MoveFailure (MoveTables × MoveCost × Option Uuid)) :=
  match db.moveable pageId with
  | .error failure => some (.error failure)
  | .ok (workspaceId, kind) =>
    if workspaceId = targetWorkspaceId then some (.error ⟨409, "same_workspace"⟩)
    else
      let ids := db.pages.subtreeIds pageId
      let cost := db.costOf ids targetWorkspaceId
      if dryRun then some (.ok (db, cost, none))
      else
        match db.landing kind targetWorkspaceId with
        | .error failure => some (.error failure)
        | .ok parentId =>
          (env.generateKeyBetween (db.pages.lastIdx targetWorkspaceId parentId) none).map fun idx =>
            .ok ({ db.withLosses ids targetWorkspaceId now with
              pages := Keyed.modify db.pages
                (PageTreeRow.relocate pageId targetWorkspaceId parentId idx)
                (PageTreeRow.id_relocate pageId targetWorkspaceId parentId idx)
              files := rescope ids targetWorkspaceId db.files
              pageSearch := rescope ids targetWorkspaceId db.pageSearch
              pageTags := rescope ids targetWorkspaceId db.pageTags
              collections := rescope ids targetWorkspaceId db.collections }, cost, parentId)

end MoveTables

/-! ### Permanent deletion -/

namespace PageTable

variable (t : PageTable)

/-- What the trigger deletes beside rows that are deleted: the rows under them, and so on. -/
def deletedFrom : ℕ → List Uuid → List Uuid
  | 0, ids => ids
  | n + 1, ids => deletedFrom n
      (ids ++ (t.rows.filter fun row => ∃ a ∈ row.ancestorIds, a ∈ ids).map (·.id))

/-- The rows after `DELETE /api/pages/:pageId/permanently`. Each round of the trigger but the
last deletes a row. -/
def deletePermanently (pageId : Uuid) : PageTable :=
  Keyed.filter t fun row => row.id ∉ t.deletedFrom t.rows.length (t.subtreeIds pageId)

end PageTable

/-! ### The life of an entry after its move -/

structure MovedEntry where
  pageId : Uuid
  /-- The workspace it left. -/
  sourceId : Uuid
  targetId : Uuid
  parentPageId : Option Uuid
  idx : String
  deriving DecidableEq, Repr

/-- **The documents and the tables**, after an entry was moved. -/
structure Relocation where
  docs : PageDocuments
  db : MoveTables
  entry : MovedEntry
  /-- The entries that were moved after it. -/
  others : List Uuid

inductive RelocationEvent where
  /-- A page that was moved is projected, for a workspace. -/
  | rematerializes (pageId workspaceId : Uuid)
  /-- A page of the workspace the entry left is deleted. -/
  | deletes (pageId : Uuid)
  /-- Another entry is moved to one of the two workspaces. -/
  | moves (pageId workspaceId : Uuid) (now : Time)

namespace Relocation

def start (env : MoveEnv) (docs : PageDocuments) (before : MoveTables) (now : Time)
    (pageId targetId : Uuid) : Option Relocation :=
  match before.moveToWorkspace env now pageId targetId false with
  | some (.ok (db, _, parentPageId)) =>
    (Keyed.find before.pages pageId).bind fun row => (Keyed.find db.pages pageId).map fun moved => {
      docs, db
      entry := ⟨pageId, row.workspaceId, targetId, parentPageId, moved.idx⟩
      others := [] }
  | _ => none

/-- Whether a page was moved: it is the entry or under it, or so for another that was. -/
def isMoved (s : Relocation) (pageId : Uuid) : Bool :=
  (Keyed.find s.db.pages pageId).any fun row => (s.entry.pageId :: s.others).any (row.IsWithin ·)

def isAbove (s : Relocation) (pageId : Uuid) : Bool :=
  (Keyed.find s.db.pages s.entry.pageId).any (·.IsWithin pageId)

def step (env : MoveEnv) (s : Relocation) : RelocationEvent → Option Relocation
  | .rematerializes pageId workspaceId =>
    if s.isMoved pageId then
      let pages := (materializeDocument s.db.pages (s.docs.load pageId) workspaceId).1
      some { s with db := { s.db with pages } }
    else none
  | .deletes pageId =>
    if (Keyed.find s.db.pages pageId).any (·.workspaceId = s.entry.sourceId) then
      some { s with
        docs := Keyed.filter s.docs fun doc => doc.id ∉ s.db.pages.subtreeIds pageId
        db := { s.db with pages := s.db.pages.deletePermanently pageId } }
    else none
  | .moves pageId workspaceId now =>
    if (workspaceId = s.entry.sourceId ∨ workspaceId = s.entry.targetId) ∧ ¬ s.isAbove pageId then
      match s.db.moveToWorkspace env now pageId workspaceId false with
      | some (.ok (db, _, _)) => some { s with db, others := pageId :: s.others }
      | _ => none
    else none

/-- The entry is in the workspace and the folder the move put it in. -/
def KeepsPlace (s : Relocation) : Prop :=
  (Keyed.find s.db.pages s.entry.pageId).map (fun row => (row.workspaceId, row.parentPageId)) =
    some (s.entry.targetId, s.entry.parentPageId)

/-- The entry has the order key the move gave it. -/
def KeepsOrder (s : Relocation) : Prop :=
  (Keyed.find s.db.pages s.entry.pageId).map (·.idx) = some s.entry.idx

instance (s : Relocation) : Decidable s.KeepsPlace := inferInstanceAs (Decidable (_ = _))

instance (s : Relocation) : Decidable s.KeepsOrder := inferInstanceAs (Decidable (_ = _))

/-- The entry is where the move put it. -/
def IsStable (s : Relocation) : Prop := s.KeepsPlace ∧ s.KeepsOrder

/-- The steps at which the entry goes back: it is projected, and its document has another order
key than the move gave it, or another parent that is not refused. -/
def Reverts (s : Relocation) : RelocationEvent → Prop
  | .rematerializes pageId workspaceId => pageId = s.entry.pageId ∧
      ((s.docs.load pageId).idx ≠ s.entry.idx ∨
        (s.docs.load pageId).parentPageId ≠ s.entry.parentPageId ∧
          ¬ s.db.pages.Refuses (s.docs.load pageId) workspaceId)
  | _ => False

instance (s : Relocation) (event : RelocationEvent) : Decidable (s.Reverts event) := by
  unfold Reverts
  split <;> infer_instance

end Relocation

/-- **The machine**: what follows a completed move, of an entry of a tree whose paths are
right. -/
def relocation (env : MoveEnv) : Machine Relocation RelocationEvent where
  init s := ∃ docs before now pageId targetId,
    IsPathed (PageTable.places (before : MoveTables).pages) ∧
    Relocation.start env docs before now pageId targetId = some s
  step := Relocation.step env

/-! ### What the operations leave alone -/

namespace PageTreeRow

variable {row : PageTreeRow} {pageId workspaceId : Uuid}

theorem relocate_self (hid : row.id = pageId) (parentPageId : Option Uuid) (idx : String) :
    row.relocate pageId workspaceId parentPageId idx =
      { row with
        workspaceId, parentPageId, idx
        ancestorIds := parentPageId.toList } :=
  if_pos hid

theorem relocate_of_not_isWithin (h : ¬ row.IsWithin pageId) (parentPageId : Option Uuid)
    (idx : String) : row.relocate pageId workspaceId parentPageId idx = row := by
  rw [IsWithin, not_or] at h
  rw [relocate, if_neg h.1, if_neg h.2]

end PageTreeRow

namespace PageTable

variable {t : PageTable} {pageId workspaceId id : Uuid}

theorem firstFolder_spec (h : t.firstFolder workspaceId = some id) :
    ∃ row, Keyed.find t id = some row ∧ row.workspaceId = workspaceId ∧
      row.parentPageId = none := by
  obtain ⟨row, hrow, rfl⟩ := map_eq_some_iff.mp h
  have hmem := mem_of_mem_head? (mem_def.mpr hrow)
  rw [mem_mergeSort] at hmem
  obtain ⟨hmem, hfolder⟩ := mem_filter.mp hmem
  rw [decide_eq_true_eq] at hfolder
  exact ⟨row, Keyed.mem_rows_iff.mp hmem, hfolder.1, hfolder.2.2.1⟩

theorem not_mem_deletedFrom {out : Uuid → Prop}
    (hout : ∀ row ∈ t.rows, out row.id → ∀ a ∈ row.ancestorIds, out a) {n : ℕ} {ids : List Uuid}
    (hids : ∀ a ∈ ids, ¬ out a) {a : Uuid} (ha : a ∈ t.deletedFrom n ids) : ¬ out a := by
  induction n generalizing ids with
  | zero => exact hids a ha
  | succ n ih =>
    refine ih (fun b hb => ?_) ha
    rcases mem_append.mp hb with hb | hb
    · exact hids b hb
    · obtain ⟨row, hrow, rfl⟩ := List.mem_map.mp hb
      obtain ⟨hmem, habove⟩ := mem_filter.mp hrow
      obtain ⟨c, hc, hdeleted⟩ := of_decide_eq_true habove
      exact fun h => hids c hdeleted (hout row hmem h c hc)

/-- **A deletion** leaves a page neither which nor any ancestor of which is the one deleted. -/
theorem find_deletePermanently {out : Uuid → Prop}
    (hout : ∀ row ∈ t.rows, out row.id → ∀ a ∈ row.ancestorIds, out a) (hpage : ¬ out pageId)
    (hid : out id) : Keyed.find (t.deletePermanently pageId) id = Keyed.find t id := by
  have hids : ∀ a ∈ t.subtreeIds pageId, ¬ out a := by
    intro a ha h
    obtain ⟨row, hrow, rfl⟩ := List.mem_map.mp ha
    obtain ⟨hmem, hwithin⟩ := mem_filter.mp hrow
    rcases of_decide_eq_true hwithin with heq | habove
    · exact hpage (heq ▸ h)
    · exact hpage (hout row hmem h pageId habove)
  rw [deletePermanently, Keyed.find_filter]
  cases hrow : Keyed.find t id with
  | none => rfl
  | some row =>
    refine filter_some_pos (decide_eq_true fun hdeleted => ?_)
    rw [id_of_find hrow] at hdeleted
    exact not_mem_deletedFrom hout hids hdeleted hid

end PageTable

namespace MoveTables

variable {db db' : MoveTables} {env : MoveEnv} {now : Time} {pageId targetWorkspaceId : Uuid}
  {cost : MoveCost} {parentPageId : Option Uuid}

theorem moveable_spec {workspaceId : Uuid} {kind : EntryKind}
    (h : db.moveable pageId = .ok (workspaceId, kind)) :
    ∃ row, Keyed.find db.pages pageId = some row ∧ row.workspaceId = workspaceId := by
  rw [moveable] at h
  split at h
  · simp at h
  · rename_i row hrow
    split at h
    · simp at h
    · split at h
      · simp at h
      · exact ⟨row, hrow, (Prod.mk.inj (Except.ok.inj h)).1⟩

theorem landing_spec {kind : EntryKind} (h : db.landing kind targetWorkspaceId = .ok parentPageId)
    {folderId : Uuid} (hfolder : folderId ∈ parentPageId) :
    ∃ folder, Keyed.find db.pages folderId = some folder ∧
      folder.workspaceId = targetWorkspaceId ∧ folder.parentPageId = none := by
  rw [landing] at h
  split at h
  · obtain rfl := Except.ok.inj h
    simp at hfolder
  · split at h
    · simp at h
    · rename_i folder hfirst
      obtain rfl := Except.ok.inj h
      rw [mem_some_iff] at hfolder
      exact PageTable.firstFolder_spec (hfolder ▸ hfirst)

/-- **What a completed move does** to the rows. -/
theorem moveToWorkspace_spec (h : db.moveToWorkspace env now pageId targetWorkspaceId false =
      some (.ok (db', cost, parentPageId))) :
    ∃ row idx, Keyed.find db.pages pageId = some row ∧ row.workspaceId ≠ targetWorkspaceId ∧
      (∀ folderId ∈ parentPageId, ∃ folder, Keyed.find db.pages folderId = some folder ∧
        folder.workspaceId = targetWorkspaceId ∧ folder.parentPageId = none) ∧
      ∀ id, Keyed.find db'.pages id = (Keyed.find db.pages id).map
        (PageTreeRow.relocate pageId targetWorkspaceId parentPageId idx) := by
  rw [moveToWorkspace] at h
  split at h
  · simp at h
  · rename_i workspaceId kind hmoveable
    obtain ⟨row, hrow, hworkspace⟩ := moveable_spec hmoveable
    split at h
    · simp at h
    · rename_i hapart
      simp only [Bool.false_eq_true, if_false] at h
      split at h
      · simp at h
      · rename_i parentId hlanding
        obtain ⟨idx, -, heq⟩ := map_eq_some_iff.mp h
        rw [Except.ok.injEq, Prod.mk.injEq, Prod.mk.injEq] at heq
        obtain ⟨rfl, -, rfl⟩ := heq
        exact ⟨row, idx, hrow, hworkspace ▸ hapart, fun _ => landing_spec hlanding,
          fun id => Keyed.find_modify (PageTreeRow.id_relocate _ _ _ _)⟩

end MoveTables

/-! ### The entry stays -/

namespace Relocation

variable {env : MoveEnv} {s s' : Relocation} {pageId workspaceId : Uuid}

def IsKept (s : Relocation) (id : Uuid) : Prop := id = s.entry.pageId ∨ id ∈ s.entry.parentPageId

/-- **The invariant**: the entry is where it was put, and its folder is a root of the workspace
that is not moved any more. -/
structure Inv (s : Relocation) : Prop where
  apart : s.entry.sourceId ≠ s.entry.targetId
  entry : ∃ row, Keyed.find s.db.pages s.entry.pageId = some row ∧
    row.workspaceId = s.entry.targetId ∧ row.parentPageId = s.entry.parentPageId ∧
      row.idx = s.entry.idx ∧ row.ancestorIds = s.entry.parentPageId.toList
  folder : ∀ folderId ∈ s.entry.parentPageId, folderId ≠ s.entry.pageId ∧
    ∃ row, Keyed.find s.db.pages folderId = some row ∧ row.workspaceId = s.entry.targetId ∧
      row.parentPageId = none ∧ row.ancestorIds = []
  others : ∀ other ∈ s.others, ¬ s.IsKept other

theorem Inv.row_of_isKept (h : s.Inv) {id : Uuid} (hid : s.IsKept id) :
    ∃ row, Keyed.find s.db.pages id = some row ∧ row.workspaceId = s.entry.targetId ∧
      (∀ p ∈ row.parentPageId, p ∈ s.entry.parentPageId) ∧
        ∀ a ∈ row.ancestorIds, a ∈ s.entry.parentPageId := by
  rcases hid with rfl | hfolder
  · obtain ⟨row, hrow, hworkspace, hparent, -, hpath⟩ := h.entry
    refine ⟨row, hrow, hworkspace, fun p hp => hparent ▸ hp, fun a ha => ?_⟩
    rwa [hpath, mem_toList] at ha
  · obtain ⟨-, row, hrow, hworkspace, hparent, hpath⟩ := h.folder _ hfolder
    exact ⟨row, hrow, hworkspace, by simp [hparent], by simp [hpath]⟩

theorem Inv.isKept_of_above (h : s.Inv) {row : PageTreeRow} (hrow : row ∈ s.db.pages.rows)
    (hid : s.IsKept row.id) {a : Uuid} (ha : a ∈ row.ancestorIds) : s.IsKept a := by
  obtain ⟨row', hrow', -, -, hpath⟩ := h.row_of_isKept hid
  rw [Keyed.mem_rows_iff] at hrow
  obtain rfl := some.inj (hrow.symm.trans hrow')
  exact .inr (hpath a ha)

theorem Inv.frame (h : s.Inv) (hentry : s'.entry = s.entry)
    (hothers : ∀ other ∈ s'.others, ¬ s.IsKept other)
    (hrows : ∀ id, s.IsKept id → Keyed.find s'.db.pages id = Keyed.find s.db.pages id) :
    s'.Inv := by
  refine ⟨?_, ?_, fun folderId hfolder => ?_, fun other hother => ?_⟩
  · rw [hentry]
    exact h.apart
  · rw [hentry, hrows _ (.inl rfl)]
    exact h.entry
  · rw [hentry] at hfolder ⊢
    rw [hrows _ (.inr hfolder)]
    exact h.folder folderId hfolder
  · rw [IsKept, hentry]
    exact hothers other hother

theorem Inv.eq_of_isMoved (h : s.Inv) (hmoved : s.isMoved pageId = true)
    (hkept : s.IsKept pageId) : pageId = s.entry.pageId := by
  refine hkept.resolve_right fun hfolder => ?_
  obtain ⟨hne, row, hrow, -, -, hpath⟩ := h.folder pageId hfolder
  rw [isMoved, hrow, any_some, List.any_eq_true] at hmoved
  obtain ⟨other, hother, hwithin⟩ := hmoved
  have hself : pageId = other := by
    rcases of_decide_eq_true hwithin with hid | habove
    · exact (PageTable.id_of_find hrow).symm.trans hid
    · simp [hpath] at habove
  rcases mem_cons.mp hother with heq | hmem
  · exact hne (hself.trans heq)
  · exact h.others other hmem (hself ▸ hkept)

/-- **The entry is projected**, and its document asks for nothing else, or for a parent that is
refused. -/
theorem Inv.rematerializes_entry (h : s.Inv)
    (hgood : ¬ s.Reverts (.rematerializes s.entry.pageId workspaceId)) :
    Inv { s with db := { s.db with
      pages := (materializeDocument s.db.pages (s.docs.load s.entry.pageId) workspaceId).1 } } := by
  let doc := s.docs.load s.entry.pageId
  have hid : doc.id = s.entry.pageId := PageDocuments.load_id _ _
  obtain ⟨row, hrow, hworkspace, hparent, -, -⟩ := h.entry
  simp only [Reverts, true_and, not_or, not_and, not_not] at hgood
  obtain ⟨hidx, hasks⟩ := hgood
  have hparentFor : s.db.pages.parentFor doc workspaceId = s.entry.parentPageId := by
    rw [PageTable.parentFor]
    split
    · rw [hid, hrow, bind_some, hparent]
    · rename_i hnot
      by_contra hne
      exact hnot (hasks hne)
  have hplace : s.db.pages.placeFor doc workspaceId =
      ⟨s.entry.parentPageId, s.entry.parentPageId.toList⟩ := by
    cases hfolder : s.entry.parentPageId with
    | none =>
      exact PageTable.placeFor_of_parentFor_none (hparentFor.trans hfolder)
    | some folderId =>
      obtain ⟨hne, folder, hfind, -, -, hpath⟩ := h.folder folderId hfolder
      have hnot : doc.id ∉ folder.ancestorIds ++ [folderId] := by
        rw [hpath, hid, nil_append, mem_singleton]
        exact hne.symm
      rw [PageTable.placeFor_of_parentFor (hparentFor.trans hfolder) hfind hnot, hpath,
        PageTable.lastIds_eq (by simp)]
      rfl
  have hfind : ∀ id, s.IsKept id →
      Keyed.find (materializeDocument s.db.pages doc workspaceId).1 id =
        if doc.id = id then
          some (projectedRow (Keyed.find s.db.pages doc.id) doc workspaceId
            (s.db.pages.placeFor doc workspaceId))
        else Keyed.find s.db.pages id := by
    intro id hkept
    refine PageTable.find_materializeDocument_of_out (fun row' hrow' hkept' hne p hp => ?_)
      (fun _ p hp => ?_) hkept
    · -- the folder has no parent
      obtain ⟨-, folder, hfolder, -, hroot, -⟩ :=
        h.folder row'.id (hkept'.resolve_left fun heq => hne (heq.trans hid.symm))
      obtain rfl := some.inj ((Keyed.mem_rows_iff.mp hrow').symm.trans hfolder)
      simp [hroot] at hp
    · rw [hplace] at hp
      exact ⟨hid ▸ (h.folder p hp).1, .inr hp⟩
  refine ⟨h.apart, ?_, fun folderId hfolder => ?_, h.others⟩
  · refine ⟨_, (hfind _ (.inl rfl)).trans (if_pos hid), ?_, ?_, hidx, ?_⟩
    · rw [hid, hrow]
      exact hworkspace
    · rw [hplace]
      rfl
    · rw [hplace]
      rfl
  · have hne := (h.folder folderId hfolder).1
    refine ⟨hne, ?_⟩
    rw [hfind folderId (.inr hfolder), if_neg (hid ▸ hne.symm)]
    exact (h.folder folderId hfolder).2

/-- **A step** that reverts nothing keeps the invariant. -/
theorem Inv.step (h : s.Inv) {event : RelocationEvent} (hgood : ¬ s.Reverts event)
    (hstep : s.step env event = some s') : s'.Inv := by
  cases event with
  | rematerializes pageId workspaceId =>
    obtain ⟨hmoved, heq⟩ := ite_none_right_eq_some.mp hstep
    obtain rfl := some.inj heq
    by_cases hself : pageId = s.entry.pageId
    · subst hself
      exact h.rematerializes_entry hgood
    · have hid : (s.docs.load pageId).id = pageId := PageDocuments.load_id _ _
      have hnot : ¬ s.IsKept (s.docs.load pageId).id := by
        rw [hid]
        exact fun hkept => hself (h.eq_of_isMoved hmoved hkept)
      refine h.frame rfl h.others fun id hkept => ?_
      have hne : (s.docs.load pageId).id ≠ id := fun heq => hnot (heq ▸ hkept)
      refine (PageTable.find_materializeDocument_of_out (fun row hrow hkept' _ p hp => ?_)
        (fun hkept' => absurd hkept' hnot) hkept).trans (if_neg hne)
      obtain ⟨row', hrow', -, hparent, -⟩ := h.row_of_isKept hkept'
      obtain rfl := some.inj ((Keyed.mem_rows_iff.mp hrow).symm.trans hrow')
      have hp' : s.IsKept p := .inr (hparent p hp)
      exact ⟨fun heq => hnot (heq ▸ hp'), hp'⟩
  | deletes pageId =>
    obtain ⟨hsource, heq⟩ := ite_none_right_eq_some.mp hstep
    obtain rfl := some.inj heq
    have hpage : ¬ s.IsKept pageId := by
      intro hkept
      obtain ⟨row, hrow, hworkspace, -⟩ := h.row_of_isKept hkept
      rw [hrow, any_some, decide_eq_true_eq] at hsource
      exact h.apart (hsource.symm.trans hworkspace)
    have hrows : ∀ id, s.IsKept id →
        Keyed.find (s.db.pages.deletePermanently pageId) id = Keyed.find s.db.pages id :=
      fun id hkept => PageTable.find_deletePermanently
        (fun _ hrow hid _ ha => h.isKept_of_above hrow hid ha) hpage hkept
    exact h.frame rfl h.others hrows
  | moves pageId workspaceId now =>
    obtain ⟨⟨-, habove⟩, heq⟩ := ite_none_right_eq_some.mp hstep
    split at heq
    · rename_i db cost parentPageId hmove
      obtain rfl := some.inj heq
      have hpage : ¬ s.IsKept pageId := by
        obtain ⟨row, hrow, -, -, -, hpath⟩ := h.entry
        rw [isAbove, hrow, any_some, decide_eq_true_eq, PageTreeRow.IsWithin,
          PageTable.id_of_find hrow, hpath, mem_toList, eq_comm] at habove
        exact habove
      obtain ⟨_, idx, -, -, -, hrows⟩ := MoveTables.moveToWorkspace_spec hmove
      refine h.frame rfl (fun other hother => ?_) fun id hkept => ?_
      · rcases mem_cons.mp hother with rfl | hmem
        · exact hpage
        · exact h.others other hmem
      · rw [hrows]
        cases hrow : Keyed.find s.db.pages id with
        | none => rfl
        | some row =>
          have hid : row.id = id := PageTable.id_of_find hrow
          rw [map_some, PageTreeRow.relocate_of_not_isWithin]
          rintro (heq' | hwithin)
          · exact hpage (heq' ▸ hid ▸ hkept)
          · exact hpage (h.isKept_of_above (Keyed.mem_rows hrow) (hid ▸ hkept) hwithin)
    · simp at heq

/-- **A completed move** puts the entry where the invariant has it. -/
theorem Inv.of_start {docs : PageDocuments} {before : MoveTables} {now : Time} {targetId : Uuid}
    (hpathed : IsPathed before.pages.places)
    (h : start env docs before now pageId targetId = some s) : s.Inv := by
  rw [start] at h
  split at h
  · rename_i db cost parentPageId hmove
    obtain ⟨row, hrow, h⟩ := bind_eq_some_iff.mp h
    obtain ⟨moved, hmoved, rfl⟩ := map_eq_some_iff.mp h
    obtain ⟨row', idx, hrow', hapart, hfolder, hrows⟩ := MoveTables.moveToWorkspace_spec hmove
    obtain rfl := some.inj (hrow.symm.trans hrow')
    rw [hrows, hrow, map_some, Option.some.injEq,
      PageTreeRow.relocate_self (PageTable.id_of_find hrow)] at hmoved
    refine ⟨hapart, ?_, fun folderId hmem => ?_, by simp⟩
    · refine ⟨moved, ?_, ?_⟩
      · simp only [hrows, hrow, map_some, Option.some.injEq]
        rw [PageTreeRow.relocate_self (PageTable.id_of_find hrow), hmoved]
      · subst hmoved
        exact ⟨rfl, rfl, rfl, rfl⟩
    · obtain ⟨folder, hfind, hworkspace, hroot⟩ := hfolder folderId hmem
      have hne : folderId ≠ pageId := by
        rintro rfl
        rw [hrow, Option.some.injEq] at hfind
        exact hapart (hfind ▸ hworkspace)
      have hpath : folder.ancestorIds = [] :=
        (hpathed folderId _ (PageTable.places_of_find hfind)).root hroot
      have hout : ¬ folder.IsWithin pageId := by
        rw [PageTreeRow.IsWithin, PageTable.id_of_find hfind, hpath]
        simpa using hne
      refine ⟨hne, folder, ?_, hworkspace, hroot, hpath⟩
      simp only [hrows, hfind, map_some, PageTreeRow.relocate_of_not_isWithin hout]
  · simp at h

/-- **A completed move is stable** in every run in which, whenever the entry is projected, its
document has the order key the move gave it, and its parent is the one the move gave it or is
refused. -/
theorem stable_of_reachesWhen
    (h : (relocation env).ReachesWhen (fun s event => ¬ s.Reverts event) s) : s.IsStable := by
  have hinv : s.Inv := h.invariant
    (by
      rintro s ⟨docs, before, now, pageId, targetId, hpathed, hstart⟩
      exact Inv.of_start hpathed hstart)
    fun _ _ _ hinv hgood hstep => hinv.step hgood hstep
  obtain ⟨row, hrow, hworkspace, hparent, hidx, -⟩ := hinv.entry
  rw [IsStable, KeepsPlace, KeepsOrder, hrow, map_some, map_some, hworkspace, hparent,
    hidx]
  exact ⟨rfl, rfl⟩

/-! ### A page and its folder -/

/-- The order keys of an empty list, and after "a0". -/
def exampleKeys : MoveEnv where
  generateKeyBetween
    | none, _ => some "a0"
    | some _, _ => some "a1"

/-- A folder of one workspace with a page in it, and a folder of another. -/
def twoWorkspaces : MoveTables where
  pages := {
    rows := [⟨⟨1, 7, none, [], false⟩, "a0", .folder, none, none⟩,
      ⟨⟨2, 7, some 1, [1], false⟩, "a0", .page, none, none⟩,
      ⟨⟨3, 8, none, [], false⟩, "a0", .folder, none, none⟩]
    nodup := by decide }

def twoWorkspacesDocs : PageDocuments where
  rows := [⟨1, .folder, none, none, "a0", none⟩, ⟨2, .page, some 1, none, "a0", none⟩,
    ⟨3, .folder, none, none, "a0", none⟩]
  nodup := by decide

theorem twoWorkspaces_isPathed : IsPathed twoWorkspaces.pages.places :=
  PageTable.isPathed_of_rows (by decide +kernel)

theorem exists_reachesWhen_of_start {ok : Relocation → RelocationEvent → Prop}
    [∀ s event, Decidable (ok s event)] (pageId targetId : Uuid) (events : List RelocationEvent)
    {p : Relocation → Prop} [DecidablePred p]
    (h : ((start exampleKeys twoWorkspacesDocs twoWorkspaces 0 pageId targetId).bind fun s =>
      (relocation exampleKeys).runWhen ok s events).any (fun s => decide (p s)) = true) :
    ∃ s, (relocation exampleKeys).ReachesWhen ok s ∧ p s := by
  obtain ⟨s, hs, hp⟩ := (Option.any_eq_true _ _).mp h
  obtain ⟨s₀, hstart, hrun⟩ := bind_eq_some_iff.mp hs
  exact ⟨s, Machine.reachesWhen_of_runWhen ⟨_, _, _, _, _, twoWorkspaces_isPathed, hstart⟩ hrun,
    of_decide_eq_true hp⟩

/-- **A page is moved**, and projected, and then the folder it was in comes after it. -/
theorem stable_of_reachesWhen_folderFollows : ∃ s : Relocation, s.IsStable ∧
    s.entry = ⟨2, 7, 8, some 3, "a0"⟩ ∧ s.others = [1] := by
  have hreach : ∃ s : Relocation,
      (relocation exampleKeys).ReachesWhen (fun s event => ¬ s.Reverts event) s ∧
        s.entry = ⟨2, 7, 8, some 3, "a0"⟩ ∧ s.others = [1] :=
    exists_reachesWhen_of_start 2 8 [.rematerializes 2 8, .moves 1 8 1, .rematerializes 1 8]
      (by decide +kernel)
  obtain ⟨s, hs, hentry, hothers⟩ := hreach
  exact ⟨s, stable_of_reachesWhen hs, hentry, hothers⟩

/-- **A completed move can go back.** A folder has the order key of its document again once it
is projected. A page is under its old folder again when it is projected after that has come to
the workspace too. -/
theorem not_isStable :
    ¬ (∀ env s, (relocation env).Reaches s → s.KeepsOrder) ∧
      ¬ ∀ env s, (relocation env).Reaches s → s.KeepsPlace := by
  constructor
  · intro hall
    have hreach : ∃ s : Relocation, (relocation exampleKeys).Reaches s ∧ ¬ s.KeepsOrder :=
      exists_reachesWhen_of_start 1 8 [.rematerializes 1 8] (by decide +kernel)
    obtain ⟨s, hs, hnot⟩ := hreach
    exact hnot (hall exampleKeys s hs)
  · intro hall
    have hreach : ∃ s : Relocation, (relocation exampleKeys).Reaches s ∧ ¬ s.KeepsPlace :=
      exists_reachesWhen_of_start 2 8 [.rematerializes 2 8, .moves 1 8 1, .rematerializes 2 8]
        (by decide +kernel)
    obtain ⟨s, hs, hnot⟩ := hreach
    exact hnot (hall exampleKeys s hs)

end Relocation

end Sone
