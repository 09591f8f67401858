import Sone.Access.MayRead
import Sone.Pages.Archive

/-!
# Restoring a page from the trash

`POST /api/pages/:pageId/restore` (`http/pages.ts`) puts a page back, where it was or into a
folder that is named: a page that goes elsewhere is projected with its new parent, and then the
key of the archive is taken from the documents of the page and of all that is under it, and
`archived_at` from their rows.

An archive stamps the rows that were not archived yet, and leaves to the others their time. A
restore takes all of them. What had been trashed on its own, before the page above it, comes
back with it: the two undo each other exactly where nothing of the subtree was in the trash
before (`restore_archive_iff`).
-/

namespace Sone

open Option

/-- A role that may change a page: `viewer` and `commenter` are refused. -/
def Role.mayChange : Role → Bool
  | .viewer | .commenter => false
  | .editor | .admin => true

/-- `UPDATE pages SET archived_at = NULL`, of one row. -/
def PageTreeRow.unstamp (pageId : Uuid) (row : PageTreeRow) : PageTreeRow :=
  if row.archivedAt ≠ none ∧ row.IsWithin pageId then { row with archivedAt := none } else row

def PageTable.findLive (t : PageTable) (pageId : Uuid) : Option PageTreeRow :=
  (Keyed.find t pageId).filter fun row => row.archivedAt = none

namespace PageTree

/-- The folder a page is to be restored into: what speaks against it. -/
def checkTarget (tree : PageTree) (claims : AccessClaims) (page : PageLocation) (target : Uuid) :
    Option HttpRefusal :=
  if target = page.id then some ⟨422, "invalid_parent"⟩
  else
    match tree.rows.findLive target with
    | none => some ⟨404, "not_found"⟩
    | some folder =>
      let targetRole :=
        if folder.workspaceId = page.workspaceId then
          effectiveRole claims ⟨folder.id, folder.workspaceId, folder.ancestorIds,
            restrictedAt tree.rows.tables folder.path⟩
        else none
      if folder.kind ≠ .folder ∨ ¬ targetRole.any Role.mayChange then some ⟨404, "not_found"⟩
      else if page.id ∈ folder.ancestorIds then some ⟨422, "invalid_parent"⟩
      else none

/-- The parent is written into the document, and the page projected. -/
def reparent (tree : PageTree) (pageId workspaceId : Uuid) (parentPageId : Option Uuid) :
    PageTree :=
  rematerialize
    { tree with docs := Keyed.upsert tree.docs { tree.docs.load pageId with parentPageId } }
    pageId workspaceId

/-- The documents and then the rows of a subtree, taken out of the trash. -/
def unarchive (tree : PageTree) (pageId : Uuid) : PageTree where
  docs := tree.setArchivedInDocuments pageId none
  rows := Keyed.modify tree.rows (PageTreeRow.unstamp pageId) fun row => by
    rw [PageTreeRow.unstamp]
    split <;> rfl

/-- What a restore does once the folder that was named is found good: the tree, and whether the
page went to the root. -/
def putBack (tree : PageTree) (workspaceId : Uuid) (row : PageTreeRow) (target : Option Uuid) :
    Except HttpRefusal (PageTree × Bool) :=
  let parentAlive : Bool := target.isSome ∨ row.parentPageId.all fun parentId =>
    (tree.rows.findLive parentId).isSome
  if ¬ parentAlive ∧ row.kind ≠ .folder then .error ⟨409, "parent_missing"⟩
  else
    let placed :=
      if ¬ parentAlive ∨ target.isSome then tree.reparent row.id workspaceId target else tree
    .ok (placed.unarchive row.id, ¬ parentAlive ∧ target = none)

/-- `POST /api/pages/:pageId/restore`, with the claims of the session, if there is one, and the
folder the body names. -/
def restore (tree : PageTree) (session : Option (Option AccessClaims)) (pageId : Uuid)
    (target : Option Uuid) : Except HttpRefusal (PageTree × Bool) :=
  match loadPageLocation tree.rows.tables pageId, session with
  | none, _ => .error ⟨404, "not_found"⟩
  | some _, none => .error ⟨401, "not_authenticated"⟩
  | some page, some claims =>
    match claims.bind fun claims => (effectiveRole claims page).map fun role => (claims, role) with
    | none => .error ⟨404, "not_found"⟩
    | some (claims, role) =>
      if ¬ role.mayChange then .error ⟨403, "not_authorized"⟩
      else
        match (Keyed.find tree.rows pageId).filter fun row => row.archivedAt ≠ none with
        | none => .error ⟨409, "not_archived"⟩
        | some row =>
          match target.bind (tree.checkTarget claims page) with
          | some refusal => .error refusal
          | none => tree.putBack page.workspaceId row target

/-- The parent of a row **is there**: it has none, or one that is not archived. -/
def HasLiveParent (tree : PageTree) (row : PageTreeRow) : Prop :=
  ∀ parentId ∈ row.parentPageId, (tree.rows.findLive parentId).isSome

/-- **The trash is as it was** under a page: every row of the subtree has the time it had, and
its document too. -/
def KeepsTrash (tree : PageTree) (pageId : Uuid) (after : PageTree) : Prop :=
  ∀ row ∈ tree.rows.rows, row.IsWithin pageId →
    (Keyed.find after.rows row.id).map (·.archivedAt) = some row.archivedAt ∧
      (after.docs.load row.id).archivedAt = row.archivedAt

variable {tree : PageTree} {pageId workspaceId : Uuid} {now : Time} {row : PageTreeRow}
  {target : Option Uuid} {session : Option (Option AccessClaims)} {claims : AccessClaims}

/-! ### What a restore leaves in the trash -/

theorem archivedAt_unarchive {id : Uuid} (hrow : Keyed.find tree.rows id = some row)
    (hwithin : row.IsWithin pageId) :
    (Keyed.find (tree.unarchive pageId).rows id).map (·.archivedAt) = some none ∧
      ((tree.unarchive pageId).docs.load id).archivedAt = none := by
  have hid : id ∈ tree.rows.subtreeIds pageId := by
    rw [PageTable.subtreeIds, List.mem_map]
    exact ⟨row, List.mem_filter.mpr ⟨Keyed.mem_rows hrow, decide_eq_true hwithin⟩,
      PageTable.id_of_find hrow⟩
  constructor
  · rw [unarchive, Keyed.find_modify, hrow, map_some, map_some, Option.some.injEq,
      PageTreeRow.unstamp]
    by_cases harchived : row.archivedAt = none
    · rw [if_neg fun hboth => hboth.1 harchived, harchived]
    · rw [if_pos ⟨harchived, hwithin⟩]
  · rw [unarchive, setArchivedInDocuments, PageDocuments.load_foldl_setArchivedAt, if_pos hid]

theorem exists_within_rematerialize {id : Uuid} (hrow : Keyed.find tree.rows id = some row)
    (hwithin : row.IsWithin pageId) :
    ∃ placed, Keyed.find (tree.rematerialize pageId workspaceId).rows id = some placed ∧
      placed.IsWithin pageId := by
  obtain ⟨found, hpath, hfind⟩ :=
    PageTable.find_materializeDocument tree.rows (tree.docs.load pageId) workspaceId
  rw [PageDocuments.load_id] at hpath hfind
  have hrewrite : ∀ placed : PageTreeRow, placed.IsWithin pageId →
      (PageTable.rewrite found placed).IsWithin pageId := by
    intro placed hplaced
    rw [PageTable.rewrite]
    split
    · rename_i s hs
      exact .inr (hpath s (List.mem_of_find?_eq_some hs))
    · exact hplaced
  rw [rematerialize, hfind, hrow]
  split
  · exact ⟨_, rfl, hrewrite _ (.inl (PageDocuments.load_id _ _))⟩
  · exact ⟨_, rfl, hrewrite _ hwithin⟩

/-- **What a restore comes to**: the subtree is taken out of the trash, after the page was
placed, with all that is under it. -/
theorem exists_unarchive_of_restore {after : PageTree × Bool}
    (h : tree.restore session pageId target = .ok after) :
    ∃ placed : PageTree, after.1 = placed.unarchive pageId ∧
      ∀ id row, Keyed.find tree.rows id = some row → row.IsWithin pageId →
        ∃ there, Keyed.find placed.rows id = some there ∧ there.IsWithin pageId := by
  have hput : ∀ workspaceId row, Keyed.find tree.rows pageId = some row →
      tree.putBack workspaceId row target = .ok after → ∃ placed : PageTree,
        after.1 = placed.unarchive pageId ∧
          ∀ id row, Keyed.find tree.rows id = some row → row.IsWithin pageId →
            ∃ there, Keyed.find placed.rows id = some there ∧ there.IsWithin pageId := by
    intro workspaceId row hrow hput
    rw [putBack, PageTable.id_of_find hrow] at hput
    simp only at hput
    split at hput
    · cases hput
    · obtain rfl := Except.ok.inj hput
      refine ⟨_, rfl, fun id row hrow hwithin => ?_⟩
      split
      · exact @exists_within_rematerialize { tree with docs := _ } pageId _ _ _ hrow hwithin
      · exact ⟨row, hrow, hwithin⟩
  unfold restore at h
  split at h
  · cases h
  · cases h
  split at h
  · cases h
  split at h
  · cases h
  split at h
  · cases h
  rename_i row hrow
  split at h
  · cases h
  · exact hput _ row (eq_some_of_filter_eq_some hrow) h

theorem find_archive {id : Uuid} (hrow : Keyed.find tree.rows id = some row) :
    Keyed.find (tree.archive pageId now).rows id = some (row.stamp pageId now) := by
  rw [archive, Keyed.find_modify, hrow, map_some]

theorem isWithin_stamp : (row.stamp pageId now).IsWithin pageId ↔ row.IsWithin pageId := by
  rw [PageTreeRow.stamp]
  split <;> rfl

theorem archivedAt_of_restore_archive {after : PageTree × Bool}
    (h : (tree.archive pageId now).restore session pageId target = .ok after)
    (hrow : row ∈ tree.rows.rows) (hwithin : row.IsWithin pageId) :
    (Keyed.find after.1.rows row.id).map (·.archivedAt) = some none ∧
      (after.1.docs.load row.id).archivedAt = none := by
  obtain ⟨placed, hafter, hplaced⟩ := exists_unarchive_of_restore h
  obtain ⟨there, hthere, hunder⟩ := hplaced row.id (row.stamp pageId now)
    (find_archive (Keyed.mem_rows_iff.mp hrow)) (isWithin_stamp.mpr hwithin)
  rw [hafter]
  exact archivedAt_unarchive hthere hunder

/-! ### That a restore goes through -/

theorem findLive_archive {id : Uuid} (hlive : tree.rows.findLive id = some row)
    (hout : ¬ row.IsWithin pageId) : (tree.archive pageId now).rows.findLive id = some row := by
  obtain ⟨hrow, hnone⟩ := filter_eq_some_iff.mp hlive
  rw [PageTable.findLive, find_archive hrow, PageTreeRow.stamp, if_neg fun hboth => hout hboth.2,
    filter_some, if_pos hnone]

theorem not_isWithin_parent (h : IsPathed tree.rows.places)
    (hrow : Keyed.find tree.rows pageId = some row) {parentId : Uuid}
    (hparent : row.parentPageId = some parentId) {parent : PageTreeRow}
    (hfind : Keyed.find tree.rows parentId = some parent) : ¬ parent.IsWithin pageId := by
  have hplace : tree.rows.places pageId = some row.place := PageTable.places_of_find hrow
  have hpath : row.ancestorIds = parent.ancestorIds ++ [parentId] :=
    (h pageId _ hplace).child parentId parent.place hparent (PageTable.places_of_find hfind)
  have hnot : pageId ∉ row.ancestorIds := h.not_mem_ancestors hplace
  rw [hpath, List.mem_append, List.mem_singleton, not_or] at hnot
  rintro (hid | hmem)
  · exact hnot.2 (hid.symm.trans (PageTable.id_of_find hfind))
  · exact hnot.1 hmem

/-- **A page that was archived goes back where it was**, as long as its parent is alive. -/
theorem exists_restore_archive (h : IsPathed tree.rows.places)
    (hrow : Keyed.find tree.rows pageId = some row) (hlive : row.archivedAt = none)
    (hparent : tree.HasLiveParent row) {page : PageLocation}
    (hpage : loadPageLocation tree.rows.tables pageId = some page) {role : Role}
    (hrole : effectiveRole claims page = some role) (hmay : role.mayChange = true) (now : Time) :
    (tree.archive pageId now).restore (some (some claims)) pageId none =
      .ok ((tree.archive pageId now).unarchive pageId, false) := by
  have hstamp : (Keyed.find (tree.archive pageId now).rows pageId).filter
      (fun row => row.archivedAt ≠ none) = some { row with archivedAt := some now } := by
    rw [find_archive hrow, PageTreeRow.stamp,
      if_pos ⟨hlive, .inl (PageTable.id_of_find hrow)⟩]
    exact filter_some_pos (by simp)
  have hput : (tree.archive pageId now).putBack page.workspaceId
      { row with archivedAt := some now } none =
        .ok ((tree.archive pageId now).unarchive pageId, false) := by
    have halive : (row.parentPageId.all fun parentId =>
        ((tree.archive pageId now).rows.findLive parentId).isSome) = true := by
      cases hid : row.parentPageId with
      | none => rfl
      | some parentId =>
        obtain ⟨parent, hfind⟩ := isSome_iff_exists.mp (hparent parentId hid)
        have hout := not_isWithin_parent h hrow hid (eq_some_of_filter_eq_some hfind)
        rw [all_some, findLive_archive hfind hout]
        rfl
    simp [putBack, halive, PageTable.id_of_find hrow]
  unfold restore
  rw [tables_archive, hpage, hstamp]
  simp only [bind_some, hrole, map_some, hmay, not_true, if_false, bind_none]
  exact hput

/-- **An archive and a restore undo each other**: the restore goes through, and leaves the trash
as it was under the page exactly where nothing of the subtree had been in it. -/
theorem restore_archive_iff (h : IsPathed tree.rows.places)
    (hrow : Keyed.find tree.rows pageId = some row) (hlive : row.archivedAt = none)
    (hparent : tree.HasLiveParent row) {page : PageLocation}
    (hpage : loadPageLocation tree.rows.tables pageId = some page) {role : Role}
    (hrole : effectiveRole claims page = some role) (hmay : role.mayChange = true) (now : Time) :
    (∃ after, (tree.archive pageId now).restore (some (some claims)) pageId none = .ok after) ∧
    ∀ session target after, (tree.archive pageId now).restore session pageId target = .ok after →
      (tree.KeepsTrash pageId after.1 ↔
        ∀ row ∈ tree.rows.rows, row.IsWithin pageId → row.archivedAt = none) := by
  refine ⟨⟨_, exists_restore_archive h hrow hlive hparent hpage hrole hmay now⟩, ?_⟩
  intro session target after hrestore
  constructor
  · intro hkeeps row hrow hwithin
    have hnone := (archivedAt_of_restore_archive hrestore hrow hwithin).1
    exact (some.inj (hnone.symm.trans (hkeeps row hrow hwithin).1)).symm
  · intro hall row hrow hwithin
    rw [hall row hrow hwithin]
    exact archivedAt_of_restore_archive hrestore hrow hwithin

/-- A folder and a page in it, neither of which is archived. -/
def livePage : PageTree where
  docs := {
    rows := [⟨1, .folder, none, none, "a0", none⟩, ⟨2, .page, some 1, none, "a0", none⟩]
    nodup := by decide }
  rows := {
    rows := [⟨⟨1, 7, none, [], false⟩, "a0", .folder, none, none⟩,
      ⟨⟨2, 7, some 1, [1], false⟩, "a0", .page, none, none⟩]
    nodup := by decide }

def folderRow : PageTreeRow := ⟨⟨1, 7, none, [], false⟩, "a0", .folder, none, none⟩

theorem effectiveRole_editorClaims :
    effectiveRole editorClaims ⟨1, 7, [], none⟩ = some .editor := by
  decide

theorem isPathed_livePage : IsPathed livePage.rows.places :=
  PageTable.isPathed_of_rows (by decide)

theorem restore_archive_iff_livePage :
    (∃ after, (livePage.archive 1 20).restore (some (some editorClaims)) 1 none = .ok after) ∧
    ∀ session target after, (livePage.archive 1 20).restore session 1 target = .ok after →
      (livePage.KeepsTrash 1 after.1 ↔
        ∀ row ∈ livePage.rows.rows, row.IsWithin 1 → row.archivedAt = none) :=
  restore_archive_iff isPathed_livePage (show Keyed.find _ _ = some folderRow by decide) rfl nofun
    (show loadPageLocation livePage.rows.tables 1 = _ by decide) effectiveRole_editorClaims rfl 20

/-- **A page that had been trashed on its own comes back with its folder**: archived at 10, it is
out of the trash after the folder was archived and restored. -/
theorem not_keepsTrash_trashedPage :
    ¬ ∀ (tree : PageTree) (pageId : Uuid) (now : Time) (row : PageTreeRow) (session target after),
      IsPathed tree.rows.places → tree.Agrees → Keyed.find tree.rows pageId = some row →
      row.archivedAt = none → tree.HasLiveParent row →
      (tree.archive pageId now).restore session pageId target = .ok after →
      tree.KeepsTrash pageId after.1 := by
  intro hall
  have hagrees : trashedPage.Agrees := by
    rw [Agrees]
    decide +kernel
  have hpathed : IsPathed trashedPage.rows.places := PageTable.isPathed_of_rows (by decide)
  have hfolder : Keyed.find trashedPage.rows 1 = some folderRow := by decide
  have hroot : trashedPage.HasLiveParent folderRow := fun _ h => by cases h
  have hkeeps := hall trashedPage 1 20 folderRow (some (some editorClaims)) none _ hpathed hagrees
    hfolder rfl hroot (exists_restore_archive hpathed hfolder rfl hroot
      (show loadPageLocation trashedPage.rows.tables 1 = _ by decide) effectiveRole_editorClaims rfl
      20)
  have hpage := (hkeeps ⟨⟨2, 7, some 1, [1], false⟩, "a0", .page, none, some 10⟩ (by decide)
    (by decide)).1
  exact absurd hpage (by decide +kernel)

end PageTree

end Sone
