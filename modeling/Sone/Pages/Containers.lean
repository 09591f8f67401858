import Sone.Access.MayRead
import Sone.Pages.Archive
import Sone.Transition.Machine

/-!
# Protected sections

`POST /api/pages/:pageId/containers` (`pages/permissionRoutes.ts`) makes a protected section of
a page: a row of the kind `container`, under the page and restricted from the moment it exists.
It writes the row and no document. The section is then edited like any document, through sync,
and each projection of it rebuilds its row from what the document says, of which only the
workspace and the restriction are not taken.

So a section stays one as long as each projection of it finds the kind in its document, and the
page as its parent (`keeps_of_reachesWhen`). A document that was only ever edited through sync
has neither: a client may not write these keys. What a first projection leaves of a section is
a page at the root of the workspace.
-/

namespace Sone

open Option List

/-- The row of a protected section, as it is inserted. -/
def containerRow (containerId : Uuid) (page : PageTreeRow) : PageTreeRow where
  id := containerId
  workspaceId := page.workspaceId
  parentPageId := some page.id
  ancestorIds := page.ancestorIds ++ [page.id]
  restricted := true
  idx := "0"
  kind := .container
  collectionId := none
  archivedAt := none

namespace PageTree

/-- `POST /api/pages/:pageId/containers`, with the user of the session and what
`resolvePageAccess` gives them on the page: the tree, and the grant to the one who made it. -/
def createContainer (tree : PageTree) (session : Option (Uuid × Option Role))
    (pageId containerId : Uuid) : Except HttpRefusal (PageTree × PagePermissionRow) :=
  match session with
  | none => .error ⟨401, "not_authenticated"⟩
  | some (userId, access) =>
    if ¬ access.any (atLeast · .editor) then
      .error (if access = none then ⟨404, "not_found"⟩ else ⟨403, "forbidden"⟩)
    else
      match Keyed.find tree.rows pageId with
      | none => .error ⟨404, "not_found"⟩
      | some parent =>
        .ok ({ tree with rows := Keyed.upsert tree.rows (containerRow containerId parent) },
          ⟨containerId, userId, .admin, true⟩)

/-- An id **is fresh**, as one that was just drawn is: there is no document of it, and no row has
it or names it. -/
def IsFresh (tree : PageTree) (id : Uuid) : Prop :=
  Keyed.find tree.docs id = none ∧
    ∀ row ∈ tree.rows.rows, row.id ≠ id ∧ row.parentPageId ≠ some id ∧ id ∉ row.ancestorIds

/-- What happens to a section after it was made. -/
inductive SectionEvent where
  /-- An edit of its document, which has these keys then. -/
  | edits (doc : ReadPage)
  /-- A projection of it, by a room or a job of a workspace. -/
  | projects (workspaceId : Uuid)
  deriving DecidableEq

def afterSection (tree : PageTree) (containerId : Uuid) : SectionEvent → PageTree
  | .edits doc => { tree with docs := Keyed.upsert tree.docs { doc with id := containerId } }
  | .projects workspaceId => tree.rematerialize containerId workspaceId

/-- **The life of a protected section** of a page. -/
def sections (containerId : Uuid) (page : PageTreeRow) : Machine PageTree SectionEvent where
  init tree := ∃ before session grant, IsFresh before containerId ∧
    Keyed.find before.rows page.id = some page ∧
      before.createContainer session page.id containerId = .ok (tree, grant)
  step tree e := some (tree.afterSection containerId e)

/-- A section **stays one**: its row has the kind, the page, the path and the restriction it was
made with. -/
def KeepsSection (containerId : Uuid) (page : PageTreeRow) (tree : PageTree) : Prop :=
  ∃ row ∈ Keyed.find tree.rows containerId, row.kind = .container ∧
    row.parentPageId = some page.id ∧ row.ancestorIds = page.ancestorIds ++ [page.id] ∧
      row.restricted = true

/-- An event **uproots** a section: it is a projection, and the document does not say that it
is a container in that page, or the path of the page is one that a projection cuts. -/
def Uproots (containerId : Uuid) (page : PageTreeRow) (tree : PageTree) : SectionEvent → Prop
  | .edits _ => False
  | .projects workspaceId =>
    let doc := tree.docs.load containerId
    ¬ (doc.kind = .container ∧
      (doc.parentPageId = some page.id ∨ tree.rows.Refuses doc workspaceId) ∧
        page.ancestorIds.length < 128)

variable {containerId workspaceId : Uuid} {page : PageTreeRow} {tree : PageTree}
  {e : SectionEvent}

/-! ### What a projection makes of a section -/

/-- **What holds of a section** while it stays one: its page is there, not under it, and no other
page is in it. -/
structure IsRooted (containerId : Uuid) (page : PageTreeRow) (tree : PageTree) : Prop where
  keeps : tree.KeepsSection containerId page
  find_page : Keyed.find tree.rows page.id = some page
  not_mem_path : containerId ∉ page.ancestorIds ++ [page.id]
  childless : ∀ row ∈ tree.rows.rows, row.id ≠ containerId → row.parentPageId ≠ some containerId

/-- **The place a projection gives a section** is the one it has exactly where the document asks
for it, or for one that is refused, and the path is not cut. -/
theorem IsRooted.placeFor_eq_iff (h : tree.IsRooted containerId page) {doc : ReadPage}
    (hid : doc.id = containerId) :
    tree.rows.placeFor doc workspaceId = ⟨some page.id, page.ancestorIds ++ [page.id]⟩ ↔
      (doc.parentPageId = some page.id ∨ tree.rows.Refuses doc workspaceId) ∧
        page.ancestorIds.length < 128 := by
  have hplace : tree.rows.parentFor doc workspaceId = some page.id →
      tree.rows.placeFor doc workspaceId =
        ⟨some page.id, lastIds (page.ancestorIds ++ [page.id])⟩ := fun hparent =>
    PageTable.placeFor_of_parentFor hparent h.find_page (hid ▸ h.not_mem_path)
  have hparentFor : tree.rows.parentFor doc workspaceId = some page.id ↔
      doc.parentPageId = some page.id ∨ tree.rows.Refuses doc workspaceId := by
    obtain ⟨row, hrow, -, hparent, -⟩ := h.keeps
    rw [PageTable.parentFor, hid]
    by_cases hrefuses : tree.rows.Refuses doc workspaceId
    · simp [hrefuses, mem_def.mp hrow, hparent]
    · simp [hrefuses]
  constructor
  · intro heq
    have hparent := PageTable.parentFor_of_placeFor (congrArg Place.parent heq)
    refine ⟨hparentFor.mp hparent, ?_⟩
    -- what was cut has 128 ids
    have hlength := congrArg (List.length ∘ Place.ancestors) ((hplace hparent).symm.trans heq)
    simp only [Function.comp_apply, lastIds, length_drop, length_append,
      length_singleton] at hlength
    omega
  · rintro ⟨hasked, hshort⟩
    rw [hplace (hparentFor.mpr hasked), PageTable.lastIds_eq]
    rw [length_append, length_singleton]
    omega

/-- **The rows after a section was projected**: its own is written, and the others stay. -/
theorem IsRooted.find_rematerialize (h : tree.IsRooted containerId page) (id : Uuid) :
    Keyed.find (tree.rematerialize containerId workspaceId).rows id =
      if containerId = id then
        some (projectedRow (Keyed.find tree.rows containerId) (tree.docs.load containerId)
          workspaceId (tree.rows.placeFor (tree.docs.load containerId) workspaceId))
      else Keyed.find tree.rows id := by
  have hid := PageDocuments.load_id tree.docs containerId
  have hself : ∀ p ∈ (tree.rows.placeFor (tree.docs.load containerId) workspaceId).parent,
      p ≠ containerId := by
    obtain ⟨row, hrow, -⟩ := h.keeps
    intro p hp
    rcases PageTable.placeFor_cases tree.rows (tree.docs.load containerId) workspaceId with
      hplace | ⟨q, -, -, hnone, hplace⟩ | ⟨q, above, -, -, hnot, hplace⟩
    · simp [hplace] at hp
    · rw [hplace, mem_def, Option.some.injEq] at hp
      rintro rfl
      rw [← hp, hnone] at hrow
      simp at hrow
    · rw [hplace, mem_def, Option.some.injEq] at hp
      rw [hid] at hnot
      rintro rfl
      exact hnot (by simp [hp])
  have hfind := @PageTable.find_materializeDocument_of_out tree.rows (tree.docs.load containerId)
    workspaceId (fun _ => True)
    (fun row hrow _ hne p hp =>
      ⟨fun heq => h.childless row hrow (hid ▸ hne) (hp.trans (by rw [heq, hid])), trivial⟩)
    (fun _ p hp => ⟨fun heq => hself p hp (heq.trans hid), trivial⟩) id trivial
  rwa [hid] at hfind

/-- **A projection keeps a section** exactly where it does not uproot it. -/
theorem IsRooted.keeps_iff (h : tree.IsRooted containerId page) :
    (tree.afterSection containerId e).KeepsSection containerId page ↔
      ¬ Uproots containerId page tree e := by
  cases e with
  | edits doc => exact iff_of_true h.keeps id
  | projects workspaceId =>
    obtain ⟨row, hrow, -, -, -, hrestricted⟩ := h.keeps
    have hplace := @IsRooted.placeFor_eq_iff containerId workspaceId page tree h
      (tree.docs.load containerId) (PageDocuments.load_id _ _)
    have hparts : ∀ place : Place Uuid,
        place = ⟨some page.id, page.ancestorIds ++ [page.id]⟩ ↔
          place.parent = some page.id ∧ place.ancestors = page.ancestorIds ++ [page.id] := by
      rintro ⟨parent, ancestors⟩
      rw [Place.mk.injEq]
    rw [Uproots, not_not, ← hplace, hparts, KeepsSection, afterSection, h.find_rematerialize,
      if_pos rfl, mem_def.mp hrow]
    simp [projectedRow, hrestricted]

theorem IsRooted.afterSection (h : tree.IsRooted containerId page)
    (hkeeps : (tree.afterSection containerId e).KeepsSection containerId page) :
    (tree.afterSection containerId e).IsRooted containerId page := by
  cases e with
  | edits doc => exact ⟨hkeeps, h.find_page, h.not_mem_path, h.childless⟩
  | projects workspaceId =>
    have hne : containerId ≠ page.id := fun heq => h.not_mem_path (by simp [heq])
    refine ⟨hkeeps, ?_, h.not_mem_path, fun row hrow hother => ?_⟩
    · rw [afterSection, h.find_rematerialize, if_neg hne, h.find_page]
    · rw [afterSection, Keyed.mem_rows_iff, h.find_rematerialize, if_neg (Ne.symm hother)] at hrow
      exact h.childless row (Keyed.mem_rows hrow) hother

theorem exists_of_init (h : (sections containerId page).init tree) :
    ∃ before : PageTree, IsFresh before containerId ∧ Keyed.find before.rows page.id = some page ∧
      tree = { before with rows := Keyed.upsert before.rows (containerRow containerId page) } := by
  obtain ⟨before, session, grant, hfresh, hpage, hcreated⟩ := h
  unfold createContainer at hcreated
  split at hcreated
  · cases hcreated
  split at hcreated
  · cases hcreated
  rw [hpage] at hcreated
  obtain ⟨rfl, -⟩ := Prod.mk.inj (Except.ok.inj hcreated)
  exact ⟨before, hfresh, hpage, rfl⟩

theorem isRooted_of_init (h : (sections containerId page).init tree) :
    tree.IsRooted containerId page := by
  obtain ⟨before, hfresh, hpage, rfl⟩ := exists_of_init h
  have hout := hfresh.2 page (Keyed.mem_rows hpage)
  have hfind : ∀ id, Keyed.find (Keyed.upsert before.rows (containerRow containerId page)) id =
      if containerId = id then some (containerRow containerId page)
      else Keyed.find before.rows id := fun id => Keyed.find_upsert
  refine ⟨⟨containerRow containerId page, ?_, rfl, rfl, rfl, rfl⟩, ?_, ?_,
    fun row hrow hother => ?_⟩
  · rw [mem_def, hfind, if_pos rfl]
  · rw [hfind, if_neg (Ne.symm hout.1), hpage]
  · simpa [not_or] using ⟨hout.2.2, Ne.symm hout.1⟩
  · rw [Keyed.mem_rows_iff, hfind, if_neg (Ne.symm hother)] at hrow
    exact (hfresh.2 row (Keyed.mem_rows hrow)).2.1

/-! ### Runs -/

/-- **A protected section stays one** in every run in which no projection uproots it, and stops
at the first that does. -/
theorem keepsSection_of_reachesWhen
    (h : (sections containerId page).ReachesWhen
      (fun tree e => ¬ Uproots containerId page tree e) tree) :
    tree.KeepsSection containerId page ∧
      ∀ e after, (sections containerId page).step tree e = some after →
        (after.KeepsSection containerId page ↔ ¬ Uproots containerId page tree e) := by
  have hrooted : tree.IsRooted containerId page := by
    refine h.invariant (fun tree hinit => isRooted_of_init hinit)
      fun tree e after hrooted hok he => ?_
    obtain rfl := some.inj he
    exact hrooted.afterSection (hrooted.keeps_iff.mpr hok)
  refine ⟨hrooted.keeps, fun e after he => ?_⟩
  obtain rfl := some.inj he
  exact hrooted.keeps_iff

/-! ### A section and its first projection -/

def sectionedPage : PageTreeRow := ⟨⟨1, 7, none, [], false⟩, "a0", .page, none, none⟩

def beforeSection : PageTree where
  docs := { rows := [⟨1, .page, none, none, "a0", none⟩], nodup := by decide }
  rows := { rows := [sectionedPage], nodup := by decide }

def newSection : PageTree :=
  { beforeSection with rows := Keyed.upsert beforeSection.rows (containerRow 3 sectionedPage) }

theorem init_newSection : (sections 3 sectionedPage).init newSection :=
  ⟨beforeSection, some (9, some .editor), ⟨3, 9, .admin, true⟩,
    by unfold IsFresh; decide, by decide, rfl⟩

theorem keepsSection_of_reachesWhen_newSection :
    newSection.KeepsSection 3 sectionedPage ∧
      ∀ e after, (sections 3 sectionedPage).step newSection e = some after →
        (after.KeepsSection 3 sectionedPage ↔ ¬ Uproots 3 sectionedPage newSection e) :=
  keepsSection_of_reachesWhen (.start init_newSection)

/-- **A section is a page at the root after its first projection**: it was written in, as any
document is, and then projected. -/
theorem not_keepsSection_newSection :
    ¬ ∀ containerId page tree, (sections containerId page).Reaches tree →
      tree.KeepsSection containerId page := by
  intro hall
  have hreach : (sections 3 sectionedPage).Reaches
      ((newSection.afterSection 3 (.edits (.blank 3))).afterSection 3 (.projects 7)) :=
    ((Machine.ReachesWhen.start init_newSection).next trivial rfl).next trivial rfl
  obtain ⟨row, hrow, hkind, -⟩ := hall _ _ _ hreach
  have hpage : (Keyed.find ((newSection.afterSection 3 (.edits (.blank 3))).afterSection 3
      (.projects 7)).rows 3).map (fun row => (row.kind, row.parentPageId)) =
        some (.page, none) := by
    decide +kernel
  rw [mem_def.mp hrow, map_some, Option.some.injEq, Prod.mk.injEq, hkind] at hpage
  exact absurd hpage.1 (by decide)

end PageTree

end Sone
