import Sone.Transition.Machine
import Sone.Pages.Materialize

/-!
# Documents that are projected in any order

A workspace's documents, and the rows that are projected from them one at a time
(`arrival`). The documents form a tree that is less than 128 deep, and change; a row is as it
was when its document was last projected.

A child that is projected before its parent has a path that is provisional, and the parent's
first projection is not followed by a cascade that would repair it. So once every document was
projected since it last changed, the paths may still be wrong. `right_of_reachesWhen` says
that they are right where no page comes in under a parent while rows wait for it, and no row
that lags behind its document makes a path too long (`Misplaces`).
-/

namespace Sone

open Option

/-- **Documents, and the rows projected from them.** -/
structure Projection where
  docs : PageDocuments
  rows : PageTable
  /-- The pages whose document changed since it was projected. -/
  stale : List Uuid

inductive ArrivalEvent where
  /-- A document is made, or changes. -/
  | edits (doc : ReadPage)
  | materializes (pageId : Uuid)

namespace PageDocuments

/-- Whether the way up from a parent ends at a root in a number of steps. -/
def endsWithin (docs : PageDocuments) : ℕ → Option Uuid → Bool
  | _, none => true
  | 0, some _ => false
  | n + 1, some id =>
    match Keyed.find docs id with
    | none => false
    | some doc => docs.endsWithin n doc.parentPageId

/-- The documents form a tree that is **less than 128 deep**. -/
def IsShallow (docs : PageDocuments) : Prop :=
  ∀ doc ∈ docs.rows, docs.endsWithin 127 doc.parentPageId = true

instance (docs : PageDocuments) : Decidable docs.IsShallow :=
  inferInstanceAs (Decidable (∀ doc ∈ docs.rows, _))

variable {docs : PageDocuments} {doc : ReadPage} {parentId : Uuid}

theorem exists_find_of_endsWithin {n : ℕ} (h : docs.endsWithin n (some parentId) = true) :
    ∃ parent, Keyed.find docs parentId = some parent := by
  cases n with
  | zero => simp [endsWithin] at h
  | succ n =>
    rw [endsWithin] at h
    split at h
    · simp at h
    · rename_i parent hparent
      exact ⟨parent, hparent⟩

theorem IsShallow.exists_find (h : docs.IsShallow) (hdoc : doc ∈ docs.rows)
    (hparent : doc.parentPageId = some parentId) :
    ∃ parent, Keyed.find docs parentId = some parent :=
  exists_find_of_endsWithin (hparent ▸ h doc hdoc)

theorem IsShallow.parent_ne (h : docs.IsShallow) (hdoc : Keyed.find docs doc.id = some doc) :
    doc.parentPageId ≠ some doc.id := by
  intro hself
  have hnever : ∀ n, docs.endsWithin n (some doc.id) = false := by
    intro n
    induction n with
    | zero => rfl
    | succ n ih =>
      rw [endsWithin, hdoc]
      simp only [hself, ih]
  have hends := h doc (Keyed.mem_rows hdoc)
  rw [hself, hnever] at hends
  simp at hends

end PageDocuments

namespace Projection

def step (workspaceId : Uuid) (s : Projection) : ArrivalEvent → Option Projection
  | .edits doc =>
    let docs : PageDocuments := Keyed.upsert s.docs doc
    if docs.IsShallow then some { s with docs, stale := doc.id :: s.stale } else none
  | .materializes pageId => (Keyed.find s.docs pageId).map fun doc =>
    { s with
      rows := (materializeDocument s.rows doc workspaceId).1
      stale := s.stale.filter (· ≠ pageId) }

end Projection

/-- **The machine of documents that arrive.** It starts with any documents, none of which was
projected. -/
def arrival (workspaceId : Uuid) : Machine Projection ArrivalEvent where
  init s := s.docs.IsShallow ∧ s.rows = .empty ∧ ∀ doc ∈ s.docs.rows, doc.id ∈ s.stale
  step := Projection.step workspaceId

namespace Projection

variable {workspaceId : Uuid} {s s' : Projection}

/-- Once every document was projected since it changed, every path is the parent's path and
the parent. -/
def IsRight (s : Projection) : Prop :=
  s.stale = [] → ∀ row ∈ s.rows.rows, (row.parentPageId = none → row.ancestorIds = []) ∧
    ∀ parentId, row.parentPageId = some parentId → ∃ parent,
      Keyed.find s.rows parentId = some parent ∧
        row.ancestorIds = parent.ancestorIds ++ [parentId]

/-- The steps at which a path comes out wrong: a page comes in under a parent while a row waits
for it, its path is cut, or it is moved with something too far under it. -/
def Misplaces (workspaceId : Uuid) (s : Projection) : ArrivalEvent → Prop
  | .edits _ => False
  | .materializes pageId => ∃ doc ∈ Keyed.find s.docs pageId,
      (Keyed.find s.rows doc.id = none ∧ s.rows.parentFor doc workspaceId ≠ none ∧
        ∃ below ∈ s.rows.rows, below.parentPageId = some doc.id) ∨
      s.rows.IsCut doc workspaceId ∨ s.rows.IsDeep doc workspaceId

instance (workspaceId : Uuid) (s : Projection) (event : ArrivalEvent) :
    Decidable (s.Misplaces workspaceId event) := by
  cases event <;> unfold Misplaces <;> infer_instance

/-- **The invariant.** -/
structure Inv (s : Projection) : Prop where
  pathed : IsPathed s.rows.places
  shallow : s.docs.IsShallow
  /-- The parents of rows have documents. -/
  parents : ∀ id place parentId, s.rows.places id = some place → place.parent = some parentId →
    ∃ doc, Keyed.find s.docs parentId = some doc
  /-- What was projected has a row. -/
  projected : ∀ id doc, Keyed.find s.docs id = some doc → id ∉ s.stale → s.rows.places id ≠ none

theorem Inv.edits (h : s.Inv) {doc : ReadPage}
    (hshallow : PageDocuments.IsShallow (Keyed.upsert s.docs doc)) :
    Inv { s with docs := Keyed.upsert s.docs doc, stale := doc.id :: s.stale } where
  pathed := h.pathed
  shallow := hshallow
  parents := by
    intro id place parentId hplace hparent
    rw [Keyed.find_upsert]
    split
    · exact ⟨doc, rfl⟩
    · exact h.parents id place parentId hplace hparent
  projected := by
    intro id other hother hfresh
    rw [List.mem_cons, not_or] at hfresh
    rw [Keyed.find_upsert, if_neg (Ne.symm hfresh.1)] at hother
    exact h.projected id other hother hfresh.2

/-- **A document is projected**, and no path comes out wrong. -/
theorem Inv.materializes (h : s.Inv) {pageId : Uuid} {doc : ReadPage}
    (hdoc : Keyed.find s.docs pageId = some doc)
    (hgood : ¬ s.Misplaces workspaceId (.materializes pageId)) :
    Inv { s with
      rows := (materializeDocument s.rows doc workspaceId).1
      stale := s.stale.filter (· ≠ pageId) } := by
  obtain rfl : doc.id = pageId := Keyed.key_eq hdoc
  have hparentFor : ∀ parentId, s.rows.parentFor doc workspaceId = some parentId →
      ∃ parent, Keyed.find s.docs parentId = some parent := by
    intro parentId hparent
    rw [PageTable.parentFor] at hparent
    split at hparent
    · obtain ⟨row, hrow, hrowParent⟩ := bind_eq_some_iff.mp hparent
      exact h.parents doc.id row.place parentId (PageTable.places_of_find hrow) hrowParent
    · exact h.shallow.exists_find (Keyed.mem_rows hdoc) hparent
  obtain ⟨found, -, hfind⟩ := s.rows.find_materializeDocument doc workspaceId
  refine ⟨?_, h.shallow, ?_, ?_⟩
  · refine PageTable.isPathed_materializeDocument h.pathed ?_ ?_ ?_ ?_
    · exact fun hcut => hgood ⟨doc, hdoc, .inr (.inl hcut)⟩
    · exact fun hdeep => hgood ⟨doc, hdoc, .inr (.inr hdeep)⟩
    · exact fun hself => absurd hself (h.shallow.parent_ne hdoc)
    · intro hrow below hbelow hparent
      by_contra hne
      exact hgood ⟨doc, hdoc, .inl ⟨hrow, hne, below, hbelow, hparent⟩⟩
  · intro id place parentId hplace hparent
    obtain ⟨row, hrow, rfl⟩ := map_eq_some_iff.mp hplace
    rw [hfind] at hrow
    obtain ⟨before, hbefore, rfl⟩ := map_eq_some_iff.mp hrow
    have hbeforeParent : before.parentPageId = some parentId :=
      (PageTable.parentPageId_rewrite found before).symm.trans hparent
    split at hbefore
    · obtain rfl := some.inj hbefore
      exact hparentFor parentId (PageTable.parentFor_of_placeFor hbeforeParent)
    · exact h.parents id before.place parentId (PageTable.places_of_find hbefore) hbeforeParent
  · intro id other hother hfresh
    rw [ne_eq, PageTable.places_eq_none, hfind]
    split
    · simp
    · rename_i hne
      have hbefore := h.projected id other hother fun hmem =>
        hfresh (List.mem_filter.mpr ⟨hmem, by simpa using Ne.symm hne⟩)
      rw [ne_eq, PageTable.places_eq_none] at hbefore
      simpa using hbefore

theorem Inv.step (h : s.Inv) {event : ArrivalEvent} (hgood : ¬ s.Misplaces workspaceId event)
    (hstep : s.step workspaceId event = some s') : s'.Inv := by
  cases event with
  | edits doc =>
    obtain ⟨hshallow, heq⟩ := ite_none_right_eq_some.mp hstep
    obtain rfl := some.inj heq
    exact h.edits hshallow
  | materializes pageId =>
    obtain ⟨doc, hdoc, rfl⟩ := map_eq_some_iff.mp hstep
    exact h.materializes hdoc hgood

theorem Inv.of_init (h : (arrival workspaceId).init s) : s.Inv := by
  obtain ⟨hshallow, hrows, hstale⟩ := h
  have hnone : ∀ id, s.rows.places id = none := by
    intro id
    rw [PageTable.places_eq_none, hrows, Keyed.find_empty]
  refine ⟨?_, hshallow, ?_, ?_⟩
  · intro id place hplace
    simp [hnone] at hplace
  · intro id place parentId hplace
    simp [hnone] at hplace
  · intro id doc hdoc hfresh
    have hmem := hstale doc (Keyed.mem_rows hdoc)
    rw [Keyed.key_eq hdoc] at hmem
    exact absurd hmem hfresh

theorem Inv.isRight (h : s.Inv) : s.IsRight := by
  intro hstale row hmem
  have hplace := PageTable.places_of_find (Keyed.mem_rows_iff.mp hmem)
  have hagrees := h.pathed row.id _ hplace
  refine ⟨hagrees.root, fun parentId hparent => ?_⟩
  obtain ⟨doc, hdoc⟩ := h.parents row.id _ parentId hplace hparent
  have hsome := h.projected parentId doc hdoc (by simp [hstale])
  rw [ne_eq, PageTable.places_eq_none] at hsome
  obtain ⟨parent, hfind⟩ := ne_none_iff_exists'.mp hsome
  exact ⟨parent, hfind, hagrees.child parentId _ hparent (PageTable.places_of_find hfind)⟩

/-- **The paths are right** once every document was projected since it last changed, in every
run in which no page comes in under a parent while a row waits for it, no path is cut, and
nothing is moved with something too far under it. -/
theorem right_of_reachesWhen
    (h : (arrival workspaceId).ReachesWhen (fun s event => ¬ s.Misplaces workspaceId event) s) :
    s.IsRight := by
  have hinv : s.Inv := h.invariant (fun _ => Inv.of_init)
    fun _ _ _ hinv hgood hstep => hinv.step hgood hstep
  exact hinv.isRight

/-! ### Three documents -/

def threeDocuments : PageDocuments where
  rows := [⟨1, .folder, none, none, "a0", none⟩, ⟨2, .folder, some 1, none, "a0", none⟩,
    ⟨3, .page, some 2, none, "a0", none⟩]
  nodup := by decide

def threeArriving : Projection where
  docs := threeDocuments
  rows := .empty
  stale := [1, 2, 3]

theorem threeArriving_init (workspaceId : Uuid) : (arrival workspaceId).init threeArriving := by
  exact ⟨by decide +kernel, rfl, by decide⟩

/-- **From the top down**: and then the inner folder is moved to the root. -/
theorem right_of_reachesWhen_topDown : ∃ s : Projection, s.IsRight ∧ s.stale = [] ∧
    (Keyed.find s.rows 3).map (·.ancestorIds) = some [2] := by
  have hreach : ∃ s : Projection,
      (arrival 7).ReachesWhen (fun s event => ¬ s.Misplaces 7 event) s ∧
        s.stale = [] ∧ (Keyed.find s.rows 3).map (·.ancestorIds) = some [2] :=
    Machine.exists_reachesWhen_of_runWhen
      [.materializes 1, .materializes 2, .materializes 3,
        .edits ⟨2, .folder, none, none, "a1", none⟩, .materializes 2]
      (threeArriving_init 7) (by decide +kernel)
  obtain ⟨s, hs, hstale, hpath⟩ := hreach
  exact ⟨s, right_of_reachesWhen hs, hstale, hpath⟩

/-- **From the bottom up**, the path of the page stays provisional: it has the inner folder,
and not the folder that one is in. -/
theorem not_isRight : ¬ ∀ workspaceId s, (arrival workspaceId).Reaches s → s.IsRight := by
  intro hall
  have hreach : ∃ s : Projection, (arrival 7).Reaches s ∧ s.stale = [] ∧
      ((Keyed.find s.rows 3).map PageTreeRow.place = some ⟨some 2, [2]⟩ ∧
        (Keyed.find s.rows 2).map (·.ancestorIds) = some [1]) :=
    Machine.exists_reachesWhen_of_runWhen
      [.materializes 3, .materializes 1, .materializes 2] (threeArriving_init 7) (by decide +kernel)
  obtain ⟨s, hs, hstale, hpage, hfolder⟩ := hreach
  obtain ⟨page, hfind, hplace⟩ := map_eq_some_iff.mp hpage
  obtain ⟨folder, hfindFolder, hancestors⟩ := map_eq_some_iff.mp hfolder
  obtain ⟨-, hparent⟩ := hall 7 s hs hstale page (Keyed.mem_rows hfind)
  obtain ⟨parent, hfindParent, hpath⟩ := hparent 2 (congrArg Place.parent hplace)
  obtain rfl := some.inj (hfindFolder.symm.trans hfindParent)
  have hpagePath : page.ancestorIds = [2] := congrArg Place.ancestors hplace
  rw [hancestors, hpagePath] at hpath
  simp at hpath

end Projection

end Sone
