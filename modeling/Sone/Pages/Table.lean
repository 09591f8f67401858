import Sone.Table.Keyed
import Sone.Tree.Paths
import Sone.Access.Tables

/-!
# The table of pages and the documents behind it

`pages` is a projection: each row is rebuilt from a page's document by
`materializeDocument`. The rows here have the columns the tree is made of, beside those the
access queries read, and the documents have the keys those columns come from. The parent of a
row is not a foreign key, since documents arrive in any order.
-/

namespace Sone

inductive EntryKind where
  | page
  | folder
  | canvas
  | row
  | container
  deriving DecidableEq, Repr

/-- `pages`, with the columns of the tree. -/
structure PageTreeRow extends PageRow where
  /-- The order key among siblings. -/
  idx : String
  kind : EntryKind
  collectionId : Option Uuid
  archivedAt : Option Time
  deriving DecidableEq

/-- `ReadPage`, of the document of a page: the keys the tree is made of. -/
structure ReadPage where
  id : Uuid
  kind : EntryKind
  parentPageId : Option Uuid
  collectionId : Option Uuid
  idx : String
  archivedAt : Option Time
  deriving DecidableEq

/-- The rows of `pages`. -/
abbrev PageTable := Keyed fun row : PageTreeRow => row.id

abbrev PageDocuments := Keyed fun doc : ReadPage => doc.id

def PageTreeRow.place (row : PageTreeRow) : Place Uuid := ⟨row.parentPageId, row.ancestorIds⟩

def PageTreeRow.withAncestors (row : PageTreeRow) (ancestorIds : List Uuid) : PageTreeRow :=
  { row with ancestorIds }

/-- `readPageMeta`, of a document that has no keys. -/
def ReadPage.blank (id : Uuid) : ReadPage where
  id
  kind := .page
  parentPageId := none
  collectionId := none
  idx := "a0"
  archivedAt := none

namespace PageDocuments

/-- `loadDoc`: a document that is not there has no keys. -/
def load (docs : PageDocuments) (id : Uuid) : ReadPage := (Keyed.find docs id).getD (.blank id)

@[simp] theorem load_id (docs : PageDocuments) (id : Uuid) : (docs.load id).id = id := by
  rw [load]
  cases hfind : Keyed.find docs id with
  | none => rfl
  | some doc => exact Keyed.key_eq hfind

end PageDocuments

/-- `id = $1 OR $1 = ANY(ancestor_ids)`. -/
def PageTreeRow.IsWithin (pageId : Uuid) (row : PageTreeRow) : Prop :=
  row.id = pageId ∨ pageId ∈ row.ancestorIds

instance (pageId : Uuid) (row : PageTreeRow) : Decidable (row.IsWithin pageId) :=
  inferInstanceAs (Decidable (_ ∨ _))

/-- `ORDER BY idx, id`. -/
def PageTreeRow.comesBefore (a b : PageTreeRow) : Bool :=
  a.idx < b.idx ∨ (a.idx = b.idx ∧ a.id ≤ b.id)

namespace PageTable

variable (t : PageTable)

def subtreeIds (pageId : Uuid) : List Uuid := (t.rows.filter (·.IsWithin pageId)).map (·.id)

/-- The rows, as the access queries read them. -/
def tables : Tables where
  pages := t.rows.map (·.toPageRow)

def places (id : Uuid) : Option (Place Uuid) := (Keyed.find t id).map PageTreeRow.place

variable {t} {id : Uuid} {row : PageTreeRow}

theorem id_of_find (h : Keyed.find t id = some row) : row.id = id :=
  @Keyed.key_eq _ _ _ (fun row : PageTreeRow => row.id) t row id h

theorem places_eq_none : t.places id = none ↔ Keyed.find t id = none := by
  simp [places]

theorem places_of_find (h : Keyed.find t id = some row) :
    t.places id = some ⟨row.parentPageId, row.ancestorIds⟩ := by
  rw [places, h]
  rfl

theorem places_upsert : places (Keyed.upsert t row) =
    Function.update t.places row.id (some ⟨row.parentPageId, row.ancestorIds⟩) := by
  funext id
  rw [places, Keyed.find_upsert]
  by_cases hid : row.id = id
  · subst hid
    rw [if_pos rfl, Function.update_self]
    rfl
  · rw [if_neg hid, Function.update_of_ne (Ne.symm hid)]
    rfl

def pathUnder (t : PageTable) : Option Uuid → List Uuid
  | none => []
  | some parentId =>
    match Keyed.find t parentId with
    | none => [parentId]
    | some parent => parent.ancestorIds ++ [parentId]

theorem isPathed_of_rows (h : ∀ row ∈ t.rows, row.ancestorIds = t.pathUnder row.parentPageId) :
    IsPathed t.places := by
  intro id place hplace
  obtain ⟨row, hfind, rfl⟩ := Option.map_eq_some_iff.mp hplace
  have hpath : row.place.ancestors = t.pathUnder row.place.parent := h row (Keyed.mem_rows hfind)
  refine ⟨fun hroot => ?_, fun parentId above hparent habove => ?_,
    fun parentId hparent hnone => ?_⟩
  · rw [hpath, hroot, pathUnder]
  · obtain ⟨parent, hfindParent, rfl⟩ := Option.map_eq_some_iff.mp habove
    rw [hpath, hparent, pathUnder, hfindParent]
    rfl
  · rw [hpath, hparent, pathUnder, places_eq_none.mp hnone]

end PageTable

end Sone
