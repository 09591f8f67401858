import Sone.Order.KeyBetween
import Sone.Pages.RowArchive
import Sone.Projection.Columns
import Sone.Table.Named

/-!
# Writing the cells of a collection

Two routes write values into rows (`http/collections.ts`). `POST …/rows/bulk` (`pasteRows`)
makes rows with their values in one request, `PUT …/properties/:fieldId` (`putProperty`) writes
one value of one row. Both end in `setPropertyValue` (`core/doc/collection.ts`), which stores
what it is given unless the field is derived. What is stored is whatever JSON there was.

Before that `putProperty` asks what a value names: the rows of a relation, the files of a files
cell, the options of a select. `pasteRows` asks of a field only that the collection has it.
-/

namespace Sone

/-- `MAX_BULK_ROWS` -/
def maxBulkRows : ℕ := 50

/-- `MAX_CELL_RELATIONS` -/
def maxCellRelations : ℕ := 32

/-- `MAX_CELL_FILES` -/
def maxCellFiles : ℕ := 8

/-- `HAS_OPTIONS` -/
def hasOptions (fieldType : String) : Bool := fieldType ∈ ["select", "multiSelect", "status"]

/-- How a request ends that is not answered: `ctx.fail`, or an error that is thrown. -/
inductive CellFailure where
  | fail (status : ℕ) (code : String) (limit : Option ℕ)
  | thrown
  deriving DecidableEq, Repr

/-- `collection_fields` -/
structure CellField where
  id : Uuid
  collectionId : Uuid
  fieldType : String
  config : JsValue

/-- `files`, by their workspace. -/
structure CellFile where
  id : Uuid
  workspaceId : Uuid

/-- `collections`, by the page that holds each. -/
structure CollectionPlace where
  id : Uuid
  pageId : Uuid

/-- What a row's document has beside the keys of the tree: a title and its values. -/
structure RowDocument where
  id : Uuid
  title : String
  properties : YMap JsValue

/-- The database: documents and their rows, and what a cell may name. -/
structure CellDb where
  tree : PageTree
  documents : Keyed fun doc : RowDocument => doc.id
  collections : Keyed fun collection : CollectionPlace => collection.id
  fields : Keyed fun field : CellField => field.id
  files : Keyed fun file : CellFile => file.id

structure CellEnv where
  pg : Postgres
  /-- `randomUUID()`, the first time it is called in a request, the second, and so on. -/
  randomUUID : ℕ → Uuid
  /-- Whether the projection of a row takes the title and the values its document has, the
  fields being these. -/
  projects : List CellField → String → YMap JsValue → Bool

/-! ### Storing a value -/

/-- `setPropertyValue`: the values, where the field is not derived. -/
def setPropertyValue (properties : YMap JsValue) (fieldId fieldType : String) (value : JsValue) :
    Option (YMap JsValue) :=
  if isDerived fieldType then none
  else if value.isNullish then some (properties.delete fieldId)
  else some (properties.set fieldId value)

/-- What two members of a `Set` are told apart by. No two objects are one. -/
def JsValue.sameValueZero : JsValue → JsValue → Bool
  | undefined, undefined => true
  | null, null => true
  | boolean b, boolean c => b = c
  | number n, number m => n = m
  | string s, string t => s = t
  | _, _ => false

/-- `selectValueIsKnown`: it throws of an option that is nothing, and of ids that are no list. -/
def selectValueIsKnown (value : JsValue) (options : List JsValue) : Option Bool :=
  if options.any (·.isNullish) then none
  else
    let has (id : JsValue) : Bool := options.any fun option => (option.get "id").sameValueZero id
    match (value.get "kind").string? with
    | some "select" => some (has (value.get "optionId"))
    | some "multiSelect" => (value.get "optionIds").array?.map fun ids => ids.all has
    | _ => some true

namespace CellDb

variable (env : CellEnv) (db : CellDb)

/-- `loadDoc`: a document that is not there has nothing. -/
def document (id : Uuid) : RowDocument := (Keyed.find db.documents id).getD ⟨id, "", YMap.empty⟩

/-! ### One cell -/

def idsOf (kind key : String) (value : JsValue) : Option (List String) :=
  if (value.get "kind").string? = some kind then
    (value.get key).array?.map fun items => items.filterMap JsValue.string?
  else none

/-- The ids must be those of rows: as many as were asked for are found. -/
def checkKnown {ρ : Type} (code : String) (ids : List String) (found : Option (List ρ)) :
    Except CellFailure Unit :=
  if ids = [] then .ok ()
  else match found with
    | none => .error .thrown
    | some rows => if rows.length = ids.dedup.length then .ok () else .error (.fail 404 code none)

/-- The row a relation may name: one of the workspace and the collection, not archived. -/
def isTarget (workspaceId target : Uuid) (row : PageTreeRow) : Bool :=
  row.workspaceId = workspaceId ∧ row.IsLiveRowOf target

def checkRelation (workspaceId : Uuid) (config value : JsValue) : Except CellFailure Unit :=
  match idsOf "relation" "pageIds" value with
  | none => .error (.fail 422 "invalid_value" none)
  | some ids =>
    if ids.length > maxCellRelations then
      .error (.fail 422 "too_many_relations" (some maxCellRelations))
    else match (config.get "collectionId").string?.filter (· ≠ "") with
      -- it cannot be created that way, but its config can be edited into that
      | none => .error (.fail 422 "relation_without_target" none)
      | some target => checkKnown "row_not_found" ids ((env.pg.uuid target).bind fun target =>
          Keyed.named db.tree.rows env.pg.uuid (isTarget workspaceId target) ids)

def checkFiles (workspaceId : Uuid) (value : JsValue) : Except CellFailure Unit :=
  match idsOf "files" "fileIds" value with
  | none => .error (.fail 422 "invalid_value" none)
  | some ids =>
    if ids.length > maxCellFiles then .error (.fail 422 "too_many_files" (some maxCellFiles))
    else checkKnown "file_not_found" ids
      (Keyed.named db.files env.pg.uuid (fun file => file.workspaceId = workspaceId) ids)

def checkOptions (config value : JsValue) : Except CellFailure Unit :=
  if config.isNullish then .error .thrown
  else match selectValueIsKnown value (((config.get "options").array?).getD []) with
    | none => .error .thrown
    | some false => .error (.fail 422 "unknown_option" none)
    | some true => .ok ()

/-- What is asked of a value before it is stored, by the type of the field. -/
def checkValue (workspaceId : Uuid) (field : CellField) (value : JsValue) :
    Except CellFailure Unit := do
  if value.isNullish then return ()
  if field.fieldType = "relation" then db.checkRelation env workspaceId field.config value
  if field.fieldType = "files" then db.checkFiles env workspaceId value
  if hasOptions field.fieldType then checkOptions field.config value

def fieldOfRow (rowId fieldId : Uuid) : Option CellField :=
  (Keyed.find db.fields fieldId).filter fun field => (Keyed.find db.tree.rows rowId).any fun row =>
    row.kind = .row ∧ row.collectionId = some field.collectionId

/-- `rematerialize`, of a row. -/
def rematerializeRow (rowId workspaceId : Uuid) : Except CellFailure CellDb :=
  if env.projects db.fields.rows (db.document rowId).title (db.document rowId).properties then
    .ok { db with tree := db.tree.rematerialize rowId workspaceId }
  else .error .thrown

/-- `applyToDocument`, for the values. -/
def setProperties (rowId : Uuid) (properties : YMap JsValue) : CellDb :=
  { db with documents := Keyed.upsert db.documents { db.document rowId with properties } }

/-- `PUT /api/pages/:rowId/properties/:fieldId`, once it is allowed in a workspace: what is
there after it, and how it ended. -/
def putProperty (workspaceId rowId : Uuid) (fieldId : String) (value : JsValue) :
    CellDb × Except CellFailure Unit :=
  match env.pg.uuid fieldId with
  | none => (db, .error .thrown)
  | some id =>
    match db.fieldOfRow rowId id with
    | none => (db, .error (.fail 404 "field_not_found" none))
    | some field =>
      match db.checkValue env workspaceId field value with
      | .error failure => (db, .error failure)
      | .ok () =>
        let properties := (db.document rowId).properties
        match setPropertyValue properties fieldId field.fieldType value with
        | none => (db, .error (.fail 409 "field_is_derived" none))
        | some written =>
          let stored := db.setProperties rowId written
          -- to take away what is not there changes nothing
          if value.isNullish && !properties.has fieldId then (stored, .ok ())
          else match stored.rematerializeRow env rowId workspaceId with
            | .error failure => (stored, .error failure)
            | .ok projected => (projected, .ok ())

/-! ### Many rows -/

end CellDb

/-- One of the rows that come in: a title and values. -/
structure IncomingRow where
  title : String
  values : List (String × JsValue)

namespace IncomingRow

/-- An entry of `body.rows`, whatever it is. -/
def ofEntry (entry : JsValue) : IncomingRow where
  title := ((entry.get "title").string?.map JsString.trim).getD ""
  values := match entry.get "values" with
    | .object fields => fields
    | _ => []

def value (row : IncomingRow) (key : String) : JsValue := (JsValue.object row.values).get key

/-- `Object.keys(row.values)` -/
def keys (row : IncomingRow) : List String := (row.values.map (·.1)).dedup

end IncomingRow

namespace CellDb

variable (env : CellEnv) (db : CellDb)

/-- `fields.get(fieldId)`: the field of the collection a key is the written id of. -/
def fieldOf (collectionId : Uuid) (key : String) : Option CellField :=
  ((env.pg.named key).bind (Keyed.find db.fields)).filter
    fun field => field.collectionId = collectionId

/-- One value of a row that is pasted. Where the field is derived it is passed over. -/
def pasteValue (collectionId : Uuid) (row : IncomingRow) (properties : YMap JsValue)
    (key : String) : YMap JsValue :=
  ((db.fieldOf env collectionId key).bind fun field =>
    setPropertyValue properties key field.fieldType (row.value key)).getD properties

/-- The values of a row that is pasted, stored one after the other. -/
def pastedProperties (collectionId : Uuid) (row : IncomingRow) (properties : YMap JsValue) :
    YMap JsValue :=
  row.keys.foldl (db.pasteValue env collectionId row) properties

/-- The document write of one row: its place, its title and its values. -/
def writeRow (collection : CollectionPlace) (rowId : Uuid) (idx : String) (row : IncomingRow) :
    CellDb :=
  { db with
    tree := { db.tree with
      docs := Keyed.upsert db.tree.docs { db.tree.docs.load rowId with
        kind := .row
        parentPageId := some collection.pageId
        collectionId := some collection.id
        idx } }
    documents := Keyed.upsert db.documents { db.document rowId with
      title := row.title
      properties := db.pastedProperties env collection.id row (db.document rowId).properties } }

def keyAfter (previous : Option String) : Option String :=
  (FractionalIndex.generateKeyBetween (previous.map String.toList) none).toOption.map String.ofList

/-- The last order key of the rows of a collection. -/
def lastRowIdx (collectionId : Uuid) : Option String :=
  (((db.tree.rows.rows.filter fun row => row.collectionId = some collectionId ∧
    row.kind = .row).insertionSort fun a b => a.comesBefore b = true).getLast?).map (·.idx)

/-- The loop over the rows that come in, with how many were before: what is there after it, and
the rows it made where nothing was thrown. -/
def pasteFrom (workspaceId : Uuid) (collection : CollectionPlace) (db : CellDb) (place : ℕ)
    (previous : Option String) : List IncomingRow → CellDb × Except CellFailure (List Uuid)
  | [] => (db, .ok [])
  | row :: rows =>
    match keyAfter previous with
    | none => (db, .error .thrown)
    | some idx =>
      let rowId := env.randomUUID place
      let written := db.writeRow env collection rowId idx row
      match written.rematerializeRow env rowId workspaceId with
      | .error failure => (written, .error failure)
      | .ok projected =>
        let rest := pasteFrom workspaceId collection projected (place + 1) (some idx) rows
        (rest.1, rest.2.map (rowId :: ·))

/-- `body.rows`, as the route goes on with them. -/
def incomingRows (body : JsValue) : List IncomingRow :=
  (((body.get "rows").array?).getD []).map IncomingRow.ofEntry

/-- `POST /api/collections/:collectionId/rows/bulk`, once it is allowed in a workspace: what is
there after it, and the rows it made or how it ended. -/
def pasteRows (workspaceId collectionId : Uuid) (body : JsValue) :
    CellDb × Except CellFailure (List Uuid) :=
  match Keyed.find db.collections collectionId with
  | none => (db, .error (.fail 404 "not_found" none))
  | some collection =>
    if body.isNullish then (db, .error .thrown)
    else
    let rows := incomingRows body
    if rows = [] then (db, .error (.fail 422 "missing_fields" none))
    else if rows.length > maxBulkRows then
      (db, .error (.fail 422 "too_many_rows" (some maxBulkRows)))
    else
      let named := (rows.flatMap IncomingRow.keys).dedup
      if !named.all fun key => (env.pg.uuid key).isSome then (db, .error .thrown)
      else if !named.all fun key => (db.fieldOf env collectionId key).isSome then
        (db, .error (.fail 404 "field_not_found" none))
      else pasteFrom env workspaceId collection db 0 (db.lastRowIdx collectionId) rows

end CellDb

end Sone
