import Sone.Access.Visible
import Sone.Formula.Evaluate
import Sone.Projection.Columns

/-!
# Rollups

A rollup (`collections/rollup.ts`) shows in each row of a collection what the rows of another
have that point at it: which they are, how many, a total, or their values in a column. A
relation crosses pages, so the reader's own visibility is part of each of the three queries:
the listing reads whether each row may be read and leaves the others out afterwards, the lookup
and the totals ask it where they select. The formulas of a row are worked out over its cells and
its rollups (`http/collections.ts`).

Rows that come first by the same title stay in the order of the table.
-/

namespace Sone

/-! ### The database -/

/-- `pages`, with the columns a rollup reads. -/
structure SourcePage extends PageRow where
  title : String
  archivedAt : Option Time
  deriving DecidableEq

/-- `page_relations` -/
structure PageRelation where
  fromPageId : Uuid
  toPageId : Uuid
  fieldId : Uuid
  deriving DecidableEq

/-- `page_properties`: a value, and the columns it is sorted and added up by. -/
structure PropertyRow where
  pageId : Uuid
  fieldId : Uuid
  value : JsValue
  textValue : Option String
  numberValue : Option JsNumber

/-- **The database of a rollup**: the rows access depends on, with the title and the archive of
each page, and what pages have and point at. -/
structure RollupDb where
  access : RoledDatabase
  pages : Keyed fun page : SourcePage => page.id
  pages_access : access.pages = pages.rows.map (·.toPageRow)
  relations : List PageRelation
  properties : List PropertyRow

structure RollupEnv where
  formula : FormulaEnv
  unicode : Unicode
  /-- A text as a `uuid`. -/
  uuid : String → Option Uuid
  /-- A `uuid` as a text. -/
  uuidText : Uuid → String
  /-- A number as a text. -/
  numberText : JsNumber → String
  sum : List JsNumber → Option JsNumber
  min : List JsNumber → Option JsNumber
  max : List JsNumber → Option JsNumber

/-! ### What a rollup is and gives -/

inductive Aggregate where
  | rows
  | count
  | sum
  | min
  | max
  | lookup
  deriving DecidableEq, Repr

/-- `AGGREGATES`, by their names. -/
def Aggregate.ofName : String → Option Aggregate
  | "rows" => some .rows
  | "count" => some .count
  | "sum" => some .sum
  | "min" => some .min
  | "max" => some .max
  | "lookup" => some .lookup
  | _ => none

structure RollupConfig where
  viaFieldId : String
  aggregate : Aggregate
  fieldId : Option String

def readRollupConfig (config : JsValue) : Option RollupConfig := do
  let via ← (config.get "viaFieldId").string?.filter (· ≠ "")
  let aggregate ← (config.get "aggregate").string?.bind Aggregate.ofName
  return ⟨via, aggregate, (config.get "fieldId").string?.filter (· ≠ "")⟩

/-- `DerivedValue`. A number that is there may be null. -/
structure DerivedValue where
  rows : Option (List (Uuid × String)) := none
  number : Option (Option JsNumber) := none
  texts : Option (List String) := none
  /-- `partial`: whether something was left out. -/
  isPartial : Bool := false
  error : Option EvalErrorCode := none
  errorDetail : Option String := none

/-- `MAX_BACKLINK_ROWS` -/
def maxBacklinkRows : ℕ := 50

namespace RollupDb

variable (env : RollupEnv) (db : RollupDb) (reader : Option Uuid)

def mayRead (page : SourcePage) : Bool := db.access.visiblePagesCondition page.toPageRow reader

/-- One of the `edges`. -/
structure Edge where
  toPageId : Uuid
  page : SourcePage
  mayRead : Bool

def source (relation : PageRelation) : Option SourcePage :=
  (db.pages.find relation.fromPageId).filter fun page => page.archivedAt = none

/-- `r.to_page_id = ANY(rowIds) AND r.field_id = via`. -/
def isVia (rowIds : List Uuid) (via : Uuid) (relation : PageRelation) : Bool :=
  relation.toPageId ∈ rowIds ∧ relation.fieldId = via

/-- The relations of a column that point at the rows, with the page each is on. -/
def edges (rowIds : List Uuid) (via : Uuid) : List Edge :=
  (db.relations.filter (isVia rowIds via)).filterMap fun relation =>
    (db.source relation).map fun page => ⟨relation.toPageId, page, db.mayRead reader page⟩

/-- `ORDER BY title ASC` -/
def byTitle (edges : List Edge) : List Edge :=
  edges.insertionSort fun a b => a.page.title ≤ b.page.title

def listed (aggregate : Aggregate) (found : List Edge) (rowId : Uuid) : DerivedValue :=
  let mine := found.filter fun edge => edge.toPageId = rowId
  let readable := mine.filter (·.mayRead)
  let left := decide (readable.length ≠ mine.length)
  if aggregate = .count then
    { number := some (some (.finite readable.length)), isPartial := left }
  else
    { rows := some ((readable.take maxBacklinkRows).map fun edge => (edge.page.id, edge.page.title))
      isPartial := left || decide (readable.length > maxBacklinkRows) }

/-- The edges the reader may read, each with a value of its page in a field:
`JOIN page_properties v … AND (visible)`. -/
def values (rowIds : List Uuid) (via fieldId : Uuid) : List (Edge × PropertyRow) :=
  ((db.edges reader rowIds via).filter (·.mayRead)).flatMap fun edge =>
    (db.properties.filter fun v => v.pageId = edge.page.id ∧ v.fieldId = fieldId).map fun v =>
      (edge, v)

/-- `coalesce(v.text_value, v.number_value::text)` -/
def shown (v : PropertyRow) : Option String :=
  v.textValue.or (v.numberValue.map env.numberText)

def lookedUp (found : List (Edge × PropertyRow)) (rowId : Uuid) : DerivedValue :=
  let texts := ((found.filter fun row => row.1.toPageId = rowId).filterMap fun row =>
    shown env row.2).filter (· ≠ "")
  { texts := some (texts.take maxBacklinkRows)
    isPartial := decide (texts.length > maxBacklinkRows) }

/-- `sum`, `min` or `max` of the numbers there are: null where there is none. -/
def total (aggregate : Aggregate) (numbers : List JsNumber) : Option JsNumber :=
  if numbers = [] then none
  else match aggregate with
    | .sum => env.sum numbers
    | .min => env.min numbers
    | _ => env.max numbers

/-- The total of one row, which is null too where nothing points at it. -/
def totalled (aggregate : Aggregate) (found : List (Edge × PropertyRow)) (rowId : Uuid) :
    DerivedValue :=
  { number := some (total env aggregate
      ((found.filter fun row => row.1.toPageId = rowId).filterMap fun row => row.2.numberValue)) }

/-- `computeRollup`: what each of the rows is given, or nothing where a text that should be a
`uuid` is none. -/
def computeRollup (rowIds : List Uuid) (config : RollupConfig) :
    Option (List (Uuid × DerivedValue)) :=
  if rowIds = [] then some []
  else match config.aggregate with
    | .rows | .count => do
      let via ← env.uuid config.viaFieldId
      let found := byTitle (db.edges reader rowIds via)
      return rowIds.map fun rowId => (rowId, listed config.aggregate found rowId)
    | .lookup =>
      match config.fieldId with
      | none => some (rowIds.map fun rowId => (rowId, { texts := some [] }))
      | some fieldId => do
        let via ← env.uuid config.viaFieldId
        let found := (db.values reader rowIds via (← env.uuid fieldId)).insertionSort
          fun a b => a.1.page.title ≤ b.1.page.title
        return rowIds.map fun rowId => (rowId, lookedUp env found rowId)
    | aggregate =>
      match config.fieldId with
      | none => some (rowIds.map fun rowId => (rowId, { number := some none }))
      | some fieldId => do
        let via ← env.uuid config.viaFieldId
        let found := db.values reader rowIds via (← env.uuid fieldId)
        return rowIds.map fun rowId => (rowId, totalled env aggregate found rowId)

end RollupDb

/-! ### Formulas over rollups -/

def formulaValueOf (cell : JsValue) (derived : Option DerivedValue) : Value :=
  match derived with
  | some derived =>
    match derived.number, derived.texts, derived.rows with
    | some (some n), _, _ => .number n
    | _, some texts, _ => .text (JsString.join ", " texts)
    | _, _, some rows => .number (.finite rows.length)
    | _, _, _ => .blank
  | none =>
    match (cell.get "kind").string? with
    | some "number" =>
      match (cell.get "value").number? with
      | some n => .number n
      | none => .blank
    | some "checkbox" => .boolean (cell.get "value").isTrue
    | some "date" =>
      match (cell.get "start").string? with
      | some start => .date start
      | none => .blank
    | some "text" | some "url" | some "email" | some "phone" =>
      match (cell.get "value").string?.filter (· ≠ "") with
      | some text => .text text
      | none => .blank
    | _ => .blank

def formulaResultOf : Value → DerivedValue
  | .number n => { number := some (some n) }
  | .text s | .date s => { texts := some [s] }
  | .boolean b => { texts := some [if b then "true" else "false"] }
  | .blank => { number := some none }

/-- A column, as the route reads it. -/
structure CollectionField where
  id : String
  fieldType : String
  config : JsValue

/-- The derived values of one row, by their columns. -/
abbrev Bag := YMap DerivedValue

def boundId (config : JsValue) (name : String) : Option String :=
  ((config.get "bindings").get name).string?

/-- One formula of one row, over the row's cells and what is derived of it so far. -/
def formulaOf (env : RollupEnv) (config : JsValue) (expr : Expr) (cells : String → JsValue)
    (bag : Bag) : Option DerivedValue :=
  (evaluate env.formula (boundId config)
    (fun fieldId => formulaValueOf (cells fieldId) (bag.get fieldId)) expr).run.map fun
      | .ok value => formulaResultOf value
      | .error error => { error := some error.code, errorDetail := error.detail }

namespace RollupDb

variable (env : RollupEnv) (db : RollupDb) (reader : Option Uuid)

def cellsOf (rowId : Uuid) (fieldId : String) : JsValue :=
  ((db.properties.filter fun v => v.pageId = rowId).reverse.find? fun v =>
    env.uuidText v.fieldId = fieldId).elim .undefined (·.value)

/-- What the rollups of the columns give a row, one column after the other. -/
def rollupsOf (rowIds : List Uuid) (rowId : Uuid) (fields : List CollectionField) : Option Bag :=
  fields.foldlM (fun bag field =>
    if field.fieldType = "rollup" then
      match readRollupConfig field.config with
      | none => some bag
      | some config => (db.computeRollup env reader rowIds config).map fun computed =>
        match computed.find? fun entry => entry.1 = rowId with
        | none => bag
        | some entry => bag.set field.id entry.2
    else some bag) YMap.empty

end RollupDb

/-- What the formulas of the columns add to what is derived of a row. -/
def withFormulas (env : RollupEnv) (fuel : ℕ) (cells : String → JsValue)
    (fields : List CollectionField) (bag : Bag) : Option Bag :=
  fields.foldlM (fun bag field =>
    match (field.config.get "formula").string? with
    | some text =>
      if field.fieldType = "formula" then
        match parseFormula env.formula.js env.unicode fuel text.toList with
        | none => none
        | some (.error _) => some bag
        | some (.ok expr) => (formulaOf env field.config expr cells bag).map (bag.set field.id)
      else some bag
    | none => some bag) bag

/-- `derivedByRow`, of one row of the page: its rollups, and its formulas over them. -/
def RollupDb.derivedOf (env : RollupEnv) (db : RollupDb) (reader : Option Uuid) (fuel : ℕ)
    (rowIds : List Uuid) (fields : List CollectionField) (cells : String → JsValue)
    (rowId : Uuid) : Option Bag :=
  (db.rollupsOf env reader rowIds rowId fields).bind (withFormulas env fuel cells fields)

end Sone
