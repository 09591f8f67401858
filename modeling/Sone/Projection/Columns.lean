import Sone.Doc.Read

/-!
# What the columns take

The projection writes what clients wrote into typed columns, and Postgres refuses a value its
column has no place for: a text that is no `uuid` or no `timestamptz`, a number that is no
`integer`, a document that is no `jsonb`, a key too long for an index. What it takes is a
parameter, `Postgres`; that a text has no NUL (`IsText`) is not.
-/

namespace Sone

/-- **What Postgres makes of a value** for a column of a type, if it takes it. -/
structure Postgres where
  /-- A text as a `uuid`. One `uuid` has many spellings. -/
  uuid : String → Option Uuid
  /-- Whether a text is the spelling a `uuid` is read back in. -/
  writes : String → Bool
  timestamptz : String → Option Time
  /-- A `Date`, by its time. -/
  ofDate : ℤ → Option ℤ
  /-- `to_timestamp($1::bigint / 1000.0)` -/
  ofMillis : ℚ → Option ℤ
  integer : ℚ → Option ℤ
  /-- `double precision` -/
  double : JsValue → Option JsNumber
  /-- A value as it is read back after it was written as JSON. -/
  jsonb : JsValue → Option JsValue
  /-- An array as a `uuid[]`. -/
  uuids : List JsValue → Bool
  /-- Whether an index takes a row with these texts. -/
  indexes : List String → Bool
  /-- Whether the search vector of a title, a text and tags is not too long. -/
  vectors : String → String → String → Bool
  /-- What is usually written as a `uuid` is one. -/
  uuid_of_text : ∀ s, isUuidText s = true → (uuid s).isSome = true

namespace Postgres

variable (pg : Postgres)

/-- The `uuid` a text names when it is compared with what is read back. -/
def named (s : String) : Option Uuid := if pg.writes s then pg.uuid s else none

end Postgres

/-! ### Fields -/

/-- `DERIVED_FIELD_TYPES` -/
def derivedFieldTypes : List String :=
  ["formula", "rollup", "lookup", "createdAt", "createdBy", "lastEditedAt", "lastEditedBy"]

def isDerived (fieldType : String) : Bool := fieldType ∈ derivedFieldTypes

end Sone
