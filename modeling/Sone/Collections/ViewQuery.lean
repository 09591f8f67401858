import Sone.Order.Stable
import Sone.Projection.Columns
import Mathlib.Data.Sum.Order
import Mathlib.Data.String.Basic
import Mathlib.Algebra.Order.Ring.Rat

/-!
# The rows of a collection, filtered and sorted

`buildViewQuery` and `buildSearchClause` of `viewQuery.ts`. A filter and a search are what they
say of a row; a sort is the column it reads and its direction. What Postgres makes of a comparison
with a value of a client's is a parameter, `Backend`: where it refuses the value the request fails,
and there is no page.

A row that has no value in a column comes last, in either direction, and rows that are equal in all
sorts come by their place and then by their id (`RowPage.before`). So there is one order of rows
with different ids, and `orderedRows` is the only list of them in it.
-/

namespace Sone

open Bool

/-! ### Rows -/

/-- What a row has in one field, in the columns it is sorted and searched by. -/
structure Property where
  textValue : Option String := none
  numberValue : Option ℚ := none
  dateStart : Option ℤ := none
  boolValue : Option Bool := none

/-- A row of `pages`, with its rows of `page_properties` by their field. -/
structure RowPage where
  id : String
  title : String
  idx : String
  collectionId : Option String
  kind : String
  archivedAt : Option ℤ
  properties : YMap Property

/-- The columns a field may be stored in. -/
inductive ShadowColumn where
  | textValue
  | numberValue
  | dateStart
  | boolValue
  deriving DecidableEq

def columnFor (fieldType : String) : Option ShadowColumn :=
  match fieldType with
  | "text" | "url" | "email" | "phone" | "select" | "multiSelect" => some .textValue
  | "number" => some .numberValue
  | "date" => some .dateStart
  | "checkbox" => some .boolValue
  | _ => none

inductive SortValue where
  | text (s : String)
  | number (n : ℚ)
  | date (t : ℤ)
  | checkbox (b : Bool)
  deriving DecidableEq

namespace SortValue

/-- A value, beside those of the other columns. -/
def toSum : SortValue → String ⊕ₗ ℚ ⊕ₗ ℤ ⊕ₗ Bool
  | text s => Sum.inlₗ s
  | number n => Sum.inrₗ (Sum.inlₗ n)
  | date t => Sum.inrₗ (Sum.inrₗ (Sum.inlₗ t))
  | checkbox b => Sum.inrₗ (Sum.inrₗ (Sum.inrₗ b))

theorem toSum_injective : Function.Injective toSum := by
  intro a b h
  cases a <;> cases b <;> simp_all [toSum]

/-- Values of one column in its order: texts by their bytes, numbers, instants, and a box that is
not ticked before one that is. Those of two columns are never compared. -/
instance instLinearOrder : LinearOrder SortValue := LinearOrder.lift' toSum toSum_injective

def column : SortValue → ShadowColumn
  | text _ => .textValue
  | number _ => .numberValue
  | date _ => .dateStart
  | checkbox _ => .boolValue

end SortValue

/-- `(SELECT pp.<column> FROM page_properties pp WHERE …)` -/
def RowPage.property (row : RowPage) (fieldId : String) (column : ShadowColumn) :
    Option SortValue :=
  (row.properties.get fieldId).bind fun property => match column with
    | .textValue => property.textValue.map .text
    | .numberValue => property.numberValue.map .number
    | .dateStart => property.dateStart.map .date
    | .boolValue => property.boolValue.map .checkbox

theorem RowPage.column_property {row : RowPage} {fieldId : String} {column : ShadowColumn}
    {value : SortValue} (h : row.property fieldId column = some value) : value.column = column := by
  obtain ⟨property, -, h⟩ := Option.bind_eq_some_iff.mp h
  cases column
  all_goals
    obtain ⟨x, -, rfl⟩ := Option.map_eq_some_iff.mp h
    rfl

/-! ### What the backend supplies -/

/-- **What Postgres and the platform make of values.** A value that a column does not take makes
the request fail. -/
structure Backend where
  /-- `target = $1`, of a value that is there. -/
  equals : SortValue → JsValue → Bool
  /-- `target <op> $1` -/
  compares : String → SortValue → JsValue → Bool
  /-- `text ILIKE pattern ESCAPE '\'` -/
  ilike : String → String → Bool
  /-- An instant as JSON has it, in a `jsonb`. -/
  dateText : ℤ → String
  /-- A text as a `timestamptz`. -/
  dateOf : String → Option ℤ
  /-- An instant is read back. -/
  dateOf_dateText : ∀ t, dateOf (dateText t) = some t
  /-- What another column makes of a value that was written for one. -/
  cast : ShadowColumn → JsValue → Option SortValue
  /-- A text as a `uuid`, as it is read back. -/
  uuidOf : String → Option String
  /-- The text of bytes that are not UTF-8. -/
  lossy : List UInt8 → String

/-! ### Filters -/

/-- `Filter`. A value that is not there is `undefined`. -/
structure Filter where
  fieldId : String
  operator : String
  value : JsValue

/-- `text.replace(/[\\%_]/g, '\\$&')`, between two `%`. -/
def likePattern (text : String) : String :=
  String.ofList ('%' :: (text.toList.flatMap (fun c =>
    if c = '\\' ∨ c = '%' ∨ c = '_' then ['\\', c] else [c]) ++ ['%']))

section Filters

variable (js : Js) (backend : Backend)

def Filter.comparison (filter : Filter) (fieldType : String) (column : ShadowColumn) :
    Option (Option SortValue → Bool) :=
  match filter.operator with
  | "is" =>
    if fieldType = "multiSelect" then none
    else some fun target => target.any fun v => backend.equals v filter.value
  | "isNot" =>
    -- a row with no value is not that value
    if fieldType = "multiSelect" then none
    else some fun target => !target.any fun v => backend.equals v filter.value
  | "contains" | "notContains" =>
    if column ≠ .textValue then none
    else
      let test := fun target : Option SortValue => target.any fun v => match v with
        | .text s => backend.ilike s (likePattern (js.toText filter.value))
        | _ => false
      some fun target => if filter.operator = "contains" then test target else !test target
  | "gt" | "gte" | "lt" | "lte" =>
    if column ≠ .numberValue then none
    else some fun target => target.any fun v =>
      backend.compares filter.operator v (.number (js.toNumber filter.value))
  | "before" | "after" =>
    if column ≠ .dateStart then none
    else some fun target => target.any fun v => backend.compares filter.operator v filter.value
  | _ => none

/-- The clause of a filter. One that says nothing of the rows is left out. -/
def Filter.clause (fieldTypes : String → Option String) (filter : Filter) :
    Option (RowPage → Bool) := do
  let fieldType ← (fieldTypes filter.fieldId).filter fun fieldType => fieldType ≠ ""
  let column ← columnFor fieldType
  if filter.operator = "isEmpty" then some fun row => !row.properties.has filter.fieldId
  else if filter.operator = "isNotEmpty" then some fun row => row.properties.has filter.fieldId
  else if filter.value.isNullish then none
  else (filter.comparison js backend fieldType column).map fun test row =>
    test (row.property filter.fieldId column)

def buildSearchClause (query : String) : Option (RowPage → Bool) :=
  if JsString.trim query = "" then none
  else
    let pattern := likePattern (JsString.trim query)
    some fun row => backend.ilike row.title pattern ||
      row.properties.rows.any fun entry =>
        entry.2.textValue.any fun text => backend.ilike text pattern

end Filters

/-! ### Sorts -/

/-- `Sort` -/
structure ViewSort where
  fieldId : String
  desc : Bool

/-- A sort expression, and its direction. -/
structure OrderKey where
  fieldId : String
  column : ShadowColumn
  desc : Bool

structure BuiltQuery where
  clauses : List (RowPage → Bool)
  orderKeys : List OrderKey
  /-- Sorts the database cannot do. -/
  derivedSorts : List ViewSort

def sortedType (fieldTypes : String → Option String) (sort : ViewSort) : Option String :=
  (fieldTypes sort.fieldId).filter fun fieldType => fieldType ≠ ""

def buildViewQuery (js : Js) (backend : Backend) (filters : List Filter) (sorts : List ViewSort)
    (fieldTypes : String → Option String) : BuiltQuery where
  clauses := filters.filterMap (Filter.clause js backend fieldTypes)
  orderKeys := sorts.filterMap fun sort => do
    let fieldType ← (sortedType fieldTypes sort).filter fun fieldType => !isDerived fieldType
    let column ← columnFor fieldType
    some { fieldId := sort.fieldId, column, desc := sort.desc }
  derivedSorts := sorts.filter fun sort => (sortedType fieldTypes sort).any isDerived

/-! ### The order -/

/-- What one row has in a sort, beside what another has. -/
structure KeyPair where
  desc : Bool
  value : Option SortValue
  other : Option SortValue

/-- Whether the one comes first by the sort alone: what is missing comes last. -/
def KeyPair.first (pair : KeyPair) : Bool :=
  match pair.value, pair.other with
  | none, _ => false
  | some _, none => true
  | some v, some w => if pair.desc then w < v else v < w

/-- Whether the one comes first by all sorts, and else by what is left. -/
def comesFirst : List KeyPair → Bool → Bool
  | [], tie => tie
  | pair :: pairs, tie => pair.first || (pair.value = pair.other && comesFirst pairs tie)

namespace RowPage

variable (keys : List OrderKey) (a b : RowPage)

/-- What two rows have in the sorts. -/
def pairs : List KeyPair :=
  keys.map fun key =>
    ⟨key.desc, a.property key.fieldId key.column, b.property key.fieldId key.column⟩

/-- `(p.idx, p.id) < (q.idx, q.id)` -/
def tieBefore : Bool := a.idx < b.idx || (a.idx = b.idx && a.id < b.id)

/-- **One row comes before another**: by the sorts, then by their places and their ids. -/
def before : Bool := comesFirst (pairs keys a b) (tieBefore a b)

end RowPage

/-- A row may stand before one that is not before it. -/
def RowPage.MayPrecede (keys : List OrderKey) (a b : RowPage) : Prop :=
  RowPage.before keys b a = false

instance (keys : List OrderKey) : DecidableRel (RowPage.MayPrecede keys) :=
  fun a b => inferInstanceAs (Decidable (RowPage.before keys b a = false))

/-- `ORDER BY <sorts>, p.idx, p.id` -/
def orderedRows (keys : List OrderKey) (rows : List RowPage) : List RowPage :=
  rows.insertionSort (RowPage.MayPrecede keys)

section Order

variable {keys : List OrderKey} {a b c : RowPage}

theorem tieBefore_trans (hab : RowPage.tieBefore a b = true)
    (hbc : RowPage.tieBefore b c = true) : RowPage.tieBefore a c = true := by
  simp only [RowPage.tieBefore, or_eq_true, and_eq_true, decide_eq_true_eq] at *
  rcases hab with hab | ⟨hab, hab'⟩
  · rcases hbc with hbc | ⟨hbc, -⟩
    · exact .inl (lt_trans hab hbc)
    · exact .inl (hbc ▸ hab)
  · rcases hbc with hbc | ⟨hbc, hbc'⟩
    · exact .inl (hab ▸ hbc)
    · exact .inr ⟨hab.trans hbc, lt_trans hab' hbc'⟩

theorem tieBefore_irrefl : RowPage.tieBefore a a = false := by
  simp [RowPage.tieBefore]

theorem tieBefore_total (h : a.id ≠ b.id) :
    RowPage.tieBefore a b = true ∨ RowPage.tieBefore b a = true := by
  simp only [RowPage.tieBefore, or_eq_true, and_eq_true, decide_eq_true_eq]
  rcases lt_trichotomy a.idx b.idx with hlt | heq | hgt
  · exact .inl (.inl hlt)
  · rcases lt_or_gt_of_ne h with hlt | hgt
    · exact .inl (.inr ⟨heq, hlt⟩)
    · exact .inr (.inr ⟨heq.symm, hgt⟩)
  · exact .inr (.inl hgt)

theorem KeyPair.first_total (desc : Bool) {v w : Option SortValue} (h : v ≠ w) :
    KeyPair.first ⟨desc, v, w⟩ = true ∨ KeyPair.first ⟨desc, w, v⟩ = true := by
  cases v with
  | none =>
    cases w with
    | none => exact absurd rfl h
    | some w => exact .inr rfl
  | some v =>
    cases w with
    | none => exact .inl rfl
    | some w =>
      have hne : v ≠ w := fun heq => h (congrArg some heq)
      cases desc
      · simpa [KeyPair.first] using lt_or_gt_of_ne hne
      · simpa [KeyPair.first] using (lt_or_gt_of_ne hne).symm

theorem KeyPair.first_trans {desc : Bool} {u v w : Option SortValue}
    (huv : KeyPair.first ⟨desc, u, v⟩ = true) (hvw : KeyPair.first ⟨desc, v, w⟩ = true) :
    KeyPair.first ⟨desc, u, w⟩ = true := by
  cases u with
  | none => cases huv
  | some u =>
    cases w with
    | none => rfl
    | some w =>
      cases v with
      | none => cases hvw
      | some v =>
        cases desc
        · simp only [KeyPair.first, false_eq_true, if_false, decide_eq_true_eq] at *
          exact lt_trans huv hvw
        · simp only [KeyPair.first, if_true, decide_eq_true_eq] at *
          exact lt_trans hvw huv

theorem KeyPair.first_irrefl (desc : Bool) (v : Option SortValue) :
    KeyPair.first ⟨desc, v, v⟩ = false := by
  cases v with
  | none => rfl
  | some v => cases desc <;> simp [KeyPair.first]

theorem before_nil : RowPage.before [] a b = RowPage.tieBefore a b := rfl

theorem before_cons {key : OrderKey} : RowPage.before (key :: keys) a b =
    (KeyPair.first ⟨key.desc, a.property key.fieldId key.column,
        b.property key.fieldId key.column⟩ ||
      (a.property key.fieldId key.column = b.property key.fieldId key.column &&
        RowPage.before keys a b)) := rfl

theorem before_trans (hab : RowPage.before keys a b = true)
    (hbc : RowPage.before keys b c = true) : RowPage.before keys a c = true := by
  induction keys with
  | nil => exact tieBefore_trans hab hbc
  | cons key keys ih =>
    simp only [before_cons, or_eq_true, and_eq_true, decide_eq_true_eq] at *
    rcases hab with hab | ⟨hab, hab'⟩
    · rcases hbc with hbc | ⟨hbc, -⟩
      · exact .inl (KeyPair.first_trans hab hbc)
      · exact .inl (hbc ▸ hab)
    · rcases hbc with hbc | ⟨hbc, hbc'⟩
      · exact .inl (hab ▸ hbc)
      · exact .inr ⟨hab.trans hbc, ih hab' hbc'⟩

theorem before_irrefl : RowPage.before keys a a = false := by
  induction keys with
  | nil => exact tieBefore_irrefl
  | cons key keys ih => rw [before_cons, KeyPair.first_irrefl, ih, Bool.and_false, Bool.or_false]

theorem before_asymm (h : RowPage.before keys a b = true) : RowPage.before keys b a = false := by
  rw [eq_false_iff]
  intro hba
  have haa := before_trans h hba
  rw [before_irrefl] at haa
  cases haa

theorem before_split (b : RowPage) (h : RowPage.before keys a c = true) :
    RowPage.before keys a b = true ∨ RowPage.before keys b c = true := by
  induction keys with
  | nil =>
    simp only [before_nil, RowPage.tieBefore, or_eq_true, and_eq_true,
      decide_eq_true_eq] at *
    rcases lt_trichotomy a.idx b.idx with hlt | heq | hgt
    · exact .inl (.inl hlt)
    · rw [heq] at h ⊢
      rcases h with hlt | ⟨hidx, hid⟩
      · exact .inr (.inl hlt)
      · exact (lt_or_ge a.id b.id).imp (fun hlt => .inr ⟨rfl, hlt⟩)
          fun hge => .inr ⟨hidx, lt_of_le_of_lt hge hid⟩
    · rcases h with hlt | ⟨hidx, -⟩
      · exact .inr (.inl (lt_trans hgt hlt))
      · exact .inr (.inl (hidx ▸ hgt))
  | cons key keys ih =>
    simp only [before_cons, or_eq_true, and_eq_true, decide_eq_true_eq] at *
    by_cases hab : a.property key.fieldId key.column = b.property key.fieldId key.column
    · rw [hab] at h ⊢
      rcases h with hfirst | ⟨hbc, hrest⟩
      · exact .inr (.inl hfirst)
      · exact (ih hrest).imp (fun hab' => .inr ⟨rfl, hab'⟩) fun hbc' => .inr ⟨hbc, hbc'⟩
    · rcases KeyPair.first_total key.desc hab with hfirst | hfirst
      · exact .inl (.inl hfirst)
      · rcases h with hac | ⟨hac, -⟩
        · exact .inr (.inl (KeyPair.first_trans hfirst hac))
        · exact .inr (.inl (hac ▸ hfirst))

theorem before_total (h : a.id ≠ b.id) :
    RowPage.before keys a b = true ∨ RowPage.before keys b a = true := by
  induction keys with
  | nil => exact tieBefore_total h
  | cons key keys ih =>
    simp only [before_cons, or_eq_true, and_eq_true, decide_eq_true_eq]
    by_cases heq : a.property key.fieldId key.column = b.property key.fieldId key.column
    · exact ih.imp (fun hab => .inr ⟨heq, hab⟩) fun hba => .inr ⟨heq.symm, hba⟩
    · exact (KeyPair.first_total key.desc heq).imp .inl .inl

end Order

/-! ### The one list of rows in the order -/

instance (keys : List OrderKey) : IsTrans RowPage (RowPage.MayPrecede keys) where
  trans a b c hab hbc := by
    rw [RowPage.MayPrecede, eq_false_iff] at *
    intro hca
    exact (before_split b hca).elim hbc hab

instance (keys : List OrderKey) : Std.Total (RowPage.MayPrecede keys) where
  total a b := by
    cases h : RowPage.before keys a b with
    | false => exact .inr h
    | true => exact .inl (before_asymm h)

section Ordered

variable {keys : List OrderKey} {rows : List RowPage}

theorem mem_orderedRows {row : RowPage} : row ∈ orderedRows keys rows ↔ row ∈ rows :=
  List.mem_insertionSort _

theorem pairwise_orderedRows (hids : (rows.map (·.id)).Nodup) :
    (orderedRows keys rows).Pairwise fun a b => RowPage.before keys a b = true := by
  have hsorted := List.pairwise_insertionSort (RowPage.MayPrecede keys) rows
  have hperm : (orderedRows keys rows).Perm rows := List.perm_insertionSort _ _
  have hne : (orderedRows keys rows).Pairwise fun a b => a.id ≠ b.id :=
    List.pairwise_map.mp ((hperm.map RowPage.id).nodup_iff.mpr hids)
  refine hne.imp₂ (fun a b hne hle => (before_total hne).resolve_right fun hba => ?_) hsorted
  rw [show RowPage.before keys b a = false from hle] at hba
  cases hba

theorem orderedRows_filter (p : RowPage → Bool) :
    orderedRows keys (rows.filter p) = (orderedRows keys rows).filter p :=
  (insertionSort_filter rows).symm

end Ordered

end Sone
