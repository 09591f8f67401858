import Sone.Collections.ViewQuery
import Mathlib.Algebra.GroupWithZero.Nat

/-!
# The statement of a view and its parameters

`buildViewQuery` builds texts and binds values as it goes: `bind` gives the next placeholder and
keeps the value. A text is a list of pieces here, and a placeholder has a record of the value it
was made for. `Agrees` is what a statement needs: each placeholder names its value, and no value is
without a placeholder, since Postgres takes no statement with such a one.

The placeholders always name their values (`named_built`). But the id of a filter's field is bound
before the operator is looked at, and some operators give the filter up after that. So the two
agree exactly where no filter is given up so late (`agrees_iff`).
-/

namespace Sone.ViewSql

open List

/-! ### Texts with placeholders -/

inductive SqlPiece where
  | text (s : String)
  /-- `$index`, and the value that was bound for it. -/
  | placeholder (index : ℕ) (value : JsValue)

abbrev Sql := List SqlPiece

def SqlPiece.placeholder? : SqlPiece → Option (JsValue × ℕ)
  | text _ => none
  | placeholder index value => some (value, index)

def SqlPiece.render : SqlPiece → String
  | text s => s
  | placeholder index _ => "$" ++ toString index

namespace Sql

/-- The placeholders of a fragment, in their order. -/
def placeholders (sql : Sql) : List (JsValue × ℕ) := sql.filterMap SqlPiece.placeholder?

def render (sql : Sql) : String := String.join (sql.map SqlPiece.render)

/-- `fragments.join(separator)` -/
def join (separator : String) : List Sql → Sql
  | [] => []
  | [sql] => sql
  | sql :: rest => sql ++ .text separator :: join separator rest

def parenthesised (sql : Sql) : Sql := [.text "("] ++ sql ++ [.text ")"]

variable {sql sql' : Sql} {separator s : String}

@[simp] theorem placeholders_nil : placeholders [] = [] := rfl

@[simp] theorem placeholders_append :
    placeholders (sql ++ sql') = placeholders sql ++ placeholders sql' := filterMap_append

@[simp] theorem placeholders_text : placeholders (.text s :: sql) = placeholders sql := rfl

@[simp] theorem placeholders_placeholder {index : ℕ} {value : JsValue} :
    placeholders (.placeholder index value :: sql) = (value, index) :: placeholders sql := rfl

@[simp] theorem placeholders_parenthesised :
    placeholders (parenthesised sql) = placeholders sql := by
  simp [parenthesised]

@[simp] theorem placeholders_join (fragments : List Sql) :
    placeholders (join separator fragments) = fragments.flatMap placeholders := by
  induction fragments with
  | nil => rfl
  | cons sql rest ih =>
    cases rest with
    | nil => simp [join]
    | cons next rest => simp [join, ih]

end Sql

/-! ### Binding values -/

/-- The values bound so far, and the number of the next. -/
structure Bound where
  params : List JsValue
  index : ℕ

def Bound.add (bound : Bound) (values : List JsValue) : Bound :=
  ⟨bound.params ++ values, bound.index + values.length⟩

/-- What binds values and gives a result. -/
abbrev Building := StateM Bound

def bind (value : JsValue) : Building Sql := fun bound =>
  ([.placeholder bound.index value], bound.add [value])

def columnName : ShadowColumn → String
  | .textValue => "text_value"
  | .numberValue => "number_value"
  | .dateStart => "date_start"
  | .boolValue => "bool_value"

/-- `property`: a row with no value is not matched. -/
def property (fieldId : String) (column : ShadowColumn) : Building Sql := do
  let field ← bind (.string fieldId)
  return [.text "(SELECT pp.", .text (columnName column),
    .text " FROM page_properties pp\n        WHERE pp.page_id = p.id AND pp.field_id = "] ++
    field ++
      [.text ")"]

/-- The clause of `isEmpty` and `isNotEmpty`. -/
def existsSql (fieldId : String) : Building Sql := do
  let field ← bind (.string fieldId)
  return [.text "EXISTS (SELECT 1 FROM page_properties pp\n",
    .text "                       WHERE pp.page_id = p.id AND pp.field_id = "] ++ field ++
    [.text ")"]

/-- What is compared in a clause: `target <op> $k` -/
def compared (target : Sql) (operator : String) (value : JsValue) : Building Sql := do
  let other ← bind value
  return target ++ [.text operator] ++ other

/-- The comparison of `contains` and `notContains`. -/
def containsSql (js : Js) (target : Sql) (value : JsValue) : Building Sql := do
  let pattern ← bind (.string (likePattern (js.toText value)))
  return target ++ [.text " ILIKE "] ++ pattern ++ [.text " ESCAPE '\\'"]

/-- A clause, unless the filter is given up: `if (givenUp) continue`. -/
def continueIf (givenUp : Bool) (clause : Building Sql) : Building (Option Sql) :=
  if givenUp then return none else return some (← clause)

/-- The comparison of a filter, of what it compares with. Where the operator is none for the
column, nothing comes of it. -/
def comparisonSql (js : Js) (filter : Filter) (fieldType : String) (column : ShadowColumn)
    (target : Sql) : Building (Option Sql) :=
  match filter.operator with
  | "is" => continueIf (fieldType = "multiSelect") (compared target " = " filter.value)
  | "isNot" => continueIf (fieldType = "multiSelect")
    (Sql.parenthesised <$> compared target " IS DISTINCT FROM " filter.value)
  | "contains" => continueIf (column ≠ .textValue) (containsSql js target filter.value)
  | "notContains" => continueIf (column ≠ .textValue)
    ((fun test => Sql.parenthesised test ++ [.text " IS NOT TRUE"]) <$>
      containsSql js target filter.value)
  | "gt" => continueIf (column ≠ .numberValue)
    (compared target " > " (.number (js.toNumber filter.value)))
  | "gte" => continueIf (column ≠ .numberValue)
    (compared target " >= " (.number (js.toNumber filter.value)))
  | "lt" => continueIf (column ≠ .numberValue)
    (compared target " < " (.number (js.toNumber filter.value)))
  | "lte" => continueIf (column ≠ .numberValue)
    (compared target " <= " (.number (js.toNumber filter.value)))
  | "before" => continueIf (column ≠ .dateStart) (compared target " < " filter.value)
  | "after" => continueIf (column ≠ .dateStart) (compared target " > " filter.value)
  | _ => return none

def storedSql (js : Js) (filter : Filter) (fieldType : String) (column : ShadowColumn) :
    Building (Option Sql) :=
  if filter.operator = "isEmpty" then
    return some (.text "NOT " :: (← existsSql filter.fieldId))
  else if filter.operator = "isNotEmpty" then return some (← existsSql filter.fieldId)
  else if filter.value.isNullish then return none
  else do
    let target ← property filter.fieldId column
    comparisonSql js filter fieldType column target

def filterSql (js : Js) (fieldTypes : String → Option String) (filter : Filter) :
    Building (Option Sql) :=
  match (fieldTypes filter.fieldId).filter fun fieldType => fieldType ≠ "" with
  | none => return none
  | some fieldType =>
    match columnFor fieldType with
    | none => return none
    | some column => storedSql js filter fieldType column

def clausesSql (js : Js) (fieldTypes : String → Option String) : List Filter → Building (List Sql)
  | [] => return []
  | filter :: filters => do
    let clause ← filterSql js fieldTypes filter
    let clauses ← clausesSql js fieldTypes filters
    return clause.toList ++ clauses

/-- A sort expression, and its direction. -/
structure SqlOrderKey where
  expr : Sql
  desc : Bool

/-- The round of a sort: a column that is stored, or nothing. -/
def sortSql (fieldTypes : String → Option String) (sort : ViewSort) :
    Building (Option SqlOrderKey) :=
  match ((sortedType fieldTypes sort).filter fun fieldType => !isDerived fieldType).bind
      columnFor with
  | none => return none
  | some column => return some ⟨← property sort.fieldId column, sort.desc⟩

/-- The sorts that are by stored columns. -/
def orderKeysSql (fieldTypes : String → Option String) :
    List ViewSort → Building (List SqlOrderKey)
  | [] => return []
  | sort :: sorts => do
    let key ← sortSql fieldTypes sort
    let keys ← orderKeysSql fieldTypes sorts
    return key.toList ++ keys

/-- A sort in `ORDER BY`: a row with no value comes last in both directions. -/
def SqlOrderKey.order (key : SqlOrderKey) : Sql :=
  key.expr ++ [.text (if key.desc then " DESC NULLS LAST" else " ASC NULLS LAST")]

/-- `BuiltQuery` -/
structure SqlQuery where
  /-- `where` -/
  condition : Sql
  orderBy : Sql
  orderKeys : List SqlOrderKey
  derivedSorts : List ViewSort
  params : List JsValue

def buildViewQuery (js : Js) (filters : List Filter) (sorts : List ViewSort)
    (fieldTypes : String → Option String) (startIndex : ℕ) : SqlQuery :=
  let clauses := clausesSql js fieldTypes filters ⟨[], startIndex⟩
  let orderKeys := orderKeysSql fieldTypes sorts clauses.2
  { condition := Sql.join " AND " (clauses.1.map Sql.parenthesised)
    orderBy := Sql.join ", " (orderKeys.1.map SqlOrderKey.order)
    orderKeys := orderKeys.1
    derivedSorts := sorts.filter fun sort => (sortedType fieldTypes sort).any isDerived
    params := orderKeys.2.params }

/-- `buildSearchClause`: what it binds, and its clause for the placeholder of that. -/
def buildSearchClause (query : String) : Option (JsValue × (Sql → Sql)) :=
  if JsString.trim query = "" then none
  else some (.string (likePattern (JsString.trim query)), fun pattern =>
    [.text "(\n    p.title ILIKE "] ++ pattern ++
      [.text " ESCAPE '\\'\n    OR EXISTS (\n      SELECT 1 FROM page_properties pp\n",
        .text "       WHERE pp.page_id = p.id\n         AND pp.text_value ILIKE "] ++ pattern ++
      [.text " ESCAPE '\\'\n    )\n  )"])

/-- The statement that counts the rows of a collection, under conditions. -/
def countSql (collectionId : String) (conditions : List Sql) : Sql :=
  [.text "SELECT count(*)::text AS n FROM (\n         SELECT 1 FROM pages p\n",
    .text "          WHERE p.collection_id = ", .placeholder 1 (.string collectionId),
    .text " AND p.kind = 'row' AND p.archived_at IS NULL\n            "] ++
  (if conditions.isEmpty then [] else .text "AND " :: Sql.join " AND " conditions) ++
  [.text "\n          LIMIT 10001\n       ) bounded"]

/-- The count and its parameters: of the filters and the search, and of no sorts. The collection is
the first parameter, and the pattern of the search the last. -/
def countStatement (js : Js) (filters : List Filter) (fieldTypes : String → Option String)
    (query collectionId : String) : Sql × List JsValue :=
  let built := buildViewQuery js filters [] fieldTypes 2
  match buildSearchClause query with
  | none => (countSql collectionId ([built.condition].filter fun sql => !sql.isEmpty),
    .string collectionId :: built.params)
  | some (pattern, clause) =>
    let params := built.params ++ [pattern]
    let search := clause [.placeholder (params.length + 1) pattern]
    (countSql collectionId ([built.condition, search].filter fun sql => !sql.isEmpty),
      .string collectionId :: params)

/-! ### What agrees -/

/-- **A statement and its parameters agree**: every placeholder is the number of a parameter, and
names the value bound for it; and every parameter has a placeholder. -/
structure Agrees (start : ℕ) (sql : Sql) (params : List JsValue) : Prop where
  named : ∀ value index, (value, index) ∈ sql.placeholders →
    start ≤ index ∧ index < start + params.length ∧ params[index - start]? = some value
  used : ∀ place value, params[place]? = some value → (value, start + place) ∈ sql.placeholders

def operatorTakes (operator fieldType : String) (column : ShadowColumn) : Bool :=
  match operator with
  | "is" | "isNot" => fieldType ≠ "multiSelect"
  | "contains" | "notContains" => column = .textValue
  | "gt" | "gte" | "lt" | "lte" => column = .numberValue
  | "before" | "after" => column = .dateStart
  | _ => false

/-- **A filter that is given up late**: it is of a field that is stored, and has a value, but its
operator does not compare what the field holds. -/
def IsAbandoned (fieldTypes : String → Option String) (filter : Filter) : Prop :=
  ∃ fieldType ∈ (fieldTypes filter.fieldId).filter fun fieldType => fieldType ≠ "",
    ∃ column ∈ columnFor fieldType, filter.operator ≠ "isEmpty" ∧ filter.operator ≠ "isNotEmpty" ∧
      filter.value.isNullish = false ∧ operatorTakes filter.operator fieldType column = false

instance (fieldTypes : String → Option String) : DecidablePred (IsAbandoned fieldTypes) :=
  fun _ => inferInstanceAs (Decidable (∃ _ ∈ Option.filter _ _, _))

/-- How many values the round of a filter loses. -/
def lostBy (fieldTypes : String → Option String) (filter : Filter) : ℕ :=
  if IsAbandoned fieldTypes filter then 1 else 0

section Proofs

variable {js : Js} {fieldTypes : String → Option String} {filter : Filter} {bound after : Bound}
  {fragments fragments' : List Sql} {start lost lost' : ℕ} {sql target : Sql}
  {params values : List JsValue}

theorem agrees_iff_mem :
    Agrees start sql params ↔ ∀ pair, pair ∈ sql.placeholders ↔ pair ∈ params.zipIdx start := by
  constructor
  · rintro ⟨hnamed, hused⟩ ⟨value, index⟩
    rw [List.mem_zipIdx_iff_le_and_getElem?_sub]
    refine ⟨fun hmem => ?_, fun ⟨hle, hvalue⟩ => ?_⟩
    · obtain ⟨hle, -, hvalue⟩ := hnamed value index hmem
      exact ⟨hle, hvalue⟩
    · have hmem := hused (index - start) value hvalue
      rwa [Nat.add_sub_cancel' hle] at hmem
  · intro hmem
    refine ⟨fun value index hplaceholder => ?_, fun place value hvalue => ?_⟩
    · obtain ⟨hle, hvalue⟩ := List.mem_zipIdx_iff_le_and_getElem?_sub.mp ((hmem _).mp hplaceholder)
      obtain ⟨hlt, -⟩ := List.getElem?_eq_some_iff.mp hvalue
      exact ⟨hle, by omega, hvalue⟩
    · refine (hmem _).mpr (List.mem_zipIdx_iff_le_and_getElem?_sub.mpr ⟨by omega, ?_⟩)
      simpa using hvalue

/-! ### What is bound and what is lost -/

@[simp] theorem add_nil (bound : Bound) : bound.add [] = bound := by simp [Bound.add]

theorem add_add (bound : Bound) (values values' : List JsValue) :
    (bound.add values).add values' = bound.add (values ++ values') := by
  simp [Bound.add, Nat.add_assoc]

/-- **What a round leaves**: values were bound, the fragments have placeholders of them in their
order, and so many were lost. -/
def Leaves (bound : Bound) (lost : ℕ) (fragments : List Sql) (after : Bound) : Prop :=
  ∃ values, after = bound.add values ∧
    (fragments.flatMap Sql.placeholders).Sublist (values.zipIdx bound.index) ∧
      (fragments.flatMap Sql.placeholders).length + lost = values.length

theorem Leaves.nothing (bound : Bound) : Leaves bound 0 [] bound :=
  ⟨[], (add_nil bound).symm, by simp, rfl⟩

theorem Leaves.append {middle : Bound} (h : Leaves bound lost fragments middle)
    (h' : Leaves middle lost' fragments' after) :
    Leaves bound (lost + lost') (fragments ++ fragments') after := by
  obtain ⟨values, rfl, hsub, hlength⟩ := h
  obtain ⟨values', rfl, hsub', hlength'⟩ := h'
  refine ⟨values ++ values', add_add bound values values', ?_, ?_⟩
  · rw [flatMap_append, zipIdx_append]
    exact hsub.append hsub'
  · rw [flatMap_append, length_append, length_append]
    omega

theorem Leaves.of_placeholders (h : sql.placeholders = values.zipIdx bound.index) :
    Leaves bound 0 [sql] (bound.add values) :=
  ⟨values, rfl, by simp [h], by simp [h]⟩

/-- What a clause adds to what it compares: one value, and its placeholder. -/
def Appends (clause : Building Sql) (target : Sql) (bound : Bound) : Prop :=
  ∃ value, (clause bound).2 = bound.add [value] ∧
    (clause bound).1.placeholders = target.placeholders ++ [(value, bound.index)]

theorem compared_apply (target : Sql) (operator : String) (value : JsValue) (bound : Bound) :
    compared target operator value bound =
      (target ++ [.text operator] ++ [.placeholder bound.index value], bound.add [value]) := rfl

theorem appends_compared (target : Sql) (operator : String) (value : JsValue) (bound : Bound) :
    Appends (compared target operator value) target bound :=
  ⟨value, rfl, by simp [compared_apply]⟩

theorem containsSql_apply (js : Js) (target : Sql) (value : JsValue) (bound : Bound) :
    containsSql js target value bound =
      (target ++ [.text " ILIKE "] ++
          [.placeholder bound.index (.string (likePattern (js.toText value)))] ++
        [.text " ESCAPE '\\'"], bound.add [.string (likePattern (js.toText value))]) := rfl

theorem appends_containsSql (js : Js) (target : Sql) (value : JsValue) (bound : Bound) :
    Appends (containsSql js target value) target bound :=
  ⟨.string (likePattern (js.toText value)), rfl, by simp [containsSql_apply]⟩

theorem Appends.map {clause : Building Sql} (h : Appends clause target bound) {f : Sql → Sql}
    (hf : ∀ sql, (f sql).placeholders = sql.placeholders) :
    Appends (f <$> clause) target bound := by
  obtain ⟨value, hadd, hplaceholders⟩ := h
  exact ⟨value, hadd, (hf _).trans hplaceholders⟩

/-- **A comparison** binds one value where it has a clause, and else nothing. -/
def Compares (takes : Bool) (comparison : Building (Option Sql)) (target : Sql) (bound : Bound) :
    Prop :=
  if takes then ∃ sql value, comparison bound = (some sql, bound.add [value]) ∧
    sql.placeholders = target.placeholders ++ [(value, bound.index)]
  else comparison bound = (none, bound)

theorem compares_continueIf {takes givenUp : Bool} {clause : Building Sql}
    (h : Appends clause target bound) (htakes : takes = !givenUp) :
    Compares takes (continueIf givenUp clause) target bound := by
  subst htakes
  cases givenUp with
  | true => exact rfl
  | false =>
    obtain ⟨value, hadd, hplaceholders⟩ := h
    exact ⟨(clause bound).1, value, Prod.ext rfl hadd, hplaceholders⟩

/-- **What becomes of an operator**: it has a clause where it takes the column. -/
theorem compares_comparisonSql (js : Js) (filter : Filter) (fieldType : String)
    (column : ShadowColumn) (target : Sql) (bound : Bound) :
    Compares (operatorTakes filter.operator fieldType column)
      (comparisonSql js filter fieldType column target) target bound := by
  have hcompared := fun operator value => appends_compared target operator value bound
  have hcontains := appends_containsSql js target filter.value bound
  unfold comparisonSql
  split
  case h_1 hop => exact compares_continueIf (hcompared _ _) (by simp [operatorTakes, hop])
  case h_2 hop =>
    exact compares_continueIf ((hcompared _ _).map fun sql => Sql.placeholders_parenthesised)
      (by simp [operatorTakes, hop])
  case h_3 hop => exact compares_continueIf hcontains (by simp [operatorTakes, hop])
  case h_4 hop =>
    exact compares_continueIf (hcontains.map fun sql => by simp) (by simp [operatorTakes, hop])
  case h_11 =>
    have hnone : operatorTakes filter.operator fieldType column = false := by
      unfold operatorTakes
      split <;> simp_all
    rw [hnone]
    exact rfl
  all_goals
    rename_i hop
    exact compares_continueIf (hcompared _ _) (by simp [operatorTakes, hop])

theorem property_apply (fieldId : String) (column : ShadowColumn) (bound : Bound) :
    ((property fieldId column bound).1.placeholders = [(.string fieldId, bound.index)]) ∧
      (property fieldId column bound).2 = bound.add [.string fieldId] := ⟨rfl, rfl⟩

theorem existsSql_apply (fieldId : String) (bound : Bound) :
    ((existsSql fieldId bound).1.placeholders = [(.string fieldId, bound.index)]) ∧
      (existsSql fieldId bound).2 = bound.add [.string fieldId] := ⟨rfl, rfl⟩

theorem isAbandoned_iff {fieldType : String} {column : ShadowColumn}
    (hfieldType : ((fieldTypes filter.fieldId).filter fun fieldType => fieldType ≠ "") =
      some fieldType) (hcolumn : columnFor fieldType = some column) :
    IsAbandoned fieldTypes filter ↔ filter.operator ≠ "isEmpty" ∧ filter.operator ≠ "isNotEmpty" ∧
      filter.value.isNullish = false ∧
        operatorTakes filter.operator fieldType column = false := by
  rw [IsAbandoned, hfieldType]
  simp [hcolumn]

theorem lostBy_eq_zero : lostBy fieldTypes filter = 0 ↔ ¬ IsAbandoned fieldTypes filter := by
  simp [lostBy]

theorem leaves_storedSql {fieldType : String} {column : ShadowColumn}
    (hfieldType : ((fieldTypes filter.fieldId).filter fun fieldType => fieldType ≠ "") =
      some fieldType) (hcolumn : columnFor fieldType = some column) (js : Js) (bound : Bound) :
    Leaves bound (lostBy fieldTypes filter) (storedSql js filter fieldType column bound).1.toList
      (storedSql js filter fieldType column bound).2 := by
  have hiff := isAbandoned_iff hfieldType hcolumn
  rw [storedSql]
  split
  · rename_i hempty
    rw [lostBy_eq_zero.mpr (by simp [hiff, hempty])]
    exact .of_placeholders (existsSql_apply filter.fieldId bound).1
  · split
    · rename_i hnotEmpty
      rw [lostBy_eq_zero.mpr (by simp [hiff, hnotEmpty])]
      exact .of_placeholders (existsSql_apply filter.fieldId bound).1
    · split
      · rename_i hnullish
        rw [lostBy_eq_zero.mpr (by simp [hiff, hnullish])]
        exact .nothing bound
      · rename_i hempty hnotEmpty hvalue
        obtain ⟨htarget, hadd⟩ := property_apply filter.fieldId column bound
        have hcompares := compares_comparisonSql js filter fieldType column
          (property filter.fieldId column bound).1 (property filter.fieldId column bound).2
        -- the column is bound first, and the comparison starts from what that left
        have hround : (do
            let target ← property filter.fieldId column
            comparisonSql js filter fieldType column target) bound =
          comparisonSql js filter fieldType column (property filter.fieldId column bound).1
            (property filter.fieldId column bound).2 := rfl
        rw [hround]
        cases htakes : operatorTakes filter.operator fieldType column with
        | true =>
          rw [Compares, htakes, if_pos rfl] at hcompares
          obtain ⟨sql, value, heq, hplaceholders⟩ := hcompares
          rw [heq, lostBy_eq_zero.mpr (by simp [hiff, htakes]), hadd, add_add]
          rw [htarget, hadd] at hplaceholders
          exact .of_placeholders hplaceholders
        | false =>
          rw [Compares, htakes, if_neg Bool.false_ne_true] at hcompares
          -- the field was bound before the operator was looked at
          have habandoned : IsAbandoned fieldTypes filter :=
            hiff.mpr ⟨hempty, hnotEmpty, Bool.eq_false_of_not_eq_true hvalue, htakes⟩
          rw [hcompares, hadd, lostBy, if_pos habandoned]
          exact ⟨[.string filter.fieldId], rfl, by simp, rfl⟩

/-- **The round of a filter** loses what it bound where the filter is given up late. -/
theorem leaves_filterSql (js : Js) (fieldTypes : String → Option String) (filter : Filter)
    (bound : Bound) :
    Leaves bound (lostBy fieldTypes filter) (filterSql js fieldTypes filter bound).1.toList
      (filterSql js fieldTypes filter bound).2 := by
  have hnothing : ¬ IsAbandoned fieldTypes filter →
      Leaves bound (lostBy fieldTypes filter) [] bound := by
    intro hnot
    rw [lostBy_eq_zero.mpr hnot]
    exact .nothing bound
  rw [filterSql]
  cases hfieldType : (fieldTypes filter.fieldId).filter fun fieldType => fieldType ≠ "" with
  | none =>
    refine hnothing ?_
    rintro ⟨fieldType, hmem, -⟩
    rw [hfieldType] at hmem
    simp at hmem
  | some fieldType =>
    simp only
    cases hcolumn : columnFor fieldType with
    | none =>
      refine hnothing ?_
      rintro ⟨other, hother, column, hmem, -⟩
      rw [hfieldType, Option.mem_some_iff] at hother
      simp [← hother, hcolumn] at hmem
    | some column => exact leaves_storedSql hfieldType hcolumn js bound

theorem leaves_clausesSql (js : Js) (fieldTypes : String → Option String) (filters : List Filter)
    (bound : Bound) :
    Leaves bound (filters.map (lostBy fieldTypes)).sum (clausesSql js fieldTypes filters bound).1
      (clausesSql js fieldTypes filters bound).2 := by
  induction filters generalizing bound with
  | nil => exact .nothing bound
  | cons filter filters ih => exact (leaves_filterSql js fieldTypes filter bound).append (ih _)

/-- **The rounds of the sorts** lose nothing. -/
theorem leaves_orderKeysSql (fieldTypes : String → Option String) (sorts : List ViewSort)
    (bound : Bound) :
    Leaves bound 0 ((orderKeysSql fieldTypes sorts bound).1.map SqlOrderKey.order)
      (orderKeysSql fieldTypes sorts bound).2 := by
  induction sorts generalizing bound with
  | nil => exact .nothing bound
  | cons sort sorts ih =>
    have hround : Leaves bound 0 ((sortSql fieldTypes sort bound).1.toList.map SqlOrderKey.order)
        (sortSql fieldTypes sort bound).2 := by
      rw [sortSql]
      cases ((sortedType fieldTypes sort).filter fun fieldType => !isDerived fieldType).bind
          columnFor with
      | none => exact .nothing bound
      | some column => exact .of_placeholders (property_apply sort.fieldId column bound).1
    have hrounds := hround.append (ih _)
    rw [← map_append] at hrounds
    exact hrounds

/-! ### The query of a view, and the count -/

theorem flatMap_placeholders_parenthesised (fragments : List Sql) :
    (fragments.map Sql.parenthesised).flatMap Sql.placeholders =
      fragments.flatMap Sql.placeholders := by
  simp [flatMap_map]

/-- **The placeholders of a query**, in their order, are of its parameters, and one is missing for
every filter that is given up late. -/
theorem built_spec (js : Js) (filters : List Filter) (sorts : List ViewSort)
    (fieldTypes : String → Option String) (startIndex : ℕ) :
    let built := buildViewQuery js filters sorts fieldTypes startIndex
    (built.condition ++ built.orderBy).placeholders.Sublist (built.params.zipIdx startIndex) ∧
      (built.condition ++ built.orderBy).placeholders.length +
        (filters.map (lostBy fieldTypes)).sum = built.params.length := by
  have hclauses := leaves_clausesSql js fieldTypes filters ⟨[], startIndex⟩
  have hkeys := leaves_orderKeysSql fieldTypes sorts
    (clausesSql js fieldTypes filters ⟨[], startIndex⟩).2
  obtain ⟨values, hvalues, hsub, hlength⟩ := hclauses.append hkeys
  have hparams : (buildViewQuery js filters sorts fieldTypes startIndex).params = values := by
    rw [show (buildViewQuery js filters sorts fieldTypes startIndex).params =
      (orderKeysSql fieldTypes sorts (clausesSql js fieldTypes filters ⟨[], startIndex⟩).2).2.params
        from rfl, hvalues]
    exact nil_append values
  have hplaceholders : ((buildViewQuery js filters sorts fieldTypes startIndex).condition ++
      (buildViewQuery js filters sorts fieldTypes startIndex).orderBy).placeholders =
        ((clausesSql js fieldTypes filters ⟨[], startIndex⟩).1 ++
          (orderKeysSql fieldTypes sorts
            (clausesSql js fieldTypes filters ⟨[], startIndex⟩).2).1.map
              SqlOrderKey.order).flatMap Sql.placeholders := by
    rw [Sql.placeholders_append, flatMap_append]
    simp only [buildViewQuery, Sql.placeholders_join]
    rw [flatMap_placeholders_parenthesised]
  simp only
  rw [hparams, hplaceholders]
  exact ⟨hsub, by rw [← hlength]; rfl⟩

theorem named_built (js : Js) (filters : List Filter) (sorts : List ViewSort)
    (fieldTypes : String → Option String) (startIndex : ℕ) {value : JsValue} {index : ℕ}
    (h : (value, index) ∈ ((buildViewQuery js filters sorts fieldTypes startIndex).condition ++
      (buildViewQuery js filters sorts fieldTypes startIndex).orderBy).placeholders) :
    (value, index) ∈
      (buildViewQuery js filters sorts fieldTypes startIndex).params.zipIdx startIndex :=
  (built_spec js filters sorts fieldTypes startIndex).1.subset h

theorem nodup_zipIdx (values : List JsValue) (start : ℕ) : (values.zipIdx start).Nodup := by
  have hnumbers : ((values.zipIdx start).map Prod.snd).Nodup := by
    rw [zipIdx_map_snd]
    exact nodup_range'
  exact hnumbers.of_map _

theorem mem_iff_of_sublist {placeholders : List (JsValue × ℕ)}
    (hsub : placeholders.Sublist (values.zipIdx start))
    (hlength : placeholders.length + lost = values.length) :
    (∀ pair, pair ∈ placeholders ↔ pair ∈ values.zipIdx start) ↔ lost = 0 := by
  constructor
  · intro hmem
    have hle := (subperm_of_subset (nodup_zipIdx values start)
      fun pair hpair => (hmem pair).mpr hpair).length_le
    rw [length_zipIdx] at hle
    omega
  · rintro rfl pair
    rw [hsub.eq_of_length (by rw [length_zipIdx]; omega)]

theorem sum_lostBy_eq_zero {filters : List Filter} :
    (filters.map (lostBy fieldTypes)).sum = 0 ↔
      ∀ filter ∈ filters, ¬ IsAbandoned fieldTypes filter := by
  rw [List.sum_eq_zero_iff_forall_eq_nat]
  simp [lostBy_eq_zero]

theorem agrees_built_iff (js : Js) (filters : List Filter) (sorts : List ViewSort)
    (fieldTypes : String → Option String) (startIndex : ℕ) :
    let built := buildViewQuery js filters sorts fieldTypes startIndex
    Agrees startIndex (built.condition ++ built.orderBy) built.params ↔
      ∀ filter ∈ filters, ¬ IsAbandoned fieldTypes filter := by
  obtain ⟨hsub, hlength⟩ := built_spec js filters sorts fieldTypes startIndex
  simp only
  rw [agrees_iff_mem, mem_iff_of_sublist hsub hlength, sum_lostBy_eq_zero]

theorem flatMap_placeholders_filter (fragments : List Sql) :
    (fragments.filter fun sql => !sql.isEmpty).flatMap Sql.placeholders =
      fragments.flatMap Sql.placeholders := by
  induction fragments with
  | nil => rfl
  | cons sql rest ih =>
    cases sql with
    | nil => simpa using ih
    | cons piece sql => simpa using ih

theorem mem_placeholders_search {query : String} {pattern value : JsValue} {clause : Sql → Sql}
    (h : buildSearchClause query = some (pattern, clause)) {number index : ℕ} :
    (value, index) ∈ (clause [.placeholder number pattern]).placeholders ↔
      (value, index) = (pattern, number) := by
  obtain ⟨-, heq⟩ := Option.ite_none_left_eq_some.mp h
  obtain ⟨rfl, rfl⟩ := Prod.mk.inj (Option.some.inj heq)
  simp

theorem placeholders_countSql (collectionId : String) (fragments : List Sql) :
    (countSql collectionId (fragments.filter fun sql => !sql.isEmpty)).placeholders =
      (.string collectionId, 1) :: fragments.flatMap Sql.placeholders := by
  rw [← flatMap_placeholders_filter fragments, countSql]
  split
  · rename_i hnone
    simp [List.isEmpty_iff.mp hnone]
  · simp

theorem forall_or_eq_iff {α : Type*} {a : α} {p q : α → Prop} (hp : ¬ p a) (hq : ¬ q a) :
    (∀ x, (x = a ∨ p x) ↔ (x = a ∨ q x)) ↔ ∀ x, p x ↔ q x := by
  refine ⟨fun h x => ?_, fun h x => or_congr_right (h x)⟩
  by_cases heq : x = a
  · rw [heq]
    exact iff_of_false hp hq
  · simpa [heq] using h x

theorem not_mem_zipIdx {value : JsValue} {index : ℕ}
    (h : index < start ∨ start + values.length ≤ index) :
    (value, index) ∉ values.zipIdx start := by
  intro hmem
  obtain ⟨hle, hvalue⟩ := List.mem_zipIdx_iff_le_and_getElem?_sub.mp hmem
  obtain ⟨hlt, -⟩ := List.getElem?_eq_some_iff.mp hvalue
  omega

/-- **The count agrees with its parameters** where the query of its filters does. -/
theorem agrees_count_iff (js : Js) (filters : List Filter) (fieldTypes : String → Option String)
    (query collectionId : String) :
    Agrees 1 (countStatement js filters fieldTypes query collectionId).1
        (countStatement js filters fieldTypes query collectionId).2 ↔
      ∀ filter ∈ filters, ¬ IsAbandoned fieldTypes filter := by
  obtain ⟨hsub, hlength⟩ := built_spec js filters [] fieldTypes 2
  simp only [show (buildViewQuery js filters [] fieldTypes 2).orderBy = [] from rfl,
    append_nil] at hsub hlength
  rw [← sum_lostBy_eq_zero, ← mem_iff_of_sublist hsub hlength, agrees_iff_mem, countStatement]
  -- the collection has the number 1, and the pattern of a search the one after the last
  have habsent : ∀ {value index}, index < 2 ∨
      2 + (buildViewQuery js filters [] fieldTypes 2).params.length ≤ index →
        (value, index) ∉ (buildViewQuery js filters [] fieldTypes 2).condition.placeholders :=
    fun hindex hmem => not_mem_zipIdx hindex (hsub.subset hmem)
  cases hsearch : buildSearchClause query with
  | none =>
    simp only [placeholders_countSql, flatMap_cons, flatMap_nil, append_nil,
      zipIdx_cons, mem_cons]
    exact forall_or_eq_iff (habsent (by omega)) (not_mem_zipIdx (by omega))
  | some found =>
    obtain ⟨pattern, clause⟩ := found
    have hpattern : ∀ pair number, pair ∈ (clause [.placeholder number pattern]).placeholders ↔
        pair = (pattern, number) := fun pair number => mem_placeholders_search hsearch
    have hlast : (buildViewQuery js filters [] fieldTypes 2).params.length + 1 + 1 =
        2 + (buildViewQuery js filters [] fieldTypes 2).params.length := by omega
    simp only [placeholders_countSql, flatMap_cons, flatMap_nil, append_nil,
      zipIdx_cons, zipIdx_append, zipIdx_nil, mem_cons, mem_append,
      not_mem_nil, or_false, hpattern, length_append, length_singleton, hlast]
    have hne : (JsValue.string collectionId, 1) ≠
        (pattern, 2 + (buildViewQuery js filters [] fieldTypes 2).params.length) := by
      intro heq
      injection heq with _ hnumber
      omega
    rw [forall_or_eq_iff]
    · simp only [or_comm (b := _ = (pattern, _))]
      exact forall_or_eq_iff (habsent (by omega)) (not_mem_zipIdx (by omega))
    · exact not_or.mpr ⟨habsent (by omega), hne⟩
    · exact not_or.mpr ⟨not_mem_zipIdx (by omega), hne⟩

/-- **The statement of a view agrees with its parameters** exactly where no filter is given up late,
and so does the count of the same filters: every placeholder is the number of a parameter and names
its value, and every parameter has a placeholder. -/
theorem agrees_iff (js : Js) (filters : List Filter) (sorts : List ViewSort)
    (fieldTypes : String → Option String) (startIndex : ℕ) (query collectionId : String) :
    let built := buildViewQuery js filters sorts fieldTypes startIndex
    (Agrees startIndex (built.condition ++ built.orderBy) built.params ↔
      ∀ filter ∈ filters, ¬ IsAbandoned fieldTypes filter) ∧
    (Agrees 1 (countStatement js filters fieldTypes query collectionId).1
        (countStatement js filters fieldTypes query collectionId).2 ↔
      ∀ filter ∈ filters, ¬ IsAbandoned fieldTypes filter) :=
  ⟨agrees_built_iff js filters sorts fieldTypes startIndex,
    agrees_count_iff js filters fieldTypes query collectionId⟩

/-- **A filter may lose the id of its field.** A multi-select has no `is`, but its column was looked
up before that was known: the statement has a parameter, and no placeholder. -/
theorem not_agrees : ¬ ∀ (js : Js) (filters : List Filter) (sorts : List ViewSort)
    (fieldTypes : String → Option String) (startIndex : ℕ),
      let built := buildViewQuery js filters sorts fieldTypes startIndex
      Agrees startIndex (built.condition ++ built.orderBy) built.params := by
  intro hall
  have hagrees := hall Js.ascii [⟨"tags", "is", .string "a"⟩] [] (fun _ => some "multiSelect") 2
  have hused := hagrees.used 0 (.string "tags") rfl
  exact not_mem_nil hused

end Proofs

end Sone.ViewSql
