import Sone.Collections.ViewQuery
import Sone.Paging.Keyset
import Sone.Wire.Bytes
import Sone.Wire.Json
import Std.Data.String.ToInt

/-!
# A collection, page by page

`pageCursor.ts`, and the paging of `GET /api/collections/:collectionId`. A page that is not the
last has a cursor: the sort values of its last row, its place and its id, as JSON in base64url.
`readCursor` makes a value that is neither a string nor a number `null`, and `cursorCondition` says
of a row whether it is past one.

`followCursor` reads page by page for as long as there is a cursor. A row is past a cursor where it
comes after its row in the order of the query, but for two cases (`isPast_iff`): a checkbox is read
as missing, and a row with no value is not past one that has a value in an ascending sort.
`followCursor_iff` says when all rows are read nevertheless.
-/

namespace Sone

open List Option

/-! ### The cursor -/

structure PageCursor where
  keys : List JsValue
  idx : String
  id : String

/-- A sort value as it is in a `jsonb`. -/
def sortJson (backend : Backend) : Option SortValue → JsValue
  | none => .null
  | some (.text s) => .string s
  | some (.number n) => .number (.finite n)
  | some (.date t) => .string (backend.dateText t)
  | some (.checkbox b) => .boolean b

def PageCursor.toJson (cursor : PageCursor) : JsValue :=
  .object [("keys", .array cursor.keys), ("idx", .string cursor.idx), ("id", .string cursor.id)]

def writeCursor (js : Js) (cursor : PageCursor) : List Char :=
  Base64.encode (utf8 (String.ofList (Json.stringify js cursor.toJson)))

/-- What is kept of a sort value: a string or a number. -/
def cursorKey : JsValue → JsValue
  | .string s => .string s
  | .number n => .number n
  | _ => .null

def cursorOf (parsed : JsValue) : Option PageCursor :=
  match (parsed.get "idx").string?, (parsed.get "id").string?, (parsed.get "keys").array? with
  | some idx, some id, some keys => some { keys := keys.map cursorKey, idx, id }
  | _, _, _ => none

def readCursor (js : Js) (backend : Backend) (raw : Option (List Char)) : Option PageCursor := do
  let raw ← raw.filter fun raw => raw ≠ []
  let bytes := Base64.decode raw
  let text := (ofUtf8 bytes).getD (backend.lossy bytes)
  cursorOf (← Json.parse js text.toList)

/-! ### The condition -/

/-- A value of a cursor, for a column: a value that may be missing, where the column takes it. -/
def bindKey (backend : Backend) (column : ShadowColumn) (value : JsValue) :
    Option (Option SortValue) :=
  match column, value with
  | _, .null => some none
  | .textValue, .string s => some (some (.text s))
  | .numberValue, .number (.finite n) => some (some (.number n))
  | .dateStart, .string s => (backend.dateOf s).map fun t => some (.date t)
  | column, value => (backend.cast column value).map some

/-- `past`, of one key: strictly past the value of the cursor. -/
def KeyPair.past (pair : KeyPair) : Bool :=
  match pair.value with
  | none => false
  | some v =>
    if pair.desc then pair.other.isNone || pair.other.any fun w => w < v
    else pair.other.any fun w => v < w

/-- `IS NOT DISTINCT FROM` -/
def KeyPair.same (pair : KeyPair) : Bool := pair.other = pair.value

/-- The branch of one key: the keys before are the same, and this one is past. -/
def branch (pairs : List KeyPair) (place : ℕ) : Bool :=
  (pairs.take place).all KeyPair.same && pairs[place]?.any KeyPair.past

/-- **`cursorCondition`**, of what the cursor has in the sorts beside what a row has: a branch for
each key, and one in which all are the same and the tiebreaker decides. -/
def isPast (pairs : List KeyPair) (tail : Bool) : Bool :=
  if pairs.length = 0 then tail
  else (List.range pairs.length).any (branch pairs) || (pairs.all KeyPair.same && tail)

def cursorCondition (backend : Backend) (orderKeys : List OrderKey) (cursor : PageCursor) :
    Option (RowPage → Bool) := do
  let values ← orderKeys.zipIdx.mapM fun key =>
    bindKey backend key.1.column (cursor.keys.getD key.2 .null)
  let id ← backend.uuidOf cursor.id
  some fun row =>
    isPast ((orderKeys.zip values).map fun key =>
        ⟨key.1.desc, key.2, row.property key.1.fieldId key.1.column⟩)
      (cursor.idx < row.idx || (cursor.idx = row.idx && id < row.id))

/-! ### The route -/

/-- What is asked of the route: the collection, the view and the search. -/
structure RowsRequest where
  collectionId : String
  filters : List Filter
  sorts : List ViewSort
  /-- The types of the collection's fields. -/
  fieldTypes : String → Option String
  query : String
  /-- `Number(limit)`, where it is a whole number. -/
  limit : Option ℤ

/-- `DEFAULT_PAGE` -/
def defaultPage : ℤ := 50

/-- `MAX_PAGE` -/
def maxPage : ℤ := 200

namespace RowsRequest

variable (js : Js) (backend : Backend) (request : RowsRequest)

/-- The rows a page holds at most. -/
def pageLimit : ℕ :=
  (min (max ((request.limit.filter fun n => n ≠ 0).getD defaultPage) 1) maxPage).toNat

def built : BuiltQuery :=
  buildViewQuery js backend request.filters request.sorts request.fieldTypes

/-- Whether a row is of the collection and meets the filters and the search. -/
def isMatching (row : RowPage) : Bool :=
  row.collectionId = some request.collectionId && row.kind = "row" && row.archivedAt.isNone &&
    (request.built js backend).clauses.all (fun clause => clause row) &&
    (buildSearchClause backend request.query).all fun clause => clause row

/-- **The rows of the query without pages**, in its order. -/
def allRows (table : List RowPage) : List RowPage :=
  orderedRows (request.built js backend).orderKeys
    (table.filter (request.isMatching js backend))

def cursorAfter (row : RowPage) : PageCursor where
  keys := (request.built js backend).orderKeys.map fun key =>
    sortJson backend (row.property key.fieldId key.column)
  idx := row.idx
  id := row.id

end RowsRequest

structure RowsPage where
  rows : List RowPage
  nextCursor : Option (List Char)

section Route

variable (js : Js) (backend : Backend) (request : RowsRequest) (table : List RowPage)

def RowsRequest.cut (rows : List RowPage) : RowsPage :=
  if request.pageLimit < rows.length then
    { rows := rows.dropLast
      nextCursor := rows.dropLast.getLast?.map fun row =>
        writeCursor js (request.cursorAfter js backend row) }
  else { rows, nextCursor := none }

/-- `GET /api/collections/:collectionId`: a page of rows, where the database takes the cursor. With
a sort by a derived column all rows are fetched, to be sorted afterwards. -/
def getRows (after : Option (List Char)) : Option RowsPage :=
  if (request.built js backend).derivedSorts.isEmpty then
    match readCursor js backend after with
    | none => some (request.cut js backend
        ((request.allRows js backend table).take (request.pageLimit + 1)))
    | some cursor =>
      (cursorCondition backend (request.built js backend).orderKeys cursor).map fun condition =>
        request.cut js backend ((orderedRows (request.built js backend).orderKeys
          (table.filter fun row => request.isMatching js backend row && condition row)).take
            (request.pageLimit + 1))
  else some { rows := request.allRows js backend table, nextCursor := none }

def followCursor : ℕ → Option (List Char) → Option (List RowPage)
  | 0, _ => none
  | n + 1, after =>
    match getRows js backend request table after with
    | none => none
    | some page =>
      match page.nextCursor with
      | none => some page.rows
      | some cursor => (followCursor n (some cursor)).map (page.rows ++ ·)

end Route

/-! ### What a cursor keeps -/

/-- A value as a cursor has it: a checkbox is missing. -/
def keptValue : Option SortValue → Option SortValue
  | some (.checkbox _) => none
  | value => value

/-- What the cursor of a row has in the sorts, beside what another row has. -/
def keptPairs (keys : List OrderKey) (last row : RowPage) : List KeyPair :=
  keys.map fun key => ⟨key.desc, keptValue (last.property key.fieldId key.column),
    row.property key.fieldId key.column⟩

/-- **A row is past another**, as the cursor of that one has it. -/
def RowPage.isPast (keys : List OrderKey) (last row : RowPage) : Bool :=
  Sone.isPast (keptPairs keys last row) (RowPage.tieBefore last row)

/-- At the first sort in which a row differs, it has no value and the sort is ascending. -/
def lacksValue : List KeyPair → Bool
  | [] => false
  | pair :: pairs =>
    if pair.value = pair.other then lacksValue pairs else !pair.desc && pair.other.isNone

section Past

variable {pair : KeyPair} {pairs : List KeyPair} {tail : Bool}

theorem isPast_cons : isPast (pair :: pairs) tail =
    (pair.past || (pair.same && isPast pairs tail)) := by
  have hbranch : ∀ place, branch (pair :: pairs) (place + 1) =
      (pair.same && branch pairs place) := fun place => by
    simp [branch, Bool.and_assoc]
  have hzero : branch (pair :: pairs) 0 = pair.past := by simp [branch]
  rw [isPast, if_neg (by simp), length_cons, range_succ_eq_map, any_cons, hzero,
    List.any_map, all_cons]
  have hany : ((List.range pairs.length).any (branch (pair :: pairs) ∘ Nat.succ)) =
      (pair.same && (List.range pairs.length).any (branch pairs)) := by
    cases hsame : pair.same with
    | false => simp [Function.comp_def, hbranch, hsame]
    | true => simp [Function.comp_def, hbranch, hsame]
  rw [hany, isPast]
  split
  · next hnil =>
    obtain rfl := length_eq_zero_iff.mp hnil
    simp
  · cases pair.past <;> cases pair.same <;> simp

theorem past_irrefl (desc : Bool) (v : Option SortValue) :
    KeyPair.past ⟨desc, v, v⟩ = false := by
  cases v with
  | none => rfl
  | some v => cases desc <;> simp [KeyPair.past]

theorem isPast_iff : isPast pairs tail = (comesFirst pairs tail && !lacksValue pairs) := by
  induction pairs with
  | nil => simp [isPast, comesFirst, lacksValue]
  | cons pair pairs ih =>
    obtain ⟨desc, value, other⟩ := pair
    rw [isPast_cons, comesFirst, lacksValue, ih]
    by_cases heq : value = other
    · subst heq
      rw [KeyPair.first_irrefl, past_irrefl]
      simp [KeyPair.same]
    · have hsame : KeyPair.same ⟨desc, value, other⟩ = false := by
        simpa [KeyPair.same] using Ne.symm heq
      rw [hsame, if_neg heq]
      cases value with
      | none => simp [KeyPair.past, KeyPair.first, heq]
      | some v => cases other <;> cases desc <;> simp [KeyPair.past, KeyPair.first, heq]

theorem first_of_past (h : pair.past = true) : pair.first = true := by
  obtain ⟨desc, value, other⟩ := pair
  cases value with
  | none => cases h
  | some v =>
    cases other with
    | none => rfl
    | some w => cases desc <;> simpa [KeyPair.past, KeyPair.first] using h

theorem past_trans {desc : Bool} {u v w : Option SortValue}
    (huv : KeyPair.past ⟨desc, u, v⟩ = true) (hvw : KeyPair.past ⟨desc, v, w⟩ = true) :
    KeyPair.past ⟨desc, u, w⟩ = true := by
  cases u with
  | none => cases huv
  | some u =>
    cases v with
    | none => cases hvw
    | some v =>
      cases w with
      | none => cases desc <;> simp_all [KeyPair.past]
      | some w =>
        cases desc
        · simp only [KeyPair.past, Bool.false_eq_true, if_false, any_some,
            decide_eq_true_eq] at *
          exact lt_trans huv hvw
        · simp only [KeyPair.past, if_true, isNone_some, Bool.false_or, any_some,
            decide_eq_true_eq] at *
          exact lt_trans hvw huv

end Past

/-! ### One row past another -/

section Rows

variable {keys : List OrderKey} {key : OrderKey} {a b c : RowPage}

theorem rowIsPast_cons : RowPage.isPast (key :: keys) a b =
    (KeyPair.past ⟨key.desc, keptValue (a.property key.fieldId key.column),
        b.property key.fieldId key.column⟩ ||
      (KeyPair.same ⟨key.desc, keptValue (a.property key.fieldId key.column),
        b.property key.fieldId key.column⟩ && RowPage.isPast keys a b)) := isPast_cons

theorem keptValue_cases (value : Option SortValue) :
    keptValue value = value ∨ keptValue value = none := by
  cases value with
  | none => exact .inl rfl
  | some v => cases v <;> first | exact .inl rfl | exact .inr rfl

theorem keptValue_keptValue (value : Option SortValue) :
    keptValue (keptValue value) = keptValue value := by
  cases value with
  | none => rfl
  | some v => cases v <;> rfl

theorem past_of_keptValue {desc : Bool} {u v : Option SortValue}
    (h : KeyPair.past ⟨desc, keptValue u, v⟩ = true) : keptValue u = u := by
  rcases keptValue_cases u with hkept | hnone
  · exact hkept
  · rw [hnone] at h
    cases h

theorem keptValue_of_past
    (h : KeyPair.past ⟨key.desc, keptValue (a.property key.fieldId key.column),
    b.property key.fieldId key.column⟩ = true) :
    keptValue (b.property key.fieldId key.column) = b.property key.fieldId key.column := by
  have hkept := past_of_keptValue h
  cases hb : b.property key.fieldId key.column with
  | none => rfl
  | some w =>
    cases ha : a.property key.fieldId key.column with
    | none =>
      rw [ha] at h
      cases h
    | some v =>
      rw [ha] at hkept
      have hcolumn := (RowPage.column_property ha).trans (RowPage.column_property hb).symm
      cases w with
      | checkbox ticked =>
        cases v with
        | checkbox _ => cases hkept
        | _ => cases hcolumn
      | _ => rfl

theorem before_of_isPast (h : RowPage.isPast keys a b = true) :
    RowPage.before keys a b = true := by
  induction keys with
  | nil => exact h
  | cons key keys ih =>
    rw [rowIsPast_cons, Bool.or_eq_true, Bool.and_eq_true] at h
    rw [before_cons, Bool.or_eq_true, Bool.and_eq_true, decide_eq_true_eq]
    rcases h with hpast | ⟨hsame, hrest⟩
    · rw [past_of_keptValue hpast] at hpast
      exact .inl (first_of_past hpast)
    · have hother : b.property key.fieldId key.column =
          keptValue (a.property key.fieldId key.column) := of_decide_eq_true hsame
      rcases keptValue_cases (a.property key.fieldId key.column) with hkept | hnone
      · exact .inr ⟨(hother.trans hkept).symm, ih hrest⟩
      · -- a checkbox is before what has none
        rw [hother, hnone]
        cases hvalue : a.property key.fieldId key.column with
        | none => exact .inr ⟨rfl, ih hrest⟩
        | some v => exact .inl rfl

/-- **What is past a row that is past another** is past that one. -/
theorem isPast_trans (hab : RowPage.isPast keys a b = true) (hbc : RowPage.isPast keys b c = true) :
    RowPage.isPast keys a c = true := by
  induction keys with
  | nil => exact tieBefore_trans hab hbc
  | cons key keys ih =>
    rw [rowIsPast_cons, Bool.or_eq_true, Bool.and_eq_true] at *
    rcases hab with hab | ⟨hab, hab'⟩
    · have hkept : keptValue (b.property key.fieldId key.column) =
          b.property key.fieldId key.column := keptValue_of_past hab
      rcases hbc with hbc | ⟨hbc, -⟩
      · exact .inl (past_trans hab (hkept ▸ hbc))
      · have hother : c.property key.fieldId key.column =
            keptValue (b.property key.fieldId key.column) := of_decide_eq_true hbc
        rw [hother, hkept]
        exact .inl hab
    · have hother : b.property key.fieldId key.column =
          keptValue (a.property key.fieldId key.column) := of_decide_eq_true hab
      rw [hother, keptValue_keptValue] at hbc
      exact hbc.imp_right fun hsame => ⟨hsame.1, ih hab' hsame.2⟩

theorem isPast_irrefl : RowPage.isPast keys a a = false := by
  rw [Bool.eq_false_iff]
  intro h
  have hbefore := before_of_isPast h
  rw [before_irrefl] at hbefore
  cases hbefore

end Rows

/-! ### A cursor is read as it was written -/

section Cursor

variable {js : Js} {backend : Backend} {request : RowsRequest} {table : List RowPage}

/-- **The table is as the projection writes it**: no two rows have one id, ids are as a `uuid` is
read back, and a number is one that JSON has a form for. -/
structure StoredRows (js : Js) (backend : Backend) (table : List RowPage) : Prop where
  ids : (table.map (·.id)).Nodup
  uuids : ∀ row ∈ table, backend.uuidOf row.id = some row.id
  numbers : ∀ row ∈ table, ∀ fieldId column n,
    row.property fieldId column = some (.number n) → Json.ReadsBack js (.number (.finite n))

theorem readsBack_sortJson (hstored : StoredRows js backend table) {row : RowPage}
    (hrow : row ∈ table) (fieldId : String) (column : ShadowColumn) :
    Json.ReadsBack js (sortJson backend (row.property fieldId column)) := by
  cases hvalue : row.property fieldId column with
  | none => exact Json.readsBack_null
  | some v =>
    cases v with
    | text s => exact Json.readsBack_string s
    | number n => exact hstored.numbers row hrow fieldId column n hvalue
    | date t => exact Json.readsBack_string _
    | checkbox b => exact Json.readsBack_boolean b

theorem readCursor_writeCursor (hstored : StoredRows js backend table) {row : RowPage}
    (hrow : row ∈ table) :
    readCursor js backend (some (writeCursor js (request.cursorAfter js backend row))) =
      some { request.cursorAfter js backend row with
        keys := (request.cursorAfter js backend row).keys.map cursorKey } := by
  obtain ⟨cursor, hcursor⟩ : ∃ cursor, request.cursorAfter js backend row = cursor := ⟨_, rfl⟩
  have hkeys : ∀ value ∈ cursor.keys, Json.ReadsBack js value := by
    rw [← hcursor]
    intro value hvalue
    obtain ⟨key, -, rfl⟩ := List.mem_map.mp hvalue
    exact readsBack_sortJson hstored hrow key.fieldId key.column
  have hread : Json.ReadsBack js cursor.toJson := by
    refine Json.readsBack_object (by simp) fun field hfield => ?_
    simp only [mem_cons, not_mem_nil, or_false] at hfield
    rcases hfield with rfl | rfl | rfl
    · exact Json.readsBack_array hkeys
    · exact Json.readsBack_string _
    · exact Json.readsBack_string _
  have hraw : writeCursor js cursor ≠ [] := by
    intro hnil
    obtain ⟨c, cs, htext, -⟩ := hread.head
    have hbytes := Base64.decode_encode (utf8 (String.ofList (Json.stringify js cursor.toJson)))
    rw [show Base64.encode _ = [] from hnil] at hbytes
    have hempty := ofUtf8_utf8 (String.ofList (Json.stringify js cursor.toJson))
    rw [← hbytes, show Base64.decode [] = utf8 "" from rfl, ofUtf8_utf8, htext] at hempty
    have hlist := congrArg String.toList (some.inj hempty)
    simp at hlist
  rw [hcursor, readCursor, filter_some_pos (by simpa using hraw)]
  simp only [bind_eq_bind, bind_some, writeCursor, Base64.decode_encode, ofUtf8_utf8,
    getD_some, String.toList_ofList, hread.parse]
  rfl

theorem mapM_eq_some_map {α β : Type*} {f : α → Option β} {g : α → β} {l : List α}
    (h : ∀ a ∈ l, f a = some (g a)) : l.mapM f = some (l.map g) := by
  induction l with
  | nil => rfl
  | cons a l ih =>
    obtain ⟨ha, hl⟩ := forall_mem_cons.mp h
    rw [mapM_cons, ha, ih hl]
    rfl

theorem bindKey_sortJson (row : RowPage) (key : OrderKey) :
    bindKey backend key.column
        (cursorKey (sortJson backend (row.property key.fieldId key.column))) =
      some (keptValue (row.property key.fieldId key.column)) := by
  cases hvalue : row.property key.fieldId key.column with
  | none => simp [sortJson, cursorKey, bindKey, keptValue]
  | some v =>
    have hcolumn := RowPage.column_property hvalue
    rw [← hcolumn]
    cases v with
    | text s => rfl
    | number n => rfl
    | date t => simp [sortJson, cursorKey, bindKey, keptValue, SortValue.column,
        backend.dateOf_dateText]
    | checkbox b => rfl

/-- **The condition of a cursor** that was written after a row is that of being past the row. -/
theorem cursorCondition_cursorAfter (hstored : StoredRows js backend table) {row : RowPage}
    (hrow : row ∈ table) {keys : List OrderKey}
    (hkeys : keys = (request.built js backend).orderKeys) :
    cursorCondition backend keys { request.cursorAfter js backend row with
        keys := (request.cursorAfter js backend row).keys.map cursorKey } =
      some (RowPage.isPast keys row) := by
  have hvalues : (keys.zipIdx.mapM fun key => bindKey backend key.1.column
      (((request.cursorAfter js backend row).keys.map cursorKey).getD key.2 .null)) =
      some (keys.map fun key => keptValue (row.property key.fieldId key.column)) := by
    have hmap : keys.map (fun key => keptValue (row.property key.fieldId key.column)) =
        keys.zipIdx.map fun key => keptValue (row.property key.1.fieldId key.1.column) := by
      conv_lhs => rw [← zipIdx_map_fst 0 keys]
      rw [List.map_map]
      rfl
    rw [hmap]
    refine mapM_eq_some_map fun key hkey => ?_
    have hget : keys[key.2]? = some key.1 := mk_mem_zipIdx_iff_getElem?.mp hkey
    have hvalue : ((request.cursorAfter js backend row).keys.map cursorKey).getD key.2 .null =
        cursorKey (sortJson backend (row.property key.1.fieldId key.1.column)) := by
      rw [getD_eq_getElem?_getD, RowsRequest.cursorAfter, List.map_map, List.getElem?_map,
        ← hkeys, hget]
      rfl
    rw [hvalue, bindKey_sortJson]
  rw [cursorCondition, hvalues]
  simp only [bind_eq_bind, bind_some, RowsRequest.cursorAfter,
    hstored.uuids row hrow, Option.some.injEq]
  funext other
  have hzip : keys.zip (keys.map fun key => keptValue (row.property key.fieldId key.column)) =
      keys.map fun key => (key, keptValue (row.property key.fieldId key.column)) := by
    have hboth := zip_map' (f := id) (l := keys)
      (g := fun key => keptValue (row.property key.fieldId key.column))
    rwa [List.map_id] at hboth
  rw [RowPage.isPast, keptPairs, RowPage.tieBefore, hzip, List.map_map]
  rfl

/-! ### The route, in pages of a list -/

theorem mem_of_mem_allRows {row : RowPage} (h : row ∈ request.allRows js backend table) :
    row ∈ table := mem_of_mem_filter (mem_orderedRows.mp h)

def RowsRequest.SortsStored (request : RowsRequest) : Prop :=
  ∀ sort ∈ request.sorts, ∀ fieldType ∈ request.fieldTypes sort.fieldId, isDerived fieldType = false

theorem derivedSorts_isEmpty (h : request.SortsStored) :
    (request.built js backend).derivedSorts.isEmpty = true := by
  rw [List.isEmpty_iff, RowsRequest.built, buildViewQuery, filter_eq_nil_iff]
  intro sort hsort hderived
  obtain ⟨fieldType, hmem, hderived⟩ := (Option.any_eq_true _ _).mp hderived
  rw [h sort hsort fieldType (filter_eq_some_iff.mp hmem).1] at hderived
  cases hderived

theorem pageLimit_pos (request : RowsRequest) : 0 < request.pageLimit := by
  rw [RowsRequest.pageLimit, maxPage]
  omega

theorem cut_take (rest : List RowPage) :
    request.cut js backend (rest.take (request.pageLimit + 1)) =
      if request.pageLimit < rest.length then
        { rows := rest.take request.pageLimit
          nextCursor := (rest.take request.pageLimit).getLast?.map fun row =>
            writeCursor js (request.cursorAfter js backend row) }
      else { rows := rest, nextCursor := none } := by
  rw [RowsRequest.cut, length_take]
  split
  · next hmore =>
    have hlt : request.pageLimit < rest.length := by omega
    have hdrop : (rest.take (request.pageLimit + 1)).dropLast = rest.take request.pageLimit := by
      rw [dropLast_eq_take, length_take, take_take]
      congr 1
      omega
    rw [if_pos hlt, hdrop]
  · next hdone =>
    have hle : ¬request.pageLimit < rest.length := by omega
    rw [if_neg hle, take_of_length_le (by omega)]

/-- **A page** is of what is left after the row of its cursor. -/
theorem getRows_eq (hstored : StoredRows js backend table) (hsorts : request.SortsStored)
    {last : Option RowPage} (hlast : ∀ row ∈ last, row ∈ table) :
    getRows js backend request table
        (last.map fun row => writeCursor js (request.cursorAfter js backend row)) =
      some (request.cut js backend ((Keyset.remaining (request.allRows js backend table)
        (RowPage.isPast (request.built js backend).orderKeys) last).take
          (request.pageLimit + 1))) := by
  rw [getRows, if_pos (derivedSorts_isEmpty hsorts)]
  cases last with
  | none => rfl
  | some row =>
    rw [map_some, readCursor_writeCursor hstored (hlast row rfl)]
    simp only [cursorCondition_cursorAfter hstored (hlast row rfl) rfl, map_some]
    have hmatching : table.filter (fun other => request.isMatching js backend other &&
        RowPage.isPast (request.built js backend).orderKeys row other) =
        (table.filter (request.isMatching js backend)).filter
          (RowPage.isPast (request.built js backend).orderKeys row) := by
      rw [List.filter_filter]
      exact filter_congr fun other _ => Bool.and_comm _ _
    rw [hmatching, orderedRows_filter]
    rfl

/-- **Following the cursors** is reading the rows in pages. -/
theorem followCursor_eq (hstored : StoredRows js backend table) (hsorts : request.SortsStored)
    {last : Option RowPage} (hlast : ∀ row ∈ last, row ∈ table) (n : ℕ) :
    followCursor js backend request table n
        (last.map fun row => writeCursor js (request.cursorAfter js backend row)) =
      Keyset.follow (request.allRows js backend table)
        (RowPage.isPast (request.built js backend).orderKeys) request.pageLimit n last := by
  induction n generalizing last with
  | zero => rfl
  | succ n ih =>
    rw [followCursor, getRows_eq hstored hsorts hlast, cut_take, Keyset.follow]
    obtain ⟨rest, hrest⟩ : ∃ rest, Keyset.remaining (request.allRows js backend table)
        (RowPage.isPast (request.built js backend).orderKeys) last = rest := ⟨_, rfl⟩
    rw [hrest]
    by_cases hmore : request.pageLimit < rest.length
    · rw [if_pos hmore, if_pos hmore]
      have hne : rest.take request.pageLimit ≠ [] := by
        rw [← length_pos_iff, length_take]
        have hpos := pageLimit_pos request
        omega
      obtain ⟨next, hnext⟩ : ∃ next, (rest.take request.pageLimit).getLast? = some next :=
        ⟨_, List.getLast?_eq_some_getLast hne⟩
      have hmem : next ∈ table := by
        have hleft : next ∈ rest := mem_of_mem_take (mem_of_getLast? hnext)
        rw [← hrest] at hleft
        exact mem_of_mem_allRows (Keyset.mem_remaining.mp hleft).1
      have hrec := @ih (some next) fun row hrow => some.inj hrow ▸ hmem
      rw [map_some] at hrec
      simp only [hnext, map_some, hrec]
    · rw [if_neg hmore, if_neg hmore]

end Cursor

/-! ### When all rows are read -/

section Complete

variable {js : Js} {backend : Backend} {request : RowsRequest} {table : List RowPage}

/-- **Nothing is passed over** at the end of a page: each row still to come comes after the last
row of the page too where the checkboxes of that row are missing, and where it first differs from
that, it has a value or the sort is descending. -/
def NothingPassedOver (js : Js) (backend : Backend) (request : RowsRequest)
    (table : List RowPage) : Prop :=
  ∀ j last, (request.allRows js backend table)[(j + 1) * request.pageLimit - 1]? = some last →
    ∀ row ∈ (request.allRows js backend table).drop ((j + 1) * request.pageLimit),
      comesFirst (keptPairs (request.built js backend).orderKeys last row)
          (RowPage.tieBefore last row) = true ∧
        lacksValue (keptPairs (request.built js backend).orderKeys last row) = false

theorem pairwise_allRows (hstored : StoredRows js backend table) :
    (request.allRows js backend table).Pairwise fun a b =>
      RowPage.before (request.built js backend).orderKeys a b = true :=
  pairwise_orderedRows (hstored.ids.sublist (filter_sublist.map _))

/-- **Following the cursors ends**, and it has given every matching row once and in the order of
the query exactly where nothing is passed over at the end of a page. -/
theorem followCursor_iff (js : Js) (backend : Backend) (request : RowsRequest)
    (table : List RowPage) (hstored : StoredRows js backend table)
    (hsorts : request.SortsStored) :
    ∃ rows, followCursor js backend request table (table.length + 1) none = some rows ∧
      (rows = request.allRows js backend table ↔ NothingPassedOver js backend request table) := by
  have heq := @followCursor_eq js backend request table hstored hsorts none
    (fun row hrow => absurd hrow (by simp)) (table.length + 1)
  rw [map_none] at heq
  have hlength : (Keyset.remaining (request.allRows js backend table)
      (RowPage.isPast (request.built js backend).orderKeys) none).length < table.length + 1 := by
    have hle : (request.allRows js backend table).length ≤ table.length := by
      rw [RowsRequest.allRows, orderedRows, length_insertionSort]
      exact length_filter_le _ _
    exact Nat.lt_succ_of_le hle
  have htrans : ∀ a b c, RowPage.isPast (request.built js backend).orderKeys a b = true →
      RowPage.isPast (request.built js backend).orderKeys b c = true →
      RowPage.isPast (request.built js backend).orderKeys a c = true :=
    fun _ _ _ => isPast_trans
  have hasymm : ∀ a b, RowPage.before (request.built js backend).orderKeys a b = true →
      ¬RowPage.before (request.built js backend).orderKeys b a = true := by
    intro a b hab
    simp [before_asymm hab]
  have hsome := Keyset.follow_isSome htrans (fun _ => isPast_irrefl) (pageLimit_pos request) hlength
  obtain ⟨rows, hrows⟩ := isSome_iff_exists.mp hsome
  refine ⟨rows, heq.trans hrows, ?_⟩
  rw [Keyset.follow_eq_iff htrans (pairwise_allRows hstored) (fun _ _ => before_of_isPast) hasymm
    (pageLimit_pos request) hrows, NothingPassedOver]
  simp only [RowPage.isPast, isPast_iff, Bool.and_eq_true, Bool.not_eq_true']

end Complete

/-! ### A row without a value -/

/-- A backend in which an instant is written as its number. -/
def sampleBackend : Backend where
  equals := fun _ _ => false
  compares := fun _ _ _ => false
  ilike := fun _ _ => false
  dateText := Int.repr
  dateOf := String.toInt?
  dateOf_dateText := Int.toInt?_repr
  cast := fun _ _ => none
  uuidOf := fun s => if isUuidText s then some s else none
  lossy := fun _ => ""

/-- A row of the collection, with a number or without. -/
def sampleRow (id idx : String) (n : Option ℚ) : RowPage where
  id
  title := ""
  idx
  collectionId := some "c"
  kind := "row"
  archivedAt := none
  properties := (YMap.empty : YMap Property).set "f" { numberValue := n }

def sampleTable : List RowPage :=
  [sampleRow "00000000-0000-4000-8000-000000000001" "a0" (some 1),
    sampleRow "00000000-0000-4000-8000-000000000002" "a1" none]

/-- One row a page, by the number in ascending order. -/
def sampleRequest : RowsRequest where
  collectionId := "c"
  filters := []
  sorts := [{ fieldId := "f", desc := false }]
  fieldTypes := fun _ => some "number"
  query := ""
  limit := some 1

theorem followCursor_sample :
    ((followCursor Js.ascii sampleBackend sampleRequest sampleTable 3 none).map fun rows =>
        rows.map (·.id)) = some ["00000000-0000-4000-8000-000000000001"] := by
  decide +kernel

theorem allRows_sample :
    ((sampleRequest.allRows Js.ascii sampleBackend sampleTable).map (·.id)) =
      ["00000000-0000-4000-8000-000000000001", "00000000-0000-4000-8000-000000000002"] := by
  decide +kernel

/-- **The row without a number is never read**: the first page ends at the one with a number, and
the second is empty. -/
theorem followCursor_loses_row :
    followCursor Js.ascii sampleBackend sampleRequest sampleTable (sampleTable.length + 1) none ≠
      some (sampleRequest.allRows Js.ascii sampleBackend sampleTable) := by
  intro h
  have hids := followCursor_sample
  rw [show sampleTable.length + 1 = 3 from rfl] at h
  rw [h, map_some, allRows_sample, Option.some.injEq] at hids
  exact absurd hids (by decide)

/-- A box that is not ticked, and one that is: the cursor of the first is read without a value, and
nothing is past it. -/
example :
    (followCursor Js.ascii sampleBackend
      { sampleRequest with fieldTypes := fun _ => some "checkbox" }
        [{ sampleRow "00000000-0000-4000-8000-000000000001" "a0" none with
            properties := (YMap.empty : YMap Property).set "f" { boolValue := some false } },
          { sampleRow "00000000-0000-4000-8000-000000000002" "a1" none with
            properties := (YMap.empty : YMap Property).set "f" { boolValue := some true } }]
        3 none).map (fun rows => rows.map (·.id)) =
      some ["00000000-0000-4000-8000-000000000001"] := by
  decide +kernel

theorem number_of_property_sampleRow {id idx fieldId : String} {column : ShadowColumn}
    {m : Option ℚ}
    {n : ℚ} (h : (sampleRow id idx m).property fieldId column = some (.number n)) : m = some n := by
  obtain ⟨property, hproperty, hvalue⟩ := bind_eq_some_iff.mp h
  rw [sampleRow, YMap.get_set] at hproperty
  split at hproperty
  · obtain rfl := some.inj hproperty
    cases column
    case numberValue =>
      obtain ⟨k, hk, heq⟩ := map_eq_some_iff.mp hvalue
      cases heq
      exact hk
    all_goals cases hvalue
  · cases hproperty

theorem storedRows_sample : StoredRows Js.ascii sampleBackend sampleTable where
  ids := by decide
  uuids := by
    simp only [sampleTable, forall_mem_cons]
    exact ⟨by decide, by decide, by simp⟩
  numbers := by
    intro row hrow fieldId column n h
    have hone : n = ((1 : ℕ) : ℚ) := by
      simp only [sampleTable, mem_cons, not_mem_nil, or_false] at hrow
      rcases hrow with rfl | rfl
      · exact (some.inj (number_of_property_sampleRow h)).symm.trans Nat.cast_one.symm
      · cases number_of_property_sampleRow h
    rw [hone]
    exact Json.readsBack_natural (by decide)

theorem followCursor_iff_sample :
    ∃ rows, followCursor Js.ascii sampleBackend sampleRequest sampleTable
        (sampleTable.length + 1) none = some rows ∧
      (rows = sampleRequest.allRows Js.ascii sampleBackend sampleTable ↔
        NothingPassedOver Js.ascii sampleBackend sampleRequest sampleTable) :=
  followCursor_iff Js.ascii sampleBackend sampleRequest sampleTable storedRows_sample (by
    rintro sort - fieldType hfieldType
    obtain rfl := some.inj hfieldType
    decide)

end Sone
