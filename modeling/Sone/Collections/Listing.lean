import Sone.Access.MayRead
import Sone.Access.Under
import Sone.Collections.Paging
import Sone.Collections.RollupHidden

/-!
# Who is shown the rows of a collection

`GET /api/collections/:collectionId` (`http/collections.ts`) decides once, on the page that holds
the collection, whether somebody may read it, and then sends its rows with their titles, their
cells and the names of the files in these. A row is a page of its own, that can be restricted like
any other and has grants of its own. The rollups ask of each row that points here whether the
reader may read it; the listing asks nothing.

So all rows of a page of the listing may be read exactly where none is kept from the reader
(`showsOnlyReadable_iff`): where no row that is in the page of the collection is restricted, and
what the reader has there goes further down, but for a page admin and for the rows that the reader
is granted something on.
-/

namespace Sone

open List Option

/-! ### What the route reads -/

/-- `collections` -/
structure CollectionRow where
  id : Uuid
  pageId : Uuid
  titleFieldId : Uuid
  deriving DecidableEq

/-- `collection_views` -/
structure CollectionView where
  id : String
  name : String
  viewType : String
  definition : JsValue

/-- `files` -/
structure ListedFile where
  id : Uuid
  workspaceId : Uuid
  filename : String
  mimeType : String
  sizeBytes : ℕ
  deriving DecidableEq

/-- What a row of `pages` has beside what a rollup reads of it: its place, its collection, its
kind and what is in its fields, in the columns they are sorted by. -/
structure RowColumns where
  idx : String
  collectionId : Option Uuid
  kind : String
  properties : YMap Property

/-- **The database of a listing.** -/
structure CollectionDb extends RollupDb where
  columns : Uuid → RowColumns
  collections : List CollectionRow
  /-- The views of a collection, `ORDER BY idx, id`. -/
  views : Uuid → List CollectionView
  /-- The fields of a collection, `ORDER BY idx, id`. -/
  fields : Uuid → List CollectionField
  files : List ListedFile

/-- What the queries and the platform supply. -/
structure ListingEnv extends RollupEnv where
  backend : Backend
  /-- A `uuid` is read back from its text. -/
  uuid_uuidText : ∀ id, uuid (uuidText id) = some id
  /-- How deep a formula is read. -/
  fuel : ℕ
  /-- `rows.sort`, by derived values. -/
  sortRows : List ViewSort → (String → Bag) → List RowPage → List RowPage
  /-- To sort rows only changes their order. -/
  sortRows_perm : ∀ sorts derived rows, (sortRows sorts derived rows).Perm rows

structure CollectionRequest where
  collectionId : String
  view : Option String
  query : String
  /-- `Number(limit)`, where it is a whole number. -/
  limit : Option ℤ
  after : Option (List Char)

/-! ### What the route sends -/

structure SentFile where
  id : Uuid
  filename : String
  mimeType : String
  sizeBytes : ℕ
  category : String

structure SentRow where
  id : String
  title : String
  values : YMap JsValue
  derived : Bag

structure CollectionResponse where
  pageId : Uuid
  collectionId : Uuid
  nextCursor : Option (List Char)
  sortedInMemory : Bool
  total : ℕ
  totalIsExact : Bool
  titleFieldId : Uuid
  canEdit : Bool
  files : List SentFile
  views : List CollectionView
  fields : List CollectionField
  rows : List SentRow

structure Authorised where
  workspaceId : Uuid
  actorId : Option Uuid
  canEdit : Bool

/-! ### The route -/

def categoryOf (mime : String) : String :=
  if mime.startsWith "image/" then "image"
  else if mime.startsWith "video/" then "video"
  else if mime = "application/pdf" then "pdf"
  else if mime.startsWith "text/" then "text"
  else if mime = "application/zip" then "archive"
  else "document"

def readFilters (definition : JsValue) : List Filter :=
  ((definition.get "filters").array?.getD []).filterMap fun entry => do
    let fieldId ← (entry.get "fieldId").string?
    let operator ← (entry.get "operator").string?
    return { fieldId, operator, value := entry.get "value" }

def readSorts (definition : JsValue) : List ViewSort :=
  ((definition.get "sort").array?.getD []).filterMap fun entry => do
    let fieldId ← (entry.get "fieldId").string?
    return { fieldId, desc := (entry.get "direction").string? = some "desc" }

def Principal.actorId : Principal → Option Uuid
  | user userId _ | guest userId _ => some userId
  | anonymous _ _ => none

/-- `authorise`: the caller on a page, or the answer they get. -/
def authorise (env : Env) (db : Tables) (sessionToken : Option String) (pageId : Uuid)
    (needsEdit : Bool) : Except String (Except HttpRefusal Authorised) :=
  match loadPageLocation db pageId with
  | none => .ok (.error ⟨404, "not_found"⟩)
  | some page =>
    if (sessionToken.filter (· ≠ "")).isNone then .ok (.error ⟨401, "not_authenticated"⟩)
    else do
      let claims ← claimsOrNull env db sessionToken page.workspaceId
      match claims.bind fun claims =>
          (effectiveRole claims page).map fun role => (claims, role) with
      | none => return .error ⟨404, "not_found"⟩
      | some (claims, role) =>
        let canEdit := decide (role ≠ .viewer ∧ role ≠ .commenter)
        if needsEdit && !canEdit then return .error ⟨403, "not_authorized"⟩
        return .ok { workspaceId := page.workspaceId, actorId := claims.principal.actorId, canEdit }

namespace CollectionDb

variable (db : CollectionDb) (env : ListingEnv)

/-- A page, as the query of the rows reads it. -/
def rowPage (page : SourcePage) : RowPage where
  id := env.uuidText page.id
  title := page.title
  idx := (db.columns page.id).idx
  collectionId := (db.columns page.id).collectionId.map env.uuidText
  kind := (db.columns page.id).kind
  archivedAt := page.archivedAt.map Int.ofNat
  properties := (db.columns page.id).properties

/-- The rows of `pages`. -/
def table : List RowPage := db.pages.rows.map (db.rowPage env)

/-- The query of the rows, by the view that is chosen. -/
def rowsRequest (collection : CollectionRow) (request : CollectionRequest) : RowsRequest :=
  let chosen := (request.view.filter (· ≠ "")).bind fun view =>
    (db.views collection.id).find? fun entry => entry.id = view
  { collectionId := env.uuidText collection.id
    filters := (chosen.map fun view => readFilters view.definition).getD []
    sorts := (chosen.map fun view => readSorts view.definition).getD []
    fieldTypes := fun fieldId =>
      ((db.fields collection.id).find? fun field => field.id = fieldId).map (·.fieldType)
    query := request.query
    limit := request.limit }

/-- `byRow`: the cells of a row. -/
def valuesOf (rowId : Uuid) : YMap JsValue :=
  (db.properties.filter fun v => v.pageId = rowId).foldl
    (fun cells v => cells.set (env.uuidText v.fieldId) v.value) YMap.empty

/-- `referenced`: the ids of files in the cells of a row. -/
def referenced (rowId : Uuid) : List String :=
  (db.valuesOf env rowId).rows.flatMap fun cell =>
    ((cell.2.get "fileIds").array?.getD []).filterMap JsValue.string?

/-- `COUNT_CEILING` -/
def countCeiling : ℕ := 10000

/-- What is sent of the rows that were selected. -/
def respond (auth : Authorised) (collection : CollectionRow) (request : CollectionRequest) :
    Option CollectionResponse := do
  let rowsRequest := db.rowsRequest env collection request
  let built := rowsRequest.built env.formula.js env.backend
  let page ← getRows env.formula.js env.backend rowsRequest (db.table env) request.after
  let rowIds ← page.rows.mapM fun row => env.uuid row.id
  -- the files of these rows, in this workspace
  let fileIds ← (rowIds.flatMap (db.referenced env)).mapM env.uuid
  let bags ← rowIds.mapM fun rowId =>
    (db.derivedOf env.toRollupEnv auth.actorId env.fuel rowIds (db.fields collection.id)
      (fun fieldId => ((db.valuesOf env rowId).get fieldId).getD .undefined) rowId).map
        fun bag => (env.uuidText rowId, bag)
  let derived := fun rowId : String => ((bags.find? fun entry => entry.1 = rowId).map (·.2)).getD
    YMap.empty
  let total := ((db.table env).filter (rowsRequest.isMatching env.formula.js env.backend)).length
  return {
    pageId := collection.pageId
    collectionId := collection.id
    nextCursor := page.nextCursor
    sortedInMemory := !built.derivedSorts.isEmpty
    total := min total countCeiling
    totalIsExact := decide (total ≤ countCeiling)
    titleFieldId := collection.titleFieldId
    canEdit := auth.canEdit
    files := (db.files.filter fun file =>
      file.id ∈ fileIds ∧ file.workspaceId = auth.workspaceId).map fun file =>
        ⟨file.id, file.filename, file.mimeType, file.sizeBytes, categoryOf file.mimeType⟩
    views := db.views collection.id
    fields := db.fields collection.id
    rows := (if built.derivedSorts.isEmpty then page.rows
      else env.sortRows built.derivedSorts derived page.rows).map fun row => {
        id := row.id
        title := row.title
        values := ((env.uuid row.id).map (db.valuesOf env)).getD YMap.empty
        derived := derived row.id } }

def findCollection (id : String) : Option (Option CollectionRow) :=
  (env.uuid id).map fun id => db.collections.find? fun collection => collection.id = id

/-- `GET /api/collections/:collectionId`: refused, or answered. There is nothing where the request
fails. -/
def getCollection (surroundings : Env) (sessionToken : Option String)
    (request : CollectionRequest) : Option (Except HttpRefusal CollectionResponse) := do
  match ← db.findCollection env request.collectionId with
  | none => return .error ⟨404, "not_found"⟩
  | some collection =>
    match ← (authorise surroundings db.access.toTables sessionToken collection.pageId
        false).toOption with
    | .error refusal => return .error refusal
    | .ok authorised => (db.respond env authorised collection request).map .ok

end CollectionDb

/-! ### The rows on a page -/

section Rows

variable (js : Js) (backend : Backend) (request : RowsRequest) (table : List RowPage)
  (after : Option (List Char))

def passedCursor : Option (RowPage → Bool) :=
  match readCursor js backend after with
  | none => some fun _ => true
  | some cursor => cursorCondition backend (request.built js backend).orderKeys cursor

/-- **A row is on the page** that is asked for: it is of the collection and meets the filters and
the search, it is past the cursor, and fewer such rows come before it than a page holds. With a
sort by a derived column there are no pages. -/
def RowsRequest.IsOnPage (row : RowPage) : Prop :=
  request.isMatching js backend row = true ∧
    ((request.built js backend).derivedSorts.isEmpty = true →
      ∀ past ∈ passedCursor js backend request after, past row = true ∧
        (table.countP fun other => request.isMatching js backend other && past other &&
          RowPage.before (request.built js backend).orderKeys other row) < request.pageLimit)

variable {js backend request table after}

theorem rows_cut_take (rest : List RowPage) :
    (request.cut js backend (rest.take (request.pageLimit + 1))).rows =
      rest.take request.pageLimit := by
  rw [cut_take]
  split
  · rfl
  · rename_i hle
    rw [take_of_length_le (not_lt.mp hle)]

theorem exists_past_of_getRows (hderived : (request.built js backend).derivedSorts.isEmpty = true)
    {page : RowsPage} (hpage : getRows js backend request table after = some page) :
    ∃ past, passedCursor js backend request after = some past ∧
      page.rows = (orderedRows (request.built js backend).orderKeys (table.filter fun row =>
        request.isMatching js backend row && past row)).take request.pageLimit := by
  rw [getRows, if_pos hderived] at hpage
  rw [passedCursor]
  cases hcursor : readCursor js backend after with
  | none =>
    simp only [hcursor] at hpage ⊢
    obtain rfl := some.inj hpage
    refine ⟨_, rfl, ?_⟩
    simp only [rows_cut_take, Bool.and_true]
    rfl
  | some cursor =>
    simp only [hcursor] at hpage ⊢
    obtain ⟨past, hpast, rfl⟩ := map_eq_some_iff.mp hpage
    exact ⟨past, hpast, rows_cut_take _⟩

/-- **What the query of the rows gives** is what is on the page. -/
theorem mem_getRows_iff (hids : (table.map (·.id)).Nodup) {page : RowsPage}
    (hpage : getRows js backend request table after = some page) {row : RowPage} :
    row ∈ page.rows ↔ row ∈ table ∧ request.IsOnPage js backend table after row := by
  rw [RowsRequest.IsOnPage]
  cases hderived : (request.built js backend).derivedSorts.isEmpty with
  | false =>
    rw [getRows, if_neg (by simp [hderived])] at hpage
    obtain rfl := some.inj hpage
    rw [RowsRequest.allRows, mem_orderedRows, mem_filter]
    simp
  | true =>
    obtain ⟨past, hpast, hrows⟩ := exists_past_of_getRows hderived hpage
    have hsorted := @pairwise_orderedRows (request.built js backend).orderKeys
      (table.filter fun row => request.isMatching js backend row && past row)
      (hids.sublist (filter_sublist.map _))
    have hperm : (orderedRows (request.built js backend).orderKeys (table.filter fun row =>
        request.isMatching js backend row && past row)).Perm
          (table.filter fun row => request.isMatching js backend row && past row) :=
      perm_insertionSort _ _
    rw [hrows, Keyset.mem_take_iff hsorted fun a b => before_asymm, mem_orderedRows,
      hperm.countP_eq, countP_filter, mem_filter, Bool.and_eq_true, hpast]
    simp only [mem_def, Option.some.injEq, forall_eq', Bool.and_comm]
    simp [and_assoc]

end Rows

namespace CollectionDb

variable (db : CollectionDb) (env : ListingEnv)

/-! ### Who may read what is sent -/

def MayOpen (claims : AccessClaims) (page : SourcePage) : Prop :=
  (loadPageLocation db.access.toTables page.id).bind (effectiveRole claims) ≠ none

/-- An answer **shows only what may be read**: each row of it is a page that the claims give a
role on. -/
def ShowsOnlyReadable (claims : AccessClaims) (response : CollectionResponse) : Prop :=
  ∀ row ∈ response.rows, ∃ page ∈ db.pages.rows, env.uuidText page.id = row.id ∧
    db.MayOpen claims page

/-- A row **is kept from** somebody who is let into the page of the collection. In that page, a
row is kept that is restricted, or any where what they have stops above it; but from no page admin,
and from nobody who is granted something on the row. Elsewhere, it is kept where nothing is given:
no level, and no grant that reaches it. -/
def KeepsFrom (claims : AccessClaims) (pageId : Uuid) (page : SourcePage) : Prop :=
  if page.parentPageId = some pageId then
    claims.pageLevel ≠ some .admin ∧ ¬ claims.HasGrantOn page.id ∧
      (page.restricted = true ∨
        ∃ host ∈ loadPageLocation db.access.toTables pageId, claims.StopsAt host)
  else
    page.workspaceId ≠ claims.workspaceId ∨
      (claims.levelOn (page.location db.access.toTables) = none ∧
        claims.grantsOn (page.location db.access.toTables) = [])

variable {db env} {collection : CollectionRow} {request : CollectionRequest} {auth : Authorised}
  {response : CollectionResponse} {claims : AccessClaims} {page : SourcePage}

theorem uuidText_injective (env : ListingEnv) : Function.Injective env.uuidText := by
  intro a b h
  have hread := congrArg env.uuid h
  rwa [env.uuid_uuidText, env.uuid_uuidText, Option.some.injEq] at hread

theorem nodup_table : ((db.table env).map (·.id)).Nodup := by
  have hids : (db.table env).map (·.id) = (db.pages.rows.map (·.id)).map env.uuidText := by
    rw [table, List.map_map, List.map_map]
    rfl
  rw [hids]
  exact db.pages.nodup.map (uuidText_injective env)

theorem mem_access (hpage : page ∈ db.pages.rows) : page.toPageRow ∈ db.access.pages := by
  rw [db.pages_access]
  exact List.mem_map_of_mem hpage

/-- **The rows of an answer** are those of the query, in some order. -/
theorem forall_rows_iff (h : db.respond env auth collection request = some response)
    {p : String → Prop} :
    (∀ row ∈ response.rows, p row.id) ↔
      ∀ page ∈ db.pages.rows, (db.rowsRequest env collection request).IsOnPage env.formula.js
        env.backend (db.table env) request.after (db.rowPage env page) →
          p (env.uuidText page.id) := by
  obtain ⟨page, hpage, hrows⟩ : ∃ page, getRows env.formula.js env.backend
      (db.rowsRequest env collection request) (db.table env) request.after = some page ∧
        ∀ id, id ∈ response.rows.map (·.id) ↔ id ∈ page.rows.map (·.id) := by
    rw [respond] at h
    obtain ⟨page, hpage, h⟩ := bind_eq_some_iff.mp h
    obtain ⟨rowIds, -, h⟩ := bind_eq_some_iff.mp h
    obtain ⟨fileIds, -, h⟩ := bind_eq_some_iff.mp h
    obtain ⟨bags, -, h⟩ := bind_eq_some_iff.mp h
    obtain rfl := some.inj h
    refine ⟨page, hpage, fun id => ?_⟩
    simp only [List.map_map]
    split
    · rfl
    · exact ((env.sortRows_perm _ _ _).map _).mem_iff
  have hids : (∀ row ∈ response.rows, p row.id) ↔ ∀ row ∈ page.rows, p row.id := by
    constructor
    · intro hall row hrow
      obtain ⟨sent, hsent, hid⟩ := List.mem_map.mp ((hrows _).mpr (List.mem_map_of_mem hrow))
      exact hid ▸ hall sent hsent
    · intro hall sent hsent
      obtain ⟨row, hrow, hid⟩ := List.mem_map.mp ((hrows _).mp (List.mem_map_of_mem hsent))
      exact hid ▸ hall row hrow
  rw [hids]
  simp only [mem_getRows_iff nodup_table hpage, table, List.mem_map]
  constructor
  · exact fun hall page hmem hon => hall _ ⟨⟨page, hmem, rfl⟩, hon⟩
  · rintro hall row ⟨⟨page, hmem, rfl⟩, hon⟩
    exact hall page hmem hon

/-- **What is kept from somebody** is what they may not open. -/
theorem mayOpen_iff (hpage : page ∈ db.pages.rows) {host : PageLocation}
    (hhost : loadPageLocation db.access.toTables collection.pageId = some host)
    (hrole : effectiveRole claims host ≠ none) :
    db.MayOpen claims page ↔ ¬ db.KeepsFrom claims collection.pageId page := by
  have hmem := mem_access hpage
  rw [MayOpen, Database.loadPageLocation_eq hmem, bind_some, KeepsFrom]
  split
  · rename_i hparent
    obtain ⟨above, habove, hid, -⟩ := db.access.pages_parent _ hmem _ hparent
    have hlocation : host = above.location db.access.toTables := by
      rw [← hid, Database.loadPageLocation_eq habove] at hhost
      exact (some.inj hhost).symm
    subst hlocation
    have hchild := Database.effectiveRole_child_ne_none_iff habove hmem (hid ▸ hparent) hrole
    simp only [hhost, mem_def, Option.some.injEq, exists_eq_left']
    rw [show (⟨page.id, page.workspaceId, page.ancestorIds,
      restrictedAt db.access.toTables page.path⟩ : PageLocation) =
        page.location db.access.toTables from rfl, hchild]
    rw [not_and_or, not_and_or, not_not, not_not, not_or, Bool.not_eq_true]
  · rw [show (⟨page.id, page.workspaceId, page.ancestorIds,
      restrictedAt db.access.toTables page.path⟩ : PageLocation) =
        page.location db.access.toTables from rfl, effectiveRole_ne_none_iff]
    rw [not_or, not_not, not_and_or]
    rfl

theorem exists_claims_of_getCollection {surroundings : Env} {sessionToken : Option String}
    (h : db.getCollection env surroundings sessionToken request = some (.ok response)) :
    ∃ collection host claims auth,
      db.findCollection env request.collectionId = some (some collection) ∧
      loadPageLocation db.access.toTables collection.pageId = some host ∧
      claimsOrNull surroundings db.access.toTables sessionToken host.workspaceId =
        .ok (some claims) ∧
      effectiveRole claims host ≠ none ∧
      db.respond env auth collection request = some response := by
  obtain ⟨found, hfound, h⟩ := bind_eq_some_iff.mp h
  cases found with
  | none => cases some.inj h
  | some collection =>
    obtain ⟨answer, hanswer, h⟩ := bind_eq_some_iff.mp h
    cases answer with
    | error refusal => cases some.inj h
    | ok auth =>
      obtain ⟨sent, hsent, hok⟩ := map_eq_some_iff.mp h
      obtain rfl := Except.ok.inj hok
      unfold authorise at hanswer
      split at hanswer
      · cases some.inj hanswer
      rename_i host hhost
      split at hanswer
      · cases some.inj hanswer
      cases hclaims : claimsOrNull surroundings db.access.toTables sessionToken
          host.workspaceId with
      | error message =>
        rw [hclaims] at hanswer
        cases hanswer
      | ok claims =>
        rw [hclaims] at hanswer
        cases claims with
        | none => cases some.inj hanswer
        | some claims =>
          refine ⟨collection, host, claims, auth, hfound, hhost, hclaims, fun hnone => ?_, hsent⟩
          simp only [bind, Except.bind, bind_some, hnone, map_none] at hanswer
          cases some.inj hanswer

/-- **All rows of an answer may be read** exactly where none that is on the page is kept from the
reader. -/
theorem showsOnlyReadable_iff (surroundings : Env) (sessionToken : Option String)
    (h : db.getCollection env surroundings sessionToken request = some (.ok response)) :
    ∃ collection host claims,
      db.findCollection env request.collectionId = some (some collection) ∧
      loadPageLocation db.access.toTables collection.pageId = some host ∧
      claimsOrNull surroundings db.access.toTables sessionToken host.workspaceId =
        .ok (some claims) ∧
      (db.ShowsOnlyReadable env claims response ↔
        ∀ page ∈ db.pages.rows, (db.rowsRequest env collection request).IsOnPage env.formula.js
          env.backend (db.table env) request.after (db.rowPage env page) →
            ¬ db.KeepsFrom claims collection.pageId page) := by
  obtain ⟨collection, host, claims, auth, hfound, hhost, hclaims, hrole, hsent⟩ :=
    exists_claims_of_getCollection h
  refine ⟨collection, host, claims, hfound, hhost, hclaims, ?_⟩
  rw [ShowsOnlyReadable, @forall_rows_iff db env collection request auth response hsent
    fun id => ∃ page ∈ db.pages.rows, env.uuidText page.id = id ∧ db.MayOpen claims page]
  refine forall₂_congr fun page hpage => forall_congr' fun _ => ?_
  rw [← mayOpen_iff hpage hhost hrole]
  constructor
  · rintro ⟨other, hother, hid, hopen⟩
    obtain rfl := inj_on_of_nodup_map db.pages.nodup hother hpage (uuidText_injective env hid)
    exact hopen
  · exact fun hopen => ⟨page, hpage, rfl, hopen⟩

/-! ### A restricted row -/

theorem members_role_salaries : ∀ m ∈ ([⟨1, 7, 4, false⟩] : List WorkspaceMemberRow),
    ∃ r ∈ ([⟨4, none, some "member", some .viewer, []⟩] : List RoleRow), r.id = m.roleId := by
  decide

/-- A workspace with a page, and two pages in it of which one is restricted. Its member may read
what is not restricted. -/
def salariesAccess : RoledDatabase where
  workspaces := [⟨1, none⟩]
  users := [⟨7, none, "Ada", false, none⟩]
  sessions := [⟨8, 7, "token", none, 100, 50⟩]
  roles := [⟨4, none, some "member", some .viewer, []⟩]
  workspaceMembers := [⟨1, 7, 4, false⟩]
  pages := [⟨10, 1, none, [], false⟩, ⟨11, 1, some 10, [10], true⟩, ⟨12, 1, some 10, [10], false⟩]
  pages_key := by decide
  pages_workspace := by decide
  pages_root := by decide
  pages_parent := by simp [PageRow.path]
  members_role := members_role_salaries

/-- The two are rows of a collection on the page, and the restricted one has a file in a cell. -/
def salaries : CollectionDb where
  access := salariesAccess
  pages := ⟨[⟨⟨10, 1, none, [], false⟩, "Team", none⟩,
    ⟨⟨11, 1, some 10, [10], true⟩, "Salaries", none⟩,
    ⟨⟨12, 1, some 10, [10], false⟩, "Holidays", none⟩], by decide⟩
  pages_access := rfl
  relations := []
  properties := [⟨11, 6, .object [("fileIds", .array [.string "||"])], none, none⟩]
  columns id := if id = 10 then ⟨"a0", none, "page", YMap.empty⟩
    else ⟨"a0", some 3, "row", YMap.empty⟩
  collections := [⟨3, 10, 5⟩]
  views _ := []
  fields _ := []
  files := [⟨2, 1, "salaries.pdf", "application/pdf", 9⟩]

def salariesEnv : ListingEnv where
  toRollupEnv := { RollupDb.rollupSampleEnv with
    uuid := fun text => if text.toList.all (· = '|') then some text.toList.length else none
    uuidText := fun id => String.ofList (List.replicate id '|') }
  backend := sampleBackend
  uuid_uuidText id := by simp
  fuel := 0
  sortRows _ _ rows := rows
  sortRows_perm _ _ _ := List.Perm.refl _

def salariesRequest : CollectionRequest := ⟨"|||", none, "", none, none⟩

def salariesAnswer : Option (Except HttpRefusal CollectionResponse) :=
  salaries.getCollection salariesEnv ⟨60, id, none⟩ (some "token") salariesRequest

theorem exists_salariesAnswer : ∃ response, salariesAnswer = some (.ok response) ∧
    response.rows.map (·.id) = [salariesEnv.uuidText 11, salariesEnv.uuidText 12] ∧
    response.files.map (·.filename) = ["salaries.pdf"] := by
  have hsent : (salariesAnswer.map fun answer => answer.toOption.map fun response =>
      (response.rows.map (·.id), response.files.map (·.filename))) =
        some (some ([salariesEnv.uuidText 11, salariesEnv.uuidText 12], ["salaries.pdf"])) := by
    decide +kernel
  obtain ⟨answer, hanswer, hsent⟩ := map_eq_some_iff.mp hsent
  obtain ⟨response, hresponse, hsent⟩ := map_eq_some_iff.mp hsent
  obtain ⟨hrows, hfiles⟩ := Prod.mk.inj hsent
  cases answer with
  | error refusal => cases hresponse
  | ok response =>
    obtain rfl := some.inj hresponse
    exact ⟨response, hanswer, hrows, hfiles⟩

theorem showsOnlyReadable_iff_salaries : ∃ response, salariesAnswer = some (.ok response) ∧
    ∃ collection host claims,
      salaries.findCollection salariesEnv salariesRequest.collectionId = some (some collection) ∧
      loadPageLocation salariesAccess.toTables collection.pageId = some host ∧
      claimsOrNull ⟨60, id, none⟩ salariesAccess.toTables (some "token") host.workspaceId =
        .ok (some claims) ∧
      (salaries.ShowsOnlyReadable salariesEnv claims response ↔
        ∀ page ∈ salaries.pages.rows,
          (salaries.rowsRequest salariesEnv collection salariesRequest).IsOnPage
            salariesEnv.formula.js salariesEnv.backend (salaries.table salariesEnv)
            salariesRequest.after (salaries.rowPage salariesEnv page) →
              ¬ salaries.KeepsFrom claims collection.pageId page) := by
  obtain ⟨response, hanswer, -⟩ := exists_salariesAnswer
  exact ⟨response, hanswer, showsOnlyReadable_iff ⟨60, id, none⟩ (some "token") hanswer⟩

/-- **A restricted row is sent to somebody who may not open it.** -/
theorem not_showsOnlyReadable_salaries :
    ¬ ∀ (db : CollectionDb) (env : ListingEnv) (surroundings : Env) (sessionToken request response)
        (collection : CollectionRow) (host : PageLocation) (claims : AccessClaims),
      db.getCollection env surroundings sessionToken request = some (.ok response) →
      db.findCollection env request.collectionId = some (some collection) →
      loadPageLocation db.access.toTables collection.pageId = some host →
      claimsOrNull surroundings db.access.toTables sessionToken host.workspaceId =
        .ok (some claims) →
      db.ShowsOnlyReadable env claims response := by
  intro hall
  obtain ⟨response, hanswer, hrows, -⟩ := exists_salariesAnswer
  have hshows := hall salaries salariesEnv ⟨60, id, none⟩ (some "token") salariesRequest response
    ⟨3, 10, 5⟩ ⟨10, 1, [], none⟩ ⟨.user 7 "Ada", 1, some .member, some .viewer, [], []⟩ hanswer
    (by decide +kernel) (by decide +kernel) (by rfl)
  have hmem : salariesEnv.uuidText 11 ∈ response.rows.map (·.id) := by
    rw [hrows]
    exact mem_cons_self
  obtain ⟨row, hrow, hid⟩ := List.mem_map.mp hmem
  obtain ⟨page, -, hpage, hopen⟩ := hshows row hrow
  have hpageId : page.id = 11 := uuidText_injective salariesEnv (hpage.trans hid)
  rw [MayOpen, hpageId] at hopen
  exact hopen (by decide +kernel)

end CollectionDb

end Sone
