import Sone.Collections.CellChecks
import Sone.Collections.Listing
import Sone.Search.Matching
import Sone.Search.Query

/-!
# The search

`GET /api/workspaces/:workspaceId/search` (`http/pages.ts`) has the database find the pages that
meet every filter of a query. Some of that the database is asked in a way of its own: tags by a
count, names by a pattern, tasks by a cast of what any client wrote, and the words by a text that is
put together from another and read again.

`searchesAsMeant_iff` says when none of this shows. Nothing is refused: no text that is sent has a
NUL, what was made of the words can be read again with `:*` behind it, the limit is a number of
rows, and with `assigned:` no task has an assignee that is no id. And what is found is what is
meant: no tag is named twice or other than by its key, every page is in the index, and the names of
authors are told apart by the patterns as by the texts, which they are where no text has a letter
that a pattern reads otherwise (`fitsAuthor_iff_of_plain`).
-/

namespace Sone

open List Option

/-! ### What the route reads -/

/-- `pages`, as the search reads it. -/
structure SearchedPage extends SourcePage where
  kind : EntryKind
  /-- `last_edited_at::date`, in the zone of the server. -/
  lastEditedOn : Day
  deriving DecidableEq

/-- `page_search` -/
structure IndexRow (Vector : Type) where
  workspaceId : Uuid
  tsv : Vector
  authors : List String

/-- `page_tags` -/
structure PageTag where
  pageId : Uuid
  tagKey : String
  deriving DecidableEq

/-- `blocks` -/
structure SearchedBlock where
  pageId : Uuid
  type : String
  props : JsValue

/-- What the database and the language supply. -/
structure SearchEnv extends Env where
  js : Js
  lower : String → String
  /-- A value that is not a string as `->>` has it. -/
  jsonText : JsValue → String
  /-- A text as a `uuid`. There is nothing where it is refused. -/
  uuid : String → Option Uuid
  /-- `tsvector` -/
  Vector : Type
  /-- `tsquery` -/
  Query : Type
  /-- `websearch_to_tsquery($1, $2)::text` -/
  websearch : String → String → String
  /-- `to_tsquery`. There is nothing where what it is given is not well formed. -/
  toTsquery : String → String → Option Query
  /-- `@@` -/
  isFound : Query → Vector → Bool
  /-- `search_config` of a workspace. -/
  searchConfig : Uuid → String
  /-- `ORDER BY rank DESC, p.last_edited_at DESC`, for the words that are searched for. -/
  ranked : String → String → List SearchedPage → List SearchedPage
  /-- To order rows only changes their order. -/
  ranked_perm : ∀ config text pages, (ranked config text pages).Perm pages

/-- **The database of a search.** A page is in the index once and as a page of its workspace, and
has a tag once and by its key. -/
structure SearchDb (env : SearchEnv) where
  access : RoledDatabase
  pages : Keyed fun page : SearchedPage => page.id
  pages_access : access.pages = pages.rows.map (·.toPageRow)
  /-- The entry of a page, if it was ever projected. -/
  index : Uuid → Option (IndexRow env.Vector)
  index_workspace : ∀ page ∈ pages.rows, ∀ row ∈ index page.id, row.workspaceId = page.workspaceId
  tags : List PageTag
  tags_nodup : tags.Nodup
  tags_key : ∀ tag ∈ tags, PageDocument.tagKey env.js tag.tagKey = tag.tagKey
  blocks : List SearchedBlock

structure SearchRequest where
  sessionToken : Option String
  workspaceId : Uuid
  /-- `searchParams.get('q') ?? ''` -/
  q : String
  limit : Option String

inductive DbError where
  /-- `invalid byte sequence for encoding "UTF8": 0x00` -/
  | nul
  /-- `syntax error in tsquery` -/
  | tsquery
  /-- `invalid input syntax for type bigint`, or `LIMIT must not be negative`. -/
  | limit
  /-- `invalid input syntax for type date` -/
  | date
  /-- `invalid input syntax for type uuid` -/
  | uuid
  deriving DecidableEq, Repr

/-- What ends a request without an answer. -/
inductive SearchFailure where
  /-- The claims could not be loaded. -/
  | claims (message : String)
  | database (error : DbError)
  deriving DecidableEq, Repr

/-- The answer of the route: what was made of the query, how many folders `in:` matched, and the
ids of what was found. -/
structure SearchAnswer where
  query : String
  filters : SearchFilters
  inMatched : Option ℕ
  results : List Uuid
  deriving DecidableEq

/-- `claimsFor`: a member's claims, or the answer they get. -/
def claimsFor (env : Env) (db : Tables) (sessionToken : Option String) (workspaceId : Uuid) :
    Except String (Except HttpRefusal AccessClaims) :=
  if (sessionToken.filter (· ≠ "")).isNone then .ok (.error ⟨401, "not_authenticated"⟩)
  else do
    match ← claimsOrNull env db sessionToken workspaceId with
    | none => return .error ⟨403, "not_authorized"⟩
    | some claims => return .ok claims

/-- A query, as somebody asks it: the claims they have in the workspace, and the filters. -/
structure Asked where
  claims : AccessClaims
  workspaceId : Uuid
  filters : SearchFilters

def Asked.without (kind : FilterKind) (asked : Asked) : Asked :=
  { asked with filters := asked.filters.without kind }

namespace SearchEnv

variable (env : SearchEnv)

/-- `Math.min(50, Number(limit ?? '20') || 20)` -/
def limitOf (limit : Option String) : JsNumber :=
  match env.js.toNumber (.string (limit.getD "20")) with
  | .nan => .finite 20
  | .infinity negative => if negative then .infinity true else .finite 50
  | .finite n => if n = 0 then .finite 20 else .finite (min 50 n)

/-- `LIMIT $4`, of a number. -/
def rowLimit : JsNumber → Option ℕ
  | .finite n => if n.den = 1 ∧ 0 ≤ n then some n.num.toNat else none
  | _ => none

/-- A query of the `WITH` clause: nothing is found by what is made of no words. -/
def prefixQuery (config text : String) : Option (Option env.Query) :=
  let parsed := env.websearch config text
  if parsed = "" then some none else (env.toTsquery config (parsed ++ ":*")).map some

/-- `ps.tsv @@ q.stemmed OR ps.tsv @@ q.simple` -/
def isFoundBy (config text : String) (tsv : env.Vector) : Bool :=
  [config, "simple"].any fun config =>
    (env.prefixQuery config text).any fun query => query.any fun query => env.isFound query tsv

/-- `b.props ->> 'assignee'` -/
def assigneeText (block : SearchedBlock) : Option String :=
  match block.props.get "assignee" with
  | .undefined | .null => none
  | .string s => some s
  | value => some (env.jsonText value)

/-- `(b.props ->> 'assignee')::uuid`, where it can be cast. -/
def assignee (block : SearchedBlock) : Option Uuid := (env.assigneeText block).bind env.uuid

def castFails (block : SearchedBlock) : Bool :=
  (env.assigneeText block).any fun text => (env.uuid text).isNone

/-- Who is meant by a name after `assigned:`. `me` is the session, where it is an account's, and
anything else is an id or nobody. -/
def resolveAssigned (claims : AccessClaims) (who : String) : Option Uuid :=
  if who = "me" ∧ claims.principal.isUser then claims.principal.actorId
  else if isUuidText who then env.uuid who else none

def isAssigned (asked : Asked) (block : SearchedBlock) : Bool :=
  (env.assignee block).any fun person =>
    person ∈ asked.filters.assigned.filterMap (env.resolveAssigned asked.claims)

/-- `lower(name) LIKE wanted || '%'` -/
def isLike (name wanted : String) : Bool :=
  Wildcard.fits (Wildcard.readLike (wanted.toList ++ ['%'])) (env.lower name).toList

end SearchEnv

namespace SearchDb

variable {env : SearchEnv} (db : SearchDb env) (asked : Asked)

/-! ### The conditions of the statement -/

/-- The folders `in:` named, by name. -/
def folderIds : List Uuid :=
  (db.pages.rows.filter fun folder => folder.workspaceId = asked.workspaceId ∧
    folder.kind = .folder ∧ folder.archivedAt = none ∧
      env.lower folder.title ∈ asked.filters.within).map (·.id)

/-- With no words left, the filters are the search. -/
def textCondition (row : IndexRow env.Vector) : Bool :=
  JsString.length asked.filters.text < 2 ||
    env.isFoundBy (env.searchConfig asked.workspaceId) asked.filters.text row.tsv

/-- Every tag named, by the number of those that the page has. -/
def tagsCondition (page : SearchedPage) : Bool :=
  asked.filters.tags = [] || (db.tags.filter fun tag =>
    tag.pageId = page.id ∧ tag.tagKey ∈ asked.filters.tags).length = asked.filters.tags.length

def todosOf (page : SearchedPage) : List SearchedBlock :=
  db.blocks.filter fun block => block.pageId = page.id ∧ block.type = "todo"

/-- Pages holding a task assigned to one of these people. -/
def assignedCondition (page : SearchedPage) : Bool :=
  asked.filters.assigned = [] || (db.todosOf page).any (env.isAssigned asked)

/-- A prefix against any of the page's authors. -/
def authorsCondition (row : IndexRow env.Vector) : Bool :=
  asked.filters.authors = [] ||
    row.authors.any fun name => asked.filters.authors.any fun wanted => env.isLike name wanted

/-- The page's last edit, by day, inclusive at both ends. -/
def datesCondition (page : SearchedPage) : Bool :=
  (asked.filters.after.all fun date =>
      (dateOf date).any fun date => date.number ≤ page.lastEditedOn.number) &&
    asked.filters.before.all fun date =>
      (dateOf date).any fun date => page.lastEditedOn.number ≤ date.number

def foldersCondition (page : SearchedPage) : Bool :=
  asked.filters.within = [] || page.ancestorIds.any fun id => id ∈ db.folderIds asked

/-- The `WHERE` of the statement. -/
def whereCondition (page : SearchedPage) : Bool :=
  (db.index page.id).any fun row =>
    row.workspaceId = asked.workspaceId && page.archivedAt = none && textCondition asked row &&
      db.tagsCondition asked page && db.assignedCondition asked page &&
      authorsCondition asked row && datesCondition asked page && db.foldersCondition asked page &&
      db.access.visiblePagesCondition page.toPageRow asked.claims.principal.actorId

/-- The second check, which only has to agree with the first. -/
def mayOpen (page : SearchedPage) : Bool :=
  effectiveRole asked.claims ⟨page.id, asked.workspaceId, page.ancestorIds, none⟩ ≠ none

/-- A page is **eligible**: it passes the statement and the check after it. -/
def isEligible (page : SearchedPage) : Bool := db.whereCondition asked page && mayOpen asked page

/-! ### The route -/

/-- **How the database goes about it**: the tasks whose assignee it reads. SQL promises no order of
the conditions, and the tasks of every page may be read at once; but where a page meets all else,
either one of its tasks that are read settles it or all of them are. -/
def Suffices (plan : SearchedBlock → Bool) : Prop :=
  ∀ page ∈ db.pages.rows,
    db.whereCondition (asked.without .assigned) page = true →
      (∃ block ∈ db.todosOf page, plan block = true ∧ env.isAssigned asked block = true) ∨
        ∀ block ∈ db.todosOf page, plan block = true

/-- The folders, where the statement that looks for them does not fail. -/
def findFolders : Except DbError (List Uuid) :=
  if asked.filters.within = [] then .ok []
  else if ∃ name ∈ asked.filters.within, ¬ IsText name then .error .nul
  else .ok (db.folderIds asked)

def select (plan : SearchedBlock → Bool) (limit : JsNumber) : Except DbError (List SearchedPage) :=
  let filters := asked.filters
  if ∃ text ∈ filters.text :: (filters.tags ++ filters.authors), ¬ IsText text then .error .nul
  else if ∃ config ∈ [env.searchConfig asked.workspaceId, "simple"],
      env.prefixQuery config filters.text = none then .error .tsquery
  else if ∃ date ∈ filters.after.toList ++ filters.before.toList, dateOf date = none then
    .error .date
  else if filters.assigned ≠ [] ∧
      ∃ block ∈ db.blocks, block.type = "todo" ∧ plan block = true ∧ env.castFails block = true then
    .error .uuid
  else match SearchEnv.rowLimit limit with
    | none => .error .limit
    | some n => .ok ((env.ranked (env.searchConfig asked.workspaceId) filters.text
        (db.pages.rows.filter (db.whereCondition asked))).take n)

def ask (env : SearchEnv) (claims : AccessClaims) (request : SearchRequest) : Asked :=
  ⟨claims, request.workspaceId, parseSearchQuery env.js (JsString.trim request.q)⟩

/-- `GET /api/workspaces/:workspaceId/search`: refused, or answered. -/
def getSearch (plan : SearchedBlock → Bool) (request : SearchRequest) :
    Except SearchFailure (Except HttpRefusal SearchAnswer) :=
  match claimsFor env.toEnv db.access.toTables request.sessionToken request.workspaceId with
  | .error message => .error (.claims message)
  | .ok (.error refusal) => .ok (.error refusal)
  | .ok (.ok claims) =>
    let typed := JsString.trim request.q
    let asked := ask env claims request
    if !hasSearchCriteria asked.filters then .ok (.ok ⟨typed, asked.filters, none, []⟩)
    else match db.findFolders asked, db.select asked plan (env.limitOf request.limit) with
      | .error error, _ | _, .error error => .error (.database error)
      | .ok folderIds, .ok rows => .ok (.ok {
          query := typed
          filters := asked.filters
          inMatched := some folderIds.length
          results := (rows.filter (mayOpen asked)).map (·.id) })

/-! ### What is asked for -/

def NamesAuthor (page : SearchedPage) : Prop :=
  asked.filters.authors ≠ [] → ∃ row ∈ db.index page.id, ∃ name ∈ row.authors,
    ∃ wanted ∈ asked.filters.authors, wanted.toList <+: (env.lower name).toList

/-- One of the authors' names fits one of the named texts, read as a pattern. -/
def FitsAuthor (page : SearchedPage) : Prop :=
  asked.filters.authors ≠ [] → ∃ row ∈ db.index page.id, ∃ name ∈ row.authors,
    ∃ wanted ∈ asked.filters.authors, env.isLike name wanted = true

/-- A page **meets all but the authors**: it is live and visible, it has the words, every tag that
is named in whatever spelling, a task for one of the people, and its place and its last edit are
where they are asked to be. -/
structure MeetsRest (page : SearchedPage) : Prop where
  live : page.archivedAt = none
  workspace : page.workspaceId = asked.workspaceId
  visible : effectiveRole asked.claims (page.toPageRow.location db.access.toTables) ≠ none
  words : 2 ≤ JsString.length asked.filters.text → ∃ row ∈ db.index page.id,
    env.isFoundBy (env.searchConfig asked.workspaceId) asked.filters.text row.tsv = true
  tags : ∀ tag ∈ asked.filters.tags, ⟨page.id, PageDocument.tagKey env.js tag⟩ ∈ db.tags
  assigned : asked.filters.assigned ≠ [] →
    ∃ block ∈ db.todosOf page, env.isAssigned asked block = true
  after : ∀ date ∈ asked.filters.after, ∃ day ∈ dateOf date, day.number ≤ page.lastEditedOn.number
  before : ∀ date ∈ asked.filters.before, ∃ day ∈ dateOf date, page.lastEditedOn.number ≤ day.number
  within : asked.filters.within ≠ [] → ∃ folder ∈ db.pages.rows, folder.id ∈ page.ancestorIds ∧
    folder.workspaceId = asked.workspaceId ∧ folder.kind = .folder ∧ folder.archivedAt = none ∧
      env.lower folder.title ∈ asked.filters.within

/-- A page **is meant** by a query: it meets every filter. -/
structure IsMeant (page : SearchedPage) : Prop extends db.MeetsRest asked page where
  author : db.NamesAuthor asked page

/-- **A search does as it is asked**: the database does not fail, however it goes about it, and what
is sent are the first of the eligible pages; these are the pages that are meant; and without a
filter no page fewer is eligible. -/
structure SearchesAsMeant (claims : AccessClaims) (request : SearchRequest) : Prop where
  answers : ∀ plan, db.Suffices (ask env claims request) plan →
    ∃ answer n, ∃ found : List SearchedPage, db.getSearch plan request = .ok (.ok answer) ∧
      SearchEnv.rowLimit (env.limitOf request.limit) = some n ∧
        found.Perm (db.pages.rows.filter (db.isEligible (ask env claims request))) ∧
          answer.results = (found.take n).map (·.id)
  eligible : ∀ page ∈ db.pages.rows, db.isEligible (ask env claims request) page = true ↔
    db.IsMeant (ask env claims request) page
  narrows : ∀ kind, ∀ page ∈ db.pages.rows, db.isEligible (ask env claims request) page = true →
    db.isEligible ((ask env claims request).without kind) page = true

/-! ### When it does -/

/-- **What is asked is read as it is meant.** Nothing fails: no text that is sent has a NUL, what is
made of the words can be read again, the limit is one, and with `assigned:` no task has an assignee
that is no id. And where a page is meant, it is in the index, and the tags are named once; and where
it meets all else, the patterns tell the names of its authors apart as the texts do. -/
structure ReadsAsMeant (claims : AccessClaims) (request : SearchRequest) : Prop where
  texts : ∀ text ∈ (ask env claims request).filters.text ::
      ((ask env claims request).filters.tags ++ (ask env claims request).filters.authors),
    IsText text
  names : ∀ name ∈ (ask env claims request).filters.within, IsText name
  words : ∀ config ∈ [env.searchConfig request.workspaceId, "simple"],
    env.prefixQuery config (ask env claims request).filters.text ≠ none
  limit : SearchEnv.rowLimit (env.limitOf request.limit) ≠ none
  assignees : (ask env claims request).filters.assigned ≠ [] →
    ∀ block ∈ db.blocks, block.type = "todo" → env.castFails block = false
  indexed : ∀ page ∈ db.pages.rows, db.IsMeant (ask env claims request) page →
    db.index page.id ≠ none
  tags : ∀ page ∈ db.pages.rows, db.IsMeant (ask env claims request) page →
    (ask env claims request).filters.NamesTagsOnce env.js
  authors : (ask env claims request).filters.NamesTagsOnce env.js →
    ∀ page ∈ db.pages.rows, db.MeetsRest (ask env claims request) page →
      (db.FitsAuthor (ask env claims request) page ↔ db.NamesAuthor (ask env claims request) page)

variable {db asked} {page : SearchedPage} {claims : AccessClaims} {request : SearchRequest}
  {plan : SearchedBlock → Bool} {limit : JsNumber} {rows : List SearchedPage}

theorem mem_access (hpage : page ∈ db.pages.rows) : page.toPageRow ∈ db.access.pages := by
  rw [db.pages_access]
  exact List.mem_map_of_mem hpage

/-! ### Who sees a page -/

/-- What `claimsFor` lets through are the claims of an account in the workspace. -/
theorem exists_of_claimsFor {tables : Tables} {token : Option String} {workspaceId : Uuid}
    {surroundings : Env} (h : claimsFor surroundings tables token workspaceId = .ok (.ok claims)) :
    ∃ principal userId, principal.actorId = some userId ∧
      accountClaims tables principal userId workspaceId = .ok (some claims) := by
  have hloaded : claimsOrNull surroundings tables token workspaceId = .ok (some claims) := by
    rw [claimsFor] at h
    split at h
    · cases Except.ok.inj h
    · rcases hclaims : claimsOrNull surroundings tables token workspaceId with message | loaded
      · simp [hclaims, bind, Except.bind] at h
      · rcases loaded with _ | loaded
        · simp [hclaims, bind, Except.bind, pure, Except.pure] at h
        · simp only [hclaims, bind, Except.bind, pure, Except.pure, Except.ok.injEq] at h
          rw [h]
  obtain ⟨session, hclaims⟩ := Database.exists_of_claimsOrNull hloaded
  refine ⟨_, session.user.userId, ?_, hclaims⟩
  rw [accountPrincipal]
  split_ifs <;> rfl

/-- **The statement shows** a page of the workspace where the claims give a role on it. -/
theorem visiblePagesCondition_iff {token : Option String} {workspaceId : Uuid}
    (h : claimsFor env.toEnv db.access.toTables token workspaceId = .ok (.ok claims))
    (hpage : page ∈ db.pages.rows) (hworkspace : page.workspaceId = workspaceId) :
    db.access.visiblePagesCondition page.toPageRow claims.principal.actorId = true ↔
      effectiveRole claims (page.toPageRow.location db.access.toTables) ≠ none := by
  obtain ⟨principal, userId, hactor, hclaims⟩ := exists_of_claimsFor h
  obtain ⟨rfl, -⟩ := eq_of_accountClaims hclaims
  have hrole : claimsRole db.access.toTables claims.principal userId page.id =
      .ok (effectiveRole claims (page.toPageRow.location db.access.toTables)) := by
    rw [claimsRole, Database.loadPageLocation_eq (mem_access hpage)]
    dsimp only
    rw [hworkspace, hclaims, PageRow.location, hworkspace]
    rfl
  rw [hactor, RoledDatabase.visiblePagesCondition_iff,
    RoledDatabase.claimsRole_ne_none_iff (mem_access hpage) hrole]

theorem mayOpen_of_location (hworkspace : page.workspaceId = asked.workspaceId)
    (h : effectiveRole asked.claims (page.toPageRow.location db.access.toTables) ≠ none) :
    mayOpen asked page = true := by
  obtain ⟨hclaims, hgiven⟩ := effectiveRole_ne_none_iff.mp h
  rw [mayOpen, decide_eq_true_iff, effectiveRole_ne_none_iff]
  refine ⟨hworkspace ▸ hclaims, hgiven.imp (fun hlevel => ?_) fun hgrants => ?_⟩
  · rw [AccessClaims.levelOn, if_pos (.inr rfl)]
    rw [AccessClaims.levelOn] at hlevel
    split_ifs at hlevel
    · exact hlevel
    · exact absurd rfl hlevel
  · obtain ⟨role, hrole⟩ := exists_mem_of_ne_nil _ hgrants
    obtain ⟨grant, hgrant, rfl⟩ := List.mem_map.mp hrole
    obtain ⟨hmem, hreach⟩ := mem_filter.mp hgrant
    refine ne_nil_of_mem (List.mem_map_of_mem (mem_filter.mpr ⟨hmem, ?_⟩))
    rw [Bool.and_eq_true] at hreach ⊢
    exact ⟨hreach.1, rfl⟩

/-! ### What the statement finds -/

/-- **The tags are counted** as they are meant where they are named once, by their keys. -/
theorem tagsCondition_iff :
    db.tagsCondition asked page = true ↔ asked.filters.NamesTagsOnce env.js ∧
      ∀ tag ∈ asked.filters.tags, ⟨page.id, PageDocument.tagKey env.js tag⟩ ∈ db.tags := by
  have hstored : ((db.tags.filter fun tag => tag.pageId = page.id).map (·.tagKey)).Nodup := by
    refine List.Nodup.map_on (fun a ha b hb hkey => ?_) (db.tags_nodup.filter _)
    have ha' := of_decide_eq_true (mem_filter.mp ha).2
    have hb' := of_decide_eq_true (mem_filter.mp hb).2
    cases a
    cases b
    simp_all
  have hcount : (db.tags.filter fun tag =>
      tag.pageId = page.id ∧ tag.tagKey ∈ asked.filters.tags).length =
        (((db.tags.filter fun tag => tag.pageId = page.id).map (·.tagKey)).filter fun key =>
          key ∈ asked.filters.tags).length := by
    rw [List.filter_map, length_map, List.filter_filter]
    congr 2
    funext tag
    rw [Bool.decide_and, Bool.and_comm]
    rfl
  have hmem : ∀ key, key ∈ (db.tags.filter fun tag => tag.pageId = page.id).map (·.tagKey) ↔
      ⟨page.id, key⟩ ∈ db.tags := by
    intro key
    constructor
    · intro hkey
      obtain ⟨tag, htag, rfl⟩ := List.mem_map.mp hkey
      obtain ⟨htag, hpage⟩ := mem_filter.mp htag
      exact of_decide_eq_true hpage ▸ htag
    · exact fun htag => List.mem_map.mpr ⟨_, mem_filter.mpr ⟨htag, by simp⟩, rfl⟩
  rw [tagsCondition, Bool.or_eq_true, decide_eq_true_iff, decide_eq_true_iff, hcount,
    length_filter_mem_eq_iff hstored]
  simp only [hmem]
  constructor
  · rintro (hnone | ⟨hnodup, hall⟩)
    · simp [SearchFilters.NamesTagsOnce, hnone]
    · -- a stored key is its own key
      have hkey : ∀ tag ∈ asked.filters.tags, PageDocument.tagKey env.js tag = tag :=
        fun tag htag => db.tags_key ⟨page.id, tag⟩ (hall tag htag)
      refine ⟨⟨hnodup, hkey⟩, fun tag htag => ?_⟩
      rw [hkey tag htag]
      exact hall tag htag
  · rintro ⟨⟨hnodup, hkey⟩, hall⟩
    refine .inr ⟨hnodup, fun tag htag => ?_⟩
    have hin := hall tag htag
    rwa [hkey tag htag] at hin

theorem foldersCondition_iff :
    db.foldersCondition asked page = true ↔ (asked.filters.within ≠ [] →
      ∃ folder ∈ db.pages.rows, folder.id ∈ page.ancestorIds ∧
        folder.workspaceId = asked.workspaceId ∧ folder.kind = .folder ∧
          folder.archivedAt = none ∧ env.lower folder.title ∈ asked.filters.within) := by
  rw [foldersCondition, Bool.or_eq_true, decide_eq_true_iff, or_iff_not_imp_left,
    List.any_eq_true]
  refine imp_congr Iff.rfl ?_
  simp only [decide_eq_true_iff]
  simp only [folderIds, List.mem_map, mem_filter, decide_eq_true_iff]
  constructor
  · rintro ⟨id, hid, folder, ⟨hfolder, hnamed⟩, rfl⟩
    exact ⟨folder, hfolder, hid, hnamed⟩
  · rintro ⟨folder, hfolder, hid, hnamed⟩
    exact ⟨folder.id, hid, folder, ⟨hfolder, hnamed⟩, rfl⟩

theorem authorsCondition_iff {row : IndexRow env.Vector} (hrow : db.index page.id = some row) :
    authorsCondition asked row = true ↔ db.FitsAuthor asked page := by
  rw [authorsCondition, Bool.or_eq_true, decide_eq_true_iff, or_iff_not_imp_left, FitsAuthor, hrow]
  simp

theorem datesCondition_iff :
    datesCondition asked page = true ↔
      (∀ date ∈ asked.filters.after, ∃ day ∈ dateOf date, day.number ≤ page.lastEditedOn.number) ∧
      ∀ date ∈ asked.filters.before, ∃ day ∈ dateOf date,
        page.lastEditedOn.number ≤ day.number := by
  rw [datesCondition, Bool.and_eq_true, Option.all_eq_true, Option.all_eq_true]
  simp [Option.any_eq_true]

theorem assignedCondition_iff :
    db.assignedCondition asked page = true ↔ (asked.filters.assigned ≠ [] →
      ∃ block ∈ db.todosOf page, env.isAssigned asked block = true) := by
  rw [assignedCondition, Bool.or_eq_true, decide_eq_true_iff, or_iff_not_imp_left,
    List.any_eq_true]

/-- **What the statement finds**: the pages of the index that meet all but the authors, whose
authors fit the patterns, and none where a tag is not named as it should be. -/
theorem whereCondition_iff {token : Option String} (hpage : page ∈ db.pages.rows)
    (hclaims : claimsFor env.toEnv db.access.toTables token asked.workspaceId =
      .ok (.ok asked.claims)) :
    db.whereCondition asked page = true ↔ db.index page.id ≠ none ∧
      asked.filters.NamesTagsOnce env.js ∧ db.MeetsRest asked page ∧ db.FitsAuthor asked page := by
  rw [whereCondition]
  cases hrow : db.index page.id with
  | none => simp
  | some row =>
    have hworkspace := db.index_workspace page hpage row hrow
    have htext : textCondition asked row = true ↔ (2 ≤ JsString.length asked.filters.text →
        ∃ row ∈ db.index page.id, env.isFoundBy (env.searchConfig asked.workspaceId)
          asked.filters.text row.tsv = true) := by
      rw [textCondition, Bool.or_eq_true, decide_eq_true_iff, or_iff_not_imp_left, not_lt, hrow]
      simp
    simp only [any_some, Bool.and_eq_true, decide_eq_true_iff, htext, tagsCondition_iff,
      assignedCondition_iff, authorsCondition_iff hrow, datesCondition_iff, foldersCondition_iff,
      hworkspace]
    constructor
    · rintro ⟨⟨⟨⟨⟨⟨⟨⟨hhere, hlive⟩, hwords⟩, honce, htags⟩, htask⟩, hfits⟩, hafter, hbefore⟩,
        hwithin⟩, hvisible⟩
      rw [visiblePagesCondition_iff hclaims hpage hhere] at hvisible
      exact ⟨by simp, honce, ⟨hlive, hhere, hvisible, hwords, htags, htask, hafter, hbefore,
        hwithin⟩, hfits⟩
    · rintro ⟨-, honce, hmeets, hfits⟩
      have hvisible := hmeets.visible
      rw [← visiblePagesCondition_iff hclaims hpage hmeets.workspace] at hvisible
      exact ⟨⟨⟨⟨⟨⟨⟨⟨hmeets.workspace, hmeets.live⟩, hmeets.words⟩, honce, hmeets.tags⟩,
        hmeets.assigned⟩, hfits⟩, hmeets.after, hmeets.before⟩, hmeets.within⟩, hvisible⟩

theorem isEligible_iff {token : Option String} (hpage : page ∈ db.pages.rows)
    (hclaims : claimsFor env.toEnv db.access.toTables token asked.workspaceId =
      .ok (.ok asked.claims)) :
    db.isEligible asked page = true ↔ db.whereCondition asked page = true := by
  rw [isEligible, Bool.and_eq_true, and_iff_left_iff_imp, whereCondition_iff hpage hclaims]
  rintro ⟨-, -, hmeets, -⟩
  exact mayOpen_of_location hmeets.workspace hmeets.visible

/-- **A filter narrows**: without it, what was found is found. -/
theorem whereCondition_without (kind : FilterKind) (h : db.whereCondition asked page = true) :
    db.whereCondition (asked.without kind) page = true := by
  rw [whereCondition, Option.any_eq_true] at h ⊢
  obtain ⟨row, hrow, h⟩ := h
  simp only [Bool.and_eq_true] at h
  obtain ⟨⟨⟨⟨⟨⟨⟨hlive, htext⟩, htags⟩, hassigned⟩, hauthors⟩, hdates⟩, hwithin⟩, hvisible⟩ := h
  obtain ⟨hafter, hbefore⟩ := Bool.and_eq_true_iff.mp hdates
  refine ⟨row, hrow, ?_⟩
  have htext' : textCondition (asked.without kind) row = true := by
    cases kind <;> exact htext
  have htags' : db.tagsCondition (asked.without kind) page = true := by
    cases kind with
    | tag => rfl
    | _ => exact htags
  have hassigned' : db.assignedCondition (asked.without kind) page = true := by
    cases kind with
    | assigned => rfl
    | _ => exact hassigned
  have hauthors' : authorsCondition (asked.without kind) row = true := by
    cases kind with
    | author => rfl
    | _ => exact hauthors
  have hdates' : datesCondition (asked.without kind) page = true := by
    cases kind with
    | after => exact Bool.and_eq_true_iff.mpr ⟨rfl, hbefore⟩
    | before | inherited => exact Bool.and_eq_true_iff.mpr ⟨hafter, rfl⟩
    | _ => exact hdates
  have hwithin' : db.foldersCondition (asked.without kind) page = true := by
    cases kind with
    | within => rfl
    | _ => exact hwithin
  simp only [Bool.and_eq_true]
  exact ⟨⟨⟨⟨⟨⟨⟨hlive, htext'⟩, htags'⟩, hassigned'⟩, hauthors'⟩, hdates'⟩, hwithin'⟩, hvisible⟩

theorem isEligible_without (kind : FilterKind) (h : db.isEligible asked page = true) :
    db.isEligible (asked.without kind) page = true := by
  obtain ⟨hwhere, hopen⟩ := Bool.and_eq_true_iff.mp h
  exact Bool.and_eq_true_iff.mpr ⟨whereCondition_without kind hwhere, hopen⟩

/-! ### When the statements fail -/

theorem findFolders_eq_ok_iff {ids : List Uuid} :
    db.findFolders asked = .ok ids ↔
      (∀ name ∈ asked.filters.within, IsText name) ∧ ids = db.folderIds asked := by
  rw [findFolders]
  split_ifs with hnone hnul
  · -- nothing is named, and nothing has such a name
    have hids : db.folderIds asked = [] := by simp [folderIds, hnone]
    rw [hids, Except.ok.injEq, eq_comm]
    simp [hnone]
  · refine iff_of_false nofun fun h => ?_
    obtain ⟨name, hname, htext⟩ := hnul
    exact htext (h.1 name hname)
  · push Not at hnul
    rw [Except.ok.injEq, eq_comm]
    exact (and_iff_right hnul).symm

/-- **The statement is answered** where every text is one, the words can be read again, no cast that
is made fails, and the limit is one. The days never fail. -/
theorem select_eq_ok_iff (hdates : asked.filters.ReadsDates) :
    db.select asked plan limit = .ok rows ↔
      (∀ text ∈ asked.filters.text :: (asked.filters.tags ++ asked.filters.authors),
        IsText text) ∧
      (∀ config ∈ [env.searchConfig asked.workspaceId, "simple"],
        env.prefixQuery config asked.filters.text ≠ none) ∧
      (asked.filters.assigned ≠ [] → ∀ block ∈ db.blocks, block.type = "todo" →
        plan block = true → env.castFails block = false) ∧
      ∃ n, SearchEnv.rowLimit limit = some n ∧
        rows = (env.ranked (env.searchConfig asked.workspaceId) asked.filters.text
          (db.pages.rows.filter (db.whereCondition asked))).take n := by
  rw [select]
  split_ifs with htext hwords hdate hcast
  · obtain ⟨text, hmem, hnot⟩ := htext
    exact iff_of_false nofun fun h => hnot (h.1 text hmem)
  · obtain ⟨config, hmem, hnone⟩ := hwords
    exact iff_of_false nofun fun h => h.2.1 config hmem hnone
  · obtain ⟨date, hmem, hnone⟩ := hdate
    have hsome : (dateOf date).isSome = true := by
      rcases mem_append.mp hmem with hmem | hmem
      · exact hdates.after date (mem_toList.mp hmem)
      · exact hdates.before date (mem_toList.mp hmem)
    rw [hnone] at hsome
    cases hsome
  · obtain ⟨hsome, block, hblock, htodo, hread, hfails⟩ := hcast
    refine iff_of_false nofun fun h => ?_
    rw [h.2.2.1 hsome block hblock htodo hread] at hfails
    cases hfails
  · push Not at htext hwords hcast
    have hcasts : asked.filters.assigned ≠ [] → ∀ block ∈ db.blocks, block.type = "todo" →
        plan block = true → env.castFails block = false := by
      intro hsome block hblock htodo hread
      exact Bool.eq_false_iff.mpr (hcast hsome block hblock htodo hread)
    rw [and_iff_right htext, and_iff_right hwords, and_iff_right hcasts]
    cases SearchEnv.rowLimit limit with
    | none => simp
    | some n => simp [eq_comm]

/-- **The route answers** where both statements do. -/
theorem getSearch_eq_ok_iff {answer : SearchAnswer}
    (hclaims : claimsFor env.toEnv db.access.toTables request.sessionToken request.workspaceId =
      .ok (.ok claims))
    (hcriteria : hasSearchCriteria (ask env claims request).filters = true) :
    db.getSearch plan request = .ok (.ok answer) ↔ ∃ ids rows,
      db.findFolders (ask env claims request) = .ok ids ∧
      db.select (ask env claims request) plan (env.limitOf request.limit) = .ok rows ∧
      answer = ⟨JsString.trim request.q, (ask env claims request).filters, some ids.length,
        (rows.filter (mayOpen (ask env claims request))).map (·.id)⟩ := by
  rw [getSearch, hclaims]
  simp only [hcriteria, Bool.not_true, Bool.false_eq_true, if_false]
  cases db.findFolders (ask env claims request) with
  | error message => simp
  | ok ids =>
    cases db.select (ask env claims request) plan (env.limitOf request.limit) with
    | error message => simp
    | ok rows => simp [eq_comm]

theorem filter_isEligible {token : Option String}
    (hclaims : claimsFor env.toEnv db.access.toTables token asked.workspaceId =
      .ok (.ok asked.claims)) :
    db.pages.rows.filter (db.isEligible asked) = db.pages.rows.filter (db.whereCondition asked) :=
  filter_congr fun _ hpage => Bool.eq_iff_iff.mpr (isEligible_iff hpage hclaims)

/-- **The database does not fail**, however it goes about the statement, where nothing that is sent
or cast is refused. -/
theorem answers_iff
    (hclaims : claimsFor env.toEnv db.access.toTables request.sessionToken request.workspaceId =
      .ok (.ok claims))
    (hcriteria : hasSearchCriteria (ask env claims request).filters = true) :
    (∀ plan, db.Suffices (ask env claims request) plan → ∃ answer n, ∃ found : List SearchedPage,
      db.getSearch plan request = .ok (.ok answer) ∧
        SearchEnv.rowLimit (env.limitOf request.limit) = some n ∧
          found.Perm (db.pages.rows.filter (db.isEligible (ask env claims request))) ∧
            answer.results = (found.take n).map (·.id)) ↔
      (∀ text ∈ (ask env claims request).filters.text ::
          ((ask env claims request).filters.tags ++ (ask env claims request).filters.authors),
        IsText text) ∧
      (∀ name ∈ (ask env claims request).filters.within, IsText name) ∧
      (∀ config ∈ [env.searchConfig request.workspaceId, "simple"],
        env.prefixQuery config (ask env claims request).filters.text ≠ none) ∧
      SearchEnv.rowLimit (env.limitOf request.limit) ≠ none ∧
      ((ask env claims request).filters.assigned ≠ [] →
        ∀ block ∈ db.blocks, block.type = "todo" → env.castFails block = false) := by
  have hdates : (ask env claims request).filters.ReadsDates := readsDates_parseSearchQuery _ _
  constructor
  · intro hanswers
    -- the plan that reads every task at once
    obtain ⟨answer, -, -, hok, -⟩ :=
      hanswers (fun _ => true) fun _ _ _ => .inr fun _ _ => rfl
    obtain ⟨ids, rows, hfolders, hselect, -⟩ := (getSearch_eq_ok_iff hclaims hcriteria).mp hok
    obtain ⟨htexts, hwords, hcasts, n, hlimit, -⟩ := (select_eq_ok_iff hdates).mp hselect
    refine ⟨htexts, (findFolders_eq_ok_iff.mp hfolders).1, hwords, ?_, ?_⟩
    · rw [hlimit]
      exact nofun
    · exact fun hsome block hblock htodo => hcasts hsome block hblock htodo rfl
  · rintro ⟨htexts, hnames, hwords, hlimit, hcasts⟩ plan -
    obtain ⟨n, hn⟩ := ne_none_iff_exists'.mp hlimit
    have hfolders := findFolders_eq_ok_iff.mpr
      ⟨hnames, (rfl : db.folderIds (ask env claims request) = _)⟩
    obtain ⟨rows, hselect, hrows⟩ : ∃ rows,
        db.select (ask env claims request) plan (env.limitOf request.limit) = .ok rows ∧
          rows = (env.ranked (env.searchConfig request.workspaceId)
            (ask env claims request).filters.text
            (db.pages.rows.filter (db.whereCondition (ask env claims request)))).take n := by
      refine ⟨_, (select_eq_ok_iff hdates).mpr ⟨htexts, hwords, ?_, n, hn, rfl⟩, rfl⟩
      exact fun hsome block hblock htodo _ => hcasts hsome block hblock htodo
    have hperm := env.ranked_perm (env.searchConfig request.workspaceId)
      (ask env claims request).filters.text
      (db.pages.rows.filter (db.whereCondition (ask env claims request)))
    have heligible : db.pages.rows.filter (db.isEligible (ask env claims request)) =
        db.pages.rows.filter (db.whereCondition (ask env claims request)) :=
      filter_isEligible hclaims
    rw [heligible]
    refine ⟨_, n, _, (getSearch_eq_ok_iff hclaims hcriteria).mpr
      ⟨_, rows, hfolders, hselect, rfl⟩, hn, hperm, ?_⟩
    -- the check after the statement keeps every row
    have hkeeps : rows.filter (mayOpen (ask env claims request)) = rows := by
      refine List.filter_eq_self.mpr fun page hpage => ?_
      rw [hrows] at hpage
      obtain ⟨hmem, hwhere⟩ := mem_filter.mp (hperm.mem_iff.mp (mem_of_mem_take hpage))
      have heligible := @isEligible_iff env db (ask env claims request) page _ hmem hclaims
      exact (Bool.and_eq_true_iff.mp (heligible.mpr hwhere)).2
    rw [hkeeps, hrows]

/-- **The pages that are meant** are the eligible ones where each is in the index and the tags are
named once, if there is such a page, and the patterns tell authors apart as the texts do. -/
theorem eligible_iff_isMeant {token : Option String}
    (hclaims : claimsFor env.toEnv db.access.toTables token asked.workspaceId =
      .ok (.ok asked.claims)) :
    (∀ page ∈ db.pages.rows, db.isEligible asked page = true ↔ db.IsMeant asked page) ↔
      (∀ page ∈ db.pages.rows, db.IsMeant asked page → db.index page.id ≠ none) ∧
      (∀ page ∈ db.pages.rows, db.IsMeant asked page → asked.filters.NamesTagsOnce env.js) ∧
      (asked.filters.NamesTagsOnce env.js → ∀ page ∈ db.pages.rows, db.MeetsRest asked page →
        (db.FitsAuthor asked page ↔ db.NamesAuthor asked page)) := by
  have hwhere : ∀ page ∈ db.pages.rows, db.isEligible asked page = true ↔
      db.index page.id ≠ none ∧ asked.filters.NamesTagsOnce env.js ∧ db.MeetsRest asked page ∧
        db.FitsAuthor asked page := fun page hpage =>
    (isEligible_iff hpage hclaims).trans (whereCondition_iff hpage hclaims)
  constructor
  · intro hall
    have hmeant : ∀ page ∈ db.pages.rows, db.IsMeant asked page → _ :=
      fun page hpage h => (hwhere page hpage).mp ((hall page hpage).mpr h)
    refine ⟨fun page hpage h => (hmeant page hpage h).1,
      fun page hpage h => (hmeant page hpage h).2.1, fun honce page hpage hmeets => ⟨?_, ?_⟩⟩
    · intro hfits hsome
      obtain ⟨row, hrow, -⟩ := hfits hsome
      have hindexed : db.index page.id ≠ none := by
        rw [hrow]
        exact nofun
      exact ((hall page hpage).mp ((hwhere page hpage).mpr
        ⟨hindexed, honce, hmeets, hfits⟩)).author hsome
    · exact fun hnames => (hmeant page hpage ⟨hmeets, hnames⟩).2.2.2
  · rintro ⟨hindexed, honce, hauthors⟩ page hpage
    rw [hwhere page hpage]
    constructor
    · rintro ⟨-, honce, hmeets, hfits⟩
      exact ⟨hmeets, (hauthors honce page hpage hmeets).mp hfits⟩
    · intro h
      exact ⟨hindexed page hpage h, honce page hpage h, h.toMeetsRest,
        (hauthors (honce page hpage h) page hpage h.toMeetsRest).mpr h.author⟩

theorem fitsAuthor_iff_of_plain (hplain : ∀ wanted ∈ asked.filters.authors,
    ∀ c ∈ wanted.toList, Wildcard.isLikeSpecial c = false) :
    db.FitsAuthor asked page ↔ db.NamesAuthor asked page := by
  refine imp_congr Iff.rfl (exists_congr fun row => and_congr_right fun _ =>
    exists_congr fun name => and_congr_right fun _ => exists_congr fun wanted =>
      and_congr_right fun hwanted => ?_)
  rw [SearchEnv.isLike, Wildcard.fits_readLike_of_plain (hplain wanted hwanted)]

/-- **A search does as it is asked** exactly where what is asked is read as it is meant: nothing
that is sent or cast is refused; the tags are named once, by their keys, and each page is in the
index, if there is anything that is meant; and the names of authors fit the texts, as patterns, as
they start with them. -/
theorem searchesAsMeant_iff (env : SearchEnv) (db : SearchDb env) (claims : AccessClaims)
    (request : SearchRequest)
    (hclaims : claimsFor env.toEnv db.access.toTables request.sessionToken request.workspaceId =
      .ok (.ok claims))
    (hcriteria : hasSearchCriteria (ask env claims request).filters = true) :
    db.SearchesAsMeant claims request ↔ db.ReadsAsMeant claims request := by
  have hanswers := @answers_iff env db claims request hclaims hcriteria
  have heligible := @eligible_iff_isMeant env db (ask env claims request) _ hclaims
  constructor
  · intro h
    obtain ⟨htexts, hnames, hwords, hlimit, hassignees⟩ := hanswers.mp h.answers
    obtain ⟨hindexed, htags, hauthors⟩ := heligible.mp h.eligible
    exact ⟨htexts, hnames, hwords, hlimit, hassignees, hindexed, htags, hauthors⟩
  · intro h
    refine ⟨hanswers.mpr ⟨h.texts, h.names, h.words, h.limit, h.assignees⟩,
      heligible.mpr ⟨h.indexed, h.tags, h.authors⟩, fun kind _ _ => isEligible_without kind⟩

end SearchDb

/-! ### An office -/

/-- A database that searches for one word, and cannot read a query that ends in a bracket. -/
def officeEnv : SearchEnv where
  now := 60
  hashToken := id
  js := .ascii
  lower := String.toLower
  jsonText := fun _ => ""
  uuid := uuidOfText
  Vector := List String
  Query := String
  websearch := fun _ text =>
    if text = "-\"a b\"" then "!( 'a' <-> 'b' )" else if text = "" then "" else "'" ++ text ++ "'"
  toTsquery := fun _ text => if text.endsWith "):*" then none else some text
  isFound := fun query tsv => query ∈ tsv
  searchConfig := fun _ => "german"
  ranked := fun _ _ pages => pages
  ranked_perm := fun _ _ _ => List.Perm.refl _

def holidays : SearchedPage :=
  ⟨⟨⟨12, 1, some 10, [10], false⟩, "Holidays", none⟩, .page, ⟨2026, 3, 1⟩⟩

def officePages : List SearchedPage :=
  [⟨⟨⟨10, 1, none, [], false⟩, "Team", none⟩, .folder, ⟨2026, 1, 1⟩⟩,
    ⟨⟨⟨11, 1, some 10, [10], true⟩, "Salaries", none⟩, .page, ⟨2026, 2, 1⟩⟩, holidays]

theorem nodup_officePages : (officePages.map fun page => page.id).Nodup := by decide

theorem access_officePages :
    CollectionDb.salariesAccess.pages = officePages.map fun page => page.toPageRow := rfl

def officeTags : List PageTag := [⟨12, "budget"⟩]

theorem nodup_officeTags : officeTags.Nodup := nodup_singleton _

theorem tagKey_officeTags :
    ∀ tag ∈ officeTags, PageDocument.tagKey officeEnv.js tag.tagKey = tag.tagKey := by
  decide +kernel

/-- One of the pages is tagged, and has a task that a client assigned to a name. -/
def office : SearchDb officeEnv where
  access := CollectionDb.salariesAccess
  pages := ⟨officePages, nodup_officePages⟩
  pages_access := access_officePages
  index := fun id => if id ∈ [10, 11, 12] then some ⟨1, [], ["Ada"]⟩ else none
  index_workspace := by
    intro page hpage row hrow
    simp only [officePages, mem_cons, not_mem_nil, or_false] at hpage
    rcases hpage with rfl | rfl | rfl
    all_goals
      obtain rfl := some.inj hrow
      rfl
  tags := officeTags
  tags_nodup := nodup_officeTags
  tags_key := tagKey_officeTags
  blocks := [⟨12, "todo", .object [("assignee", .string "ada")]⟩]

def officeClaims : AccessClaims where
  principal := .user 7 "Ada"
  workspaceId := 1
  workspaceRole := some .member
  pageLevel := some .viewer
  grants := []
  caps := []

theorem claimsFor_office :
    claimsFor officeEnv.toEnv office.access.toTables (some "token") 1 = .ok (.ok officeClaims) := by
  decide +kernel

def typed (q : String) : SearchRequest := ⟨some "token", 1, q, none⟩

theorem ask_office {q : String} {filters : SearchFilters}
    (h : parseSearchQuery .ascii (JsString.trim q) = filters) :
    SearchDb.ask officeEnv officeClaims (typed q) = ⟨officeClaims, 1, filters⟩ :=
  congrArg (Asked.mk officeClaims 1) h

theorem effectiveRole_holidays :
    effectiveRole officeClaims (holidays.toPageRow.location office.access.toTables) ≠ none := by
  decide +kernel

theorem meetsRest_holidays {filters : SearchFilters} (htext : filters.text = "")
    (htags : ∀ tag ∈ filters.tags, PageDocument.tagKey .ascii tag = "budget")
    (hassigned : filters.assigned = []) (hafter : filters.after = none)
    (hbefore : filters.before = none) (hwithin : filters.within = []) :
    office.MeetsRest ⟨officeClaims, 1, filters⟩ holidays where
  live := rfl
  workspace := rfl
  visible := effectiveRole_holidays
  words := by
    rw [htext]
    exact fun h => absurd h (by decide +kernel)
  tags := fun tag htag => by
    rw [show PageDocument.tagKey officeEnv.js tag = "budget" from htags tag htag]
    exact mem_singleton.mpr rfl
  assigned := fun h => absurd hassigned h
  after := by
    rw [hafter]
    exact nofun
  before := by
    rw [hbefore]
    exact nofun
  within := fun h => absurd hwithin h

/-- A query for a tag and an author, which is answered as it is meant. -/
theorem searchesAsMeant_iff_office :
    office.SearchesAsMeant officeClaims (typed "tag:budget author:ad") := by
  have hcriteria : hasSearchCriteria (SearchDb.ask officeEnv officeClaims
      (typed "tag:budget author:ad")).filters = true := by decide +kernel
  have hask : SearchDb.ask officeEnv officeClaims (typed "tag:budget author:ad") =
      ⟨officeClaims, 1, { tags := ["budget"], authors := ["ad"] }⟩ := ask_office (by decide +kernel)
  have honce : SearchFilters.NamesTagsOnce officeEnv.js
      { tags := ["budget"], authors := ["ad"] } := by
    refine ⟨by decide, fun tag htag => ?_⟩
    obtain rfl := mem_singleton.mp htag
    decide +kernel
  refine (SearchDb.searchesAsMeant_iff officeEnv office officeClaims (typed "tag:budget author:ad")
    claimsFor_office hcriteria).mpr ?_
  constructor
  · rw [hask]
    decide +kernel
  · rw [hask]
    exact nofun
  · intro config _ hnone
    rw [hask] at hnone
    exact absurd hnone nofun
  · decide +kernel
  · rw [hask]
    exact fun hsome => absurd rfl hsome
  · intro page hpage _ hnone
    have hindexed : ∀ page ∈ office.pages.rows, (office.index page.id).isSome = true := by
      decide +kernel
    have hsome := hindexed page hpage
    rw [hnone] at hsome
    cases hsome
  · rw [hask]
    exact fun _ _ _ => honce
  · rw [hask]
    refine fun _ page _ _ => SearchDb.fitsAuthor_iff_of_plain fun wanted hwanted c hc => ?_
    obtain rfl := mem_singleton.mp hwanted
    have hplain : (String.toList "ad").all (fun c => !Wildcard.isLikeSpecial c) = true := by
      decide +kernel
    simpa using List.all_eq_true.mp hplain c hc

/-- **Four queries that go wrong**: a tag in two spellings finds nothing, a text that is a pattern
finds who does not start with it, a name in a task lets the search for one's own tasks fail, and so
does a phrase that is left out. -/
theorem not_searchesAsMeant_office :
    claimsFor officeEnv.toEnv office.access.toTables (some "token") 1 = .ok (.ok officeClaims) ∧
      ∀ q ∈ ["tag:budget tag:Budget", "author:_da", "assigned:me", "-\"a b\""],
        hasSearchCriteria (SearchDb.ask officeEnv officeClaims (typed q)).filters = true ∧
          ¬ office.SearchesAsMeant officeClaims (typed q) := by
  have hpage : holidays ∈ office.pages.rows := by decide
  refine ⟨claimsFor_office, fun q hq => ?_⟩
  simp only [mem_cons, not_mem_nil, or_false] at hq
  rcases hq with rfl | rfl | rfl | rfl
  · refine ⟨by decide +kernel, fun h => ?_⟩
    have hask : SearchDb.ask officeEnv officeClaims (typed "tag:budget tag:Budget") =
        ⟨officeClaims, 1, { tags := ["budget", "budget"] }⟩ := ask_office (by decide +kernel)
    have heligible := h.eligible
    rw [hask] at heligible
    obtain ⟨-, htags, -⟩ := (SearchDb.eligible_iff_isMeant claimsFor_office).mp heligible
    have honce := htags holidays hpage
      ⟨meetsRest_holidays rfl (by decide +kernel) rfl rfl rfl rfl, fun hsome => absurd rfl hsome⟩
    exact absurd honce.1 (by decide)
  · refine ⟨by decide +kernel, fun h => ?_⟩
    have hask : SearchDb.ask officeEnv officeClaims (typed "author:_da") =
        ⟨officeClaims, 1, { authors := ["_da"] }⟩ := ask_office (by decide +kernel)
    have heligible := h.eligible
    rw [hask] at heligible
    obtain ⟨-, -, hauthors⟩ := (SearchDb.eligible_iff_isMeant claimsFor_office).mp heligible
    obtain ⟨row, hrow, name, hname, wanted, hwanted, hstarts⟩ :=
      (hauthors ⟨nodup_nil, nofun⟩ holidays hpage
        (meetsRest_holidays rfl nofun rfl rfl rfl rfl)).mp
        (fun _ => ⟨_, rfl, "Ada", by decide, "_da", by decide, by decide +kernel⟩) nofun
    obtain rfl := some.inj hrow
    obtain rfl := mem_singleton.mp hname
    obtain rfl := mem_singleton.mp hwanted
    exact absurd hstarts (by decide +kernel)
  · have hcriteria : hasSearchCriteria (SearchDb.ask officeEnv officeClaims
        (typed "assigned:me")).filters = true := by decide +kernel
    refine ⟨hcriteria, fun h => ?_⟩
    obtain ⟨-, -, -, -, hassignees⟩ :=
      (SearchDb.answers_iff claimsFor_office hcriteria).mp h.answers
    have hreads := hassignees (by decide +kernel) _ mem_cons_self rfl
    exact absurd hreads (by decide +kernel)
  · have hcriteria : hasSearchCriteria (SearchDb.ask officeEnv officeClaims
        (typed "-\"a b\"")).filters = true := by decide +kernel
    refine ⟨hcriteria, fun h => ?_⟩
    obtain ⟨-, -, hwords, -⟩ := (SearchDb.answers_iff claimsFor_office hcriteria).mp h.answers
    have hnone : (officeEnv.prefixQuery "german" (SearchDb.ask officeEnv officeClaims
        (typed "-\"a b\"")).filters.text).isNone = true := by decide +kernel
    exact hwords "german" mem_cons_self (isNone_iff_eq_none.mp hnone)

end Sone
