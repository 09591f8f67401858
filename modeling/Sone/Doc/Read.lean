import Sone.Doc.BlockTree
import Sone.Doc.Comments
import Sone.Doc.Restore
import Sone.Pages.Table

/-!
# Reading a document

`readDocument` (`materialize/readDocument.ts`) reads a page's document into plain data: what the
page is, its blocks, its threads, who and what is named in it, its properties and its
collections. What has the wrong type is passed over or read as a default. The result keeps one
fact about the blocks that the tables rely on: the parent of a block is one of them.

`readDocument_isSome_iff`: it fails only on an anchor of a thread that does not decode.
-/

namespace Sone

/-! ### The document -/

/-- A shared value that may be a map of such values. -/
inductive SharedTree where
  /-- A `Y.Map`. -/
  | map (entries : List (String × SharedTree))
  | value (v : SharedValue)

/-- **A page's document**, with all its roots, and what is known of the items it is made of. -/
structure PageDocument extends PageDoc (YMap CommentEntry) where
  docMeta : YMap SharedValue := YMap.empty
  properties : YMap SharedValue := YMap.empty
  /-- Absent where nothing ever asked for the root. -/
  collection : Option (List (String × SharedTree)) := none
  /-- The clients of each person, where the attribution has a list of them. -/
  users : YMap (List JsValue) := YMap.empty
  /-- `liveClientIds`: whose content is still there. -/
  liveClients : List JsNumber := []
  /-- The client that inserted the node at a path of the fragment. -/
  client : List ℕ → Option JsNumber := fun _ => none
  /-- Where an encoded position points, if anywhere; nothing where it does not decode. -/
  position : List UInt8 → Option (Option ℕ) := fun _ => none

/-! ### What is read -/

structure ReadBlock where
  id : String
  type : String
  parentId : Option String
  idx : String
  props : JsValue
  plainText : String

/-- `ReadPage`, with all its keys. -/
structure ReadPageMeta where
  kind : EntryKind
  tags : List String
  title : String
  icon : Option JsValue
  cover : Option JsValue
  width : Option String
  template : Bool
  locked : Bool
  parentPageId : Option String
  collectionId : Option String
  idx : String
  archivedAt : Option String

structure ReadField where
  id : String
  name : String
  description : Option String
  fieldType : String
  config : JsValue
  idx : String
  schemaVersion : ℚ

structure ReadView where
  id : String
  name : String
  viewType : String
  idx : String
  definition : JsValue
  schemaVersion : ℚ

structure ReadCollection where
  titleFieldId : String
  fields : List ReadField
  views : List ReadView

structure ReadThread where
  id : String
  quote : String
  resolved : Bool
  detached : Bool
  messages : ℕ
  openedBy : Option String
  createdAt : ℚ
  lastMessageAt : ℚ
  text : String

structure ReadMention where
  userId : String
  blockId : String
  writtenBy : Option String

structure ReadDocument where
  schemaVersion : ℚ
  page : ReadPageMeta
  blocks : List ReadBlock
  canvasText : String
  comments : List ReadThread
  commentThreads : List CommentThread
  mentions : List ReadMention
  links : List BlockTree.FoundLink
  authorKeys : List String
  properties : YMap JsValue
  collections : YMap ReadCollection
  /-- The parent of a block is one of the blocks. -/
  blocks_parent : ∀ b ∈ blocks, ∀ q ∈ b.parentId, q ∈ blocks.map ReadBlock.id
  /-- The rows of the threads are those of the threads. -/
  comments_threads : comments.map ReadThread.id = commentThreads.map CommentThread.id

/-! ### Plain values -/

/-- `value.toJSON()`, or the plain value. -/
def SharedValue.toJson : SharedValue → JsValue
  | .plain value => value
  | .text t => .string t.toString
  | .array items => .array items
  | .shared content => content

mutual

/-- `value.toJSON()` -/
def SharedTree.toJson : SharedTree → JsValue
  | .map entries => .object (SharedTree.entriesToJson entries)
  | .value v => v.toJson

/-- The entries of `map.toJSON()`. -/
def SharedTree.entriesToJson : List (String × SharedTree) → List (String × JsValue)
  | [] => []
  | (key, tree) :: rest => (key, tree.toJson) :: SharedTree.entriesToJson rest

end

namespace SharedTree

/-- `map.get(key)` -/
def get (entries : List (String × SharedTree)) (key : String) : Option SharedTree :=
  (entries.find? fun entry => entry.1 = key).map (·.2)

/-- The entries of a value that is a `Y.Map`. -/
def map? : SharedTree → Option (List (String × SharedTree))
  | .map entries => some entries
  | .value _ => none

def plainAt (entries : List (String × SharedTree)) (key : String) : Option JsValue :=
  match get entries key with
  | some (.value v) => v.plain?
  | _ => none

end SharedTree

namespace PageDocument

def asString (value : Option JsValue) : Option String := value.bind JsValue.string?

def asNumber (value : Option JsValue) (fallback : ℚ) : ℚ :=
  (value.bind JsValue.finite?).getD fallback

/-- `asRecord`: a shared type that is not a map is taken as it is, and written as it reads. -/
def asRecord : Option SharedTree → JsValue
  | some (.map entries) => (SharedTree.map entries).toJson
  | some (.value (.plain (.object fields))) => .object fields
  | some (.value (.plain _)) | none => .object []
  | some (.value v) => v.toJson

/-- `ENTRY_KINDS.includes(kind)`, and the kind. -/
def kindOf : String → Option EntryKind
  | "page" => some .page
  | "folder" => some .folder
  | "row" => some .row
  | "container" => some .container
  | "canvas" => some .canvas
  | _ => none

/-! ### The page -/

/-- `MAX_TAG_LENGTH` -/
def maxTagLength : ℕ := 64

/-- `MAX_TAGS_PER_PAGE` -/
def maxTagsPerPage : ℕ := 32

def tagKey (js : Js) (raw : String) : String :=
  js.lowerCase (JsString.collapseSpaces (JsString.trim raw))

def isValidTag (js : Js) (raw : String) : Bool :=
  0 < JsString.length (tagKey js raw) && JsString.length (tagKey js raw) ≤ maxTagLength

/-- The loop of `normaliseTags`, with the keys seen. -/
def normaliseTagsFrom (js : Js) (seen : List String) : List JsValue → List String
  | [] => []
  | value :: rest =>
    match value with
    | .string s =>
      let display := JsString.collapseSpaces (JsString.trim s)
      if !isValidTag js display ∨ tagKey js display ∈ seen then normaliseTagsFrom js seen rest
      else if maxTagsPerPage ≤ seen.length + 1 then [display]
      else display :: normaliseTagsFrom js (tagKey js display :: seen) rest
    | _ => normaliseTagsFrom js seen rest

def readTags (js : Js) : Option SharedValue → List String
  | some (.array items) | some (.plain (.array items)) => normaliseTagsFrom js [] items
  | _ => []

/-- `FILE_URL` -/
def isFileUrl (url : String) : Bool :=
  match (String.toList "/api/files/").isPrefixOf? url.toList with
  | some rest => takeUuid rest = some []
  | none => false

/-- `THEME_COLORS` -/
def themeColors : List String :=
  ["grey", "red", "orange", "yellow", "green", "blue", "purple", "pink"]

def readChosenColor (js : Js) : JsValue → Option String
  | .string s =>
    if s ∈ themeColors then some s
    else match s.toList with
      | '#' :: cs => if takeHex 6 cs = some [] then some (js.lowerCase s) else none
      | _ => none
  | _ => none

def coverShape (raw : JsValue) : List (String × JsValue) :=
  (match raw.get "width" with
    | .string "full" => [("width", .string "full")]
    | .string "bleed" => [("width", .string "bleed")]
    | _ => []) ++
  match raw.get "height" with
  | .string "slim" => [("height", .string "slim")]
  | .string "tall" => [("height", .string "tall")]
  | _ => []

def readEntryCover (js : Js) (value : Option JsValue) : Option JsValue := do
  let raw ← value.filter JsValue.isObject
  match raw.get "kind" with
  | .string "image" =>
    let url ← (raw.get "url").string?.filter isFileUrl
    return .object ([("kind", .string "image"), ("url", .string url)] ++ coverShape raw)
  | .string "color" =>
    let color ← readChosenColor js (raw.get "color")
    return .object ([("kind", .string "color"), ("color", .string color)] ++ coverShape raw)
  | .string "gradient" =>
    let start ← readChosenColor js (raw.get "from")
    let stop ← readChosenColor js (raw.get "to")
    return .object ([("kind", .string "gradient"), ("from", .string start),
      ("to", .string stop)] ++ coverShape raw)
  | _ => none

variable (js : Js) (doc : PageDocument)

def pageAt (key : String) : Option JsValue := (doc.page.get key).bind SharedValue.plain?

def readPageMeta : ReadPageMeta where
  kind := ((asString (doc.pageAt PageKeys.kind)).bind kindOf).getD .page
  tags := readTags js (doc.page.get PageKeys.tags)
  title := normaliseText ((asString (doc.pageAt PageKeys.title)).getD "")
  icon := ((doc.page.get PageKeys.icon).map SharedValue.toJson).filter fun v => !v.isNullish
  cover := readEntryCover js (doc.pageAt PageKeys.cover)
  template := (doc.pageAt PageKeys.template).any JsValue.isTrue
  locked := (doc.pageAt PageKeys.locked).any JsValue.isTrue
  width := (asString (doc.pageAt PageKeys.width)).filter (· ∈ ["column", "full"])
  parentPageId := asString (doc.pageAt PageKeys.parentPageId)
  collectionId := asString (doc.pageAt PageKeys.collectionId)
  idx := (asString (doc.pageAt PageKeys.idx)).getD "a0"
  archivedAt := asString (doc.pageAt PageKeys.archivedAt)

/-! ### Blocks, properties and collections -/

/-- `String(n).padStart(6, '0')` -/
def padded (n : ℕ) : String :=
  String.ofList (List.replicate (6 - (toString n).length) '0' ++ (toString n).toList)

def readBlocks : List ReadBlock :=
  (BlockTree.readBlockTree js doc.content).zipIdx.map fun (block, position) =>
    { id := block.id
      type := block.type
      parentId := block.parentId
      idx := padded position
      props := block.props
      plainText := normaliseText
        (JsString.join " " [block.text, propsToText block.type block.props]) }

def readProperty (_fieldId : String) (raw : SharedValue) : Option JsValue :=
  match raw with
  | .plain value | .shared value =>
    if value.isObject ∧ (value.get "kind").string?.isSome then some value else none
  | .text _ | .array _ => none

def readProperties : YMap JsValue := YMap.empty.assign doc.properties.rows readProperty

/-- The order of fields and of views. -/
def siblingLe (a b : String × String) : Bool :=
  if a.1 = b.1 then JsString.le a.2 b.2 else JsString.le a.1 b.1

def readField (id : String) (raw : SharedTree) : Option ReadField := do
  let entries ← raw.map?
  let fieldType ← asString (SharedTree.plainAt entries FieldKeys.fieldType)
  return {
    id
    name := (asString (SharedTree.plainAt entries FieldKeys.name)).getD ""
    description := asString (SharedTree.plainAt entries FieldKeys.description)
    fieldType
    config := asRecord (SharedTree.get entries FieldKeys.config)
    idx := (asString (SharedTree.plainAt entries FieldKeys.idx)).getD "a0"
    schemaVersion := asNumber (SharedTree.plainAt entries FieldKeys.schemaVersion) 1 }

def readView (id : String) (raw : SharedTree) : Option ReadView := do
  let entries ← raw.map?
  let viewType ← asString (SharedTree.plainAt entries ViewKeys.viewType)
  return {
    id
    name := (asString (SharedTree.plainAt entries ViewKeys.name)).getD ""
    viewType
    idx := (asString (SharedTree.plainAt entries ViewKeys.idx)).getD "a0"
    definition := asRecord (SharedTree.get entries ViewKeys.definition)
    schemaVersion := asNumber (SharedTree.plainAt entries ViewKeys.schemaVersion) 1 }

/-- The entries of a value under a key that is a map. -/
def itemsAt (entries : List (String × SharedTree)) (key : String) : List (String × SharedTree) :=
  ((SharedTree.get entries key).bind SharedTree.map?).getD []

def readOneCollection (entries : List (String × SharedTree)) : Option ReadCollection := do
  let titleFieldId ← asString (SharedTree.plainAt entries CollectionKeys.titleFieldId)
  return {
    titleFieldId
    fields := ((itemsAt entries CollectionKeys.fields).filterMap fun entry =>
      readField entry.1 entry.2).mergeSort fun a b => siblingLe (a.idx, a.id) (b.idx, b.id)
    views := ((itemsAt entries CollectionKeys.views).filterMap fun entry =>
      readView entry.1 entry.2).mergeSort fun a b => siblingLe (a.idx, a.id) (b.idx, b.id) }

/-- `readCollections`. A root that has the keys of a collection is one, with the page's id. -/
def readCollections (pageId : String) : YMap ReadCollection :=
  match doc.collection with
  | none => YMap.empty
  | some root =>
    if (SharedTree.get root CollectionKeys.titleFieldId).isSome then
      match readOneCollection root with
      | some single => YMap.empty.set pageId single
      | none => YMap.empty
    else
      YMap.empty.assign root fun _ raw => raw.map?.bind readOneCollection

/-! ### Text, people and threads -/

def readCanvas : List CanvasItem :=
  (doc.canvas.rows.filterMap fun row => match row.2 with
    | .map item => Canvas.readItem row.1 item
    | .value _ => none).mergeSort fun a b =>
      if a.z = b.z then js.localeLe a.id b.id else JsString.le a.z b.z

def canvasText : String :=
  JsString.join "\n" ((((readCanvas js doc).filter fun item =>
    item.kind = .text ∧ item.text.any (· ≠ "")).mergeSort fun a b =>
      if 8 < a.y - b.y ∨ 8 < b.y - a.y then a.y ≤ b.y else a.x ≤ b.x).filterMap (·.text))

/-- `[...writersIn(doc).keys()]` -/
def writers : List String :=
  (doc.users.rows.filter fun row => row.2.any fun entry =>
    entry.number?.any (· ∈ doc.liveClients)).map (·.1)

/-- `authorsByClient(doc).get(client)`: the last to name a client has it. -/
def authorOf (client : JsNumber) : Option String :=
  ((doc.users.rows.filter fun row =>
    row.2.any fun entry => entry.number? = some client).getLast?).map
    (·.1)

def readMentions : List ReadMention :=
  (BlockTree.mentionsIn js doc.content).map fun one =>
    ⟨one.userId, one.blockId, (doc.client one.path).bind doc.authorOf⟩

def readThreadRow (thread : CommentThread) : ReadThread where
  id := thread.id
  quote := thread.quote
  resolved := thread.resolved
  detached := thread.range = none
  messages := thread.messages.length
  openedBy := thread.messages.head?.map (·.author)
  createdAt := thread.createdAt
  lastMessageAt := (thread.messages.getLast?.map (·.at')).getD thread.createdAt
  text := JsString.join "\n" (thread.messages.map (·.text))

variable {js doc}

theorem mem_readBlocks_iff {b : ReadBlock} : b ∈ readBlocks js doc ↔
    ∃ block position, (block, position) ∈ (BlockTree.readBlockTree js doc.content).zipIdx ∧
      ReadBlock.mk block.id block.type block.parentId (padded position) block.props
        (normaliseText (JsString.join " " [block.text, propsToText block.type block.props])) =
          b := by
  simp [readBlocks]

theorem ids_readBlocks :
    (readBlocks js doc).map ReadBlock.id =
      (BlockTree.readBlockTree js doc.content).map TreeBlock.id := by
  rw [readBlocks, List.map_map]
  conv_rhs => rw [← List.zipIdx_map_fst 0 (BlockTree.readBlockTree js doc.content), List.map_map]
  rfl

theorem parentId_mem_readBlocks {b : ReadBlock} (hb : b ∈ readBlocks js doc) {q : String}
    (hq : q ∈ b.parentId) : q ∈ (readBlocks js doc).map ReadBlock.id := by
  obtain ⟨block, position, hmem, rfl⟩ := mem_readBlocks_iff.mp hb
  rw [ids_readBlocks]
  exact BlockTree.parentId_mem_readBlockTree (List.fst_mem_of_mem_zipIdx hmem) hq

end PageDocument

def readDocument (js : Js) (doc : PageDocument) (pageId : String) : Option ReadDocument :=
  (Comments.readThreads js doc.position doc.comments).map fun threads =>
    { schemaVersion := PageDocument.asNumber
        ((doc.docMeta.get MetaKeys.schemaVersion).bind SharedValue.plain?) 1
      page := doc.readPageMeta js
      blocks := doc.readBlocks js
      canvasText := doc.canvasText js
      comments := threads.map PageDocument.readThreadRow
      commentThreads := threads
      mentions := doc.readMentions js
      links := BlockTree.linksIn js doc.content
      authorKeys := doc.writers
      properties := doc.readProperties
      collections := doc.readCollections pageId
      blocks_parent := fun _ hb _ hq => PageDocument.parentId_mem_readBlocks hb hq
      comments_threads := by
        rw [List.map_map]
        rfl }

theorem readDocument_isSome_iff {js : Js} {doc : PageDocument} {pageId : String} :
    (readDocument js doc pageId).isSome = true ↔ ∀ id entry,
      (id, CommentEntry.thread entry) ∈ doc.comments.rows →
        Comments.Decodes doc.position entry := by
  rw [readDocument, Option.isSome_map, Comments.readThreads_isSome_iff]

end Sone
