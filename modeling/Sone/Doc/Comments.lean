import Sone.Doc.Text

/-!
# The threads of a document

`doc/comments.ts`: a thread is a map, its messages a list of maps in it. `readThread` takes of
each what has the right type and a default for the rest, so that whatever is stored reads as
some thread. The one step that can fail is to decode where the thread points: an anchor is
bytes, and `decodeRelativePosition` throws on bytes it did not write.
-/

namespace Sone

/-! ### `THREAD_KEYS` and `MESSAGE_KEYS` -/

namespace ThreadKeys

/-- A canvas item, when the thread is about one. -/
def item : String := "item"
/-- A place in a PDF, when the thread is about one. -/
def place : String := "place"
/-- Where the commented range starts, encoded. -/
def «from» : String := "from"
def «to» : String := "to"
def quote : String := "quote"
def resolved : String := "resolved"
def resolvedBy : String := "resolvedBy"
def resolvedAt : String := "resolvedAt"
def messages : String := "messages"
def createdAt : String := "createdAt"

end ThreadKeys

namespace MessageKeys

def id : String := "id"
def author : String := "author"
def at' : String := "at"
def mentions : String := "mentions"
def via : String := "via"
def trimmed : String := "trimmed"
def attachments : String := "attachments"
def text : String := "text"

end MessageKeys

/-! ### What is stored -/

inductive MessageEntry where
  | map (message : YMap SharedValue)
  | value (v : SharedValue)

inductive ThreadValue where
  /-- A `Uint8Array`. -/
  | bytes (encoded : List UInt8)
  /-- A `Y.Array`. -/
  | list (messages : List MessageEntry)
  | value (v : SharedValue)

/-- A value of the map of threads. -/
inductive CommentEntry where
  | thread (entry : YMap ThreadValue)
  | value (v : SharedValue)

/-! ### What is read -/

structure CommentMessage where
  id : String
  author : String
  at' : ℚ
  text : String
  mentions : List String
  /-- `via: 'email'` -/
  viaEmail : Bool
  trimmed : Bool
  hadAttachments : Bool
  deriving DecidableEq

structure PdfPlace where
  file : String
  page : ℚ
  rects : List (List ℚ)
  deriving DecidableEq

structure CommentThread where
  id : String
  «from» : List UInt8
  «to» : List UInt8
  item : Option String
  place : Option PdfPlace
  quote : String
  resolved : Bool
  resolvedBy : Option String
  resolvedAt : Option JsNumber
  createdAt : ℚ
  messages : List CommentMessage
  /-- Where it points, unless the text is gone. -/
  range : Option (ℕ × ℕ)
  deriving DecidableEq

namespace Comments

def asString (value : Option JsValue) : String := (value.bind JsValue.string?).getD ""

def asNumber (value : Option JsValue) : ℚ := (value.bind JsValue.finite?).getD 0

def plainAt (message : YMap SharedValue) (key : String) : Option JsValue :=
  (message.get key).bind SharedValue.plain?

/-- The text of a message, from a `Y.Text` or a string. -/
def messageText (message : YMap SharedValue) : String :=
  match (message.get MessageKeys.text).bind SharedValue.text? with
  | some text => text.toString
  | none => asString (plainAt message MessageKeys.text)

def readMessage (message : YMap SharedValue) : CommentMessage where
  id := asString (plainAt message MessageKeys.id)
  author := asString (plainAt message MessageKeys.author)
  at' := asNumber (plainAt message MessageKeys.at')
  text := messageText message
  mentions := (((plainAt message MessageKeys.mentions).bind JsValue.array?).getD []).filterMap
    JsValue.string?
  viaEmail := asString (plainAt message MessageKeys.via) = "email"
  trimmed := (plainAt message MessageKeys.trimmed).any JsValue.isTrue
  hadAttachments := (plainAt message MessageKeys.attachments).any JsValue.isTrue

/-- The messages of a thread: what is not a map is passed over. -/
def readMessages : Option ThreadValue → List CommentMessage
  | some (.list messages) => messages.filterMap fun
    | .map message => some (readMessage message)
    | .value _ => none
  | _ => []

/-- `MAX_PLACE_RECTS` -/
def maxPlaceRects : ℕ := 32

/-- `MAX_POINT` -/
def maxPoint : ℚ := 20000

def readRect (rect : JsValue) : Option (List ℚ) :=
  match (rect.array?.getD []).map JsValue.finite? with
  | [some x, some y, some width, some height] =>
    if 0 < width ∧ 0 < height ∧ ∀ one ∈ [x, y, x + width, y + height],
        -maxPoint ≤ one ∧ one ≤ maxPoint then
      some [x, y, width, height]
    else none
  | _ => none

/-- `isPlace`, and the place. -/
def readPlace (value : JsValue) : Option PdfPlace := do
  let file ← (value.get "file").string?
  let page ← (value.get "page").finite?
  let rects ← (value.get "rects").array?
  if file = "" ∨ 200 < JsString.length file then none
  else if page.den ≠ 1 ∨ page < 1 ∨ 100000 < page then none
  else if rects = [] ∨ maxPlaceRects < rects.length then none
  else (rects.mapM readRect).map fun rects => ⟨file, page, rects⟩

def threadPlainAt (entry : YMap ThreadValue) (key : String) : Option JsValue :=
  match entry.get key with
  | some (.value v) => v.plain?
  | _ => none

def bytesAt (entry : YMap ThreadValue) (key : String) : List UInt8 :=
  match entry.get key with
  | some (.bytes encoded) => encoded
  | _ => []

/-- The value under `place`, as it is checked. -/
def placeAt (entry : YMap ThreadValue) : Option JsValue :=
  match entry.get ThreadKeys.place with
  | some (.value (.plain value)) => some value
  | some (.value (.shared content)) => some content
  | _ => none

/-- `resolve`: where the bytes point, if anywhere. It throws where they do not decode. -/
def resolve (position : List UInt8 → Option (Option ℕ)) (encoded : List UInt8) :
    Option (Option ℕ) :=
  if encoded = [] then some none else position encoded

/-- The range between two ends, which have to be in different places. -/
def rangeOf (start stop : Option ℕ) : Option (ℕ × ℕ) :=
  match start, stop with
  | some start, some stop => if start = stop then none else some (min start stop, max start stop)
  | _, _ => none

def readThread (position : List UInt8 → Option (Option ℕ)) (id : String)
    (entry : YMap ThreadValue) : Option CommentThread := do
  let start ← resolve position (bytesAt entry ThreadKeys.«from»)
  let stop ← resolve position (bytesAt entry ThreadKeys.«to»)
  return {
    id := id
    «from» := bytesAt entry ThreadKeys.«from»
    «to» := bytesAt entry ThreadKeys.to
    item := ((threadPlainAt entry ThreadKeys.item).bind JsValue.string?).filter (· ≠ "")
    place := (placeAt entry).bind readPlace
    quote := asString (threadPlainAt entry ThreadKeys.quote)
    resolved := (threadPlainAt entry ThreadKeys.resolved).any JsValue.isTrue
    resolvedBy := (threadPlainAt entry ThreadKeys.resolvedBy).bind JsValue.string?
    resolvedAt := (threadPlainAt entry ThreadKeys.resolvedAt).bind JsValue.number?
    createdAt := asNumber (threadPlainAt entry ThreadKeys.createdAt)
    messages := readMessages (entry.get ThreadKeys.messages)
    range := rangeOf start stop }

/-- The order of the threads: the oldest first. -/
def threadLe (js : Js) (a b : CommentThread) : Bool :=
  if a.createdAt = b.createdAt then js.localeLe a.id b.id else a.createdAt < b.createdAt

def readThreads (js : Js) (position : List UInt8 → Option (Option ℕ))
    (threads : YMap CommentEntry) : Option (List CommentThread) :=
  ((threads.rows.filterMap fun row => match row.2 with
    | .thread entry => some (row.1, entry)
    | .value _ => none).mapM fun row => readThread position row.1 row.2).map
      fun threads => threads.mergeSort (threadLe js)

variable {js : Js} {position : List UInt8 → Option (Option ℕ)} {id : String}
  {entry : YMap ThreadValue} {threads : YMap CommentEntry}

/-- The anchors of a thread **decode**. -/
def Decodes (position : List UInt8 → Option (Option ℕ)) (entry : YMap ThreadValue) : Prop :=
  ∀ key ∈ [ThreadKeys.«from», ThreadKeys.«to»],
    bytesAt entry key ≠ [] → position (bytesAt entry key) ≠ none

theorem resolve_ne_none_iff {encoded : List UInt8} :
    resolve position encoded ≠ none ↔ (encoded ≠ [] → position encoded ≠ none) := by
  rw [resolve]
  split <;> simp_all

theorem readThread_isSome_iff :
    (readThread position id entry).isSome = true ↔ Decodes position entry := by
  simp only [Decodes, List.mem_cons, List.not_mem_nil, or_false, forall_eq_or_imp, forall_eq,
    ← resolve_ne_none_iff, readThread]
  cases resolve position (bytesAt entry ThreadKeys.«from») with
  | none => simp
  | some start => cases resolve position (bytesAt entry ThreadKeys.«to») <;> simp

theorem readThreads_isSome_iff : (readThreads js position threads).isSome = true ↔
    ∀ id entry, (id, CommentEntry.thread entry) ∈ threads.rows → Decodes position entry := by
  rw [readThreads, Option.isSome_map, mapM_isSome_iff]
  simp only [readThread_isSome_iff, List.mem_filterMap]
  constructor
  · exact fun h id entry hmem => h (id, entry) ⟨(id, .thread entry), hmem, rfl⟩
  · rintro h ⟨id, entry⟩ ⟨⟨id', value⟩, hmem, hsome⟩
    cases value with
    | value v => simp at hsome
    | thread entry' =>
      obtain ⟨rfl, rfl⟩ := Prod.mk.inj (Option.some.inj hsome)
      exact h _ _ hmem

end Comments

end Sone
