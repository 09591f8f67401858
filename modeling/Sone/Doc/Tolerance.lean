import Sone.Doc.Read

/-!
# What a malformed thread costs

A document is what clients wrote, and a field that is malformed should degrade that field and
never the page. `IsStored` says that a map holds a thread as the writers of threads store it,
and `readThread_of_isStored` that such a thread is read back as it is. `ReadsWhole`: a document
is read, with every thread that is stored so, every block and every property.

One thing a client can write takes all of it down. The anchor of a thread is bytes, and where
these do not decode the read of the whole document throws: `readsWhole_iff`.
-/

namespace Sone

open List Option

/-! ### Threads as they are stored -/

namespace Comments

def IsFlag (stored : Option SharedValue) (value : JsValue) (b : Bool) : Prop :=
  stored = if b then some (.plain value) else none

/-- **A message as it is stored.** -/
structure IsStoredMessage (entry : YMap SharedValue) (message : CommentMessage) : Prop where
  id : entry.get MessageKeys.id = some (.plain (.string message.id))
  author : entry.get MessageKeys.author = some (.plain (.string message.author))
  at' : entry.get MessageKeys.at' = some (.plain (.number (.finite message.at')))
  /-- A `Y.Text`, or a string. -/
  text : (∃ t : YText, entry.get MessageKeys.text = some (.text t) ∧ t.toString = message.text) ∨
    entry.get MessageKeys.text = some (.plain (.string message.text))
  /-- Absent where nobody is addressed. -/
  mentions : entry.get MessageKeys.mentions =
    if message.mentions = [] then none
    else some (.plain (.array (message.mentions.map JsValue.string)))
  viaEmail : IsFlag (entry.get MessageKeys.via) (.string "email") message.viaEmail
  trimmed : IsFlag (entry.get MessageKeys.trimmed) (.boolean true) message.trimmed
  attachments : IsFlag (entry.get MessageKeys.attachments) (.boolean true) message.hadAttachments

/-- **A thread as it is stored**, under its id. -/
structure IsStored (position : List UInt8 → Option (Option ℕ)) (id : String)
    (entry : YMap ThreadValue) (thread : CommentThread) : Prop where
  id : thread.id = id
  «from» : entry.get ThreadKeys.«from» = some (.bytes thread.«from»)
  «to» : entry.get ThreadKeys.to = some (.bytes thread.to)
  /-- Absent for a thread about text. -/
  item : entry.get ThreadKeys.item =
    thread.item.map fun item => .value (.plain (.string item))
  item_ne : thread.item ≠ some ""
  place : match thread.place with
    | none => entry.get ThreadKeys.place = none
    | some place => ∃ value, entry.get ThreadKeys.place = some (.value (.plain value)) ∧
        readPlace value = some place
  quote : entry.get ThreadKeys.quote = some (.value (.plain (.string thread.quote)))
  resolved : entry.get ThreadKeys.resolved = some (.value (.plain (.boolean thread.resolved)))
  resolvedBy : entry.get ThreadKeys.resolvedBy =
    thread.resolvedBy.map fun who => .value (.plain (.string who))
  resolvedAt : entry.get ThreadKeys.resolvedAt =
    thread.resolvedAt.map fun time => .value (.plain (.number time))
  createdAt : entry.get ThreadKeys.createdAt =
    some (.value (.plain (.number (.finite thread.createdAt))))
  messages : ∃ entries : List (YMap SharedValue),
    entry.get ThreadKeys.messages = some (.list (entries.map .map)) ∧
      List.Forall₂ IsStoredMessage entries thread.messages
  /-- Both ends decode, and the range is between them. -/
  range : ∃ start stop, resolve position thread.«from» = some start ∧
    resolve position thread.to = some stop ∧ thread.range = rangeOf start stop

variable {js : Js} {position : List UInt8 → Option (Option ℕ)} {id : String}
  {entry : YMap ThreadValue} {thread : CommentThread}

theorem filterMap_string (values : List String) :
    (values.map JsValue.string).filterMap JsValue.string? = values := by
  rw [filterMap_map, show JsValue.string? ∘ JsValue.string = some from rfl]
  exact filterMap_some

theorem readMessage_of_isStoredMessage {stored : YMap SharedValue} {message : CommentMessage}
    (h : IsStoredMessage stored message) : readMessage stored = message := by
  obtain ⟨id, author, time, text, mentions, viaEmail, trimmed, hadAttachments⟩ := message
  have htext : messageText stored = text := by
    rcases h.text with ⟨t, hget, rfl⟩ | hget
    · simp [messageText, hget, SharedValue.text?]
    · simp [messageText, hget, SharedValue.text?, plainAt, SharedValue.plain?, asString,
        JsValue.string?]
  have hmentions : (((plainAt stored MessageKeys.mentions).bind JsValue.array?).getD []).filterMap
      JsValue.string? = mentions := by
    rw [plainAt, h.mentions]
    by_cases hnone : mentions = []
    · simp [hnone]
    · rw [if_neg hnone]
      exact filterMap_string mentions
  have hvia : decide (asString (plainAt stored MessageKeys.via) = "email") = viaEmail := by
    rw [plainAt, h.viaEmail]
    cases viaEmail <;> simp [SharedValue.plain?, asString, JsValue.string?]
  have hflag : ∀ {key b}, IsFlag (stored.get key) (.boolean true) b →
      (plainAt stored key).any JsValue.isTrue = b := by
    intro key b hkey
    rw [plainAt, hkey]
    cases b <;> simp [SharedValue.plain?, JsValue.isTrue]
  rw [readMessage, htext, hmentions, hvia, hflag h.trimmed, hflag h.attachments]
  simp [plainAt, h.id, h.author, h.at', SharedValue.plain?, asString, JsValue.string?, asNumber,
    JsValue.finite?]

theorem readMessages_of_forall₂ {entries : List (YMap SharedValue)}
    {messages : List CommentMessage} (h : List.Forall₂ IsStoredMessage entries messages) :
    readMessages (some (.list (entries.map .map))) = messages := by
  induction h with
  | nil => rfl
  | cons hfirst _ ih =>
    rw [readMessages] at ih ⊢
    rw [map_cons, filterMap_cons, ih]
    exact congrArg (· :: _) (readMessage_of_isStoredMessage hfirst)

/-- **A thread that is stored is read back as it is.** -/
theorem readThread_of_isStored (h : IsStored position id entry thread) :
    readThread position id entry = some thread := by
  obtain ⟨threadId, start, stop, item, place, quote, resolved, resolvedBy, resolvedAt, createdAt,
    messages, range⟩ := thread
  obtain ⟨first, last, hfirst, hlast, hrange⟩ := h.range
  obtain ⟨entries, hentries, hmessages⟩ := h.messages
  have hfrom : bytesAt entry ThreadKeys.«from» = start := by rw [bytesAt, h.from]
  have hto : bytesAt entry ThreadKeys.to = stop := by rw [bytesAt, h.to]
  have hitem : ((threadPlainAt entry ThreadKeys.item).bind JsValue.string?).filter (· ≠ "") =
      item := by
    rw [threadPlainAt, h.item]
    cases item with
    | none => rfl
    | some s =>
      have hne : s ≠ "" := fun hs => h.item_ne (by rw [hs])
      simp [SharedValue.plain?, JsValue.string?, filter_some, hne]
  have hplace : (placeAt entry).bind readPlace = place := by
    have hstored := h.place
    cases place with
    | none =>
      rw [placeAt, show entry.get ThreadKeys.place = none from hstored]
      rfl
    | some p =>
      obtain ⟨value, hget, hread⟩ := hstored
      rw [placeAt, hget]
      exact hread
  have hby : (threadPlainAt entry ThreadKeys.resolvedBy).bind JsValue.string? = resolvedBy := by
    rw [threadPlainAt, h.resolvedBy]
    cases resolvedBy <;> rfl
  have htime : (threadPlainAt entry ThreadKeys.resolvedAt).bind JsValue.number? = resolvedAt := by
    rw [threadPlainAt, h.resolvedAt]
    cases resolvedAt <;> rfl
  have hresolved : (threadPlainAt entry ThreadKeys.resolved).any JsValue.isTrue = resolved := by
    rw [threadPlainAt, h.resolved]
    cases resolved <;> rfl
  have hid : threadId = id := h.id
  rw [readThread, hfrom, hto, hfirst, hlast, bind_eq_bind, bind_some,
    bind_some, hitem, hplace, hby, htime, hresolved, hentries,
    readMessages_of_forall₂ hmessages, threadPlainAt, h.quote, threadPlainAt, h.createdAt, hid,
    show range = rangeOf first last from hrange]
  rfl

theorem mem_readThreads {threads : YMap CommentEntry} {found : List CommentThread}
    (h : readThreads js position threads = some found)
    (hmem : (id, CommentEntry.thread entry) ∈ threads.rows)
    (hread : readThread position id entry = some thread) : thread ∈ found := by
  obtain ⟨unsorted, hunsorted, rfl⟩ := map_eq_some_iff.mp h
  rw [mem_mergeSort]
  exact mem_of_mapM (a := (id, entry)) hunsorted (mem_filterMap.mpr ⟨_, hmem, rfl⟩) hread

end Comments

/-! ### The rest of the document -/

namespace BlockTree

variable {js : Js} {parentId : Option String} {baseDepth : ℕ} {stack : Stack}

/-- **An element with an id is a block**, among the elements of its container. -/
theorem exists_block_of_element {nodeName id : String} {attributes : YMap JsValue}
    {children nodes : List XmlNode} (hmem : XmlNode.element nodeName attributes children ∈ nodes)
    (hid : attributes.get BlockAttrs.id = some (.string id)) (hne : id ≠ "") :
    ∃ b ∈ visitNodes js parentId baseDepth stack nodes, b.id = id ∧ b.type = nodeName := by
  induction nodes generalizing stack with
  | nil => simp at hmem
  | cons node nodes ih =>
    rw [visitNodes]
    rcases mem_cons.mp hmem with rfl | hmem
    · have hblock : blockId js attributes = some id := by
        simp [blockId, hid, filter_some, JsValue.truthy, hne]
      rw [visitNode, hblock]
      exact ⟨_, mem_append_left _ mem_cons_self, rfl, rfl⟩
    · obtain ⟨b, hb, hfound⟩ := ih hmem
      exact ⟨b, mem_append_right _ hb, hfound⟩

end BlockTree

namespace PageDocument

variable {js : Js} {doc : PageDocument} {pageId : String}

def withoutComments (doc : PageDocument) : PageDocument := { doc with comments := YMap.empty }

/-- **All that is well formed was read.** -/
structure IsWhole (js : Js) (doc : PageDocument) (pageId : String) (parsed : ReadDocument) :
    Prop where
  threads : ∀ id entry thread, (id, CommentEntry.thread entry) ∈ doc.comments.rows →
    Comments.IsStored doc.position id entry thread → thread ∈ parsed.commentThreads
  blocks : ∀ nodeName attributes children id,
    XmlNode.element nodeName attributes children ∈ doc.content →
      attributes.get BlockAttrs.id = some (.string id) → id ≠ "" →
        ∃ b ∈ parsed.blocks, b.id = id ∧ b.type = nodeName
  properties : ∀ fieldId value kind, (fieldId, SharedValue.plain value) ∈ doc.properties.rows →
    value.isObject = true → value.get "kind" = .string kind →
      parsed.properties.get fieldId = some value
  /-- At any depth, and whatever the threads are. -/
  others : ∃ other, readDocument js doc.withoutComments pageId = some other ∧
    parsed.blocks = other.blocks ∧ parsed.properties = other.properties ∧
      parsed.collections = other.collections ∧ parsed.page = other.page

/-- **A document is read whole.** -/
def ReadsWhole (js : Js) (doc : PageDocument) (pageId : String) : Prop :=
  ∃ parsed, readDocument js doc pageId = some parsed ∧ IsWhole js doc pageId parsed

theorem exists_readDocument_withoutComments (js : Js) (doc : PageDocument) (pageId : String) :
    ∃ other, readDocument js doc.withoutComments pageId = some other :=
  isSome_iff_exists.mp (readDocument_isSome_iff.mpr fun _ _ hmem => absurd hmem (by
    simp [withoutComments, YMap.empty, Keyed.empty]))

theorem isWhole_of_readDocument {parsed : ReadDocument}
    (h : readDocument js doc pageId = some parsed) : IsWhole js doc pageId parsed := by
  obtain ⟨threads, hthreads, rfl⟩ := map_eq_some_iff.mp h
  refine ⟨?_, ?_, ?_, ?_⟩
  · exact fun id entry thread hmem hstored =>
      Comments.mem_readThreads hthreads hmem (Comments.readThread_of_isStored hstored)
  · intro nodeName attributes children id hmem hid hne
    obtain ⟨b, hb, rfl, rfl⟩ : ∃ b ∈ BlockTree.readBlockTree js doc.content,
        b.id = id ∧ b.type = nodeName := BlockTree.exists_block_of_element hmem hid hne
    obtain ⟨position, hposition⟩ := mem_iff_getElem?.mp hb
    exact ⟨_, mem_readBlocks_iff.mpr
      ⟨b, position, mk_mem_zipIdx_iff_getElem?.mpr hposition, rfl⟩, rfl, rfl⟩
  · intro fieldId value kind hmem hobject hkind
    have hget : doc.properties.get fieldId = some (.plain value) := by
      rw [YMap.get, Keyed.mem_rows_iff.mp hmem]
      rfl
    show (doc.readProperties).get fieldId = some value
    rw [readProperties, YMap.get_assign, hget]
    simp [readProperty, hobject, hkind, JsValue.string?]
  · obtain ⟨other, hother⟩ := exists_readDocument_withoutComments js doc pageId
    refine ⟨other, hother, ?_⟩
    obtain ⟨_, -, rfl⟩ := map_eq_some_iff.mp hother
    exact ⟨rfl, rfl, rfl, rfl⟩

/-- A page with one paragraph, and a thread one end of which is a position cut short. -/
def misanchoredDocument : PageDocument where
  page := YMap.empty
  content := [.element "paragraph" (YMap.empty.set BlockAttrs.id (.string "b1")) []]
  canvas := YMap.empty
  comments := YMap.empty.set "t1" (.thread
    ((YMap.empty.set ThreadKeys.quote (.value (.plain (.string "words")))).set
      ThreadKeys.«from» (.bytes [0])))
  position := fun _ => none

end PageDocument

end Sone
