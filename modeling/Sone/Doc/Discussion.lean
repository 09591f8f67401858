import Sone.Doc.Comments
import Sone.Transition.Machine

/-!
# Writing comments

`doc/comments.ts`: a thread is started with its first message, answered, resolved, opened again and
removed, and a message is removed. Each of these is one transaction on the map of threads.

What every one of them keeps of the threads is `Keeps`. The ids of the messages are the callers'
business: `keeps_of_reaches` says that they stay distinct where every reply brings a new one.
-/

namespace Sone

open List

namespace Comments

/-- `MAX_QUOTE` -/
def maxQuote : ℕ := 300

/-- `MAX_MESSAGE` -/
def maxMessage : ℕ := 4000

/-- `MAX_THREADS` -/
def maxThreads : ℕ := 500

/-- `Arrival`: how a message came, when not typed here. -/
structure Arrival where
  /-- `via: 'email'` -/
  viaEmail : Bool := false
  trimmed : Bool := false
  hadAttachments : Bool := false

structure NewMessage where
  id : String
  author : String
  text : String
  /-- The clock's, where it is absent. -/
  at' : Option JsNumber := none
  mentions : List String := []
  arrival : Arrival := {}

structure NewThread where
  id : String
  «from» : List UInt8
  «to» : List UInt8
  quote : String
  messageId : String
  author : String
  text : String
  at' : Option JsNumber := none
  mentions : List String := []
  place : Option JsValue := none
  item : String := ""

/-! ### The operations -/

private def plain (value : JsValue) : SharedValue := .plain value

/-- Who is addressed: never the author, and nobody twice. -/
def addressed (author : String) (mentions : List String) : List String :=
  (mentions.filter (· ≠ author)).eraseDups

/-- How it came, where it did not come from here. -/
def withArrival (entry : YMap SharedValue) (arrival : Arrival) : YMap SharedValue :=
  if !arrival.viaEmail then entry else
    let entry := entry.set MessageKeys.via (plain (.string "email"))
    let entry := if arrival.trimmed then
      entry.set MessageKeys.trimmed (plain (.boolean true)) else entry
    if arrival.hadAttachments then
      entry.set MessageKeys.attachments (plain (.boolean true)) else entry

def message (now : ℚ) (input : NewMessage) : YMap SharedValue :=
  let entry := ((YMap.empty.set MessageKeys.id (plain (.string input.id))).set
    MessageKeys.author (plain (.string input.author))).set
    MessageKeys.at' (plain (.number (input.at'.getD (.finite now))))
  let who := addressed input.author input.mentions
  let entry := if who = [] then entry else
    entry.set MessageKeys.mentions (plain (.array (who.map .string)))
  (withArrival entry input.arrival).set MessageKeys.text
    (.text (YText.insert (JsString.slice maxMessage input.text)))

private def plainThread (value : JsValue) : ThreadValue := .value (.plain value)

/-- The thread `addThread` makes. -/
def newThread (now : ℚ) (input : NewThread) : YMap ThreadValue :=
  let entry := (YMap.empty.set ThreadKeys.«from» (.bytes input.«from»)).set
    ThreadKeys.to (.bytes input.to)
  let entry := if input.item = "" then entry else
    entry.set ThreadKeys.item (plainThread (.string input.item))
  -- refused rather than mended
  let entry := match input.place with
    | some place => if (readPlace place).isSome then
        entry.set ThreadKeys.place (plainThread place) else entry
    | none => entry
  let entry := (entry.set ThreadKeys.quote (plainThread (.string (JsString.slice maxQuote
    input.quote)))).set ThreadKeys.createdAt
    (plainThread (.number (input.at'.getD (.finite now))))
  entry.set ThreadKeys.messages (.list [.map (message now
    ⟨input.messageId, input.author, input.text, input.at', input.mentions, {}⟩)])

def addThread (now : ℚ) (threads : YMap CommentEntry) (input : NewThread) : YMap CommentEntry :=
  if maxThreads ≤ threads.rows.length then threads
  else threads.set input.id (.thread (newThread now input))

/-- `threadsMap(doc).get(threadId)`, where it is a `Y.Map`. -/
def threadAt (threads : YMap CommentEntry) (threadId : String) : Option (YMap ThreadValue) :=
  match threads.get threadId with
  | some (.thread entry) => some entry
  | _ => none

/-- `entry.get(THREAD_KEYS.messages)`, where it is a `Y.Array`. -/
def messagesAt (entry : YMap ThreadValue) : Option (List MessageEntry) :=
  match entry.get ThreadKeys.messages with
  | some (.list messages) => some messages
  | _ => none

/-- The three keys of a resolution are deleted. -/
def reopened (entry : YMap ThreadValue) : YMap ThreadValue :=
  ((entry.delete ThreadKeys.resolved).delete ThreadKeys.resolvedBy).delete ThreadKeys.resolvedAt

/-- A thread with one message more, which opens it again. -/
def answered (now : ℚ) (entry : YMap ThreadValue) (messages : List MessageEntry)
    (input : NewMessage) : YMap ThreadValue :=
  let entry := entry.set ThreadKeys.messages (.list (messages ++ [.map (message now input)]))
  if (threadPlainAt entry ThreadKeys.resolved).any JsValue.isTrue then reopened entry else entry

def addMessage (now : ℚ) (threads : YMap CommentEntry) (threadId : String) (input : NewMessage) :
    YMap CommentEntry :=
  match threadAt threads threadId with
  | none => threads
  | some entry =>
    match messagesAt entry with
    | none => threads
    | some messages => threads.set threadId (.thread (answered now entry messages input))

def resolvedThread (now : ℚ) (entry : YMap ThreadValue) (by' : String) (at' : Option JsNumber) :
    YMap ThreadValue :=
  ((entry.set ThreadKeys.resolved (plainThread (.boolean true))).set
    ThreadKeys.resolvedBy (plainThread (.string by'))).set
    ThreadKeys.resolvedAt (plainThread (.number (at'.getD (.finite now))))

def resolveThread (now : ℚ) (threads : YMap CommentEntry) (threadId : String) (resolved : Bool)
    (by' : String) (at' : Option JsNumber) : YMap CommentEntry :=
  match threadAt threads threadId with
  | none => threads
  | some entry => threads.set threadId (.thread
      (if !resolved then reopened entry else resolvedThread now entry by' at'))

def removeThread (threads : YMap CommentEntry) (threadId : String) : YMap CommentEntry :=
  threads.delete threadId

def hasId (messageId : String) : MessageEntry → Bool
  | .map message => (plainAt message MessageKeys.id).bind JsValue.string? = some messageId
  | .value _ => false

def removeMessage (threads : YMap CommentEntry) (threadId messageId : String) :
    YMap CommentEntry :=
  match threadAt threads threadId with
  | none => threads
  | some entry =>
    match messagesAt entry with
    | none => threads
    | some messages =>
      let rest := messages.eraseP (hasId messageId)
      if rest = [] then threads.delete threadId
      else threads.set threadId (.thread (entry.set ThreadKeys.messages (.list rest)))

/-! ### The machine -/

/-- What somebody does to the threads of a document. -/
inductive CommentOp where
  | addThread (input : NewThread)
  | addMessage (threadId : String) (input : NewMessage)
  | resolveThread (threadId : String) (resolved : Bool) (by' : String) (at' : Option JsNumber)
  | removeThread (threadId : String)
  | removeMessage (threadId messageId : String)

/-- The threads after an operation, by the clock there is. -/
def apply (now : ℚ) (threads : YMap CommentEntry) : CommentOp → YMap CommentEntry
  | .addThread input => addThread now threads input
  | .addMessage threadId input => addMessage now threads threadId input
  | .resolveThread threadId resolved by' at' => resolveThread now threads threadId resolved by' at'
  | .removeThread threadId => removeThread threads threadId
  | .removeMessage threadId messageId => removeMessage threads threadId messageId

/-- **The machine of a document's threads**, from none of them. -/
def discussion : Machine (YMap CommentEntry) (ℚ × CommentOp) where
  init threads := threads = YMap.empty
  step threads e := some (apply e.1 threads e.2)

/-! ### What is kept -/

def messageIds (entry : YMap ThreadValue) : List String :=
  (readMessages (entry.get ThreadKeys.messages)).map (·.id)

/-- **A thread that makes sense**: it has a message, both or neither of who resolved it and when,
and no message that mentions its author. -/
structure IsDiscussion (entry : YMap ThreadValue) : Prop where
  messages : readMessages (entry.get ThreadKeys.messages) ≠ []
  resolution : entry.has ThreadKeys.resolvedBy = entry.has ThreadKeys.resolvedAt
  mentions : ∀ one ∈ readMessages (entry.get ThreadKeys.messages), one.author ∉ one.mentions

/-- A thread is **open**: nothing of a resolution is left. -/
def IsOpen (entry : YMap ThreadValue) : Prop :=
  ∀ key ∈ [ThreadKeys.resolved, ThreadKeys.resolvedBy, ThreadKeys.resolvedAt], entry.get key = none

/-- **What the operations keep**: threads make sense, a reply leaves its thread open with the
message at its end, and without its last message a thread is gone. -/
structure Keeps (threads : YMap CommentEntry) : Prop where
  discussion : ∀ id entry, threadAt threads id = some entry → IsDiscussion entry
  reply : ∀ now id input entry, threadAt threads id = some entry →
    ∃ entry', threadAt (addMessage now threads id input) id = some entry' ∧ IsOpen entry' ∧
      messageIds entry' = messageIds entry ++ [input.id]
  last : ∀ id messageId entry, threadAt threads id = some entry →
    messageIds entry = [messageId] → (removeMessage threads id messageId).get id = none

def IdsDistinct (threads : YMap CommentEntry) : Prop :=
  ∀ id entry, threadAt threads id = some entry → (messageIds entry).Nodup

def BringsNewId (threads : YMap CommentEntry) : CommentOp → Prop
  | .addMessage threadId input =>
    ∀ entry, threadAt threads threadId = some entry → input.id ∉ messageIds entry
  | _ => True

/-! ### A message -/

theorem get_withArrival {entry : YMap SharedValue} {arrival : Arrival} {key : String}
    (hkey : key ∉ [MessageKeys.via, MessageKeys.trimmed, MessageKeys.attachments]) :
    (withArrival entry arrival).get key = entry.get key := by
  simp only [mem_cons, not_mem_nil, or_false, not_or] at hkey
  obtain ⟨hvia, htrimmed, hattachments⟩ := hkey
  rw [withArrival]
  split
  · rfl
  · split <;> split <;> simp [YMap.get_set, Ne.symm hvia, Ne.symm htrimmed, Ne.symm hattachments]

theorem mem_addressed_iff {author who : String} {mentions : List String} :
    who ∈ addressed author mentions ↔ who ∈ mentions ∧ who ≠ author := by
  simp [addressed]

/-- **A message reads as it was written**, by the id, the author and who is addressed. -/
theorem readMessage_message (now : ℚ) (input : NewMessage) :
    (readMessage (message now input)).id = input.id ∧
      (readMessage (message now input)).author = input.author ∧
      (readMessage (message now input)).mentions = addressed input.author input.mentions := by
  have hkeep : ∀ key, key ≠ MessageKeys.text →
      key ∉ [MessageKeys.via, MessageKeys.trimmed, MessageKeys.attachments] →
      ∀ entry : YMap SharedValue, ∀ text, ((withArrival entry input.arrival).set
        MessageKeys.text text).get key = entry.get key := by
    intro key htext harrival entry text
    rw [YMap.get_set, if_neg (Ne.symm htext), get_withArrival harrival]
  simp only [readMessage, plainAt, message]
  rw [hkeep MessageKeys.id (by decide) (by decide),
    hkeep MessageKeys.author (by decide) (by decide),
    hkeep MessageKeys.mentions (by decide) (by decide)]
  by_cases hnobody : addressed input.author input.mentions = []
  · simp [hnobody, YMap.get_set, asString, plain, SharedValue.plain?, JsValue.string?,
      MessageKeys.id, MessageKeys.author, MessageKeys.at', MessageKeys.mentions]
  · simp [hnobody, YMap.get_set, asString, plain, SharedValue.plain?, JsValue.string?,
      JsValue.array?, MessageKeys.id, MessageKeys.author, MessageKeys.at', MessageKeys.mentions,
      filterMap_map, Function.comp_def]

/-- A message as it is stored: its id is a string, and it does not mention its author. -/
structure IsMessage (one : YMap SharedValue) : Prop where
  id : (plainAt one MessageKeys.id).bind JsValue.string? = some (readMessage one).id
  mentions : (readMessage one).author ∉ (readMessage one).mentions

theorem isMessage_message (now : ℚ) (input : NewMessage) : IsMessage (message now input) := by
  obtain ⟨hid, hauthor, hmentions⟩ := readMessage_message now input
  refine ⟨?_, ?_⟩
  · rw [hid, plainAt, message, YMap.get_set, if_neg (by decide), get_withArrival (by decide)]
    split <;> simp [YMap.get_set, plain, SharedValue.plain?, JsValue.string?, MessageKeys.id,
      MessageKeys.author, MessageKeys.at', MessageKeys.mentions]
  · rw [hauthor, hmentions, mem_addressed_iff]
    exact fun h => h.2 rfl

theorem hasId_iff {one : YMap SharedValue} {messageId : String} (h : IsMessage one) :
    hasId messageId (.map one) = true ↔ (readMessage one).id = messageId := by
  rw [hasId, h.id, decide_eq_true_iff, Option.some.injEq]

/-! ### A thread -/

variable {entry entry' : YMap ThreadValue} {messages : List (YMap SharedValue)}
  {threads : YMap CommentEntry} {id threadId messageId : String} {now : ℚ}

def HasMessages (entry : YMap ThreadValue) (messages : List (YMap SharedValue)) : Prop :=
  messagesAt entry = some (messages.map .map)

/-- A thread is open, or resolved by somebody at some time. -/
def IsSettled (entry : YMap ThreadValue) : Prop :=
  IsOpen entry ∨ (threadPlainAt entry ThreadKeys.resolved).any JsValue.isTrue = true ∧
    entry.has ThreadKeys.resolvedBy = true ∧ entry.has ThreadKeys.resolvedAt = true

/-- **A thread as it is stored**: a list of messages, each a map, and a whole resolution or none. -/
structure IsWhole (entry : YMap ThreadValue) : Prop where
  messages : ∃ messages, HasMessages entry messages ∧ messages ≠ [] ∧
    ∀ one ∈ messages, IsMessage one
  settled : IsSettled entry

theorem HasMessages.read (h : HasMessages entry messages) :
    readMessages (entry.get ThreadKeys.messages) = messages.map readMessage := by
  rw [HasMessages, messagesAt] at h
  split at h
  · rename_i list hlist
    obtain rfl := Option.some.inj h
    simp [hlist, readMessages, filterMap_map]
  · cases h

theorem HasMessages.ids (h : HasMessages entry messages) :
    messageIds entry = messages.map fun one => (readMessage one).id := by
  rw [messageIds, h.read, List.map_map]
  rfl

theorem hasMessages_set (messages : List (YMap SharedValue)) :
    HasMessages (entry.set ThreadKeys.messages (.list (messages.map .map))) messages := by
  rw [HasMessages, messagesAt, YMap.get_set, if_pos rfl]

theorem HasMessages.congr (h : HasMessages entry messages)
    (hget : entry'.get ThreadKeys.messages = entry.get ThreadKeys.messages) :
    HasMessages entry' messages := by
  rw [HasMessages, messagesAt, hget]
  exact h

theorem IsWhole.isDiscussion (h : IsWhole entry) : IsDiscussion entry := by
  obtain ⟨messages, hmessages, hne, hall⟩ := h.messages
  refine ⟨?_, ?_, ?_⟩
  · rw [hmessages.read]
    exact mt map_eq_nil_iff.mp hne
  · rcases h.settled with hopen | ⟨-, hby, hat⟩
    · rw [YMap.has, YMap.has, hopen _ (by simp), hopen _ (by simp)]
    · rw [hby, hat]
  · rw [hmessages.read]
    intro one hone
    obtain ⟨stored, hstored, rfl⟩ := List.mem_map.mp hone
    exact (hall stored hstored).mentions

theorem IsSettled.set (h : IsSettled entry) (value : ThreadValue) :
    IsSettled (entry.set ThreadKeys.messages value) := by
  have hget : ∀ key, key ≠ ThreadKeys.messages →
      (entry.set ThreadKeys.messages value).get key = entry.get key := fun key hkey => by
    rw [YMap.get_set, if_neg (Ne.symm hkey)]
  rcases h with hopen | hresolved
  · refine .inl fun key hkey => ?_
    rw [hget key (by rintro rfl; revert hkey; decide)]
    exact hopen key hkey
  · right
    rw [threadPlainAt, YMap.has, YMap.has, hget _ (by decide), hget _ (by decide),
      hget _ (by decide)]
    exact hresolved

theorem isOpen_reopened (entry : YMap ThreadValue) : IsOpen (reopened entry) := by
  simp [IsOpen, reopened, YMap.get_delete]

theorem get_reopened {key : String}
    (hkey : key ∉ [ThreadKeys.resolved, ThreadKeys.resolvedBy, ThreadKeys.resolvedAt]) :
    (reopened entry).get key = entry.get key := by
  simp only [mem_cons, not_mem_nil, or_false, not_or] at hkey
  simp [reopened, YMap.get_delete, Ne.symm hkey.1, Ne.symm hkey.2.1, Ne.symm hkey.2.2]

theorem isWhole_reopened (h : IsWhole entry) : IsWhole (reopened entry) := by
  obtain ⟨messages, hmessages, hall⟩ := h.messages
  exact ⟨⟨messages, hmessages.congr (get_reopened (by decide)), hall⟩, .inl (isOpen_reopened entry)⟩

theorem get_resolvedThread {by' : String} {at' : Option JsNumber} :
    (resolvedThread now entry by' at').get ThreadKeys.messages = entry.get ThreadKeys.messages := by
  rw [resolvedThread, YMap.get_set, if_neg (by decide), YMap.get_set, if_neg (by decide),
    YMap.get_set, if_neg (by decide)]

theorem isWhole_resolvedThread (h : IsWhole entry) (by' : String) (at' : Option JsNumber) :
    IsWhole (resolvedThread now entry by' at') := by
  obtain ⟨messages, hmessages, hall⟩ := h.messages
  refine ⟨⟨messages, hmessages.congr get_resolvedThread, hall⟩, .inr ?_⟩
  simp [resolvedThread, threadPlainAt, YMap.has, YMap.get_set, plainThread, SharedValue.plain?,
    JsValue.isTrue, ThreadKeys.resolved, ThreadKeys.resolvedBy, ThreadKeys.resolvedAt]

theorem isOpen_newThread (now : ℚ) (input : NewThread) : IsOpen (newThread now input) := by
  have hwritten : ∀ key ∈ [ThreadKeys.resolved, ThreadKeys.resolvedBy, ThreadKeys.resolvedAt],
      ∀ other ∈ [ThreadKeys.«from», ThreadKeys.«to», ThreadKeys.item, ThreadKeys.place,
        ThreadKeys.quote, ThreadKeys.createdAt, ThreadKeys.messages], other ≠ key := by decide
  intro key hkey
  have hother := hwritten key hkey
  simp only [forall_mem_cons, not_mem_nil, false_implies, implies_true,
    and_true] at hother
  obtain ⟨hfrom, hto, hitem, hplace, hquote, hcreated, hmessages⟩ := hother
  simp only [newThread, YMap.get_set, hmessages, hcreated, hquote, if_false]
  split
  · split <;> split_ifs <;> simp [YMap.get_set, hfrom, hto, hitem, hplace]
  · split_ifs <;> simp [YMap.get_set, hfrom, hto, hitem]

theorem isWhole_newThread (now : ℚ) (input : NewThread) : IsWhole (newThread now input) := by
  refine ⟨⟨_, hasMessages_set [_], by simp, ?_⟩, .inl (isOpen_newThread now input)⟩
  intro one hone
  rw [mem_singleton.mp hone]
  exact isMessage_message _ _

/-- **A thread that is answered** has the message at its end, and is open. -/
theorem answered_spec (now : ℚ) (h : IsWhole entry) (messages : List (YMap SharedValue))
    (input : NewMessage) :
    IsOpen (answered now entry (messages.map .map) input) ∧
      HasMessages (answered now entry (messages.map .map) input)
        (messages ++ [message now input]) := by
  have hlist : messages.map MessageEntry.map ++ [.map (message now input)] =
      (messages ++ [message now input]).map .map := by simp
  have hsettled := h.settled.set
    (.list (messages.map MessageEntry.map ++ [.map (message now input)]))
  rw [answered]
  split
  · refine ⟨isOpen_reopened _, HasMessages.congr ?_ (get_reopened (by decide))⟩
    rw [hlist]
    exact hasMessages_set _
  · rename_i hnot
    rw [hlist] at hsettled hnot ⊢
    exact ⟨hsettled.resolve_right fun hresolved => hnot hresolved.1, hasMessages_set _⟩

/-! ### The threads -/

theorem threadAt_set {stored : YMap ThreadValue} :
    threadAt (threads.set threadId (.thread stored)) id =
      if threadId = id then some stored else threadAt threads id := by
  by_cases heq : threadId = id <;> simp [threadAt, YMap.get_set, heq]

theorem threadAt_delete :
    threadAt (threads.delete threadId) id =
      if threadId = id then none else threadAt threads id := by
  by_cases heq : threadId = id <;> simp [threadAt, YMap.get_delete, heq]

/-- **What an operation makes of a thread**, under an id. -/
inductive Makes (now : ℚ) (threads : YMap CommentEntry) :
    CommentOp → String → YMap ThreadValue → Prop
  | started (input : NewThread) :
      Makes now threads (.addThread input) input.id (newThread now input)
  | answered {threadId : String} {entry : YMap ThreadValue} {messages : List MessageEntry}
      {input : NewMessage} (h : threadAt threads threadId = some entry)
      (hmessages : messagesAt entry = some messages) :
      Makes now threads (.addMessage threadId input) threadId (answered now entry messages input)
  | reopened {threadId by' : String} {at' : Option JsNumber} {entry : YMap ThreadValue}
      (h : threadAt threads threadId = some entry) :
      Makes now threads (.resolveThread threadId false by' at') threadId (reopened entry)
  | resolved {threadId by' : String} {at' : Option JsNumber} {entry : YMap ThreadValue}
      (h : threadAt threads threadId = some entry) :
      Makes now threads (.resolveThread threadId true by' at') threadId
        (resolvedThread now entry by' at')
  | shortened {threadId messageId : String} {entry : YMap ThreadValue}
      {messages : List MessageEntry} (h : threadAt threads threadId = some entry)
      (hmessages : messagesAt entry = some messages)
      (hrest : messages.eraseP (hasId messageId) ≠ []) :
      Makes now threads (.removeMessage threadId messageId) threadId
        (entry.set ThreadKeys.messages (.list (messages.eraseP (hasId messageId))))

/-- **The threads after an operation** are there before, or what it makes. -/
theorem threadAt_apply {op : CommentOp} (h : threadAt (apply now threads op) id = some entry) :
    threadAt threads id = some entry ∨ Makes now threads op id entry := by
  have hset : ∀ {threadId stored},
      threadAt (threads.set threadId (.thread stored)) id = some entry →
      threadAt threads id = some entry ∨ threadId = id ∧ stored = entry := by
    intro threadId stored hstored
    rw [threadAt_set] at hstored
    split_ifs at hstored with heq
    · exact .inr ⟨heq, Option.some.inj hstored⟩
    · exact .inl hstored
  have hdelete : ∀ {threadId}, threadAt (threads.delete threadId) id = some entry →
      threadAt threads id = some entry := by
    intro threadId hleft
    rw [threadAt_delete] at hleft
    split_ifs at hleft
    exact hleft
  cases op with
  | addThread input =>
    rw [apply, addThread] at h
    split_ifs at h
    · exact .inl h
    · exact (hset h).imp_right fun ⟨hid, hentry⟩ => hid ▸ hentry ▸ .started input
  | addMessage threadId input =>
    simp only [apply, addMessage] at h
    split at h
    · exact .inl h
    · split at h
      · exact .inl h
      · rename_i stored hstored _ messages hmessages
        refine (hset h).imp_right fun ⟨hid, hentry⟩ => ?_
        exact hid ▸ hentry ▸ .answered hstored hmessages
  | resolveThread threadId resolved by' at' =>
    simp only [apply, resolveThread] at h
    split at h
    · exact .inl h
    · rename_i stored hstored
      refine (hset h).imp_right fun ⟨hid, hentry⟩ => ?_
      rcases resolved with _ | _
      · exact hid ▸ hentry ▸ .reopened hstored
      · exact hid ▸ hentry ▸ .resolved hstored
  | removeThread threadId => exact .inl (hdelete h)
  | removeMessage threadId messageId =>
    simp only [apply, removeMessage] at h
    split at h
    · exact .inl h
    · split at h
      · exact .inl h
      · rename_i stored hstored _ messages hmessages
        split_ifs at h with hrest
        · exact .inl (hdelete h)
        · refine (hset h).imp_right fun ⟨hid, hentry⟩ => ?_
          exact hid ▸ hentry ▸ .shortened hstored hmessages hrest

/-- **The step lemma**: the threads stay as they should be. -/
theorem isWhole_apply (hall : ∀ id entry, threadAt threads id = some entry → IsWhole entry)
    {op : CommentOp} (h : threadAt (apply now threads op) id = some entry) : IsWhole entry := by
  rcases threadAt_apply h with hbefore | hmade
  · exact hall id entry hbefore
  · cases hmade with
    | started input => exact isWhole_newThread now input
    | answered hthread hlist =>
      have hstored := hall _ _ hthread
      obtain ⟨messages, hmessages, -, hread⟩ := hstored.messages
      obtain rfl := Option.some.inj (hlist.symm.trans hmessages)
      obtain ⟨hopen, hanswered⟩ := answered_spec now hstored messages _
      refine ⟨⟨_, hanswered, by simp, ?_⟩, .inl hopen⟩
      intro one hone
      rcases mem_append.mp hone with hold | hnew
      · exact hread one hold
      · rw [mem_singleton.mp hnew]
        exact isMessage_message _ _
    | reopened hthread => exact isWhole_reopened (hall _ _ hthread)
    | resolved hthread => exact isWhole_resolvedThread (hall _ _ hthread) _ _
    | shortened hthread hlist hrest =>
      have hstored := hall _ _ hthread
      obtain ⟨messages, hmessages, -, hread⟩ := hstored.messages
      obtain rfl := Option.some.inj (hlist.symm.trans hmessages)
      rw [eraseP_map] at hrest ⊢
      refine ⟨⟨_, hasMessages_set _, ?_, ?_⟩, hstored.settled.set _⟩
      · exact fun hnone => hrest (by rw [hnone, map_nil])
      · exact fun one hone => hread one (eraseP_subset hone)

/-- **The ids stay distinct** where a reply brings a new one. -/
theorem idsDistinct_apply (hall : ∀ id entry, threadAt threads id = some entry → IsWhole entry)
    (hdistinct : IdsDistinct threads) {op : CommentOp} (hnew : BringsNewId threads op) :
    IdsDistinct (apply now threads op) := by
  intro id entry h
  rcases threadAt_apply h with hbefore | hmade
  · exact hdistinct id entry hbefore
  · cases hmade with
    | started input =>
      have hone : HasMessages (newThread now input) [_] := hasMessages_set [_]
      rw [hone.ids]
      exact nodup_singleton _
    | @answered threadId before list input hthread hlist =>
      have hstored := hall _ _ hthread
      obtain ⟨messages, hmessages, -, -⟩ := hstored.messages
      obtain rfl := Option.some.inj (hlist.symm.trans hmessages)
      obtain ⟨-, hanswered⟩ := answered_spec now hstored messages input
      have hids := hdistinct _ _ hthread
      have hfresh := hnew before hthread
      rw [hmessages.ids] at hids hfresh
      rw [hanswered.ids, map_append, map_singleton, (readMessage_message now input).1]
      exact nodup_append_comm.mp (nodup_cons.mpr ⟨hfresh, hids⟩)
    | @reopened _ _ _ before hthread =>
      have hids := hdistinct _ _ hthread
      rwa [messageIds, get_reopened (by decide)]
    | @resolved _ _ _ before hthread =>
      have hids := hdistinct _ _ hthread
      rwa [messageIds, get_resolvedThread]
    | shortened hthread hlist hrest =>
      obtain ⟨messages, hmessages, -, -⟩ := (hall _ _ hthread).messages
      obtain rfl := Option.some.inj (hlist.symm.trans hmessages)
      have hids := hdistinct _ _ hthread
      rw [hmessages.ids] at hids
      rw [eraseP_map, HasMessages.ids (hasMessages_set _)]
      exact hids.sublist ((eraseP_sublist).map _)

/-! ### Runs -/

theorem isWhole_of_reachesWhen {ok : YMap CommentEntry → ℚ × CommentOp → Prop}
    (h : discussion.ReachesWhen ok threads) (hthread : threadAt threads id = some entry) :
    IsWhole entry := by
  have hall : ∀ id entry, threadAt threads id = some entry → IsWhole entry := by
    refine h.invariant (I := fun threads => ∀ id entry, threadAt threads id = some entry →
      IsWhole entry) ?_ ?_
    · rintro _ rfl id entry hnone
      cases hnone
    · rintro before ⟨now, op⟩ _ hbefore - hstep id entry hentry
      obtain rfl := Option.some.inj hstep
      exact isWhole_apply hbefore hentry
  exact hall id entry hthread

/-- **What the operations keep**, of threads as they should be. -/
theorem keeps_of_isWhole (hall : ∀ id entry, threadAt threads id = some entry → IsWhole entry) :
    Keeps threads where
  discussion id entry h := (hall id entry h).isDiscussion
  reply now id input entry h := by
    have hstored := hall id entry h
    obtain ⟨messages, hmessages, -, -⟩ := hstored.messages
    obtain ⟨hopen, hanswered⟩ := answered_spec now hstored messages input
    refine ⟨_, ?_, hopen, ?_⟩
    · simp [addMessage, h, show messagesAt entry = _ from hmessages, threadAt_set]
    · rw [hanswered.ids, hmessages.ids, map_append, map_singleton,
        (readMessage_message now input).1]
  last id messageId entry h hids := by
    obtain ⟨messages, hmessages, -, hread⟩ := (hall id entry h).messages
    rw [hmessages.ids] at hids
    obtain ⟨one, rfl, rfl⟩ := map_eq_singleton_iff.mp hids
    have hone : hasId (readMessage one).id (.map one) = true :=
      (hasId_iff (hread one (mem_singleton_self one))).mpr rfl
    have hlist : messagesAt entry = some [.map one] := hmessages
    simp [removeMessage, h, hlist, hone, YMap.get_delete]

/-- **Whatever is done to the threads of a document** is kept, and the ids of the messages of each
stay distinct where every reply brings a new one. -/
theorem keeps_of_reaches :
    (∀ threads, discussion.Reaches threads → Keeps threads) ∧
      ∀ threads, discussion.ReachesWhen (fun threads e => BringsNewId threads e.2) threads →
        IdsDistinct threads := by
  refine ⟨fun threads h => keeps_of_isWhole fun _ _ hthread => isWhole_of_reachesWhen h hthread,
    fun threads h => ?_⟩
  have hall : (∀ id entry, threadAt threads id = some entry → IsWhole entry) ∧
      IdsDistinct threads := by
    refine h.invariant (I := fun threads => (∀ id entry, threadAt threads id = some entry →
      IsWhole entry) ∧ IdsDistinct threads) ?_ ?_
    · rintro _ rfl
      refine ⟨?_, ?_⟩
      · rintro id entry hnone
        cases hnone
      · rintro id entry hnone
        cases hnone
    · rintro before ⟨now, op⟩ _ ⟨hstored, hdistinct⟩ hnew hstep
      obtain rfl := Option.some.inj hstep
      exact ⟨fun _ _ => isWhole_apply hstored, idsDistinct_apply hstored hdistinct hnew⟩
  exact hall.2

theorem not_idsDistinct_of_mem {input : NewMessage} (hkeeps : Keeps threads)
    (h : threadAt threads threadId = some entry) (hmem : input.id ∈ messageIds entry) :
    ¬IdsDistinct (addMessage now threads threadId input) := by
  intro hdistinct
  obtain ⟨entry', hentry', -, hids⟩ := hkeeps.reply now threadId input entry h
  have hnodup := hdistinct threadId entry' hentry'
  rw [hids] at hnodup
  exact disjoint_of_nodup_append hnodup hmem (mem_singleton_self _)

def firstComment : NewThread :=
  { id := "t1", «from» := [], «to» := [], quote := "Plan", messageId := "m1", author := "anna",
    text := "One" }

/-- **A reply with the id of the first message** gives its thread two of one id. -/
theorem not_idsDistinct : ¬∀ threads, discussion.Reaches threads → IdsDistinct threads := by
  intro h
  have hstart : discussion.Reaches (apply 1 YMap.empty (.addThread firstComment)) :=
    .next (e := (1, .addThread firstComment)) (.start rfl) trivial rfl
  have hreply : discussion.Reaches (apply 2 (apply 1 YMap.empty (.addThread firstComment))
      (.addMessage "t1" ⟨"m1", "ben", "Two", none, [], {}⟩)) :=
    hstart.next (e := (2, .addMessage "t1" ⟨"m1", "ben", "Two", none, [], {}⟩)) trivial rfl
  have hthread : threadAt (apply 1 YMap.empty (.addThread firstComment)) "t1" =
      some (newThread 1 firstComment) := by
    have hroom : ¬maxThreads ≤ (YMap.empty : YMap CommentEntry).rows.length := by decide
    rw [apply, addThread, if_neg hroom, threadAt_set]
    rfl
  have hids : messageIds (newThread 1 firstComment) = ["m1"] := by
    have hone : HasMessages (newThread 1 firstComment) [_] := hasMessages_set [_]
    rw [hone.ids, map_singleton, (readMessage_message _ _).1]
    rfl
  refine not_idsDistinct_of_mem (keeps_of_isWhole fun _ _ => isWhole_of_reachesWhen hstart)
    hthread ?_ (h _ hreply)
  rw [hids]
  exact mem_singleton_self _

end Comments

end Sone
