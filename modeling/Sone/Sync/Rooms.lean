import Sone.Doc.Text
import Sone.Sync.Connection
import Sone.Transition.Machine

/-!
# The room a page is opened in

A client opens a page by its id, or the internal comments of one by the id with a suffix
(`readInternalRequest`), and `decodeClientMessage` lets the id be any uuid, in letters of either
case. The page is then found by its `uuid`, which has no case; the room is found in a map whose
keys are strings (`acquireRoom`), and the document of the internal comments has an id that is
hashed from a string (`internalDocId`).

`pageServer` is the map of one server, with the loads that are under way, the opens that wait
for them and the handles there are. `sameRoom_iff`: two handles on one page are in one room
exactly where the page was asked for in one spelling.
-/

namespace Sone

open List Function

/-! ### Requests and ids -/

/-- `INTERNAL_SUFFIX` -/
def internalSuffix : String := "#internal"

/-- `readInternalRequest`: the page, and whether it is its internal comments that are asked for. -/
def readInternalRequest (asked : String) : String × Bool :=
  if internalSuffix.toList.isSuffixOf asked.toList then
    (String.ofList (asked.toList.take (asked.toList.length - internalSuffix.toList.length)), true)
  else (asked, false)

def pageAsked (asked : String) : String := (readInternalRequest asked).1

def isInternal (asked : String) : Bool := (readInternalRequest asked).2

/-- `decodeClientMessage`, of an Open: whether what is asked for is let through. -/
def acceptsOpen (asked : String) : Bool := isUuidText (pageAsked asked)

/-- The `uuid` a text is, by its digits. -/
def uuidValue (s : String) : ℕ :=
  (s.toList.filter isHexDigit).foldl (fun n c => 16 * n + hexValue c) 0

/-- Two requests are **for one document**: they name one page, and are alike in the suffix. -/
structure SameRequest (a b : String) : Prop where
  page : uuidValue (pageAsked a) = uuidValue (pageAsked b)
  kind : isInternal a = isInternal b

/-- `INTERNAL_NAMESPACE`, in bytes. -/
def internalNamespace : List UInt8 :=
  [0x6f, 0x9f, 0x6b, 0x1e, 0x4a, 0x4a, 0x5f, 0x6c, 0x8f, 0x2e, 0x1d, 0x3c, 0x5b, 0x7a, 0x9e, 0x01]

/-- What is hashed: the namespace, and the units of the id as bytes. -/
def internalName (pageId : String) : List UInt8 :=
  internalNamespace ++ (JsString.units pageId).map UInt8.ofNat

/-- The first 16 bytes of a digest, with the version and the variant of a uuid. -/
def stampUuid (digest : List UInt8) : List UInt8 :=
  ((digest.take 16).modify 6 fun b => (b &&& 0x0f) ||| 0x50).modify 8 fun b =>
    (b &&& 0x3f) ||| 0x80

/-- `byte.toString(16).padStart(2, '0')` -/
def hexByte (b : UInt8) : List Char := [hexDigit (b.toNat / 16), hexDigit (b.toNat % 16)]

/-- The text of 16 bytes, in five groups. -/
def dashed (text : List Char) : List Char :=
  text.take 8 ++ '-' :: (text.take 12).drop 8 ++ '-' :: (text.take 16).drop 12 ++
    '-' :: (text.take 20).drop 16 ++ '-' :: text.drop 20

def internalDocId (sha1 : List UInt8 → List UInt8) (pageId : String) : String :=
  String.ofList (dashed ((stampUuid (sha1 (internalName pageId))).flatMap hexByte))

def roomKey (sha1 : List UInt8 → List UInt8) (asked : String) : String :=
  if isInternal asked then internalDocId sha1 (pageAsked asked) else pageAsked asked

/-! ### One spelling, one id -/

theorem toNat_lt_of_isUuidText {s : String} (h : isUuidText s = true) {c : Char}
    (hc : c ∈ s.toList) : c.toNat < 256 := by
  rcases mem_of_isUuidText h c hc with hc | rfl
  · simp only [isHexDigit, Bool.or_eq_true, Bool.and_eq_true, decide_eq_true_eq] at hc
    have hle : ∀ d : Char, c ≤ d → d.toNat < 256 → c.toNat < 256 :=
      fun d hcd hd => lt_of_le_of_lt hcd hd
    rcases hc with (⟨-, hc⟩ | ⟨-, hc⟩) | ⟨-, hc⟩
    · exact hle _ hc (by decide)
    · exact hle _ hc (by decide)
    · exact hle _ hc (by decide)
  · decide

theorem eq_of_internalName_eq {a b : String} (ha : isUuidText a = true)
    (hb : isUuidText b = true) (h : internalName a = internalName b) : a = b := by
  have hunits : ∀ {s : String}, isUuidText s = true →
      JsString.units s = s.toList.map Char.toNat := by
    intro s hs
    have hone : ∀ cs : List Char, (∀ c ∈ cs, c.toNat < 256) →
        cs.flatMap Char.units = cs.map Char.toNat := by
      intro cs
      induction cs with
      | nil => exact fun _ => rfl
      | cons c cs ih =>
        intro hcs
        have hc := hcs c mem_cons_self
        rw [flatMap_cons, map_cons, Char.units, if_pos (by omega),
          ih fun d hd => hcs d (mem_cons_of_mem _ hd)]
        rfl
    exact hone s.toList fun c hc => toNat_lt_of_isUuidText hs hc
  have hbytes := append_cancel_left h
  rw [hunits ha, hunits hb, List.map_map, List.map_map] at hbytes
  have hback : ∀ {s : String}, isUuidText s = true → (s.toList.map (UInt8.ofNat ∘ Char.toNat)).map
      (fun b => Char.ofNat b.toNat) = s.toList := by
    intro s hs
    rw [List.map_map]
    refine (map_congr_left fun c hc => ?_).trans (List.map_id _)
    have hlt := toNat_lt_of_isUuidText hs hc
    simp [UInt8.toNat_ofNat', Nat.mod_eq_of_lt hlt]
  rw [← String.toList_inj, ← hback ha, hbytes, hback hb]

theorem hexDigit_injective : ∀ m < 16, ∀ n < 16, hexDigit m = hexDigit n → m = n := by decide

theorem hexByte_injective {a b : UInt8} (h : hexByte a = hexByte b) : a = b := by
  simp only [hexByte, List.cons.injEq, and_true] at h
  have ha := a.toNat_lt
  have hb := b.toNat_lt
  have hhigh := hexDigit_injective _ (by omega) _ (by omega) h.1
  have hlow := hexDigit_injective _ (by omega) _ (by omega) h.2
  exact UInt8.toNat_inj.mp (by omega)

/-- **Two derived ids are one** exactly where their bytes are. -/
theorem stampUuid_eq_of_internalDocId_eq {sha1 : List UInt8 → List UInt8} {a b : String}
    (h : internalDocId sha1 a = internalDocId sha1 b) :
    stampUuid (sha1 (internalName a)) = stampUuid (sha1 (internalName b)) := by
  have hdashes : ∀ {text : List Char}, '-' ∉ text → (dashed text).filter (· ≠ '-') = text := by
    intro text htext
    have hkeep : ∀ {part : List Char}, (∀ c ∈ part, c ∈ text) → part.filter (· ≠ '-') = part := by
      intro part hpart
      refine List.filter_eq_self.mpr fun c hc => ?_
      simpa using fun h : c = '-' => htext (h ▸ hpart c hc)
    have hparts : text.take 8 ++ (text.take 12).drop 8 ++ (text.take 16).drop 12 ++
        (text.take 20).drop 16 ++ text.drop 20 = text := by
      have hstep : ∀ m n : ℕ, m ≤ n → text.take m ++ (text.take n).drop m = text.take n := by
        intro m n hmn
        conv_rhs =>
          rw [← take_append_drop m (text.take n), take_take, Nat.min_eq_left hmn]
      rw [hstep 8 12 (by omega), hstep 12 16 (by omega), hstep 16 20 (by omega),
        take_append_drop]
    have hdrop : ∀ m n : ℕ, ∀ c ∈ (text.take n).drop m, c ∈ text :=
      fun m n c hc => mem_of_mem_take (mem_of_mem_drop hc)
    rw [dashed]
    simp only [filter_append, filter_cons, ne_eq, decide_not, decide_true, Bool.not_true,
      Bool.false_eq_true, if_false] at hkeep ⊢
    rw [hkeep fun c hc => mem_of_mem_take hc, hkeep (hdrop 8 12), hkeep (hdrop 12 16),
      hkeep (hdrop 16 20), hkeep fun c hc => mem_of_mem_drop hc]
    exact hparts
  have hhex : ∀ bytes : List UInt8, '-' ∉ bytes.flatMap hexByte := by
    intro bytes hmem
    obtain ⟨b, -, hb⟩ := mem_flatMap.mp hmem
    have hdigit : ∀ n < 16, hexDigit n ≠ '-' := by decide
    have hlt := b.toNat_lt
    simp only [hexByte, mem_cons, not_mem_nil, or_false] at hb
    rcases hb with hb | hb
    · exact hdigit _ (by omega) hb.symm
    · exact hdigit _ (by omega) hb.symm
  have hinj : ∀ xs ys : List UInt8, xs.flatMap hexByte = ys.flatMap hexByte → xs = ys := by
    intro xs
    induction xs with
    | nil =>
      intro ys h
      cases ys with
      | nil => rfl
      | cons y ys => simp [hexByte] at h
    | cons x xs ih =>
      intro ys h
      cases ys with
      | nil => simp [hexByte] at h
      | cons y ys =>
        rw [flatMap_cons, flatMap_cons] at h
        obtain ⟨hfirst, hrest⟩ := append_inj h rfl
        rw [hexByte_injective hfirst, ih ys hrest]
  have htext := congrArg String.toList h
  rw [internalDocId, internalDocId, String.toList_ofList, String.toList_ofList] at htext
  refine hinj _ _ ?_
  rw [← hdashes (hhex (stampUuid (sha1 (internalName a)))), htext, hdashes (hhex _)]

/-! ### The server -/

/-- What a handle of a connection stands for, by the room it is in. -/
structure PageHandle where
  conn : ℕ
  handle : ℕ
  /-- What was asked for, as it was spelled. -/
  asked : String
  /-- Which of the rooms made so far it subscribes to. -/
  room : ℕ
deriving DecidableEq, Repr

/-- A server's rooms and the documents its connections have open. -/
structure PageServer where
  /-- `conn.documents`, of every connection. -/
  documents : List PageHandle
  /-- `conn.handlesByPage`, of every connection. -/
  handlesByPage : ℕ → String → Option ℕ
  /-- The opens that wait for `authorizeDocumentOpen`. -/
  authorizing : List (ℕ × String)
  rooms : String → Option ℕ
  /-- The keys of `roomLoading`. -/
  roomLoading : List String
  /-- The opens that wait for a room to load. -/
  waiting : List (ℕ × String)
  /-- How many rooms have been made, and how many handles given out. -/
  made : ℕ
  handles : ℕ

inductive PageEvent where
  /-- A connection asks for a document. -/
  | opens (conn : ℕ) (asked : String)
  /-- The authorisation of an open comes back, granted or refused. -/
  | authorized (conn : ℕ) (asked : String)
  | refused (conn : ℕ) (asked : String)
  /-- `DocumentRoom.open` resolves, or throws. -/
  | loaded (key : String)
  | failed (key : String)
  /-- A handle is closed, or its connection goes. -/
  | closes (conn handle : ℕ)
  | leaves (conn : ℕ)
  /-- The linger timer of an empty room fires. -/
  | lingers (key : String) (room : ℕ)
deriving DecidableEq, Repr

namespace PageServer

def idle : PageServer where
  documents := []
  handlesByPage := fun _ _ => none
  authorizing := []
  rooms := fun _ => none
  roomLoading := []
  waiting := []
  made := 0
  handles := 0

/-- The end of `handleOpen`: the connection subscribes to the room under a new handle. -/
def subscribe (s : PageServer) (room : ℕ) (waiter : ℕ × String) : PageServer :=
  { s with
    documents := s.documents ++ [⟨waiter.1, s.handles, waiter.2, room⟩]
    handlesByPage := Function.update s.handlesByPage waiter.1
      (Function.update (s.handlesByPage waiter.1) waiter.2 (some s.handles))
    handles := s.handles + 1 }

/-- `acquireRoom`: the room of the map, else the one that is loading, else one is loaded. -/
def acquireRoom (s : PageServer) (key : String) (waiter : ℕ × String) : PageServer :=
  match s.rooms key with
  | some room => s.subscribe room waiter
  | none =>
    { s with
      roomLoading := if key ∈ s.roomLoading then s.roomLoading else s.roomLoading ++ [key]
      waiting := s.waiting ++ [waiter] }

end PageServer

/-- One server, until it is shut down: its connections ask, wait, close and leave in any
order. `drainRooms`, which only tests call, is no event of it. -/
def pageServer (sha1 : List UInt8 → List UInt8) : Machine PageServer PageEvent where
  init s := s = .idle
  step s
    | .opens conn asked =>
      if acceptsOpen asked then
        if maxDocumentsPerConnection ≤ s.documents.countP (·.conn = conn) then some s
        -- the open is idempotent: a handle that is still open answers at once
        else if s.documents.any fun d =>
            d.conn = conn ∧ some d.handle = s.handlesByPage conn asked then
          some s
        else some { s with authorizing := s.authorizing ++ [(conn, asked)] }
      else none
    | .authorized conn asked =>
      if (conn, asked) ∈ s.authorizing then
        some ({ s with authorizing := s.authorizing.erase (conn, asked) }.acquireRoom
          (roomKey sha1 asked) (conn, asked))
      else none
    | .refused conn asked => some { s with authorizing := s.authorizing.erase (conn, asked) }
    | .loaded key =>
      if key ∈ s.roomLoading then
        some ((s.waiting.filter fun waiter => roomKey sha1 waiter.2 = key).foldl
          (fun t waiter => t.subscribe s.made waiter)
          { s with
            rooms := Function.update s.rooms key (some s.made)
            roomLoading := s.roomLoading.filter (· ≠ key)
            waiting := s.waiting.filter fun waiter => roomKey sha1 waiter.2 ≠ key
            made := s.made + 1 })
      else none
    | .failed key =>
      if key ∈ s.roomLoading then
        some { s with
          roomLoading := s.roomLoading.filter (· ≠ key)
          waiting := s.waiting.filter fun waiter => roomKey sha1 waiter.2 ≠ key }
      else none
    | .closes conn handle =>
      match s.documents.find? fun d => d.conn = conn ∧ d.handle = handle with
      | none => some s
      | some doc =>
        some { s with
          documents := s.documents.filter fun d => ¬(d.conn = conn ∧ d.handle = handle)
          handlesByPage := Function.update s.handlesByPage conn
            (Function.update (s.handlesByPage conn) (pageAsked doc.asked) none) }
    | .leaves conn =>
      some { s with
        documents := s.documents.filter fun d => d.conn ≠ conn
        handlesByPage := Function.update s.handlesByPage conn fun _ => none }
    | .lingers key room =>
      if s.rooms key = some room ∧ ∀ d ∈ s.documents, d.room ≠ room then
        some { s with rooms := Function.update s.rooms key none }
      else none

/-! ### One key, one room -/

/-- What holds of every server: a document that is open is in the room the map has for its
key, and no room stands under two keys. -/
structure PageServer.KeyedRooms (sha1 : List UInt8 → List UInt8) (s : PageServer) : Prop where
  made : ∀ (key : String) (room : ℕ), s.rooms key = some room → room < s.made
  apart : ∀ (key key' : String) (room : ℕ),
    s.rooms key = some room → s.rooms key' = some room → key = key'
  loading : ∀ key ∈ s.roomLoading, s.rooms key = none
  documents : ∀ d ∈ s.documents, s.rooms (roomKey sha1 d.asked) = some d.room
  accepted : (∀ d ∈ s.documents, acceptsOpen d.asked = true) ∧
    (∀ waiter ∈ s.authorizing, acceptsOpen waiter.2 = true) ∧
      ∀ waiter ∈ s.waiting, acceptsOpen waiter.2 = true

namespace PageServer

variable {sha1 : List UInt8 → List UInt8} {s s' : PageServer}

theorem KeyedRooms.subscribe (h : s.KeyedRooms sha1) {room : ℕ} {waiter : ℕ × String}
    (hroom : s.rooms (roomKey sha1 waiter.2) = some room)
    (haccepted : acceptsOpen waiter.2 = true) : (s.subscribe room waiter).KeyedRooms sha1 := by
  refine ⟨h.made, h.apart, h.loading, fun d hd => ?_, fun d hd => ?_, h.accepted.2⟩
  · rcases mem_append.mp hd with hd | hd
    · exact h.documents d hd
    · obtain rfl := mem_singleton.mp hd
      exact hroom
  · rcases mem_append.mp hd with hd | hd
    · exact h.accepted.1 d hd
    · obtain rfl := mem_singleton.mp hd
      exact haccepted

theorem KeyedRooms.foldl_subscribe {waiters : List (ℕ × String)} {room : ℕ}
    (h : s.KeyedRooms sha1)
    (hwaiters : ∀ waiter ∈ waiters, s.rooms (roomKey sha1 waiter.2) = some room ∧
      acceptsOpen waiter.2 = true) :
    (waiters.foldl (fun s waiter => s.subscribe room waiter) s).KeyedRooms sha1 := by
  induction waiters generalizing s with
  | nil => exact h
  | cons waiter waiters ih =>
    obtain ⟨hroom, haccepted⟩ := hwaiters waiter mem_cons_self
    exact ih (h.subscribe hroom haccepted) fun w hw => hwaiters w (mem_cons_of_mem _ hw)

theorem KeyedRooms.acquireRoom (h : s.KeyedRooms sha1) {waiter : ℕ × String}
    (haccepted : acceptsOpen waiter.2 = true) :
    (s.acquireRoom (roomKey sha1 waiter.2) waiter).KeyedRooms sha1 := by
  rw [PageServer.acquireRoom]
  cases hroom : s.rooms (roomKey sha1 waiter.2) with
  | some room => exact h.subscribe hroom haccepted
  | none =>
    refine ⟨h.made, h.apart, fun key hkey => ?_, h.documents, h.accepted.1, h.accepted.2.1, ?_⟩
    · by_cases hmem : roomKey sha1 waiter.2 ∈ s.roomLoading
      · exact h.loading key (by simpa [hmem] using hkey)
      · rcases (by simpa [hmem] using hkey : key ∈ s.roomLoading ∨ _) with hkey | rfl
        · exact h.loading key hkey
        · exact hroom
    · intro w hw
      rcases mem_append.mp hw with hw | hw
      · exact h.accepted.2.2 w hw
      · rwa [mem_singleton.mp hw]

/-- **A room that has loaded** stands alone under its key. -/
theorem KeyedRooms.loaded (h : s.KeyedRooms sha1) {key : String} (hkey : key ∈ s.roomLoading) :
    ({ s with
      rooms := Function.update s.rooms key (some s.made)
      roomLoading := s.roomLoading.filter (· ≠ key)
      waiting := s.waiting.filter fun waiter => roomKey sha1 waiter.2 ≠ key
      made := s.made + 1 } : PageServer).KeyedRooms sha1 := by
  have hnew : ∀ {k : String} {room : ℕ}, Function.update s.rooms key (some s.made) k = some room →
      k = key ∧ room = s.made ∨ k ≠ key ∧ s.rooms k = some room := by
    intro k room hk
    by_cases hkk : k = key
    · subst hkk
      rw [update_self] at hk
      exact .inl ⟨rfl, (Option.some.inj hk).symm⟩
    · rw [update_of_ne hkk] at hk
      exact .inr ⟨hkk, hk⟩
  have hnone := h.loading key hkey
  refine ⟨fun k room hk => ?_, fun k k' room hk hk' => ?_, fun k hk => ?_, fun d hd => ?_,
    h.accepted.1, h.accepted.2.1, fun w hw => h.accepted.2.2 w (mem_filter.mp hw).1⟩
  · rcases hnew hk with ⟨-, rfl⟩ | ⟨-, hk⟩
    · exact Nat.lt_succ_self _
    · exact Nat.lt_succ_of_lt (h.made k room hk)
  · rcases hnew hk with ⟨rfl, rfl⟩ | ⟨-, hk⟩
    · rcases hnew hk' with ⟨rfl, -⟩ | ⟨-, hk'⟩
      · rfl
      · exact absurd (h.made k' _ hk') (lt_irrefl _)
    · rcases hnew hk' with ⟨-, hroom⟩ | ⟨-, hk'⟩
      · exact absurd (h.made k room hk) (hroom ▸ lt_irrefl _)
      · exact h.apart k k' room hk hk'
  · obtain ⟨hk, hne⟩ := mem_filter.mp hk
    exact (update_of_ne (by simpa using hne) _ _).trans (h.loading k hk)
  · have hd := h.documents d hd
    refine (update_of_ne ?_ _ _).trans hd
    rintro heq
    rw [heq, hnone] at hd
    cases hd

/-- **No step breaks it.** -/
theorem KeyedRooms.step (h : s.KeyedRooms sha1) {e : PageEvent}
    (hstep : (pageServer sha1).step s e = some s') : s'.KeyedRooms sha1 := by
  cases e with
  | opens conn asked =>
    simp only [pageServer] at hstep
    split at hstep
    · rename_i haccepted
      split at hstep
      · exact Option.some.inj hstep ▸ h
      split at hstep
      · exact Option.some.inj hstep ▸ h
      · obtain rfl := Option.some.inj hstep
        refine ⟨h.made, h.apart, h.loading, h.documents, h.accepted.1, fun w hw => ?_,
          h.accepted.2.2⟩
        rcases mem_append.mp hw with hw | hw
        · exact h.accepted.2.1 w hw
        · rwa [mem_singleton.mp hw]
    · cases hstep
  | authorized conn asked =>
    simp only [pageServer] at hstep
    split at hstep
    · rename_i hmem
      obtain rfl := Option.some.inj hstep
      have herase : ({ s with
          authorizing := s.authorizing.erase (conn, asked) } : PageServer).KeyedRooms sha1 :=
        ⟨h.made, h.apart, h.loading, h.documents, h.accepted.1,
          fun w hw => h.accepted.2.1 w (mem_of_mem_erase hw), h.accepted.2.2⟩
      exact @KeyedRooms.acquireRoom _ _ herase (conn, asked) (h.accepted.2.1 _ hmem)
    · cases hstep
  | refused conn asked =>
    obtain rfl := Option.some.inj hstep
    exact ⟨h.made, h.apart, h.loading, h.documents, h.accepted.1,
      fun w hw => h.accepted.2.1 w (mem_of_mem_erase hw), h.accepted.2.2⟩
  | loaded key =>
    simp only [pageServer] at hstep
    split at hstep
    · rename_i hkey
      obtain rfl := Option.some.inj hstep
      refine (h.loaded hkey).foldl_subscribe fun w hw => ?_
      obtain ⟨hw, hwkey⟩ := mem_filter.mp hw
      refine ⟨?_, h.accepted.2.2 w hw⟩
      rw [of_decide_eq_true hwkey]
      exact update_self _ _ _
    · cases hstep
  | failed key =>
    simp only [pageServer] at hstep
    split at hstep
    · obtain rfl := Option.some.inj hstep
      exact ⟨h.made, h.apart, fun k hk => h.loading k (mem_filter.mp hk).1, h.documents,
        h.accepted.1, h.accepted.2.1, fun w hw => h.accepted.2.2 w (mem_filter.mp hw).1⟩
    · cases hstep
  | closes conn handle =>
    simp only [pageServer] at hstep
    split at hstep
    · exact Option.some.inj hstep ▸ h
    · obtain rfl := Option.some.inj hstep
      exact ⟨h.made, h.apart, h.loading, fun d hd => h.documents d (mem_filter.mp hd).1,
        fun d hd => h.accepted.1 d (mem_filter.mp hd).1, h.accepted.2⟩
  | leaves conn =>
    obtain rfl := Option.some.inj hstep
    exact ⟨h.made, h.apart, h.loading, fun d hd => h.documents d (mem_filter.mp hd).1,
      fun d hd => h.accepted.1 d (mem_filter.mp hd).1, h.accepted.2⟩
  | lingers key room =>
    simp only [pageServer] at hstep
    split at hstep
    · rename_i hempty
      obtain rfl := Option.some.inj hstep
      have hkept : ∀ {k : String} {r : ℕ}, Function.update s.rooms key none k = some r →
          s.rooms k = some r := by
        intro k r hk
        by_cases hkk : k = key
        · subst hkk
          rw [update_self] at hk
          cases hk
        · rwa [update_of_ne hkk] at hk
      refine ⟨fun k r hk => h.made k r (hkept hk),
        fun k k' r hk hk' => h.apart k k' r (hkept hk) (hkept hk'), fun k hk => ?_,
        fun d hd => ?_, h.accepted⟩
      · by_cases hkk : k = key
        · exact hkk ▸ update_self _ _ _
        · exact (update_of_ne hkk _ _).trans (h.loading k hk)
      · have hroom := h.documents d hd
        refine (update_of_ne ?_ _ _).trans hroom
        intro heq
        rw [heq, hempty.1] at hroom
        exact hempty.2 d hd (Option.some.inj hroom).symm
    · cases hstep

theorem keyedRooms_of_reaches (h : (pageServer sha1).Reaches s) : s.KeyedRooms sha1 := by
  refine h.invariant (fun s hs => ?_) fun s e s' hs hstep => hs.step hstep
  obtain rfl : s = .idle := hs
  exact ⟨nofun, nofun, nofun, nofun, nofun, nofun, nofun⟩

theorem KeyedRooms.room_eq_iff (h : s.KeyedRooms sha1) {a b : PageHandle}
    (ha : a ∈ s.documents) (hb : b ∈ s.documents) :
    a.room = b.room ↔ roomKey sha1 a.asked = roomKey sha1 b.asked := by
  have hrooma := h.documents a ha
  have hroomb := h.documents b hb
  constructor
  · intro heq
    exact h.apart _ _ _ hrooma (heq ▸ hroomb)
  · intro heq
    rw [heq, hroomb] at hrooma
    exact (Option.some.inj hrooma).symm

end PageServer

/-! ### One page, one room -/

theorem eq_of_readInternalRequest_eq {a b : String}
    (h : readInternalRequest a = readInternalRequest b) : a = b := by
  have hread : ∀ {s : String}, s.toList = (readInternalRequest s).1.toList ++
      if (readInternalRequest s).2 then internalSuffix.toList else [] := by
    intro s
    rw [readInternalRequest]
    split
    · rename_i hsuffix
      rw [String.toList_ofList, if_pos rfl]
      obtain ⟨page, hpage⟩ := isSuffixOf_iff_suffix.mp hsuffix
      rw [← hpage, length_append, Nat.add_sub_cancel, take_left]
    · simp
  rw [← String.toList_inj, hread, h, ← hread]

/-- **Two handles on one page share its room**, and the page gives one derived id, exactly
where it was asked for in one spelling, as far as the hash tells the two spellings apart. -/
theorem sameRoom_iff {sha1 : List UInt8 → List UInt8} {s : PageServer}
    (hreach : (pageServer sha1).Reaches s) {a b : PageHandle} (ha : a ∈ s.documents)
    (hb : b ∈ s.documents) (hsame : SameRequest a.asked b.asked)
    (hsha : internalName (pageAsked a.asked) ≠ internalName (pageAsked b.asked) →
      stampUuid (sha1 (internalName (pageAsked a.asked))) ≠
        stampUuid (sha1 (internalName (pageAsked b.asked)))) :
    (a.room = b.room ↔ a.asked = b.asked) ∧
      (internalDocId sha1 (pageAsked a.asked) = internalDocId sha1 (pageAsked b.asked) ↔
        a.asked = b.asked) := by
  have hkeyed := PageServer.keyedRooms_of_reaches hreach
  have hpage : pageAsked a.asked = pageAsked b.asked → a.asked = b.asked :=
    fun hpage => eq_of_readInternalRequest_eq (Prod.ext hpage hsame.kind)
  have hid : internalDocId sha1 (pageAsked a.asked) = internalDocId sha1 (pageAsked b.asked) →
      a.asked = b.asked := by
    intro hid
    have hname := not_imp_comm.mp hsha (not_not.mpr (stampUuid_eq_of_internalDocId_eq hid))
    exact hpage (eq_of_internalName_eq (hkeyed.accepted.1 a ha) (hkeyed.accepted.1 b hb) hname)
  refine ⟨⟨fun hroom => ?_, fun heq => (hkeyed.room_eq_iff ha hb).mpr (heq ▸ rfl)⟩,
    hid, fun heq => heq ▸ rfl⟩
  have hkey := (hkeyed.room_eq_iff ha hb).mp hroom
  rw [roomKey, roomKey, ← hsame.kind] at hkey
  by_cases hkind : isInternal a.asked = true
  · rw [if_pos hkind, if_pos hkind] at hkey
    exact hid hkey
  · rw [if_neg hkind, if_neg hkind] at hkey
    exact hpage hkey

/-! ### A page in two spellings -/

instance instDecidableSameRequest (a b : String) : Decidable (SameRequest a b) :=
  decidable_of_iff (uuidValue (pageAsked a) = uuidValue (pageAsked b) ∧ isInternal a = isInternal b)
    ⟨fun h => ⟨h.1, h.2⟩, fun h => ⟨h.page, h.kind⟩⟩

/-- A page whose id has a letter, and the same id in upper case. -/
def lowerPage : String := "0a000000-0000-0000-0000-000000000000"

def upperPage : String := "0A000000-0000-0000-0000-000000000000"

def sha1OfPages (bytes : List UInt8) : List UInt8 :=
  if bytes = internalName lowerPage then
    [0xdd, 0x44, 0xe4, 0xbc, 0x28, 0x17, 0xe6, 0xf5, 0x7f, 0x22, 0xa6, 0x7a, 0x32, 0x28, 0x0a,
      0x9d, 0x12, 0xfd, 0xf2, 0xc2]
  else if bytes = internalName upperPage then
    [0x0a, 0x33, 0x6c, 0x47, 0xd5, 0x06, 0x5a, 0xaf, 0xc3, 0xbc, 0x08, 0x96, 0x29, 0x7c, 0x69,
      0x8d, 0x88, 0x85, 0x05, 0xd5]
  else []

/-- Two connections open the internal comments of a page, each in its spelling. -/
def twoSpellings : List PageEvent :=
  [.opens 0 (lowerPage ++ internalSuffix), .authorized 0 (lowerPage ++ internalSuffix),
    .opens 1 (upperPage ++ internalSuffix), .authorized 1 (upperPage ++ internalSuffix),
    .loaded (roomKey sha1OfPages (lowerPage ++ internalSuffix)),
    .loaded (roomKey sha1OfPages (upperPage ++ internalSuffix))]

/-- The hypotheses can be met: both handles are open, for one document, under SHA-1. -/
theorem sameRoom_iff_twoSpellings : ∃ s, (pageServer sha1OfPages).Reaches s ∧
    ∃ a ∈ s.documents, ∃ b ∈ s.documents, a ≠ b ∧
      ((a.room = b.room ↔ a.asked = b.asked) ∧
        (internalDocId sha1OfPages (pageAsked a.asked) =
          internalDocId sha1OfPages (pageAsked b.asked) ↔ a.asked = b.asked)) := by
  obtain ⟨s, hs, a, ha, b, hb, hne, hsame, hsha⟩ :=
    @Machine.exists_reachesWhen_of_runWhen _ _ (pageServer sha1OfPages) (fun _ _ => True) .idle _
      twoSpellings (fun s => ∃ a ∈ s.documents, ∃ b ∈ s.documents, a ≠ b ∧
        SameRequest a.asked b.asked ∧ stampUuid (sha1OfPages (internalName (pageAsked a.asked))) ≠
          stampUuid (sha1OfPages (internalName (pageAsked b.asked)))) _ rfl (by decide +kernel)
  exact ⟨s, hs, a, ha, b, hb, hne, sameRoom_iff hs ha hb hsame fun _ => hsha⟩

/-- **One page, two rooms.** Two connections open a page, one in lower case and one in upper:
the page's row is one, the rooms are two. -/
theorem not_sameRoom_of_two_cases : ∃ s, (pageServer sha1OfPages).Reaches s ∧
    ∃ a ∈ s.documents, ∃ b ∈ s.documents, SameRequest a.asked b.asked ∧ a.room ≠ b.room ∧
      internalDocId sha1OfPages (pageAsked a.asked) ≠
        internalDocId sha1OfPages (pageAsked b.asked) :=
  @Machine.exists_reachesWhen_of_runWhen _ _ (pageServer sha1OfPages) (fun _ _ => True) .idle _
    [.opens 0 lowerPage, .authorized 0 lowerPage, .opens 1 upperPage, .authorized 1 upperPage,
      .loaded lowerPage, .loaded upperPage]
    (fun s => ∃ a ∈ s.documents, ∃ b ∈ s.documents, SameRequest a.asked b.asked ∧
      a.room ≠ b.room ∧ internalDocId sha1OfPages (pageAsked a.asked) ≠
        internalDocId sha1OfPages (pageAsked b.asked)) _ rfl (by decide +kernel)

end Sone
