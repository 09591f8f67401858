import Sone.Transition.Machine
import Mathlib.Data.List.MinMax
import Mathlib.Data.List.Nodup

/-!
# Who wrote what is on a page

The map `users` of a document says which clients a person wrote as. `recordAttribution` writes it
where a session opens a page, and `pruneAttribution` takes out of it, whenever the server changes
the page, who has nothing on it. `attribution` is the machine of any number of sessions and of
changes by the server, each at any part of the updates there are.

A document is its updates, and two of them are merged by taking both. Where a key of `users` was set
several times, one of the maps is its value: what is set later by someone who knows the others, and
of those who did not know of each other, one that all agree on. That is an order of the entries, and
all that the results here ask of it. A session whose map is not the value any more ports its
client to the one that is (`Event.ports`).

`Attributed` is what should hold once the updates are delivered. It does not where a person is
pruned who has the page open and has not typed yet, nor where the map of a session takes the place
of one that nobody is there to port: `attributed_of_guarded` says that nothing else goes wrong.
-/

namespace Sone

open List Option

universe u

namespace Attribution

variable {ι : Type u}

/-- **A document**, as updates. An entry of `users` has its place in the order in which a later one
is the value of a key. -/
structure Doc (ι : Type u) where
  /-- `users.set(key, new Y.Map())` -/
  entries : List (ι × String)
  /-- `ids.push([client])` -/
  ids : List (ι × ℕ)
  /-- The entries that `users.delete(key)` deletes. -/
  removed : List ι
  /-- The items of the other roots, and by which client each is. -/
  items : List (ℕ × ℕ)
  /-- The items that are deleted. -/
  deleted : List ℕ

namespace Doc

def empty : Doc ι := { entries := [], ids := [], removed := [], items := [], deleted := [] }

def merge (doc other : Doc ι) : Doc ι where
  entries := doc.entries ++ other.entries
  ids := doc.ids ++ other.ids
  removed := doc.removed ++ other.removed
  items := doc.items ++ other.items
  deleted := doc.deleted ++ other.deleted

def Part (known doc : Doc ι) : Prop :=
  known.entries ⊆ doc.entries ∧ known.ids ⊆ doc.ids ∧ known.removed ⊆ doc.removed ∧
    known.items ⊆ doc.items ∧ known.deleted ⊆ doc.deleted

variable [LinearOrder ι]

/-- `users.get(key)` -/
def current (doc : Doc ι) (key : String) : Option ι :=
  ((doc.entries.filter (·.2 = key)).map Prod.fst).max?.filter (· ∉ doc.removed)

end Doc

/-! ### The functions -/

def liveClientIds (doc : Doc ι) : List ℕ :=
  (doc.items.filter (·.1 ∉ doc.deleted)).map Prod.snd

variable [LinearOrder ι]

def newEntry (key : String) (client : ℕ) (place : ι) : Doc ι :=
  { Doc.empty with entries := [(place, key)], ids := [(place, client)] }

/-- What `recordAttribution` writes, with the place of an entry it makes. -/
def recordAttribution (doc : Doc ι) (key : String) (client : ℕ) (place : ι) : Doc ι :=
  match doc.current key with
  | some entry =>
    if (entry, client) ∈ doc.ids then .empty else { Doc.empty with ids := [(entry, client)] }
  | none => newEntry key client place

/-- The entries that `pruneAttribution` deletes. -/
def prunedEntries (doc : Doc ι) : List ι :=
  (doc.entries.filter fun entry => doc.current entry.2 = some entry.1 ∧
    ¬ ∃ id ∈ doc.ids, id.1 = entry.1 ∧ id.2 ∈ liveClientIds doc).map Prod.fst

/-- What `pruneAttribution` writes. -/
def pruneAttribution (doc : Doc ι) : Doc ι := { Doc.empty with removed := prunedEntries doc }

/-- What `applyToDocument` writes: what it is to change of a document, and then what is pruned. -/
def applyToDocument (doc mutation : Doc ι) : Doc ι :=
  mutation.merge (pruneAttribution (doc.merge mutation))

/-- `authorsByClient(doc).get(client)` -/
def authorsByClient (doc : Doc ι) (client : ℕ) : Option String :=
  (doc.entries.filter fun entry => doc.current entry.2 = some entry.1 ∧
    (entry.1, client) ∈ doc.ids).getLast?.map Prod.snd

/-! ### Sessions -/

structure Session where
  client : ℕ
  key : String
  isOpen : Bool
  deriving DecidableEq

structure State (ι : Type u) where
  doc : Doc ι
  sessions : List Session

/-- What may happen. What a party knows are some of the updates. -/
inductive Event (ι : Type u) where
  /-- A session opens the page and is recorded. -/
  | opens (known : Doc ι) (client : ℕ) (key : String) (place : ι)
  /-- A client writes an item. -/
  | types (client item : ℕ)
  | deletes (item : ℕ)
  /-- A session is over: its client writes no more. -/
  | closes (client : ℕ)
  /-- A session whose entry is not the value any more ports the clients it knows of. -/
  | ports (known : Doc ι) (client : ℕ) (others : List ℕ)
  /-- `applyToDocument`, of what it loaded. -/
  | applies (known : Doc ι) (items : List (ℕ × ℕ)) (deleted : List ℕ)

variable {s s' : State ι} {e : Event ι}

def State.writes (s : State ι) (written : Doc ι) : State ι :=
  { s with doc := s.doc.merge written }

def State.IsNew (s : State ι) (client : ℕ) : Prop :=
  (∀ session ∈ s.sessions, session.client ≠ client) ∧ ∀ item ∈ s.doc.items, item.2 ≠ client

/-- Whether an entry may be made at a place: no other is there, and it is behind those of its key
that are known. -/
def State.MayEnter (s : State ι) (known : Doc ι) (key : String) (place : ι) : Prop :=
  (∀ entry ∈ s.doc.entries, entry.1 ≠ place) ∧
    ∀ entry ∈ known.entries, entry.2 = key → entry.1 < place

def Doc.Lists (known : Doc ι) (key : String) (clients : List ℕ) : Prop :=
  ∀ client ∈ clients, ∃ entry ∈ known.entries, entry.2 = key ∧ (entry.1, client) ∈ known.ids

instance (known doc : Doc ι) : Decidable (known.Part doc) :=
  inferInstanceAs (Decidable (known.entries ⊆ doc.entries ∧ _))

instance (client : ℕ) : Decidable (s.IsNew client) := inferInstanceAs (Decidable (_ ∧ _))

instance (known : Doc ι) (key : String) (place : ι) : Decidable (s.MayEnter known key place) :=
  inferInstanceAs (Decidable (_ ∧ _))

instance (known : Doc ι) (key : String) (clients : List ℕ) : Decidable (known.Lists key clients) :=
  inferInstanceAs (Decidable (∀ _ ∈ _, _))

/-- The state after an event, or `none` where it cannot happen. -/
def step (s : State ι) : Event ι → Option (State ι)
  | .opens known client key place =>
    if known.Part s.doc ∧ s.IsNew client ∧ s.MayEnter known key place then
      some {
        doc := s.doc.merge (recordAttribution known key client place)
        sessions := { client, key, isOpen := true } :: s.sessions }
    else none
  | .types client item =>
    if (∀ other ∈ s.doc.items, other.1 ≠ item) ∧
        ∀ session ∈ s.sessions, session.client = client → session.isOpen = true then
      some (s.writes { Doc.empty with items := [(item, client)] })
    else none
  | .deletes item => some (s.writes { Doc.empty with deleted := [item] })
  | .closes client =>
    some { s with
      sessions := s.sessions.map fun session =>
        if session.client = client then { session with isOpen := false } else session }
  | .ports known client others =>
    (s.sessions.find? fun session => session.client = client && session.isOpen).bind fun session =>
      (known.current session.key).bind fun entry =>
        if known.Part s.doc ∧ known.Lists session.key others then
          some (s.writes { Doc.empty with ids := (client :: others).map (entry, ·) })
        else none
  | .applies known items deleted =>
    if known.Part s.doc ∧ ∀ item ∈ items, (∀ other ∈ s.doc.items, other.1 ≠ item.1) ∧
        ∀ session ∈ s.sessions, session.client ≠ item.2 then
      some (s.writes (applyToDocument known { Doc.empty with items, deleted }))
    else none

end Attribution

open Attribution in
/-- **The attribution of a page**, from one that nobody has opened yet. -/
def attribution (ι : Type u) [LinearOrder ι] : Machine (State ι) (Event ι) where
  init s := s = { doc := .empty, sessions := [] }
  step := Attribution.step

namespace Attribution

variable {ι : Type u} [LinearOrder ι] {s s' : State ι} {e : Event ι} {doc known written : Doc ι}
  {key key' : String} {place entry : ι} {client : ℕ} {session : Session}

/-! ### What should hold -/

/-- **The updates are delivered**: every session that is open has ported its client to the entry
that is the value by all of them. -/
def Delivered (s : State ι) : Prop :=
  ∀ session ∈ s.sessions, session.isOpen = true →
    ∀ entry, s.doc.current session.key = some entry → (entry, session.client) ∈ s.doc.ids

/-- **What is on the page is attributed**: where something of a client that was recorded is left,
the client is its person's. -/
def Attributed (s : State ι) : Prop :=
  ∀ session ∈ s.sessions, session.client ∈ liveClientIds s.doc →
    authorsByClient s.doc session.client = some session.key

/-- Whether something is left of a session that is over and was a person's. -/
def State.LeftBehind (s : State ι) (key : String) : Prop :=
  ∃ session ∈ s.sessions, session.key = key ∧ session.isOpen = false ∧
    session.client ∈ liveClientIds s.doc

/-- **Nobody's name is taken away** by an event who needs it.

A session that opens does not make its entry before one of its person that was pruned; it does not
make it behind all those of its person if something is left of a session that is over; and it is not
listed in an entry where its person has none by all updates. A session is over when nothing of it is
left, or it is listed in the entry that is the value by all updates. And the server prunes who has
no session that is open, and nothing on the page by all updates. -/
def Guarded (s : State ι) : Event ι → Prop
  | .opens known _ key place =>
    match known.current key with
    | some _ => (s.doc.current key).isSome
    | none =>
      (∀ entry ∈ s.doc.entries, entry.2 = key → entry.1 ∈ s.doc.removed → entry.1 < place) ∧
        ((∀ entry ∈ s.doc.entries, entry.2 = key → entry.1 < place) → ¬ s.LeftBehind key)
  | .closes client =>
    ∀ session ∈ s.sessions, session.client = client → client ∈ liveClientIds s.doc →
      ∃ entry ∈ s.doc.entries, s.doc.current session.key = some entry.1 ∧
        (entry.1, client) ∈ s.doc.ids
  | .applies known items deleted =>
    let mutation : Doc ι := { Doc.empty with items, deleted }
    ∀ pruned ∈ prunedEntries (known.merge mutation), ∀ entry ∈ s.doc.entries, entry.1 = pruned →
      ∀ session ∈ s.sessions, session.key = entry.2 →
        session.isOpen = false ∧ session.client ∉ liveClientIds (s.doc.merge mutation)
  | _ => True

/-! ### The value of a key -/

theorem current_eq_some_iff : doc.current key = some entry ↔ (entry, key) ∈ doc.entries ∧
    (∀ other, (other, key) ∈ doc.entries → other ≤ entry) ∧ entry ∉ doc.removed := by
  rw [Doc.current, filter_eq_some_iff, List.max?_eq_some_iff]
  simp only [List.mem_map, mem_filter, decide_eq_true_eq, Prod.exists, and_assoc]
  constructor
  · rintro ⟨⟨a, b, hmem, rfl, rfl⟩, hmax, hremoved⟩
    exact ⟨hmem, fun other hother => hmax other ⟨other, b, hother, rfl, rfl⟩, hremoved⟩
  · rintro ⟨hmem, hmax, hremoved⟩
    refine ⟨⟨entry, key, hmem, rfl, rfl⟩, ?_, hremoved⟩
    rintro _ ⟨other, _, hother, rfl, rfl⟩
    exact hmax other hother

theorem exists_last (h : (entry, key) ∈ doc.entries) :
    ∃ last, (last, key) ∈ doc.entries ∧ ∀ other, (other, key) ∈ doc.entries → other ≤ last := by
  have hmem : entry ∈ (doc.entries.filter (·.2 = key)).map Prod.fst :=
    List.mem_map.mpr ⟨(entry, key), mem_filter.mpr ⟨h, by simp⟩, rfl⟩
  obtain ⟨last, hlast⟩ := isSome_iff_exists.mp
    (List.isSome_max?_of_mem hmem)
  rw [List.max?_eq_some_iff] at hlast
  obtain ⟨hin, hmax⟩ := hlast
  simp only [List.mem_map, mem_filter, decide_eq_true_eq, Prod.exists] at hin
  obtain ⟨a, b, ⟨hentry, rfl⟩, rfl⟩ := hin
  exact ⟨a, hentry, fun other hother => hmax other
    (List.mem_map.mpr ⟨(other, b), mem_filter.mpr ⟨hother, by simp⟩, rfl⟩)⟩

theorem current_merge (hentries : written.entries = []) (hremoved : written.removed = []) :
    (doc.merge written).current key = doc.current key := by
  simp only [Doc.current, Doc.merge, hentries, hremoved, append_nil]

omit [LinearOrder ι] in
theorem liveClientIds_merge (hitems : written.items = []) (hdeleted : written.deleted = []) :
    liveClientIds (doc.merge written) = liveClientIds doc := by
  simp only [liveClientIds, Doc.merge, hitems, hdeleted, append_nil]

omit [LinearOrder ι] in
theorem mem_liveClientIds_iff :
    client ∈ liveClientIds doc ↔ ∃ item, (item, client) ∈ doc.items ∧ item ∉ doc.deleted := by
  simp [liveClientIds]

/-! ### The invariant -/

/-- **Who is on a page is there.** Entries and sessions are known by their places and clients; every
client that is listed is one of a session, in an entry of its person; a person with a session that
is open, or with something left, has an entry; and what is left of a session that is over is listed
in it. -/
structure Kept (s : State ι) : Prop where
  unique : ∀ entry key key', (entry, key) ∈ s.doc.entries → (entry, key') ∈ s.doc.entries →
    key = key'
  removed : ∀ entry ∈ s.doc.removed, ∃ key, (entry, key) ∈ s.doc.entries
  clients : (s.sessions.map (·.client)).Nodup
  listed : ∀ entry client, (entry, client) ∈ s.doc.ids → ∃ session ∈ s.sessions,
    session.client = client ∧ (entry, session.key) ∈ s.doc.entries
  present : ∀ session ∈ s.sessions, session.isOpen = true ∨
    session.client ∈ liveClientIds s.doc → ∃ entry, s.doc.current session.key = some entry
  left : ∀ session ∈ s.sessions, session.isOpen = false →
    session.client ∈ liveClientIds s.doc →
      ∃ entry, s.doc.current session.key = some entry ∧ (entry, session.client) ∈ s.doc.ids

theorem Kept.eq_of_client (h : Kept s) {session session' : Session} (hmem : session ∈ s.sessions)
    (hmem' : session' ∈ s.sessions) (hclient : session.client = session'.client) :
    session = session' :=
  inj_on_of_nodup_map h.clients hmem hmem' hclient

theorem Kept.attributed (h : Kept s) (hdelivered : Delivered s) : Attributed s := by
  intro session hsession hlive
  obtain ⟨entry, hcurrent, hid⟩ : ∃ entry, s.doc.current session.key = some entry ∧
      (entry, session.client) ∈ s.doc.ids := by
    cases hopen : session.isOpen with
    | false => exact h.left session hsession hopen hlive
    | true =>
      obtain ⟨entry, hcurrent⟩ := h.present session hsession (.inl hopen)
      exact ⟨entry, hcurrent, hdelivered session hsession hopen entry hcurrent⟩
  have hmem : (entry, session.key) ∈ s.doc.entries.filter fun entry =>
      s.doc.current entry.2 = some entry.1 ∧ (entry.1, session.client) ∈ s.doc.ids :=
    mem_filter.mpr ⟨(current_eq_some_iff.mp hcurrent).1, by simp [hcurrent, hid]⟩
  obtain ⟨last, hlast⟩ := isSome_iff_exists.mp
    (List.getLast?_isSome.mpr (ne_nil_of_mem hmem))
  have hlastMem := mem_filter.mp (mem_of_getLast? hlast)
  simp only [decide_eq_true_eq] at hlastMem
  -- whatever entry comes last, it lists the client under the key of its session
  obtain ⟨other, hother, hclient, hentry⟩ := h.listed last.1 session.client hlastMem.2.2
  have hsame := h.eq_of_client hother hsession hclient
  rw [authorsByClient, hlast, map_some,
    h.unique last.1 last.2 session.key hlastMem.1 (hsame ▸ hentry)]

theorem Kept.writes (h : Kept s) (hentries : written.entries = []) (hremoved : written.removed = [])
    (hids : ∀ entry client, (entry, client) ∈ written.ids → ∃ session ∈ s.sessions,
      session.client = client ∧ (entry, session.key) ∈ s.doc.entries)
    (hlive : ∀ session ∈ s.sessions, session.client ∈ liveClientIds (s.doc.merge written) →
      session.isOpen = true ∨ session.client ∈ liveClientIds s.doc) : Kept (s.writes written) := by
  have hsame : (s.doc.merge written).entries = s.doc.entries := by
    simp only [Doc.merge, hentries, append_nil]
  have hcurrent : ∀ key, (s.doc.merge written).current key = s.doc.current key :=
    fun key => current_merge hentries hremoved
  refine ⟨?_, ?_, h.clients, fun entry client hid => ?_, fun session hsession hneeds => ?_,
    fun session hsession hover hleft => ?_⟩
  · simpa only [State.writes, hsame] using h.unique
  · simpa only [State.writes, Doc.merge, hremoved, hentries, append_nil] using h.removed
  · simp only [State.writes, hsame]
    rcases mem_append.mp hid with hold | hnew
    · exact h.listed entry client hold
    · exact hids entry client hnew
  · rw [State.writes, hcurrent]
    exact h.present session hsession (hneeds.elim .inl (hlive session hsession))
  · obtain ⟨entry, hentry, hid⟩ := h.left session hsession hover
      ((hlive session hsession hleft).resolve_left (by simp [hover]))
    exact ⟨entry, (hcurrent _).trans hentry, mem_append_left _ hid⟩

/-! ### Steps -/

/-- A session that makes an entry of its own. -/
theorem kept_enters (h : Kept s) (hnew : s.IsNew client)
    (hplace : ∀ entry ∈ s.doc.entries, entry.1 ≠ place)
    (hpruned : ∀ entry ∈ s.doc.entries, entry.2 = key → entry.1 ∈ s.doc.removed → entry.1 < place)
    (hbehind : (∀ entry ∈ s.doc.entries, entry.2 = key → entry.1 < place) →
      ¬ s.LeftBehind key) :
    Kept {
      doc := s.doc.merge (newEntry key client place)
      sessions := { client, key, isOpen := true } :: s.sessions } := by
  have hentries : ∀ {entry k}, (entry, k) ∈ (s.doc.merge (newEntry key client place)).entries ↔
      (entry, k) ∈ s.doc.entries ∨ (entry = place ∧ k = key) := by
    simp [Doc.merge, newEntry]
  have hids : ∀ {entry c}, (entry, c) ∈ (s.doc.merge (newEntry key client place)).ids ↔
      (entry, c) ∈ s.doc.ids ∨ (entry = place ∧ c = client) := by
    simp [Doc.merge, newEntry]
  have hremoved : (s.doc.merge (newEntry key client place)).removed = s.doc.removed := by
    simp [Doc.merge, newEntry, Doc.empty]
  have hlive : liveClientIds (s.doc.merge (newEntry key client place)) = liveClientIds s.doc :=
    liveClientIds_merge rfl rfl
  have hfresh : place ∉ s.doc.removed := fun hmem => by
    obtain ⟨k, hk⟩ := h.removed place hmem
    exact hplace _ hk rfl
  -- the entry that is the value before is so after, unless the new one is behind it
  have hstays : ∀ {entry k}, s.doc.current k = some entry → (k = key → place < entry) →
      (s.doc.merge (newEntry key client place)).current k = some entry :=
    fun {entry k} hcurrent hbefore => by
      obtain ⟨hmem, hmax, hkept⟩ := current_eq_some_iff.mp hcurrent
      refine current_eq_some_iff.mpr
        ⟨hentries.mpr (.inl hmem), fun other hother => ?_, hremoved ▸ hkept⟩
      rcases hentries.mp hother with hold | ⟨rfl, rfl⟩
      · exact hmax other hold
      · exact (hbefore rfl).le
  have hvalue : ∃ entry, (s.doc.merge (newEntry key client place)).current key = some entry := by
    obtain ⟨last, hlast, hmax⟩ := exists_last (hentries.mpr (.inr ⟨rfl, rfl⟩))
    refine ⟨last, current_eq_some_iff.mpr ⟨hlast, hmax, fun hprunedLast => ?_⟩⟩
    rw [hremoved] at hprunedLast
    rcases hentries.mp hlast with hold | ⟨rfl, -⟩
    · exact absurd (hmax place (hentries.mpr (.inr ⟨rfl, rfl⟩)))
        (not_le.mpr (hpruned _ hold rfl hprunedLast))
    · exact hfresh hprunedLast
  refine ⟨fun entry k k' hk hk' => ?_, fun entry hentry => ?_, ?_, fun entry c hid => ?_,
    fun session hsession hneeds => ?_, fun session hsession hover hleft => ?_⟩
  · rcases hentries.mp hk with hold | ⟨rfl, rfl⟩
    · rcases hentries.mp hk' with hold' | ⟨rfl, rfl⟩
      · exact h.unique entry k k' hold hold'
      · exact absurd rfl (hplace _ hold)
    · rcases hentries.mp hk' with hold' | ⟨-, rfl⟩
      · exact absurd rfl (hplace _ hold')
      · rfl
  · rw [hremoved] at hentry
    obtain ⟨k, hk⟩ := h.removed entry hentry
    exact ⟨k, hentries.mpr (.inl hk)⟩
  · refine nodup_cons.mpr ⟨fun hmem => ?_, h.clients⟩
    obtain ⟨session, hsession, hclient⟩ := List.mem_map.mp hmem
    exact hnew.1 session hsession hclient
  · rcases hids.mp hid with hold | ⟨rfl, rfl⟩
    · obtain ⟨session, hsession, hclient, hentry⟩ := h.listed entry c hold
      exact ⟨session, mem_cons_of_mem _ hsession, hclient, hentries.mpr (.inl hentry)⟩
    · exact ⟨_, mem_cons_self, rfl, hentries.mpr (.inr ⟨rfl, rfl⟩)⟩
  · rw [hlive] at hneeds
    rcases mem_cons.mp hsession with rfl | hsession
    · exact hvalue
    · by_cases hkey : session.key = key
      · exact hkey ▸ hvalue
      · obtain ⟨entry, hcurrent⟩ := h.present session hsession hneeds
        exact ⟨entry, hstays hcurrent fun hsame => absurd hsame hkey⟩
  · rw [hlive] at hleft
    rcases mem_cons.mp hsession with rfl | hsession
    · cases hover
    · obtain ⟨entry, hcurrent, hid⟩ := h.left session hsession hover hleft
      refine ⟨entry, hstays hcurrent fun hkey => ?_, hids.mpr (.inl hid)⟩
      -- were the new entry behind it, it would be behind all of the person
      obtain ⟨hmem, hmax, -⟩ := current_eq_some_iff.mp hcurrent
      by_contra hnot
      have hlt : entry < place := lt_of_le_of_ne (not_lt.mp hnot) (hplace _ hmem)
      refine hbehind (fun other hother hsame => ?_) ⟨session, hsession, hkey, hover, hleft⟩
      exact (hmax other.1 (by rw [hkey, ← hsame]; exact hother)).trans_lt hlt

theorem kept_session (h : Kept s) (hnew : s.IsNew client)
    (hvalue : (s.doc.current key).isSome = true) :
    Kept { s with sessions := { client, key, isOpen := true } :: s.sessions } := by
  refine ⟨h.unique, h.removed, nodup_cons.mpr ⟨fun hmem => ?_, h.clients⟩,
    fun entry c hid => ?_, fun session hsession hneeds => ?_,
    fun session hsession hover hleft => ?_⟩
  · obtain ⟨session, hsession, hclient⟩ := List.mem_map.mp hmem
    exact hnew.1 session hsession hclient
  · obtain ⟨session, hsession, hclient, hentry⟩ := h.listed entry c hid
    exact ⟨session, mem_cons_of_mem _ hsession, hclient, hentry⟩
  · rcases mem_cons.mp hsession with rfl | hsession
    · exact isSome_iff_exists.mp hvalue
    · exact h.present session hsession hneeds
  · rcases mem_cons.mp hsession with rfl | hsession
    · cases hover
    · exact h.left session hsession hover hleft

theorem kept_opens (h : Kept s) (hguard : Guarded s (.opens known client key place))
    (hstep : step s (.opens known client key place) = some s') : Kept s' := by
  simp only [step] at hstep
  split_ifs at hstep with hmay
  obtain ⟨hpart, hnew, hplace, -⟩ := hmay
  cases hstep
  cases hcurrent : known.current key with
  | none =>
    rw [Guarded, hcurrent] at hguard
    rw [recordAttribution, hcurrent]
    exact kept_enters h hnew hplace hguard.1 hguard.2
  | some entry =>
    rw [Guarded, hcurrent] at hguard
    rw [recordAttribution, hcurrent]
    have hentry := hpart.1 (current_eq_some_iff.mp hcurrent).1
    refine (kept_session h hnew hguard).writes ?_ ?_ (fun other c hid => ?_)
      (fun session _ hleft => .inr ?_)
    · dsimp only
      split_ifs
      · rfl
      · rfl
    · dsimp only
      split_ifs
      · rfl
      · rfl
    · dsimp only at hid
      split_ifs at hid
      · cases hid
      · cases mem_singleton.mp hid
        exact ⟨_, mem_cons_self, rfl, hentry⟩
    · dsimp only at hleft
      split_ifs at hleft
      · rwa [liveClientIds_merge rfl rfl] at hleft
      · rwa [liveClientIds_merge rfl rfl] at hleft

theorem kept_types {item : ℕ} (h : Kept s) (hstep : step s (.types client item) = some s') :
    Kept s' := by
  simp only [step] at hstep
  split_ifs at hstep with hmay
  cases hstep
  refine h.writes rfl rfl (fun _ _ hid => by cases hid) fun session hsession hleft => ?_
  obtain ⟨other, hother, hkept⟩ := mem_liveClientIds_iff.mp hleft
  simp only [Doc.merge, Doc.empty, append_nil, mem_append, mem_singleton,
    Prod.mk.injEq] at hother hkept
  rcases hother with hold | ⟨-, hclient⟩
  · exact .inr (mem_liveClientIds_iff.mpr ⟨other, hold, hkept⟩)
  · exact .inl (hmay.2 session hsession hclient)

theorem kept_deletes (h : Kept s) (item : ℕ) :
    Kept (s.writes { Doc.empty with deleted := [item] }) := by
  refine h.writes rfl rfl (fun _ _ hid => by cases hid) fun session _ hleft => .inr ?_
  obtain ⟨other, hother, hkept⟩ := mem_liveClientIds_iff.mp hleft
  simp only [Doc.merge, Doc.empty, append_nil, mem_append, not_or] at hother hkept
  exact mem_liveClientIds_iff.mpr ⟨other, hother, hkept.1⟩

theorem kept_closes (h : Kept s) (hguard : Guarded s (.closes client)) :
    Kept { s with
      sessions := s.sessions.map fun session =>
        if session.client = client then { session with isOpen := false } else session } := by
  have hold : ∀ session ∈ s.sessions.map fun session =>
      if session.client = client then { session with isOpen := false } else session,
      ∃ old ∈ s.sessions, session.client = old.client ∧ session.key = old.key ∧
        (session.isOpen = true → old.isOpen = true) ∧
          (session.isOpen = false → old.isOpen = false ∨ old.client = client) :=
    fun session hsession => by
      obtain ⟨old, hmem, rfl⟩ := List.mem_map.mp hsession
      refine ⟨old, hmem, ?_⟩
      split_ifs with hclient
      · exact ⟨rfl, rfl, nofun, fun _ => .inr hclient⟩
      · exact ⟨rfl, rfl, id, .inl⟩
  refine ⟨h.unique, h.removed, ?_, fun entry c hid => ?_, fun session hsession hneeds => ?_,
    fun session hsession hover hleft => ?_⟩
  · have hclients : (s.sessions.map fun session =>
        if session.client = client then { session with isOpen := false } else session).map
          (·.client) = s.sessions.map (·.client) := by
      rw [List.map_map]
      refine map_congr_left fun session _ => ?_
      simp only [Function.comp_apply]
      split_ifs
      · rfl
      · rfl
    rw [hclients]
    exact h.clients
  · obtain ⟨session, hsession, hclient, hentry⟩ := h.listed entry c hid
    refine ⟨_, List.mem_map_of_mem hsession, ?_⟩
    split_ifs
    · exact ⟨hclient, hentry⟩
    · exact ⟨hclient, hentry⟩
  · obtain ⟨old, hmem, hclient, hkey, hopen, -⟩ := hold session hsession
    rw [hclient] at hneeds
    rw [hkey]
    exact h.present old hmem (hneeds.imp_left hopen)
  · obtain ⟨old, hmem, hclient, hkey, -, hwas⟩ := hold session hsession
    rw [hclient] at hleft ⊢
    rw [hkey]
    rcases hwas hover with hover' | hsame
    · exact h.left old hmem hover' hleft
    · obtain ⟨entry, -, hcurrent, hid⟩ := hguard old hmem hsame (hsame ▸ hleft)
      exact ⟨entry.1, hcurrent, hsame ▸ hid⟩

theorem kept_ports {others : List ℕ} (h : Kept s)
    (hstep : step s (.ports known client others) = some s') : Kept s' := by
  simp only [step] at hstep
  obtain ⟨session, hfound, hstep⟩ := bind_eq_some_iff.mp hstep
  obtain ⟨entry, hcurrent, hstep⟩ := bind_eq_some_iff.mp hstep
  split_ifs at hstep with hmay
  cases hstep
  have hentry := hmay.1.1 (current_eq_some_iff.mp hcurrent).1
  have hsession := List.mem_of_find?_eq_some hfound
  have hclient := List.find?_some hfound
  simp only [Bool.and_eq_true, decide_eq_true_eq] at hclient
  refine h.writes rfl rfl (fun other c hid => ?_) fun _ _ hleft => .inr ?_
  · obtain ⟨c', hmem, heq⟩ := List.mem_map.mp hid
    cases heq
    rcases mem_cons.mp hmem with rfl | hother
    · exact ⟨session, hsession, hclient.1, hentry⟩
    · -- who is known under the key is one of the same person
      obtain ⟨listed, hlisted, hkey, hold⟩ := hmay.2 c hother
      obtain ⟨owner, howner, hsame, howns⟩ := h.listed listed.1 c (hmay.1.2.1 hold)
      have hsameKey := h.unique listed.1 listed.2 owner.key (hmay.1.1 hlisted) howns
      exact ⟨owner, howner, hsame, by rw [← hsameKey, hkey]; exact hentry⟩
  · rwa [liveClientIds_merge rfl rfl] at hleft

theorem kept_applies {items : List (ℕ × ℕ)} {deleted : List ℕ} (h : Kept s)
    (hguard : Guarded s (.applies known items deleted))
    (hstep : step s (.applies known items deleted) = some s') : Kept s' := by
  simp only [step] at hstep
  split_ifs at hstep with hmay
  cases hstep
  obtain ⟨hpart, hserver⟩ := hmay
  obtain ⟨mutation, hmutation⟩ : ∃ mutation : Doc ι, mutation = { Doc.empty with items, deleted } :=
    ⟨_, rfl⟩
  rw [Guarded] at hguard
  dsimp only at hguard
  rw [← hmutation] at hguard ⊢
  have hitems : mutation.items = items := by rw [hmutation]
  have hentries : (s.doc.merge (applyToDocument known mutation)).entries = s.doc.entries := by
    simp [Doc.merge, applyToDocument, pruneAttribution, Doc.empty, hmutation]
  have hids : (s.doc.merge (applyToDocument known mutation)).ids = s.doc.ids := by
    simp [Doc.merge, applyToDocument, pruneAttribution, Doc.empty, hmutation]
  have hremoved : (s.doc.merge (applyToDocument known mutation)).removed =
      s.doc.removed ++ prunedEntries (known.merge mutation) := by
    simp [Doc.merge, applyToDocument, pruneAttribution, Doc.empty, hmutation]
  have hlive : liveClientIds (s.doc.merge (applyToDocument known mutation)) =
      liveClientIds (s.doc.merge mutation) := by
    simp [liveClientIds, Doc.merge, applyToDocument, pruneAttribution, Doc.empty]
  have hpruned : ∀ entry ∈ prunedEntries (known.merge mutation), ∃ key,
      (entry, key) ∈ s.doc.entries := fun entry hentry => by
    obtain ⟨⟨place, key⟩, hmem, rfl⟩ := List.mem_map.mp hentry
    refine ⟨key, hpart.1 ?_⟩
    simpa [Doc.merge, hmutation, Doc.empty] using (mem_filter.mp hmem).1
  -- what is left of a session was so before, for the server writes as a client of its own
  have hbefore : ∀ session ∈ s.sessions, session.client ∈ liveClientIds (s.doc.merge mutation) →
      session.client ∈ liveClientIds s.doc := fun session hsession hleft => by
    obtain ⟨item, hitem, hkept⟩ := mem_liveClientIds_iff.mp hleft
    simp only [Doc.merge, hitems, mem_append, not_or] at hitem hkept
    rcases hitem with hold | hnew
    · exact mem_liveClientIds_iff.mpr ⟨item, hold, hkept.1⟩
    · exact absurd rfl ((hserver _ hnew).2 session hsession)
  -- nobody who is still there is pruned
  have hstays : ∀ session ∈ s.sessions,
      session.isOpen = true ∨ session.client ∈ liveClientIds (s.doc.merge mutation) →
      ∀ entry, s.doc.current session.key = some entry →
        (s.doc.merge (applyToDocument known mutation)).current session.key = some entry :=
    fun session hsession hneeds entry hcurrent => by
      obtain ⟨hmem, hmax, hkept⟩ := current_eq_some_iff.mp hcurrent
      refine current_eq_some_iff.mpr ⟨hentries ▸ hmem, fun other hother => ?_, fun hgone => ?_⟩
      · rw [hentries] at hother
        exact hmax other hother
      · rw [hremoved, mem_append] at hgone
        rcases hgone with hold | hnew
        · exact hkept hold
        · obtain ⟨hover, hnothing⟩ := hguard entry hnew _ hmem rfl session hsession rfl
          rcases hneeds with hopen | hleft
          · rw [hover] at hopen
            cases hopen
          · exact hnothing hleft
  refine ⟨?_, fun entry hentry => ?_, h.clients, ?_, fun session hsession hneeds => ?_,
    fun session hsession hover hleft => ?_⟩
  · simpa only [State.writes, hentries] using h.unique
  · simp only [State.writes, hremoved, mem_append] at hentry
    simp only [State.writes, hentries]
    exact hentry.elim (h.removed entry) (hpruned entry)
  · simpa only [State.writes, hentries, hids] using h.listed
  · simp only [State.writes, hlive] at hneeds ⊢
    obtain ⟨entry, hcurrent⟩ := h.present session hsession
      (hneeds.imp_right (hbefore session hsession))
    exact ⟨entry, hstays session hsession hneeds entry hcurrent⟩
  · simp only [State.writes, hlive] at hleft ⊢
    obtain ⟨entry, hcurrent, hid⟩ := h.left session hsession hover (hbefore session hsession hleft)
    exact ⟨entry, hstays session hsession (.inr hleft) entry hcurrent, hids ▸ hid⟩

theorem kept_step (h : Kept s) (hguard : Guarded s e) (hstep : step s e = some s') : Kept s' := by
  cases e with
  | opens known client key place => exact kept_opens h hguard hstep
  | types client item => exact kept_types h hstep
  | deletes item =>
    cases hstep
    exact kept_deletes h item
  | closes client =>
    cases hstep
    exact kept_closes h hguard
  | ports known client others => exact kept_ports h hstep
  | applies known items deleted => exact kept_applies h hguard hstep

theorem kept_init (h : (attribution ι).init s) : Kept s := by
  cases h
  refine ⟨?_, ?_, nodup_nil, ?_, ?_, ?_⟩
  all_goals simp [Doc.empty]

/-- **When attribution survives.** In every run in which nobody's name is taken away who needs it,
once the updates are delivered, what is on the page of a client that was recorded is attributed to
its person. -/
theorem attributed_of_guarded (h : (attribution ι).ReachesWhen Guarded s)
    (hdelivered : Delivered s) : Attributed s :=
  (h.invariant (fun _ hinit => kept_init hinit) fun _ _ _ hkept hguard hstep =>
    kept_step hkept hguard hstep).attributed hdelivered

/-! ### Runs -/

instance : Decidable (s.LeftBehind key) :=
  inferInstanceAs (Decidable (∃ session ∈ s.sessions, _))

instance : Decidable (Guarded s e) := by
  cases e with
  | opens known client key place =>
    simp only [Guarded]
    cases known.current key with
    | none => exact inferInstanceAs (Decidable (_ ∧ _))
    | some entry => exact inferInstanceAs (Decidable (_ = true))
  | closes client => exact inferInstanceAs (Decidable (∀ _ ∈ _, _))
  | applies known items deleted => exact inferInstanceAs (Decidable (∀ _ ∈ _, _))
  | _ => exact isTrue trivial

def openedDoc : Doc ℕ := newEntry "ada" 1 0

/-- Ada opens a page: her session is that of the client 1. -/
def opensPage : Event ℕ := .opens .empty 1 "ada" 0

/-- **A name is taken away** before it is needed: the server renames the page between the moment a
session opens it and the first that is typed there. -/
theorem first_words_unattributed :
    ¬ ∀ s : State ℕ, (attribution ℕ).Reaches s → Delivered s → Attributed s := by
  intro hall
  have hreach : ∃ s : State ℕ, (attribution ℕ).Reaches s ∧
      s.sessions = [{ client := 1, key := "ada", isOpen := true }] ∧
      s.doc.current "ada" = none ∧ 1 ∈ liveClientIds s.doc ∧
      authorsByClient s.doc 1 = none :=
    Machine.exists_reachesWhen_of_runWhen
      [opensPage, .applies openedDoc [(0, 9)] [], .types 1 1] rfl (by decide +kernel)
  obtain ⟨s, hs, hsessions, hcurrent, hlive, hnobody⟩ := hreach
  have hdelivered : Delivered s := fun session hsession _ entry hentry => by
    rw [hsessions, mem_singleton] at hsession
    rw [hsession, hcurrent] at hentry
    cases hentry
  have hsome := hall s hs hdelivered { client := 1, key := "ada", isOpen := true }
    (hsessions ▸ mem_singleton_self _) hlive
  rw [hnobody] at hsome
  cases hsome

/-- The hypotheses can be met: Ada types before the server renames the page. -/
theorem attributed_of_guarded_typed :
    ∃ s : State ℕ, (attribution ℕ).ReachesWhen Guarded s ∧ Delivered s ∧
      1 ∈ liveClientIds s.doc ∧ Attributed s := by
  have hreach : ∃ s : State ℕ, (attribution ℕ).ReachesWhen Guarded s ∧
      s.sessions = [{ client := 1, key := "ada", isOpen := true }] ∧
      s.doc.current "ada" = some 0 ∧ (0, 1) ∈ s.doc.ids ∧ 1 ∈ liveClientIds s.doc :=
    Machine.exists_reachesWhen_of_runWhen
      [opensPage, .types 1 1, .applies { openedDoc with items := [(1, 1)] } [(0, 9)] []] rfl
      (by decide +kernel)
  obtain ⟨s, hs, hsessions, hcurrent, hid, hlive⟩ := hreach
  have hdelivered : Delivered s := fun session hsession _ entry hentry => by
    rw [hsessions, mem_singleton] at hsession
    rw [hsession, hcurrent] at hentry
    cases hentry
    exact hsession ▸ hid
  exact ⟨s, hs, hdelivered, hlive, attributed_of_guarded hs hdelivered⟩

end Attribution

end Sone
