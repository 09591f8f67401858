import Sone.Transition.Machine
import Sone.Sync.Handlers

/-!
# A connection that closes while its handlers wait

The machine `connectionLife` is one connection and its suspended handlers: messages arrive
while the socket is open, a handler goes on whenever what it awaits comes back, in any order
and with any answer, and the socket closes once.

`onClose` removes what the connection has at that moment. A handler that is suspended then
goes on afterwards, and neither `rememberPerson` nor the registration of an opened document
looks whether the connection is still there; and an authentication that was let in before
another one finished files the connection a second time, while it remembers only the last
(`Strays`). `left_of_reachesWhen` says that a closed connection is gone from every room and
both indexes in every run without such a step; `Filed` is the invariant.
-/

namespace Sone

open Option Function List

structure ConnectionLife extends IndexedConnection where
  suspended : List Handler

inductive LifeEvent where
  | auth (payload : AuthPayload)
  | open (requestId : ℕ) (asked : AskedName)
  | closeDocument (handle : ℕ)
  /-- What a suspended handler awaits comes back. -/
  | resumes (handler : Handler) (answer : Answer)
  | socketCloses
  deriving DecidableEq

namespace ConnectionLife

/-- The state after a handler ran to its next await. -/
def suspend (s : ConnectionLife) : IndexedConnection × Option Handler → ConnectionLife
  | (conn, next) => ⟨conn, s.suspended ++ next.toList⟩

/-- The state after an event. No message arrives once the socket's close was handled. -/
def step (s : ConnectionLife) : LifeEvent → Option ConnectionLife
  | .auth payload => if s.closed then none else some (s.suspend (s.handleAuth payload))
  | .open requestId asked =>
    if s.closed then none else some (s.suspend (s.handleOpen requestId asked))
  | .closeDocument handle =>
    if s.closed then none
    else some { s with toIndexedConnection := s.handleCloseDocument handle }
  | .resumes handler answer =>
    if handler ∈ s.suspended then
      (s.resume handler answer).map
        ({ s with suspended := s.suspended.erase handler } : ConnectionLife).suspend
    else none
  | .socketCloses =>
    if s.closed then none else some { s with toIndexedConnection := s.onClose }

end ConnectionLife

/-- **The machine of a connection's life.** -/
def connectionLife : Machine ConnectionLife LifeEvent where
  init s := ∃ cookieSessionToken, s = ⟨.accepted cookieSessionToken, []⟩
  step := ConnectionLife.step

/-! ### The steps that leave something behind -/

/-- Filing the connection under these claims leaves it filed somewhere for good: its close
was already handled, or it is filed under another workspace or another account. -/
def IndexedConnection.Misfiles (conn : IndexedConnection) (claims : AccessClaims) : Prop :=
  conn.closed = true ∨ (∃ workspaceId ∈ conn.workspaceId, workspaceId ≠ claims.workspaceId) ∨
    ∃ accountId ∈ conn.accountId, ∃ userId ∈ accountOf claims, accountId ≠ userId

/-- A step that leaves something behind. -/
def ConnectionLife.Strays (s : ConnectionLife) : LifeEvent → Prop
  | .resumes handler answer =>
    (handler.registers answer ≠ none ∧ s.closed = true) ∨
      ∃ claims ∈ handler.authenticates answer, s.Misfiles claims
  | _ => False

namespace IndexedConnection

/-- **The invariant**: the connection's subscribers are those of its documents, it is filed
only where it remembers, and once its close was handled it has nothing. -/
structure Filed (conn : IndexedConnection) : Prop where
  subscribed : ∀ room, ∀ sub ∈ conn.subscribers room,
    ∃ doc ∈ conn.documents.list, doc.room = room ∧ doc.handle = sub.handle
  byWorkspace : ∀ workspaceId ∈ conn.byWorkspace, conn.workspaceId = some workspaceId
  byUser : ∀ userId ∈ conn.byUser, conn.accountId = some userId
  closed : conn.closed = true →
    conn.documents.list = [] ∧ conn.workspaceId = none ∧ conn.accountId = none

variable {conn conn' : IndexedConnection}

theorem filed_accepted (cookieSessionToken : Option String) :
    (accepted cookieSessionToken).Filed where
  subscribed := by simp [accepted]
  byWorkspace := by simp [accepted]
  byUser := by simp [accepted]
  closed := by simp [accepted]

theorem Filed.congr (h : conn.Filed) {next : Connection} (hdocs : next.documents = conn.documents)
    (hsubs : next.subscribers = conn.subscribers) : (conn.update next).Filed where
  subscribed := by
    simp only [update, hdocs, hsubs]
    exact h.subscribed
  byWorkspace := h.byWorkspace
  byUser := h.byUser
  closed := by
    simp only [update, hdocs]
    exact h.closed

theorem Filed.sendError (h : conn.Filed) (requestId : ℕ) (code : SyncError) (detail : String) :
    (conn.sendError requestId code detail).Filed := h.congr rfl rfl

theorem Filed.refuse (h : conn.Filed) (code : SyncError) (detail : String) :
    (conn.refuse code detail).Filed := h.congr rfl rfl

theorem Filed.authenticate (h : conn.Filed) {claims : AccessClaims}
    {credential : ConnectionCredential}
    (hok : ¬ conn.Misfiles claims) : (conn.authenticate claims credential).Filed := by
  obtain ⟨hopen, hworkspace, haccount⟩ : conn.closed ≠ true ∧
      (∀ workspaceId, conn.workspaceId = some workspaceId → workspaceId = claims.workspaceId) ∧
        ∀ accountId, conn.accountId = some accountId → ∀ userId, accountOf claims = some userId →
          accountId = userId := by
    refine ⟨fun hclosed => hok (.inl hclosed), fun workspaceId hw => ?_,
      fun accountId ha userId hu => ?_⟩
    · by_contra hne
      exact hok (.inr (.inl ⟨workspaceId, hw, hne⟩))
    · by_contra hne
      exact hok (.inr (.inr ⟨accountId, ha, userId, hu, hne⟩))
  refine ⟨h.subscribed, ?_, ?_, fun hclosed => absurd hclosed hopen⟩
  · intro workspaceId hmem
    rcases Finset.mem_insert.mp hmem with rfl | hold
    · rfl
    · rw [hworkspace workspaceId (h.byWorkspace workspaceId hold)]
      rfl
  · intro userId hmem
    cases hclaims : accountOf claims with
    | none =>
      simp only [IndexedConnection.authenticate, rememberPerson, hclaims, elim_none] at hmem
      simp only [IndexedConnection.authenticate, rememberPerson, hclaims, orElse_none]
      exact h.byUser userId hmem
    | some account =>
      simp only [IndexedConnection.authenticate, rememberPerson, hclaims, elim_some,
        Finset.mem_insert] at hmem
      simp only [IndexedConnection.authenticate, rememberPerson, hclaims, orElse_some,
        Option.some.injEq]
      rcases hmem with rfl | hold
      · rfl
      · exact (haccount userId (h.byUser userId hold) account hclaims).symm

theorem Filed.register (h : conn.Filed) {requestId : ℕ} {asked : AskedName} {role : Role}
    (hopen : conn.closed ≠ true) : (conn.update (conn.register requestId asked role)).Filed := by
  refine ⟨?_, h.byWorkspace, h.byUser, fun hclosed => absurd hclosed hopen⟩
  intro room sub hsub
  simp only [update, Connection.register, OpenDocuments.mem_add] at hsub ⊢
  have hold : sub ∈ conn.subscribers room → ∃ doc, (doc ∈ conn.documents.list ∨
      doc = ⟨conn.documents.nextHandle, asked, role⟩) ∧ doc.room = room ∧
        doc.handle = sub.handle := by
    intro hsub
    obtain ⟨doc, hdoc, hroom⟩ := h.subscribed room sub hsub
    exact ⟨doc, .inl hdoc, hroom⟩
  by_cases hroom : room = asked
  · subst hroom
    rw [update_self, mem_append, mem_singleton] at hsub
    rcases hsub with hsub | rfl
    · exact hold hsub
    · exact ⟨_, .inr rfl, rfl, rfl⟩
  · rw [update_of_ne hroom] at hsub
    exact hold hsub

theorem Filed.handleCloseDocument (h : conn.Filed) (handle : ℕ) :
    (conn.handleCloseDocument handle).Filed := by
  unfold IndexedConnection.handleCloseDocument Connection.handleCloseDocument
  split
  · exact h.congr rfl rfl
  · rename_i doc hget
    obtain ⟨hdoc, hhandle⟩ := OpenDocuments.get_eq_some_iff.mp hget
    refine ⟨?_, h.byWorkspace, h.byUser, fun hclosed => ?_⟩
    · intro room sub hsub
      simp only [update, OpenDocuments.mem_remove] at hsub ⊢
      by_cases hroom : room = doc.room
      · subst hroom
        simp only [update_self, mem_filter, decide_eq_true_eq] at hsub
        obtain ⟨other, hother, hsame, hsub'⟩ := h.subscribed _ sub hsub.1
        exact ⟨other, ⟨hother, hsub' ▸ hsub.2⟩, hsame, hsub'⟩
      · rw [update_of_ne hroom] at hsub
        obtain ⟨other, hother, hsame, hsub'⟩ := h.subscribed room sub hsub
        -- the handle is that of one document, which is in another room
        refine ⟨other, ⟨hother, fun heq => hroom ?_⟩, hsame, hsub'⟩
        rw [← hsame, OpenDocuments.eq_of_handle_eq hother hdoc (heq.trans hhandle.symm)]
    · obtain ⟨hnil, -⟩ := h.closed hclosed
      simp [hnil] at hdoc

/-! ### The close -/

private theorem mem_foldl_removeSubscriber (docs : List OpenDocument)
    (subscribers : AskedName → List RoomSubscriber) {room : AskedName} {sub : RoomSubscriber} :
    sub ∈ docs.foldl (fun subscribers doc => Function.update subscribers doc.room
        ((subscribers doc.room).filter fun sub => sub.handle ≠ doc.handle)) subscribers room ↔
      sub ∈ subscribers room ∧ ∀ doc ∈ docs, doc.room = room → sub.handle ≠ doc.handle := by
  induction docs generalizing subscribers with
  | nil => simp
  | cons doc docs ih =>
    rw [foldl_cons, ih]
    simp only [mem_cons, forall_eq_or_imp]
    by_cases hroom : room = doc.room
    · subst hroom
      simp [and_assoc]
    · have hne : doc.room ≠ room := fun h => hroom h.symm
      simp [update_of_ne hroom, hne]

private theorem notMem_elim_erase {index : Finset Uuid} {remembered : Option Uuid}
    (h : ∀ key ∈ index, remembered = some key) (key : Uuid) :
    key ∉ remembered.elim index index.erase := by
  cases remembered with
  | none =>
    intro hmem
    simpa using h key hmem
  | some filed =>
    intro hmem
    obtain ⟨hne, hmem⟩ := Finset.mem_erase.mp hmem
    exact hne (some.inj (h key hmem)).symm

theorem Filed.onClose (h : conn.Filed) : conn.onClose.Filed where
  subscribed := by
    intro room sub hsub
    obtain ⟨hsub, hgone⟩ := (mem_foldl_removeSubscriber _ _).mp hsub
    obtain ⟨doc, hdoc, hroom, hhandle⟩ := h.subscribed room sub hsub
    exact absurd hhandle.symm (hgone doc hdoc hroom)
  byWorkspace := fun workspaceId hmem => absurd hmem (notMem_elim_erase h.byWorkspace workspaceId)
  byUser := fun userId hmem => absurd hmem (notMem_elim_erase h.byUser userId)
  closed := fun _ => ⟨rfl, rfl, rfl⟩

theorem Filed.gone (h : conn.Filed) (hclosed : conn.closed = true) :
    (∀ room, conn.subscribers room = []) ∧ conn.byWorkspace = ∅ ∧ conn.byUser = ∅ := by
  obtain ⟨hdocs, hworkspace, haccount⟩ := h.closed hclosed
  refine ⟨fun room => ?_, ?_, ?_⟩
  · refine eq_nil_iff_forall_not_mem.mpr fun sub hsub => ?_
    obtain ⟨doc, hdoc, -⟩ := h.subscribed room sub hsub
    simp [hdocs] at hdoc
  · refine Finset.eq_empty_of_forall_notMem fun workspaceId hmem => ?_
    simpa [hworkspace] using h.byWorkspace workspaceId hmem
  · refine Finset.eq_empty_of_forall_notMem fun userId hmem => ?_
    simpa [haccount] using h.byUser userId hmem

/-! ### The handlers -/

theorem Filed.handleAuth (h : conn.Filed) (payload : AuthPayload) :
    (conn.handleAuth payload).1.Filed := by
  rw [IndexedConnection.handleAuth]
  split
  · exact h.refuse _ _
  · simp only
    split
    · exact h.refuse _ _
    · exact h
    · exact h

theorem Filed.handleOpen (h : conn.Filed) (requestId : ℕ) (asked : AskedName) :
    (conn.handleOpen requestId asked).1.Filed := by
  rw [IndexedConnection.handleOpen]
  split
  · exact h.refuse _ _
  split
  · exact h.sendError _ _ _
  split
  · exact h.congr rfl rfl
  · exact h

theorem Filed.resume {handler : Handler} {answer : Answer} {next : Option Handler}
    (h : conn.Filed) (hregisters : handler.registers answer ≠ none → conn.closed ≠ true)
    (hauthenticates : ∀ claims ∈ handler.authenticates answer, ¬ conn.Misfiles claims)
    (hresume : conn.resume handler answer = some (conn', next)) : conn'.Filed := by
  rcases resume_cases hresume with ⟨claims, credential, hclaims, rfl⟩ |
    ⟨requestId, asked, role, hasked, rfl⟩ | ⟨-, -, sent, socketClosed, rfl, -⟩
  · exact h.authenticate (hauthenticates claims hclaims)
  · exact h.register (hregisters (by simp [hasked]))
  · exact h.congr rfl rfl

end IndexedConnection

namespace ConnectionLife

variable {s s' : ConnectionLife}

/-! ### Runs -/

theorem filed_step {e : LifeEvent} (h : s.Filed) (hok : ¬ s.Strays e)
    (hstep : connectionLife.step s e = some s') : s'.Filed := by
  cases e with
  | auth payload =>
    simp only [connectionLife, step, ite_none_left_eq_some, Option.some.injEq] at hstep
    obtain ⟨-, rfl⟩ := hstep
    exact h.handleAuth payload
  | «open» requestId asked =>
    simp only [connectionLife, step, ite_none_left_eq_some, Option.some.injEq] at hstep
    obtain ⟨-, rfl⟩ := hstep
    exact h.handleOpen requestId asked
  | closeDocument handle =>
    simp only [connectionLife, step, ite_none_left_eq_some, Option.some.injEq] at hstep
    obtain ⟨-, rfl⟩ := hstep
    exact h.handleCloseDocument handle
  | resumes handler answer =>
    simp only [connectionLife, step, ite_none_right_eq_some, map_eq_some_iff]
      at hstep
    obtain ⟨-, ⟨conn, next⟩, hresume, rfl⟩ := hstep
    exact h.resume (fun hregisters hclosed => hok (.inl ⟨hregisters, hclosed⟩))
      (fun claims hclaims hmisfiles => hok (.inr ⟨claims, hclaims, hmisfiles⟩)) hresume
  | socketCloses =>
    simp only [connectionLife, step, ite_none_left_eq_some, Option.some.injEq] at hstep
    obtain ⟨-, rfl⟩ := hstep
    exact h.onClose

/-- **A closed connection is gone** from every room and from both indexes, in every state
reached by a run none of whose steps strays. -/
theorem left_of_reachesWhen (h : connectionLife.ReachesWhen (fun s e => ¬ s.Strays e) s)
    (hclosed : s.closed = true) :
    (∀ room, s.subscribers room = []) ∧ s.byWorkspace = ∅ ∧ s.byUser = ∅ := by
  have hfiled : s.Filed := by
    refine h.invariant (I := fun s => s.Filed) ?_ fun _ _ _ hfiled hok hstep =>
      filed_step hfiled hok hstep
    rintro _ ⟨cookieSessionToken, rfl⟩
    exact IndexedConnection.filed_accepted cookieSessionToken
  exact hfiled.gone hclosed

/-! ### A run that leaves nothing, and one that leaves a subscriber -/

instance (conn : IndexedConnection) (claims : AccessClaims) :
    Decidable (conn.Misfiles claims) :=
  inferInstanceAs (Decidable (_ ∨ (∃ workspaceId ∈ conn.workspaceId, _) ∨
    ∃ accountId ∈ conn.accountId, ∃ userId ∈ accountOf claims, _))

instance (s : ConnectionLife) : (e : LifeEvent) → Decidable (s.Strays e)
  | .resumes handler answer =>
    inferInstanceAs (Decidable (_ ∧ _ ∨ ∃ claims ∈ handler.authenticates answer, s.Misfiles claims))
  | .auth _ | .open _ _ | .closeDocument _ | .socketCloses => inferInstanceAs (Decidable False)

/-- What the account of these runs holds. -/
def memberClaims : AccessClaims := ⟨.user 7 "Ida", 1, some .member, some .editor, [], []⟩

/-- A page opened and, while its comments are being opened, the close. -/
def openedAndClosed : List LifeEvent :=
  [.auth ⟨none, 1, none⟩, .resumes (.resolvingSession "seven" 1) (.sessionClaims memberClaims),
    .resumes (.resolvingSessionId memberClaims) (.sessionId (some 70)), .open 1 ⟨10, false⟩,
    .resumes (.authorizing 1 ⟨10, false⟩ memberClaims) (.authorized .editor),
    .resumes (.loading 1 ⟨10, false⟩ .editor) .room, .open 2 ⟨10, true⟩, .socketCloses,
    .resumes (.authorizing 2 ⟨10, true⟩ memberClaims) (.threw true)]

theorem left_of_reachesWhen_openedAndClosed :
    ∃ s, connectionLife.ReachesWhen (fun s e => ¬ s.Strays e) s ∧ s.suspended = [] ∧
      (∀ room, s.subscribers room = []) ∧ s.byWorkspace = ∅ ∧ s.byUser = ∅ := by
  have hreach : ∃ s, connectionLife.ReachesWhen (fun s e => ¬ s.Strays e) s ∧
      s.suspended = [] ∧ s.closed = true :=
    Machine.exists_reachesWhen_of_runWhen openedAndClosed ⟨some "seven", rfl⟩ (by decide)
  obtain ⟨s, hs, hsuspended, hclosed⟩ := hreach
  exact ⟨s, hs, hsuspended, left_of_reachesWhen hs hclosed⟩

/-- **A subscriber stays behind** when the socket closes while a page is being opened. -/
theorem not_left : ¬ ∀ s, connectionLife.Reaches s → s.closed = true → s.suspended = [] →
    (∀ room, s.subscribers room = []) ∧ s.byWorkspace = ∅ ∧ s.byUser = ∅ := by
  intro h
  have hreach : ∃ s, connectionLife.Reaches s ∧ s.closed = true ∧ s.suspended = [] ∧
      s.subscribers ⟨10, false⟩ ≠ [] :=
    Machine.exists_reachesWhen_of_runWhen
      [.auth ⟨none, 1, none⟩,
        .resumes (.resolvingSession "seven" 1) (.sessionClaims memberClaims),
        .resumes (.resolvingSessionId memberClaims) (.sessionId (some 70)), .open 1 ⟨10, false⟩,
        .socketCloses, .resumes (.authorizing 1 ⟨10, false⟩ memberClaims) (.authorized .editor),
        .resumes (.loading 1 ⟨10, false⟩ .editor) .room]
      ⟨some "seven", rfl⟩ (by decide)
  obtain ⟨s, hs, hclosed, hsuspended, hstays⟩ := hreach
  exact hstays ((h s hs hclosed hsuspended).1 _)

end ConnectionLife

end Sone
