import Sone.Client.Entries

/-!
# What is marked synced

The frames of the server at the client, and those of the client at the server, keep the invariant
where they do not mislead. `keepsEdits_of_reachesWhen` says that an entry that is `synced` has all
its local updates received, and that no document is destroyed before, in the runs without such a
step. `not_keepsEdits` has two runs with one.
-/

set_option linter.unusedSectionVars false

namespace Sone.Client

open List Option Function Bool Nat

universe u

variable {U : Type u} [DecidableEq U]

namespace StoreRun

variable {s s' : StoreRun U} {pageOf : ℕ → AskedName} {entry : Entry U} {pageId : AskedName}

/-! ### The frames of the server -/

theorem Linked.eq_of_handle (hlinked : s.Linked pageOf) (hready : s.ready = true)
    {other : Entry U} {otherPage : AskedName} {handle : ℕ}
    (hfind : s.entries.find pageId = some entry) (hhandle : entry.handle = some handle)
    (hother : s.entries.find otherPage = some other) (hsame : other.handle = some handle) :
    otherPage = pageId := by
  obtain ⟨-, -, hpage⟩ := hlinked hready pageId entry handle hfind hhandle
  obtain ⟨-, -, hotherPage⟩ := hlinked hready otherPage other handle hother hsame
  rw [← hpage, ← hotherPage]

theorem Inv.isLoose_of_requested (h : s.Inv pageOf) {requestId : ℕ}
    (hrequest : s.requested requestId = some entry) :
    { s with byRequest := Function.update s.byRequest requestId none }.IsLoose entry := by
  obtain ⟨hmap, hfind⟩ := find_of_requested hrequest
  obtain ⟨hnumber, hnone⟩ := has_of_leads h.leads hfind hmap
  refine ⟨hnone, fun handle hpage => ?_, fun other hpage => ?_⟩
  · have hhandle := has_of_leads h.byHandle hfind hpage
    simp [hnone] at hhandle
  · simp only at hpage
    by_cases heq : other = requestId
    · rw [heq, update_self] at hpage
      simp at hpage
    · rw [update_of_ne heq] at hpage
      have hother := (has_of_leads h.leads hfind hpage).1
      exact heq (some.inj (hother.symm.trans hnumber))

theorem Inv.answered (h : s.Inv pageOf) (requestId : ℕ) :
    { s with byRequest := Function.update s.byRequest requestId none }.Inv pageOf := by
  refine h.shrink _ _ (fun _ _ => id) fun other pageId hmap => ?_
  by_cases heq : other = requestId
  · rw [heq, update_self] at hmap
    simp at hmap
  · rwa [update_of_ne heq] at hmap

/-- **An entry is given a handle**, on which every update is on its way. -/
theorem Inv.link (h : s.Inv pageOf) (hlinked : s.Linked pageOf) (hready : s.ready = true)
    (hloose : s.IsLoose entry) (hfits : s.Fits entry) {handle : ℕ}
    (hpage : pageOf handle = entry.pageId) (hlt : handle < s.documents.nextHandle)
    (hdelivers : ∀ update ∈ entry.edits, s.Delivers handle entry.pageId update)
    (role : Option Role) (status : DocumentStatus) :
    ({ s with byHandle := Function.update s.byHandle handle (some entry.pageId) }.setEntry
      { entry with
        handle := some handle
        role
        status }).Inv pageOf ∧
    ({ s with byHandle := Function.update s.byHandle handle (some entry.pageId) }.setEntry
      { entry with
        handle := some handle
        role
        status }).Linked pageOf := by
  refine ⟨{ h with
    entries := fun pageId other hother => ?_
    byHandle := fun otherHandle pageId hmap => ?_
    byRequest := fun requestId pageId hmap => ?_ },
    fun _ pageId other otherHandle hother hhandle => ?_⟩
  · rcases find_setEntry_cases hother with ⟨-, rfl⟩ | ⟨-, hother⟩
    · refine ⟨hfits.edits_subset, hfits.doc_subset, hfits.synced, fun otherHandle hsame => ?_⟩
      obtain rfl := some.inj hsame
      exact ⟨h.connected hready, fun _ _ => hdelivers⟩
    · exact h.entries pageId other hother
  · rw [find_setEntry]
    simp only [StoreRun.setEntry] at hmap ⊢
    by_cases heq : otherHandle = handle
    · subst heq
      rw [update_self, Option.some.injEq] at hmap
      exact ⟨_, if_pos hmap, rfl⟩
    · rw [update_of_ne heq] at hmap
      obtain ⟨found, hfound, hhandle⟩ := h.byHandle otherHandle pageId hmap
      refine ⟨found, (if_neg fun hsame => ?_).trans hfound, hhandle⟩
      exact hloose.2.1 otherHandle (hsame ▸ hmap)
  · obtain ⟨hnumber, found, hfound, hrest⟩ := h.byRequest requestId pageId hmap
    refine ⟨hnumber, found, ?_, hrest⟩
    rw [find_setEntry, if_neg]
    · exact hfound
    · rintro rfl
      exact hloose.2.2 requestId hmap
  · rcases find_setEntry_cases hother with ⟨rfl, rfl⟩ | ⟨hne, hother⟩
    · obtain rfl := some.inj hhandle
      exact ⟨update_self .., hlt, hpage⟩
    · simp only [StoreRun.setEntry]
      obtain ⟨hmap, hlink⟩ := hlinked hready pageId other otherHandle hother hhandle
      refine ⟨?_, hlink⟩
      rw [update_of_ne]
      · exact hmap
      · rintro rfl
        exact hne (hpage.symm.trans hlink.2)

theorem ready_of_canSend (h : s.canSend = true) : s.ready = true := by
  rw [canSend, and_eq_true] at h
  exact h.1

/-- **An ack** that does not mislead. -/
theorem Inv.onOpenAck (h : s.Inv pageOf) (hlinked : s.Linked pageOf) (hsend : s.canSend = true)
    {requestId handle : ℕ} {role : Role} {rest : List (ServerFrame (SyncMessage U))}
    (hqueue : s.toClient = .openAck requestId handle role :: rest)
    (hgood : ¬ s.MisleadsClient (.openAck requestId handle role)) :
    { s.onOpenAck requestId handle role with toClient := rest }.Inv pageOf ∧
      { s.onOpenAck requestId handle role with toClient := rest }.Linked pageOf := by
  have hready := ready_of_canSend hsend
  rw [StoreRun.onOpenAck]
  split
  · exact ⟨h.popClient hqueue (by simp [ServerFrame.message]), hlinked⟩
  · rename_i entry hrequest
    obtain ⟨hmap, hfind⟩ := find_of_requested hrequest
    have hfits := h.entries _ _ hfind
    obtain ⟨-, hlt, hsame⟩ := h.acks requestId handle role (hqueue ▸ mem_cons_self)
    have hdelivers : ∀ update ∈ entry.edits, s.Delivers handle entry.pageId update := by
      intro update hupdate
      by_cases hroom : entry.edits ⊆ s.rooms entry.pageId
      · exact .inl (hroom hupdate)
      · -- step 1 follows
        refine .inr (.inr ?_)
        by_contra hnone
        refine hgood ⟨entry, hrequest, hroom, fun message hmem => ?_⟩
        rw [← not_eq_true]
        exact fun hstep1 => hnone ⟨message, hmem, hstep1⟩
    obtain ⟨hinv, hlink⟩ := (h.answered requestId).link hlinked hready
      (h.isLoose_of_requested hrequest)
      hfits (hsame _ hmap).symm hlt
      hdelivers (some role) .syncing
    have hasked := hinv.send (.sync handle (.step1 entry.doc)) (by simp) (by
      intro other message hmessage _ pageId found hfound hhandle update hupdate
      obtain ⟨rfl, -⟩ := ClientFrame.message_sync.mp hmessage
      obtain rfl := hlink.eq_of_handle hready find_setEntry_self rfl hfound hhandle
      obtain rfl := some.inj (find_setEntry_self.symm.trans hfound)
      exact hdelivers update hupdate)
    exact ⟨hasked.popClient hqueue (by simp [ServerFrame.message]), hlink⟩

theorem Inv.handle_of_holding (h : s.Inv pageOf) {handle : ℕ}
    (hholding : s.holding handle = some entry) : entry.handle = some handle := by
  obtain ⟨hmap, hfind⟩ := find_of_holding hholding
  exact has_of_leads h.byHandle hfind hmap

theorem comingOn_of_queue {handle : ℕ} {message : SyncMessage U}
    {rest : List (ServerFrame (SyncMessage U))}
    (hqueue : s.toClient = .sync handle message :: rest) : s.comingOn handle =
      message :: ({ s with toClient := rest } : StoreRun U).comingOn handle := by
  simp [comingOn, hqueue, ServerFrame.message]

/-- **Where the answer to step 1 does not mislead**, everything has been received: nothing sent
before is on its way, and step 1 of the server came before. -/
theorem Inv.received (h : s.Inv pageOf) (hsend : s.canSend = true) {handle : ℕ}
    {message : SyncMessage U} {rest : List (ServerFrame (SyncMessage U))}
    (hqueue : s.toClient = .sync handle message :: rest)
    (hholding : s.holding handle = some entry)
    (hgood : ¬ s.MisleadsClient (.sync handle message)) (hstep2 : message.isStep2 = true) :
    entry.edits ⊆ s.rooms entry.pageId := by
  obtain ⟨-, hfind⟩ := find_of_holding hholding
  have hcoming := comingOn_of_queue hqueue
  have hawaits : s.Awaits handle := .inr ⟨message, hcoming ▸ mem_cons_self, hstep2⟩
  intro update hupdate
  have hdelivers := ((h.entries _ _ hfind).handle handle (h.handle_of_holding hholding)).2 hsend
    hawaits update hupdate
  rcases hdelivers with hroom | ⟨sent, hsent, hin⟩ | ⟨first, hfirst, hstep1⟩
  · exact hroom
  · by_contra hnot
    cases message with
    | step2 updates => exact hgood ⟨entry, hholding, sent, hsent, fun hsub => hnot (hsub hin)⟩
    | step1 known => simp [SyncMessage.isStep2] at hstep2
    | update updates => simp [SyncMessage.isStep2] at hstep2
  · have hordered := h.ordered handle
    rw [hcoming, pairwise_cons] at hordered
    rw [hcoming] at hfirst
    rcases mem_cons.mp hfirst with rfl | hrest
    · cases first <;> simp [SyncMessage.isStep1, SyncMessage.isStep2] at hstep1 hstep2
    · rw [hordered.1 first hrest hstep2] at hstep1
      simp at hstep1

/-- **The entry of a sync message** takes what it brings. -/
theorem Inv.settle (h : s.Inv pageOf) (hlinked : s.Linked pageOf) (hsend : s.canSend = true)
    {handle : ℕ} {message : SyncMessage U} {rest : List (ServerFrame (SyncMessage U))}
    (hqueue : s.toClient = .sync handle message :: rest)
    (hholding : s.holding handle = some entry)
    (hgood : ¬ s.MisleadsClient (.sync handle message)) :
    message.named ⊆ s.rooms entry.pageId ∧
      (s.setEntry ({ entry with doc := entry.doc ∪ message.updates }.settle message)).Inv pageOf ∧
      (s.setEntry ({ entry with doc := entry.doc ∪ message.updates }.settle message)).Linked
        pageOf := by
  obtain ⟨-, hfind⟩ := find_of_holding hholding
  have hready := ready_of_canSend hsend
  have hfits := h.entries _ _ hfind
  obtain ⟨-, -, hpage⟩ := hlinked hready _ entry handle hfind (h.handle_of_holding hholding)
  have hnamed : message.named ⊆ s.rooms entry.pageId := by
    rw [← hpage]
    exact (h.coming handle message (comingOn_of_queue hqueue ▸ mem_cons_self)).2
  obtain ⟨status, hsettle⟩ := Entry.exists_settle_eq
    { entry with doc := entry.doc ∪ message.updates } message
  have hset : s.Fits { entry with
      doc := entry.doc ∪ message.updates
      synced := message.isStep2 || entry.synced
      status } := by
    refine ⟨hfits.edits_subset.trans Finset.subset_union_left, ?_, fun hsynced => ?_,
      hfits.handle⟩
    · refine Finset.union_subset hfits.doc_subset ?_
      exact (message.updates_subset_named.trans hnamed).trans Finset.subset_union_right
    · rcases (or_eq_true _ _).mp hsynced with hstep2 | hold
      · have hreceived := h.received hsend hqueue hholding hgood hstep2
        exact ⟨hready, hreceived⟩
      · exact hfits.synced hold
  rw [hsettle]
  exact ⟨hnamed, h.setEntry_of_find hfind rfl rfl hset, hlinked.setEntry_of_find hfind rfl⟩

/-- **A sync message** that does not mislead. -/
theorem Inv.onSync (h : s.Inv pageOf) (hlinked : s.Linked pageOf) (hsend : s.canSend = true)
    {handle : ℕ} {message : SyncMessage U} {rest : List (ServerFrame (SyncMessage U))}
    (hqueue : s.toClient = .sync handle message :: rest)
    (hgood : ¬ s.MisleadsClient (.sync handle message)) :
    { s.onSync handle message with toClient := rest }.Inv pageOf ∧
      { s.onSync handle message with toClient := rest }.Linked pageOf := by
  have hready := ready_of_canSend hsend
  rw [StoreRun.onSync]
  split
  · rename_i hnone
    -- no entry has the handle
    refine ⟨h.popClient hqueue fun other _ hmessage _ pageId entry hfind hhandle => ?_, hlinked⟩
    obtain ⟨rfl, -⟩ := ServerFrame.message_sync.mp hmessage
    obtain ⟨hmap, -⟩ := hlinked hready pageId entry handle hfind hhandle
    rw [holding, hmap, bind_some, hfind] at hnone
    simp at hnone
  · rename_i entry hholding
    obtain ⟨-, hfind⟩ := find_of_holding hholding
    obtain ⟨hnamed, hinv, hlink⟩ := h.settle hlinked hsend hqueue hholding hgood
    simp only
    split
    · rename_i hreply
      refine ⟨hinv.popClient hqueue fun other _ hmessage hstep1 => ?_, hlink⟩
      obtain ⟨-, rfl⟩ := ServerFrame.message_sync.mp hmessage
      cases message <;> simp [SyncMessage.reply, SyncMessage.isStep1] at hreply hstep1
    · rename_i reply hreply
      obtain ⟨known, rfl, rfl⟩ := SyncMessage.reply_eq_some.mp hreply
      have hsent := hinv.send (.sync handle (.step2 (entry.doc \ known))) (by simp) (by
        intro other message hmessage hstep1
        obtain ⟨-, rfl⟩ := ClientFrame.message_sync.mp hmessage
        simp [SyncMessage.isStep1] at hstep1)
      refine ⟨hsent.popClient hqueue ?_, hlink⟩
      intro other _ hmessage _ pageId found hfound hsame update hupdate
      obtain ⟨rfl, -⟩ := ServerFrame.message_sync.mp hmessage
      have hhandle := h.handle_of_holding hholding
      obtain rfl := hlink.eq_of_handle hready find_setEntry_self (by simpa using hhandle) hfound
        hsame
      obtain rfl := some.inj (find_setEntry_self.symm.trans hfound)
      rw [Entry.edits_settle] at hupdate
      rw [Entry.pageId_settle]
      -- what the server did not name has been sent
      by_cases hknown : update ∈ known
      · exact .inl (hnamed hknown)
      · refine .inr ⟨.step2 (entry.doc \ known), ?_, ?_⟩
        · exact mem_sentOn_send.mpr (.inr ⟨hsend, ClientFrame.message_sync.mpr ⟨rfl, rfl⟩⟩)
        · have hdoc := (h.entries _ _ hfind).edits_subset hupdate
          exact Finset.mem_sdiff.mpr ⟨hdoc, hknown⟩

/-- **A document is closed** by the server. -/
theorem Inv.onClosed (h : s.Inv pageOf) (hlinked : s.Linked pageOf) (handle : ℕ)
    (reason : String) :
    (s.onClosed handle reason).Inv pageOf ∧ (s.onClosed handle reason).Linked pageOf := by
  rw [StoreRun.onClosed]
  split
  · exact ⟨h, hlinked⟩
  · rename_i entry hholding
    obtain ⟨-, hfind⟩ := find_of_holding hholding
    have hhandle := h.handle_of_holding hholding
    have hfits := h.entries _ _ hfind
    have hkept : ∀ {other : ℕ} {pageId : AskedName},
        Function.update s.byHandle handle none other = some pageId ↔
          s.byHandle other = some pageId ∧ other ≠ handle := by
      intro other pageId
      by_cases heq : other = handle
      · simp [heq]
      · simp [heq]
    have hshrink := h.shrink (Function.update s.byHandle handle none) s.byRequest
      (fun other pageId hmap => (hkept.mp hmap).1) fun _ _ => id
    refine ⟨hshrink.setEntry_of_isLoose ⟨rfl, fun other hmap => ?_, fun requestId hmap => ?_⟩
      ⟨hfits.edits_subset, hfits.doc_subset, hfits.synced, by simp⟩, ?_⟩
    · obtain ⟨hmap, hne⟩ := hkept.mp hmap
      have hother := has_of_leads h.byHandle hfind hmap
      exact hne (some.inj (hother.symm.trans hhandle))
    · have hnone := (has_of_leads h.leads hfind hmap).2
      simp [hhandle] at hnone
    · intro hready pageId other otherHandle hother hotherHandle
      rcases find_setEntry_cases hother with ⟨rfl, rfl⟩ | ⟨hne, hold⟩
      · simp at hotherHandle
      · obtain ⟨hmap, hlink⟩ := hlinked hready pageId other otherHandle hold hotherHandle
        refine ⟨hkept.mpr ⟨hmap, ?_⟩, hlink⟩
        rintro rfl
        exact hne (hlinked.eq_of_handle hready hold hotherHandle hfind hhandle)

theorem Inv.onRoleChanged (h : s.Inv pageOf) (hlinked : s.Linked pageOf) (handle : ℕ)
    (role : Role) :
    (s.onRoleChanged handle role).Inv pageOf ∧ (s.onRoleChanged handle role).Linked pageOf := by
  rw [StoreRun.onRoleChanged]
  split
  · exact ⟨h, hlinked⟩
  · rename_i entry hholding
    obtain ⟨-, hfind⟩ := find_of_holding hholding
    have hfits := h.entries _ _ hfind
    exact ⟨h.setEntry_of_find hfind rfl rfl hfits, hlinked.setEntry_of_find hfind rfl⟩

theorem Inv.onError (h : s.Inv pageOf) (hlinked : s.Linked pageOf) (requestId : ℕ)
    (code : String) :
    (s.onError requestId code).Inv pageOf ∧ (s.onError requestId code).Linked pageOf := by
  rw [StoreRun.onError]
  split
  · exact ⟨h, hlinked⟩
  · split
    · exact ⟨h, hlinked⟩
    · rename_i entry hrequest
      obtain ⟨-, hfind⟩ := find_of_requested hrequest
      have hfits := h.entries _ _ hfind
      have hloose := h.isLoose_of_requested hrequest
      exact ⟨(h.answered requestId).setEntry_of_isLoose hloose hfits,
        hlinked.setEntry_of_find hfind rfl⟩

theorem toClient_handleFrame (frame : ServerFrame (SyncMessage U)) :
    (s.handleFrame frame).toClient = s.toClient := by
  cases frame with
  | openAck requestId handle role =>
    rw [StoreRun.handleFrame, StoreRun.onOpenAck]
    split <;> rfl
  | sync handle message =>
    rw [StoreRun.handleFrame, StoreRun.onSync]
    split
    · rfl
    · simp only
      split <;> rfl
  | closed handle reason =>
    rw [StoreRun.handleFrame, StoreRun.onClosed]
    split <;> rfl
  | roleChanged handle role =>
    rw [StoreRun.handleFrame, StoreRun.onRoleChanged]
    split <;> rfl
  | error requestId code detail =>
    rw [StoreRun.handleFrame, StoreRun.onError]
    split
    · rfl
    · split <;> rfl
  | authAck ack => rfl
  | awareness handle payload => rfl
  | notify scope => rfl
  | pong => rfl

/-- **The client takes a frame** that does not mislead it. -/
theorem Inv.handleFrame (h : s.Inv pageOf) (hlinked : s.Linked pageOf) (hsend : s.canSend = true)
    {frame : ServerFrame (SyncMessage U)} {rest : List (ServerFrame (SyncMessage U))}
    (hqueue : s.toClient = frame :: rest) (hgood : ¬ s.MisleadsClient frame) :
    { s.handleFrame frame with toClient := rest }.Inv pageOf ∧
      { s.handleFrame frame with toClient := rest }.Linked pageOf := by
  cases frame with
  | openAck requestId handle role => exact h.onOpenAck hlinked hsend hqueue hgood
  | sync handle message => exact h.onSync hlinked hsend hqueue hgood
  | closed handle reason =>
    obtain ⟨hinv, hlink⟩ := h.onClosed hlinked handle reason
    exact ⟨hinv.popClient ((toClient_handleFrame (.closed handle reason)).trans hqueue)
      (by simp [ServerFrame.message]), hlink⟩
  | roleChanged handle role =>
    obtain ⟨hinv, hlink⟩ := h.onRoleChanged hlinked handle role
    exact ⟨hinv.popClient ((toClient_handleFrame (.roleChanged handle role)).trans hqueue)
      (by simp [ServerFrame.message]), hlink⟩
  | error requestId code detail =>
    obtain ⟨hinv, hlink⟩ := h.onError hlinked requestId code
    exact ⟨hinv.popClient ((toClient_handleFrame (.error requestId code detail)).trans hqueue)
      (by simp [ServerFrame.message]), hlink⟩
  | authAck ack => exact ⟨h.popClient hqueue (by simp [ServerFrame.message]), hlinked⟩
  | awareness handle payload => exact ⟨h.popClient hqueue (by simp [ServerFrame.message]), hlinked⟩
  | notify scope => exact ⟨h.popClient hqueue (by simp [ServerFrame.message]), hlinked⟩
  | pong => exact ⟨h.popClient hqueue (by simp [ServerFrame.message]), hlinked⟩

/-! ### What the server does -/

/-- **A room tells its subscribers** what it has. -/
theorem Inv.broadcast (h : s.Inv pageOf) {frames : List (ServerFrame (SyncMessage U))}
    (hframes : ∀ frame ∈ frames, ∃ handle updates, frame = .sync handle (.update updates) ∧
      handle < s.documents.nextHandle ∧ updates ⊆ s.rooms (pageOf handle)) :
    { s with toClient := s.toClient ++ frames }.Inv pageOf := by
  induction frames generalizing s with
  | nil =>
    rw [append_nil]
    exact h
  | cons frame rest ih =>
    obtain ⟨handle, updates, rfl, hlt, hsub⟩ := hframes frame mem_cons_self
    have hone := h.answer (.sync handle (.update updates)) (by simp) (by
      intro other message hmessage
      obtain ⟨rfl, rfl⟩ := ServerFrame.message_sync.mp hmessage
      exact ⟨hlt, hsub, by simp [SyncMessage.isStep2], by simp [SyncMessage.isStep1]⟩)
    have hall := ih hone fun other hother => hframes other (mem_cons_of_mem _ hother)
    rw [append_cons]
    exact hall

theorem Inv.receive (h : s.Inv pageOf) (asked : AskedName) (origin : Option ℕ)
    (updates : Finset U) : (s.receive asked origin updates).Inv pageOf := by
  refine (h.grow asked updates).broadcast fun frame hframe => ?_
  split at hframe
  · simp at hframe
  · obtain ⟨doc, hdoc, rfl⟩ := List.mem_map.mp hframe
    obtain ⟨hdoc, hroom⟩ := mem_filter.mp hdoc
    refine ⟨doc.handle, _, rfl, s.documents.lt_nextHandle doc hdoc, ?_⟩
    rw [h.documents doc hdoc, (of_decide_eq_true hroom).1]
    simp only [update_self]
    exact Finset.sdiff_subset.trans Finset.subset_union_right

/-- **A request to open a page** is answered, or waits. -/
theorem Inv.handleOpen (h : s.Inv pageOf) {requestId : ℕ} {asked : AskedName}
    (hask : requestId < s.nextRequestId ∧ ∀ pageId ∈ s.byRequest requestId, pageId = asked) :
    (s.handleOpen requestId asked).Inv pageOf := by
  rw [StoreRun.handleOpen]
  split
  · exact h.answer _ (by simp) (by simp [ServerFrame.message])
  · split
    · rename_i doc hdoc
      obtain ⟨handle, hname, hget⟩ := bind_eq_some_iff.mp hdoc
      obtain ⟨hmem, rfl⟩ := OpenDocuments.get_eq_some_iff.mp hget
      obtain ⟨hlt, hpage⟩ := h.names asked doc.handle hname
      refine h.answer _ ?_ (by simp [ServerFrame.message])
      rintro other handle role ⟨⟩
      rw [hpage]
      exact ⟨hask.1, hlt, hask.2⟩
    · refine { h with opening := fun other otherAsked hmem => ?_ }
      rcases mem_append.mp hmem with hold | hnew
      · exact h.opening other otherAsked hold
      · obtain ⟨rfl, rfl⟩ := Prod.mk.inj (mem_singleton.mp hnew)
        exact hask

theorem Inv.handleCloseDocument (h : s.Inv pageOf) (handle : ℕ) :
    (s.handleCloseDocument handle).Inv pageOf := by
  rw [StoreRun.handleCloseDocument]
  split
  · exact h
  · refine { h with
      documents := fun doc hdoc => h.documents doc (OpenDocuments.mem_remove.mp hdoc).1
      names := fun asked other hname => ?_ }
    · rename_i closed _
      by_cases heq : asked = ⟨closed.pageId, false⟩
      · rw [heq] at hname
        simp at hname
      · simp only [update_of_ne heq] at hname
        exact h.names asked other hname

theorem Inv.forget (h : s.Inv pageOf) (index : ℕ) :
    { s with opening := s.opening.eraseIdx index }.Inv pageOf :=
  { h with
    opening := fun requestId asked hmem =>
      h.opening requestId asked (mem_of_mem_eraseIdx hmem) }

theorem Inv.changeRole (h : s.Inv pageOf) (handle : ℕ) (role : Role) :
    { s with documents := s.documents.setRole handle role }.Inv pageOf := by
  refine { h with documents := fun doc hdoc => ?_ }
  rcases OpenDocuments.mem_setRole.mp hdoc with ⟨hold, -⟩ | ⟨old, hold, -, rfl⟩
  · exact h.documents doc hold
  · exact h.documents old hold

theorem Inv.repage {pageOf' : ℕ → AskedName} (h : s.Inv pageOf)
    (hsame : ∀ handle < s.documents.nextHandle, pageOf' handle = pageOf handle) :
    s.Inv pageOf' :=
  { h with
    documents := fun doc hdoc => by
      rw [hsame _ (s.documents.lt_nextHandle doc hdoc)]
      exact h.documents doc hdoc
    names := fun asked handle hname => by
      rw [hsame _ (h.names asked handle hname).1]
      exact h.names asked handle hname
    acks := fun requestId handle role hmem => by
      rw [hsame _ (h.acks requestId handle role hmem).2.1]
      exact h.acks requestId handle role hmem
    coming := fun handle message hmem => by
      rw [hsame _ (h.coming handle message hmem).1]
      exact h.coming handle message hmem }

/-- **A document is opened**, under the next handle. -/
theorem Inv.register (h : s.Inv pageOf) (hlinked : s.Linked pageOf) {requestId : ℕ}
    {asked : AskedName} (role : Role)
    (hask : requestId < s.nextRequestId ∧ ∀ pageId ∈ s.byRequest requestId, pageId = asked) :
    ∃ pageOf', (s.register requestId asked role).Inv pageOf' ∧
      (s.register requestId asked role).Linked pageOf' := by
  let handle := s.documents.nextHandle
  let pageOf' := Function.update pageOf handle asked
  have hsame : ∀ other < handle, pageOf' other = pageOf other :=
    fun other hlt => update_of_ne (Nat.ne_of_lt hlt) _ _
  have hnew : pageOf' handle = asked := update_self ..
  have hpage := h.repage hsame
  -- the two maps
  have hadd : { s with
      documents := s.documents.add asked role
      handlesByPage := Function.update s.handlesByPage asked (some handle) }.Inv pageOf' := by
    refine { hpage with
      documents := fun doc hdoc => ?_
      names := fun other otherHandle hname => ?_
      acks := fun other otherHandle otherRole hmem => ?_
      coming := fun otherHandle message hmem => ?_ }
    · rcases OpenDocuments.mem_add.mp hdoc with hold | rfl
      · exact hpage.documents doc hold
      · exact hnew
    · by_cases heq : other = asked
      · subst heq
        simp only [update_self, Option.some.injEq] at hname
        subst hname
        exact ⟨lt_succ_self _, hnew⟩
      · simp only [update_of_ne heq] at hname
        obtain ⟨hlt, hother⟩ := hpage.names other otherHandle hname
        exact ⟨lt_succ_of_lt hlt, hother⟩
    · obtain ⟨hnumber, hlt, hother⟩ := hpage.acks other otherHandle otherRole hmem
      exact ⟨hnumber, lt_succ_of_lt hlt, hother⟩
    · obtain ⟨hlt, hsub⟩ := hpage.coming otherHandle message hmem
      exact ⟨lt_succ_of_lt hlt, hsub⟩
  have hack := hadd.answer (.openAck requestId handle role) (by
    rintro other otherHandle otherRole ⟨⟩
    refine ⟨hask.1, lt_succ_self _, ?_⟩
    rw [hnew]
    exact hask.2) (by simp [ServerFrame.message])
  have hstep1 := hack.answer (.sync handle (.step1 (s.rooms asked))) (by simp) (by
    intro other message hmessage
    obtain ⟨rfl, rfl⟩ := ServerFrame.message_sync.mp hmessage
    refine ⟨lt_succ_self _, ?_, by simp [SyncMessage.isStep2], fun _ old hold => ?_⟩
    · rw [hnew]
      exact subset_rfl
    · -- no message has the handle
      rw [comingOn_answer] at hold
      simp only [ServerFrame.message, toList_none, append_nil] at hold
      exact absurd (h.coming handle old hold).1 (lt_irrefl _))
  refine ⟨pageOf', ?_, fun hready pageId entry other hentry hhandle => ?_⟩
  · rw [StoreRun.register, append_cons]
    exact hstep1
  · obtain ⟨hmap, hlt, hother⟩ := hlinked hready pageId entry other hentry hhandle
    refine ⟨hmap, lt_succ_of_lt hlt, ?_⟩
    rw [hsame other hlt]
    exact hother

/-- **A sync message of the client**, whose refusal does not mislead. -/
theorem Inv.handleSync (h : s.Inv pageOf) (hlinked : s.Linked pageOf) {rateLimited : Bool}
    {handle : ℕ} {message : SyncMessage U}
    {rest : List (ClientFrame (SyncMessage U))}
    (hqueue : s.toServer = .sync handle message :: rest)
    (hgood : ¬ s.MisleadsServer rateLimited (.sync handle message)) :
    { s.handleSync rateLimited handle message with toServer := rest }.Inv pageOf := by
  -- what is refused is in the room already, or no answer is to come
  have hrefuse : s.Refuses rateLimited handle → ∀ code : String,
      ({ s with toServer := rest } : StoreRun U).answer (.error 0 code "") |>.Inv pageOf := by
    intro hrefuses code
    refine Inv.answer (h.popServer hqueue ?_) _ (by simp) (by simp [ServerFrame.message])
    intro other sent hsent pageId entry hfind hhandle hsend hawaits
    obtain ⟨rfl, rfl⟩ := ClientFrame.message_sync.mp hsent
    by_contra hnot
    refine hgood ⟨hrefuses, hsend, hawaits, entry, Keyed.mem_rows hfind, hhandle, ?_⟩
    rwa [pageId_eq hfind]
  rw [StoreRun.handleSync]
  split
  · rename_i hnone
    exact hrefuse (by simp [Refuses, hnone]) _
  · rename_i doc hget
    obtain ⟨hdoc, rfl⟩ := OpenDocuments.get_eq_some_iff.mp hget
    have hpage := h.documents doc hdoc
    split
    · rename_i hlimited
      exact hrefuse (fun _ _ => .inl hlimited) _
    · rw [StoreRun.handleSyncMessage]
      split
      · rename_i reply hreply
        obtain ⟨known, rfl, rfl⟩ := SyncMessage.reply_eq_some.mp hreply
        have hanswer := h.answer (.sync doc.handle (.step2 (s.rooms doc.room \ known)))
          (by simp) (by
          intro other sent hsent
          obtain ⟨rfl, rfl⟩ := ServerFrame.message_sync.mp hsent
          refine ⟨s.documents.lt_nextHandle doc hdoc, ?_, fun _ => .inl ?_,
            by simp [SyncMessage.isStep1]⟩
          · rw [hpage]
            exact Finset.sdiff_subset
          · exact ⟨.step1 known, by simp [sentOn, hqueue, ClientFrame.message], rfl⟩)
        refine hanswer.popServer hqueue fun other sent hsent _ _ _ _ _ _ => ?_
        obtain ⟨-, rfl⟩ := ClientFrame.message_sync.mp hsent
        simp [SyncMessage.updates]
      · split
        · have hreceive := h.receive doc.room (some doc.handle) message.updates
          refine hreceive.popServer hqueue
            fun other sent hsent pageId entry hfind hhandle hsend _ => ?_
          obtain ⟨rfl, rfl⟩ := ClientFrame.message_sync.mp hsent
          obtain ⟨-, -, hsame⟩ :=
            hlinked (ready_of_canSend hsend) pageId entry doc.handle hfind hhandle
          rw [← hsame, hpage]
          simp only [StoreRun.receive, update_self]
          exact Finset.subset_union_right
        · rename_i hrole
          refine hrefuse (fun other hother => .inr ?_) _
          rw [hget] at hother
          rw [← some.inj hother]
          rwa [not_eq_true] at hrole

theorem store_onMessage (rateLimited : Bool) (frame : ClientFrame (SyncMessage U)) :
    (s.onMessage rateLimited frame).toDocumentStore = s.toDocumentStore ∧
      (s.onMessage rateLimited frame).ready = s.ready ∧
      (s.onMessage rateLimited frame).toServer = s.toServer ∧
      (s.onMessage rateLimited frame).documents.nextHandle = s.documents.nextHandle := by
  cases frame with
  | openPage requestId asked =>
    rw [StoreRun.onMessage, StoreRun.handleOpen]
    split
    · exact ⟨rfl, rfl, rfl, rfl⟩
    · split <;> exact ⟨rfl, rfl, rfl, rfl⟩
  | sync handle message =>
    rw [StoreRun.onMessage, StoreRun.handleSync]
    split
    · exact ⟨rfl, rfl, rfl, rfl⟩
    · split
      · exact ⟨rfl, rfl, rfl, rfl⟩
      · rw [StoreRun.handleSyncMessage]
        split
        · exact ⟨rfl, rfl, rfl, rfl⟩
        · split <;> exact ⟨rfl, rfl, rfl, rfl⟩
  | close handle =>
    rw [StoreRun.onMessage, StoreRun.handleCloseDocument]
    split <;> exact ⟨rfl, rfl, rfl, rfl⟩
  | ping => exact ⟨rfl, rfl, rfl, rfl⟩
  | auth payload => exact ⟨rfl, rfl, rfl, rfl⟩
  | awareness handle payload => exact ⟨rfl, rfl, rfl, rfl⟩

/-- **The server takes a frame**, whose refusal does not mislead. -/
theorem Inv.onMessage (h : s.Inv pageOf) (hlinked : s.Linked pageOf) {rateLimited : Bool}
    {frame : ClientFrame (SyncMessage U)} {rest : List (ClientFrame (SyncMessage U))}
    (hqueue : s.toServer = frame :: rest) (hgood : ¬ s.MisleadsServer rateLimited frame) :
    { s.onMessage rateLimited frame with toServer := rest }.Inv pageOf := by
  obtain ⟨-, -, hsame, -⟩ := store_onMessage (s := s) rateLimited frame
  cases frame with
  | openPage requestId asked =>
    have hopen := h.handleOpen (h.sentAsks requestId asked (hqueue ▸ mem_cons_self))
    exact hopen.popServer (hsame.trans hqueue) (by simp [ClientFrame.message])
  | sync handle message => exact h.handleSync hlinked hqueue hgood
  | close handle =>
    exact (h.handleCloseDocument handle).popServer (hsame.trans hqueue)
      (by simp [ClientFrame.message])
  | ping =>
    exact (h.answer .pong (by simp) (by simp [ServerFrame.message])).popServer hqueue
      (by simp [ClientFrame.message])
  | auth payload => exact h.popServer hqueue (by simp [ClientFrame.message])
  | awareness handle payload => exact h.popServer hqueue (by simp [ClientFrame.message])

theorem Linked.onMessage (h : s.Linked pageOf) (rateLimited : Bool)
    (frame : ClientFrame (SyncMessage U)) : (s.onMessage rateLimited frame).Linked pageOf := by
  obtain ⟨hstore, hready, -, hnext⟩ := store_onMessage (s := s) rateLimited frame
  rw [Linked, hstore, hready, hnext]
  exact h

/-! ### Runs -/

/-- **A step** that does not mislead keeps the invariant. -/
theorem Inv.step (h : s.Inv pageOf) (hlinked : s.Linked pageOf) {event : StoreEvent U}
    (hgood : ¬ s.Misleads event) (hstep : s.step event = some s') :
    ∃ pageOf', s'.Inv pageOf' ∧ s'.Linked pageOf' := by
  cases event with
  | opens pageId attribution =>
    obtain rfl := some.inj hstep
    exact ⟨pageOf, h.openPage hlinked attribution⟩
  | edits pageId update =>
    obtain ⟨entry, hfind, rfl⟩ := map_eq_some_iff.mp hstep
    have hpage := pageId_eq hfind
    subst hpage
    refine ⟨pageOf, h.onUpdate hlinked hfind fun hsynced hhandle hsend => ?_⟩
    by_contra hnot
    exact hgood ⟨entry, hfind, hsynced, hhandle, hsend, hnot⟩
  | releases pageId =>
    obtain ⟨entry, hfind, hrelease⟩ := bind_eq_some_iff.mp hstep
    obtain ⟨-, heq⟩ := ite_none_right_eq_some.mp hrelease
    obtain rfl := some.inj heq
    have hpage := pageId_eq hfind
    subst hpage
    exact ⟨pageOf, h.releaseEntry hlinked hfind⟩
  | authenticates =>
    rw [StoreRun.step, ite_none_left_eq_some] at hstep
    obtain ⟨hoffline, heq⟩ := hstep
    obtain rfl := some.inj heq
    exact ⟨pageOf, h.authenticate (eq_false_of_not_eq_true hoffline)⟩
  | breaks =>
    obtain ⟨-, heq⟩ := ite_none_right_eq_some.mp hstep
    obtain rfl := some.inj heq
    exact ⟨pageOf, h.breaks, hlinked⟩
  | disconnects =>
    obtain ⟨-, heq⟩ := ite_none_right_eq_some.mp hstep
    obtain rfl := some.inj heq
    exact ⟨pageOf, h.disconnect⟩
  | fails code =>
    rw [StoreRun.step, ite_none_left_eq_some] at hstep
    obtain ⟨hoffline, heq⟩ := hstep
    obtain rfl := some.inj heq
    exact ⟨pageOf, h.handleFatal (eq_false_of_not_eq_true hoffline) code⟩
  | clientReceives =>
    rw [StoreRun.step] at hstep
    split at hstep
    · simp at hstep
    · rename_i frame rest hqueue
      obtain ⟨hsend, heq⟩ := ite_none_right_eq_some.mp hstep
      obtain rfl := some.inj heq
      refine ⟨pageOf, h.handleFrame hlinked hsend hqueue fun hmisleads =>
        hgood ⟨frame, ?_, hmisleads⟩⟩
      rw [hqueue]
      rfl
  | serverReceives rateLimited =>
    rw [StoreRun.step] at hstep
    split at hstep
    · simp at hstep
    · rename_i frame rest hqueue
      obtain rfl := some.inj hstep
      refine ⟨pageOf, h.onMessage hlinked hqueue fun hmisleads => hgood ⟨frame, ?_, hmisleads⟩,
        hlinked.onMessage rateLimited frame⟩
      rw [hqueue]
      rfl
  | serverOpens index role =>
    obtain ⟨⟨requestId, asked⟩, hget, rfl⟩ := map_eq_some_iff.mp hstep
    have herase := h.forget index
    exact herase.register hlinked role (h.opening requestId asked (mem_of_getElem? hget))
  | serverRefuses index code =>
    obtain ⟨⟨requestId, asked⟩, hget, rfl⟩ := map_eq_some_iff.mp hstep
    exact ⟨pageOf, (h.forget index).answer _ (by simp) (by simp [ServerFrame.message]), hlinked⟩
  | serverCloses handle =>
    obtain ⟨doc, hget, rfl⟩ := map_eq_some_iff.mp hstep
    have hclosed := h.answer (.closed handle "not_authorized") (by simp)
      (by simp [ServerFrame.message])
    refine ⟨pageOf, hclosed.handleCloseDocument handle, ?_⟩
    exact Linked.onMessage (s := s.answer _) hlinked false (.close handle)
  | serverChangesRole handle role =>
    obtain ⟨doc, hget, rfl⟩ := map_eq_some_iff.mp hstep
    exact ⟨pageOf, (h.changeRole handle role).answer _ (by simp) (by simp [ServerFrame.message]),
      hlinked⟩
  | remoteUpdates asked updates =>
    obtain rfl := some.inj hstep
    exact ⟨pageOf, h.receive asked none updates, hlinked⟩

theorem Inv.of_newStore (rooms : AskedName → Finset U) (pageOf : ℕ → AskedName) :
    (newStore rooms).Inv pageOf ∧ (newStore rooms).Linked pageOf := by
  refine ⟨?_, fun hready => by simp [newStore] at hready⟩
  exact ⟨by simp [newStore, Keyed.find_empty], by simp [newStore], by simp [newStore],
    by simp [newStore], by simp [newStore], by simp [newStore], by simp [newStore],
    by simp [newStore], by simp [newStore], by simp [newStore, comingOn],
    by simp [newStore, comingOn], by simp [newStore]⟩

theorem Inv.keepsEdits (h : s.Inv pageOf) : s.KeepsEdits where
  synced entry hentry hsynced :=
    ((h.entries entry.pageId entry (Keyed.mem_rows_iff.mp hentry)).synced hsynced).2
  destroyed := h.destroyed

/-- **What is marked synced has been received**, and so had been every document that was destroyed:
in every run in which no update is sent of an entry that is synced, no answer to step 1 overtakes
what the client sent, nothing is refused that the client takes for received, and every handle it
takes comes with step 1 or for a document with nothing to send. -/
theorem keepsEdits_of_reachesWhen
    (h : (documentStore U).ReachesWhen (fun s event => ¬ s.Misleads event) s) : s.KeepsEdits := by
  obtain ⟨pageOf, hinv, -⟩ := h.invariant (I := fun s => ∃ pageOf, s.Inv pageOf ∧ s.Linked pageOf)
    (by
      rintro s ⟨rooms, rfl⟩
      exact ⟨fun _ => ⟨0, false⟩, Inv.of_newStore rooms _⟩)
    (by
      rintro s event s' ⟨pageOf, hinv, hlinked⟩ hgood hstep
      exact hinv.step hlinked hgood hstep)
  exact hinv.keepsEdits

/-! ### An edit made while a page opens, and two that are lost -/

def examplePage : AskedName := ⟨1, false⟩

theorem newStore_init : (documentStore ℕ).init (newStore fun _ => ∅) := ⟨_, rfl⟩

/-- **An edit made while a page opens** reaches the server before the page is synced, and the
document is destroyed after that. -/
theorem keepsEdits_of_reachesWhen_whileOpening : ∃ s : StoreRun ℕ, s.KeepsEdits ∧
    s.rooms examplePage = {7} ∧ s.destroyed.map (·.doc) = [{7}] := by
  have hreach : ∃ s : StoreRun ℕ,
      (documentStore ℕ).ReachesWhen (fun s event => ¬ s.Misleads event) s ∧
        s.rooms examplePage = {7} ∧ s.destroyed.map (·.doc) = [{7}] :=
    Machine.exists_reachesWhen_of_runWhen
      [.authenticates, .opens examplePage ∅, .edits examplePage 7, .serverReceives false,
        .serverOpens 0 .editor, .clientReceives, .clientReceives, .serverReceives false,
        .serverReceives false, .clientReceives, .releases examplePage]
      newStore_init (by decide +kernel)
  obtain ⟨s, hs, hstate⟩ := hreach
  exact ⟨s, keepsEdits_of_reachesWhen hs, hstate⟩

/-- **An edit can be lost.** A page that is synced and edited still is synced while the edit is on
its way, and that may never arrive. And a page opened and edited while the connection was down is
asked for twice when it is back, by `handleAuthenticated` and by `handleReconnect`: the second
request is answered with the handle of the first, whose step 1 the client did not take. So the
client never sends its edit, the server's answer marks the page synced, and its document is
destroyed when it is released. -/
theorem not_keepsEdits :
    ¬ (∀ s, (documentStore ℕ).Reaches s → ∀ entry ∈ s.entries.rows, entry.synced = true →
      entry.edits ⊆ s.rooms entry.pageId) ∧
    ¬ ∀ s, (documentStore ℕ).Reaches s → ∀ doc ∈ s.destroyed, doc.doc ⊆ doc.received := by
  refine ⟨fun hall => ?_, fun hall => ?_⟩
  · have hreach : ∃ s : StoreRun ℕ, (documentStore ℕ).Reaches s ∧
        ∃ entry ∈ s.entries.rows, entry.synced = true ∧ ¬ entry.edits ⊆ s.rooms entry.pageId :=
      Machine.exists_reachesWhen_of_runWhen
        [.opens examplePage ∅, .authenticates, .serverReceives false, .serverOpens 0 .editor,
          .clientReceives, .clientReceives, .serverReceives false, .serverReceives false,
          .clientReceives, .edits examplePage 7]
        newStore_init (by decide +kernel)
    obtain ⟨s, hs, entry, hentry, hsynced, hnot⟩ := hreach
    exact hnot (hall s hs entry hentry hsynced)
  · have hreach : ∃ s : StoreRun ℕ, (documentStore ℕ).Reaches s ∧
        ∃ doc ∈ s.destroyed, ¬ doc.doc ⊆ doc.received :=
      Machine.exists_reachesWhen_of_runWhen
        [.authenticates, .disconnects, .opens examplePage ∅, .edits examplePage 7, .authenticates,
          .serverReceives false, .serverOpens 0 .editor, .serverReceives false, .clientReceives,
          .clientReceives, .clientReceives, .serverReceives false, .clientReceives,
          .releases examplePage]
        newStore_init (by decide +kernel)
    obtain ⟨s, hs, doc, hdoc, hnot⟩ := hreach
    exact hnot (hall s hs doc hdoc)

end StoreRun

end Sone.Client
