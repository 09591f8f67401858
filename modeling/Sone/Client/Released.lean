import Sone.Client.Synced

/-!
# Documents nobody holds any more

`releaseEntry` gives a document up with its last handle, but not while it is unsynced: then the
entry stays, with no reference, until the server has what it lacks. `KeepsUnsyncedOnly` says what
that comes to: an entry nobody holds is unsynced, what leaves the store is closed on the server,
and once everything is released and synced the store is empty.

Nothing looks at the references again when the server's answer arrives. `AnswersReleased` is the
step in question, the client taking the answer to its step 1 for a page nobody holds:
`keepsUnsyncedOnly_of_reachesWhen` is about the runs without it, and `not_keepsUnsyncedOnly` has a
run with one.
-/

set_option linter.unusedSectionVars false

namespace Sone.Client

open Option Function

universe u

variable {U : Type u} [DecidableEq U]

/-- **What a store keeps in order**: the maps lead to the entries that have what they are asked by,
a request is of an entry without a handle, and an entry nobody holds is unsynced. -/
structure DocumentStore.Tidy (store : DocumentStore U) : Prop where
  byHandle : ∀ handle pageId, store.byHandle handle = some pageId →
    ∃ entry, store.entries.find pageId = some entry ∧ entry.handle = some handle
  byRequest : ∀ requestId pageId, store.byRequest requestId = some pageId →
    ∃ entry, store.entries.find pageId = some entry ∧ entry.requestId = some requestId ∧
      entry.handle = none
  released : ∀ pageId entry, store.entries.find pageId = some entry → entry.refCount = 0 →
    entry.synced = false

namespace StoreRun

variable (s : StoreRun U)

/-- The answer to the client's step 1, for a page that nobody holds any more. -/
def IsAnswerForReleased : ServerFrame (SyncMessage U) → Prop
  | .sync handle message => message.isStep2 = true ∧ ∃ entry ∈ s.holding handle,
      entry.refCount = 0
  | _ => False

instance : (frame : ServerFrame (SyncMessage U)) → Decidable (s.IsAnswerForReleased frame)
  | .sync .. => inferInstanceAs (Decidable (_ ∧ _))
  | .openAck .. | .authAck _ | .awareness .. | .closed .. | .roleChanged .. | .notify _ | .pong |
    .error .. => inferInstanceAs (Decidable False)

/-- The client takes the answer to its step 1 for a page that nobody holds any more. -/
def AnswersReleased : StoreEvent U → Prop
  | .clientReceives => ∃ frame ∈ s.toClient.head?, s.IsAnswerForReleased frame
  | _ => False

instance : (event : StoreEvent U) → Decidable (s.AnswersReleased event)
  | .clientReceives => inferInstanceAs (Decidable (∃ _ ∈ _, _))
  | .opens .. | .edits .. | .releases _ | .authenticates | .breaks | .disconnects | .fails _ |
    .serverReceives _ | .serverOpens .. | .serverRefuses .. | .serverCloses _ |
    .serverChangesRole .. | .remoteUpdates .. => inferInstanceAs (Decidable False)

/-- **What must hold of a store**: an entry nobody holds is unsynced; an entry leaves the store when
it is released for the last time and synced, and its handle is closed then; and with everything
released and synced there is no entry, no handle and no request. -/
structure KeepsUnsyncedOnly : Prop where
  released : ∀ entry ∈ s.entries.rows, entry.refCount = 0 → entry.synced = false
  closed : ∀ event s', s.step event = some s' → ∀ entry ∈ s.entries.rows,
    s'.entries.find entry.pageId = none →
      event = .releases entry.pageId ∧ entry.refCount = 1 ∧ entry.synced = true ∧
        ∀ handle ∈ entry.handle, s'.byHandle handle = none ∧
          (s.canSend = true → .close handle ∈ s'.toServer)
  emptied : (∀ entry ∈ s.entries.rows, entry.refCount = 0 ∧ entry.synced = true) →
    s.entries.rows = [] ∧ (∀ handle, s.byHandle handle = none) ∧
      ∀ requestId, s.byRequest requestId = none

end StoreRun

namespace DocumentStore

variable {s s' : StoreRun U} {entry : Entry U} {pageId : AskedName}

open StoreRun

/-! ### Entries change -/

theorem Tidy.setEntry (h : s.Tidy)
    (hhandle : ∀ handle, s.byHandle handle = some entry.pageId → entry.handle = some handle)
    (hrequest : ∀ requestId, s.byRequest requestId = some entry.pageId →
      entry.requestId = some requestId ∧ entry.handle = none)
    (hreleased : entry.refCount = 0 → entry.synced = false) : (s.setEntry entry).Tidy where
  byHandle := leads_setEntry h.byHandle hhandle
  byRequest := leads_setEntry h.byRequest hrequest
  released pageId other hother := by
    rcases find_setEntry_cases hother with ⟨-, rfl⟩ | ⟨-, hother⟩
    · exact hreleased
    · exact h.released pageId other hother

theorem Tidy.setEntry_of_find (h : s.Tidy) {old : Entry U}
    (hfind : s.entries.find entry.pageId = some old) (hhandle : entry.handle = old.handle)
    (hrequest : entry.requestId = old.requestId)
    (hreleased : entry.refCount = 0 → entry.synced = false) : (s.setEntry entry).Tidy := by
  refine h.setEntry (fun handle hmap => ?_) (fun requestId hmap => ?_) hreleased
  · exact hhandle.trans (has_of_leads h.byHandle hfind hmap)
  · rw [hrequest, hhandle]
    exact has_of_leads h.byRequest hfind hmap

/-- **A page is asked for**, of an entry that no map leads to. -/
theorem Tidy.requestOpen (h : s.Tidy) (hloose : s.IsLoose entry)
    (hreleased : entry.refCount = 0 → entry.synced = false) : (s.requestOpen entry).Tidy := by
  have hset : ∀ (requestId : Option ℕ) (status : DocumentStatus), (s.setEntry { entry with
      requestId
      status }).Tidy := by
    intro requestId status
    exact h.setEntry (fun handle hmap => absurd hmap (hloose.2.1 handle))
      (fun requestId hmap => absurd hmap (hloose.2.2 requestId)) hreleased
  rw [StoreRun.requestOpen]
  simp only
  split
  · refine { hset (some s.nextRequestId) entry.status with
      byRequest := fun requestId pageId hmap => ?_ }
    by_cases heq : requestId = s.nextRequestId
    · subst heq
      obtain rfl : entry.pageId = pageId := by
        simpa only [update_self, Option.some.injEq] using hmap
      exact ⟨_, find_setEntry_self, rfl, hloose.1⟩
    · simp only [update_of_ne heq] at hmap
      exact (hset (some s.nextRequestId) entry.status).byRequest requestId pageId hmap
  · refine { hset none .opening with byRequest := fun requestId pageId hmap => ?_ }
    by_cases heq : requestId = s.nextRequestId
    · subst heq
      simp [update_self] at hmap
    · simp only [update_of_ne heq] at hmap
      exact (hset none .opening).byRequest requestId pageId hmap

/-! ### Calls from outside -/

/-- **Opening** a page. -/
theorem Tidy.openPage (h : s.Tidy) (attribution : Finset U) :
    (s.openPage pageId attribution).Tidy := by
  rw [StoreRun.openPage]
  split
  · rename_i entry hfind
    obtain rfl := pageId_eq hfind
    exact h.setEntry_of_find hfind rfl rfl (by simp)
  · rename_i hfind
    have hnone : ∀ {entry : Entry U}, ¬ s.entries.find pageId = some entry := by
      intro entry hentry
      rw [hfind] at hentry
      simp at hentry
    have hhandle : ∀ handle, s.byHandle handle ≠ some pageId := fun handle hmap => by
      obtain ⟨entry, hentry, -⟩ := h.byHandle handle _ hmap
      exact hnone hentry
    have hrequest : ∀ requestId, s.byRequest requestId ≠ some pageId := fun requestId hmap => by
      obtain ⟨entry, hentry, -⟩ := h.byRequest requestId _ hmap
      exact hnone hentry
    refine (h.setEntry (fun handle hmap => absurd hmap (hhandle handle))
      (fun requestId hmap => absurd hmap (hrequest requestId)) (by simp)).requestOpen ?_ (by simp)
    exact ⟨rfl, hhandle, hrequest⟩

theorem Tidy.onUpdate (h : s.Tidy) (hfind : s.entries.find pageId = some entry) (update : U) :
    (s.onUpdate entry update).Tidy := by
  obtain rfl := pageId_eq hfind
  have hreleased := h.released _ entry hfind
  rw [StoreRun.onUpdate]
  simp only
  split
  · exact h.setEntry_of_find hfind rfl rfl fun _ => rfl
  · split
    · exact h.setEntry_of_find hfind rfl rfl hreleased
    · exact h.setEntry_of_find hfind rfl rfl fun _ => rfl

/-- **An entry is taken out**, and with it what leads to it. -/
theorem Tidy.destroy (h : s.Tidy) {old : Entry U}
    (hfind : s.entries.find entry.pageId = some old) (hhandle : entry.handle = old.handle)
    (hrequest : entry.requestId = old.requestId) : (s.destroy entry).Tidy := by
  -- every other page is found as before, and the maps no longer lead to this one
  have hkept : ∀ {pageId : AskedName} {other : Entry U},
      s.entries.find pageId = some other → pageId ≠ entry.pageId →
        (s.destroy entry).entries.find pageId = some other := by
    intro pageId other hother hne
    rw [StoreRun.destroy, Keyed.find_filter, filter_eq_some_iff]
    exact ⟨hother, by simpa [pageId_eq hother] using hne⟩
  refine ⟨fun handle pageId hmap => ?_, fun requestId pageId hmap => ?_,
    fun pageId other hother => ?_⟩
  · obtain ⟨hmap, hne⟩ := deleted_eq_some.mp hmap
    obtain ⟨other, hother, hsome⟩ := h.byHandle handle pageId hmap
    refine ⟨other, hkept hother ?_, hsome⟩
    rintro rfl
    exact hne (hhandle.trans (has_of_leads h.byHandle hfind hmap))
  · obtain ⟨hmap, hne⟩ := deleted_eq_some.mp hmap
    obtain ⟨other, hother, hsome, hnone⟩ := h.byRequest requestId pageId hmap
    refine ⟨other, hkept hother ?_, hsome, hnone⟩
    rintro rfl
    exact hne (hrequest.trans (has_of_leads h.byRequest hfind hmap).1)
  · rw [StoreRun.destroy, Keyed.find_filter, filter_eq_some_iff] at hother
    exact h.released pageId other hother.1

theorem Tidy.releaseEntry (h : s.Tidy) (hfind : s.entries.find pageId = some entry) :
    (s.releaseEntry entry).Tidy := by
  obtain rfl := pageId_eq hfind
  rw [StoreRun.releaseEntry]
  simp only
  split
  · rename_i hkept
    refine h.setEntry_of_find hfind rfl rfl fun hnone => ?_
    exact hkept.resolve_left (by simp only at hnone; omega)
  · split
    · exact h.destroy hfind rfl rfl
    · rename_i handle hhandle
      have hsend : (s.send (.close handle)).Tidy := h
      exact hsend.destroy hfind rfl rfl

/-! ### The connection -/

theorem Tidy.reissue (h : s.Tidy) : (s.reissue pageId).Tidy := by
  rw [StoreRun.reissue]
  split
  · exact h
  · rename_i entry hfind
    obtain rfl := pageId_eq hfind
    split
    · exact h
    · rename_i hnone
      rw [not_or, not_isSome_iff_eq_none, not_isSome_iff_eq_none] at hnone
      exact h.requestOpen (.of_leads h.byHandle h.byRequest hfind hnone.1 hnone.2 hnone.1)
        (h.released _ entry hfind)

theorem Tidy.handleAuthenticated (h : s.Tidy) : s.handleAuthenticated.Tidy :=
  List.foldlRecOn _ _ (motive := fun s : StoreRun U => s.Tidy) h fun _ h _ _ => h.reissue

theorem Tidy.reopen (h : s.Tidy) (hhandle : ∀ handle, s.byHandle handle ≠ some pageId)
    (hrequest : ∀ requestId, s.byRequest requestId ≠ some pageId) : (s.reopen pageId).Tidy := by
  rw [StoreRun.reopen]
  split
  · exact h
  · rename_i entry hfind
    obtain rfl := pageId_eq hfind
    exact h.requestOpen ⟨rfl, hhandle, hrequest⟩ (h.released _ entry hfind)

theorem Tidy.clearMaps (h : s.Tidy) : s.clearMaps.Tidy where
  byHandle handle pageId hmap := by simp [StoreRun.clearMaps] at hmap
  byRequest requestId pageId hmap := by simp [StoreRun.clearMaps] at hmap
  released := h.released

theorem Tidy.handleReconnect (h : s.Tidy) : s.handleReconnect.Tidy :=
  foldl_reopen (fun _ _ h => Tidy.reopen h) h.clearMaps s.entries.nodup
    (by simp [StoreRun.clearMaps]) (by simp [StoreRun.clearMaps])

theorem Tidy.authenticate (h : s.Tidy) : s.authenticate.Tidy := by
  have hreset : { s with
      toServerSide := ⟨.empty, fun _ => none, []⟩
      ready := true
      isOpen := true
      hasConnectedBefore := true
      toServer := []
      toClient := [] }.handleAuthenticated.Tidy := Tidy.handleAuthenticated h
  rw [StoreRun.authenticate]
  simp only
  split
  · exact hreset.handleReconnect
  · exact hreset

/-- **A change of all entries** that leaves their handles, their requests and their references, and
marks none of them synced. -/
theorem Tidy.modify (h : s.Tidy) {f : Entry U → Entry U}
    (hf : ∀ entry, (f entry).pageId = entry.pageId)
    (hhandle : ∀ entry, (f entry).handle = entry.handle)
    (hrequest : ∀ entry, (f entry).requestId = entry.requestId)
    (hreleased : ∀ entry, (entry.refCount = 0 → entry.synced = false) →
      (f entry).refCount = 0 → (f entry).synced = false) :
    { s with entries := s.entries.modify f hf }.Tidy where
  byHandle handle pageId hmap := by
    obtain ⟨entry, hentry, hsome⟩ := h.byHandle handle pageId hmap
    exact ⟨f entry, by rw [Keyed.find_modify, hentry]; rfl, (hhandle entry).trans hsome⟩
  byRequest requestId pageId hmap := by
    obtain ⟨entry, hentry, hsome, hnone⟩ := h.byRequest requestId pageId hmap
    exact ⟨f entry, by rw [Keyed.find_modify, hentry]; rfl, (hrequest entry).trans hsome,
      (hhandle entry).trans hnone⟩
  released pageId other hother := by
    rw [Keyed.find_modify] at hother
    obtain ⟨old, hold, rfl⟩ := map_eq_some_iff.mp hother
    exact hreleased old (h.released pageId old hold)

/-! ### Frames -/

/-- **A request is answered** with a handle. -/
theorem Tidy.onOpenAck (h : s.Tidy) (requestId handle : ℕ) (role : Role) :
    (s.onOpenAck requestId handle role).Tidy := by
  rw [StoreRun.onOpenAck]
  split
  · exact h
  · rename_i entry hrequested
    obtain ⟨hmap, hfind⟩ := find_of_requested hrequested
    obtain ⟨hnumber, hnone⟩ := has_of_leads h.byRequest hfind hmap
    refine ⟨fun other pageId hother => ?_, fun other pageId hother => ?_,
      fun pageId other hother => ?_⟩
    · simp only [StoreRun.send, StoreRun.setEntry] at hother
      rw [show ((StoreRun.setEntry _ _).send _).entries.find pageId = _ from find_setEntry]
      by_cases heq : other = handle
      · subst heq
        rw [update_self] at hother
        exact ⟨_, if_pos (some.inj hother), rfl⟩
      · rw [update_of_ne heq] at hother
        obtain ⟨old, hold, hsome⟩ := h.byHandle other pageId hother
        refine ⟨old, (if_neg ?_).trans hold, hsome⟩
        -- a page that still asks has no handle, so no other handle leads to it
        rintro rfl
        have hsome := has_of_leads h.byHandle hfind hother
        simp [hnone] at hsome
    · simp only [StoreRun.send, StoreRun.setEntry] at hother
      rw [show ((StoreRun.setEntry _ _).send _).entries.find pageId = _ from find_setEntry]
      by_cases heq : other = requestId
      · subst heq
        rw [update_self] at hother
        simp at hother
      · rw [update_of_ne heq] at hother
        obtain ⟨old, hold, hsome, hfree⟩ := h.byRequest other pageId hother
        refine ⟨old, (if_neg ?_).trans hold, hsome, hfree⟩
        -- and the request that is answered is the only one it made
        rintro rfl
        have hsome := (has_of_leads h.byRequest hfind hother).1
        exact heq (some.inj (hsome.symm.trans hnumber))
    · rcases find_setEntry_cases hother with ⟨-, rfl⟩ | ⟨-, hother⟩
      · exact h.released _ entry hfind
      · exact h.released pageId other hother

/-- **A message of y-protocols**, that is no answer to step 1 where nobody holds the page. -/
theorem Tidy.onSync (h : s.Tidy) {handle : ℕ} {message : SyncMessage U}
    (hgood : message.isStep2 = true → ∀ entry ∈ s.holding handle, entry.refCount ≠ 0) :
    (s.onSync handle message).Tidy := by
  rw [StoreRun.onSync]
  split
  · exact h
  · rename_i entry hholding
    obtain ⟨-, hfind⟩ := find_of_holding hholding
    have hset : (s.setEntry
        ({ entry with doc := entry.doc ∪ message.updates }.settle message)).Tidy := by
      obtain ⟨status, hsettle⟩ :=
        Entry.exists_settle_eq { entry with doc := entry.doc ∪ message.updates } message
      rw [hsettle]
      refine h.setEntry_of_find hfind rfl rfl fun hnone => ?_
      rw [Bool.or_eq_false_iff]
      exact ⟨Bool.eq_false_of_not_eq_true fun hstep =>
        hgood hstep entry hholding hnone, h.released _ entry hfind hnone⟩
    simp only
    split
    · exact hset
    · exact hset

theorem Tidy.onClosed (h : s.Tidy) (handle : ℕ) (reason : String) :
    (s.onClosed handle reason).Tidy := by
  rw [StoreRun.onClosed]
  split
  · exact h
  · rename_i entry hholding
    obtain ⟨hmap, hfind⟩ := find_of_holding hholding
    have hhandle := has_of_leads h.byHandle hfind hmap
    have hcleared : ({ s with
        byHandle := Function.update s.byHandle handle none } : StoreRun U).Tidy := by
      refine { h with byHandle := fun other pageId hother => ?_ }
      by_cases heq : other = handle
      · simp [heq] at hother
      · exact h.byHandle other pageId (by simpa only [update_of_ne heq] using hother)
    refine Tidy.setEntry hcleared (fun other hother => ?_) (fun requestId hrequest => ?_)
      (h.released _ entry hfind)
    · by_cases heq : other = handle
      · simp [heq] at hother
      · have hsome := has_of_leads hcleared.byHandle hfind hother
        exact absurd (some.inj (hsome.symm.trans hhandle)) heq
    · exact ⟨(has_of_leads h.byRequest hfind hrequest).1, rfl⟩

theorem Tidy.onRoleChanged (h : s.Tidy) (handle : ℕ) (role : Role) :
    (s.onRoleChanged handle role).Tidy := by
  rw [StoreRun.onRoleChanged]
  split
  · exact h
  · rename_i entry hholding
    obtain ⟨-, hfind⟩ := find_of_holding hholding
    exact h.setEntry_of_find hfind rfl rfl (h.released _ entry hfind)

theorem Tidy.onError (h : s.Tidy) (requestId : ℕ) (code : String) :
    (s.onError requestId code).Tidy := by
  rw [StoreRun.onError]
  split
  · exact h
  · split
    · exact h
    · rename_i entry hrequested
      obtain ⟨hmap, hfind⟩ := find_of_requested hrequested
      have hnumber := (has_of_leads h.byRequest hfind hmap).1
      have hcleared : ({ s with
          byRequest := Function.update s.byRequest requestId none } : StoreRun U).Tidy := by
        refine { h with byRequest := fun other pageId hother => ?_ }
        by_cases heq : other = requestId
        · simp [heq] at hother
        · exact h.byRequest other pageId (by simpa only [update_of_ne heq] using hother)
      refine Tidy.setEntry hcleared (fun handle hhandle => ?_) (fun other hother => ?_)
        (h.released _ entry hfind)
      · exact has_of_leads h.byHandle hfind hhandle
      · by_cases heq : other = requestId
        · simp [heq] at hother
        · have hsome := (has_of_leads hcleared.byRequest hfind hother).1
          exact absurd (some.inj (hsome.symm.trans hnumber)) heq

/-- **The client takes a frame.** -/
theorem Tidy.handleFrame (h : s.Tidy) {frame : ServerFrame (SyncMessage U)}
    (hgood : ∀ handle message, frame = .sync handle message → message.isStep2 = true →
      ∀ entry ∈ s.holding handle, entry.refCount ≠ 0) : (s.handleFrame frame).Tidy := by
  cases frame with
  | openAck requestId handle role => exact h.onOpenAck requestId handle role
  | sync handle message => exact h.onSync (hgood handle message rfl)
  | closed handle reason => exact h.onClosed handle reason
  | roleChanged handle role => exact h.onRoleChanged handle role
  | error requestId code detail => exact h.onError requestId code
  | authAck ack => exact h
  | awareness handle payload => exact h
  | notify scope => exact h
  | pong => exact h

/-- **A step** that does not answer a page nobody holds keeps the store in order. -/
theorem Tidy.step (h : s.Tidy) {event : StoreEvent U} (hgood : ¬ s.AnswersReleased event)
    (hstep : s.step event = some s') : s'.Tidy := by
  cases event with
  | opens pageId attribution =>
    obtain rfl := some.inj hstep
    exact h.openPage attribution
  | edits pageId update =>
    obtain ⟨entry, hfind, rfl⟩ := map_eq_some_iff.mp hstep
    exact h.onUpdate hfind update
  | releases pageId =>
    obtain ⟨entry, hfind, hrelease⟩ := bind_eq_some_iff.mp hstep
    obtain ⟨-, heq⟩ := ite_none_right_eq_some.mp hrelease
    obtain rfl := some.inj heq
    exact h.releaseEntry hfind
  | authenticates =>
    rw [StoreRun.step, ite_none_left_eq_some] at hstep
    obtain rfl := some.inj hstep.2
    exact h.authenticate
  | breaks =>
    obtain ⟨-, heq⟩ := ite_none_right_eq_some.mp hstep
    obtain rfl := some.inj heq
    exact h
  | disconnects =>
    obtain ⟨-, heq⟩ := ite_none_right_eq_some.mp hstep
    obtain rfl := some.inj heq
    -- the documents keep their handles, and the maps lead to them as before
    have hmarked := h.modify (f := fun entry => { entry with
      synced := false
      status := .offline }) (fun _ => rfl) (fun _ => rfl) (fun _ => rfl) fun _ _ _ => rfl
    exact hmarked
  | fails code =>
    rw [StoreRun.step, ite_none_left_eq_some] at hstep
    obtain rfl := some.inj hstep.2
    refine ⟨fun handle pageId hmap => ?_, fun requestId pageId hmap => ?_,
      fun pageId other hother => ?_⟩
    · simp [StoreRun.handleFatal, StoreRun.clearMaps] at hmap
    · simp [StoreRun.handleFatal, StoreRun.clearMaps] at hmap
    · rw [StoreRun.handleFatal, Keyed.find_modify] at hother
      obtain ⟨old, hold, rfl⟩ := map_eq_some_iff.mp hother
      exact h.released pageId old hold
  | clientReceives =>
    rw [StoreRun.step] at hstep
    split at hstep
    · simp at hstep
    · rename_i frame rest hqueue
      obtain ⟨-, heq⟩ := ite_none_right_eq_some.mp hstep
      obtain rfl := some.inj heq
      -- the frame at the head of the queue is one the event would read
      refine h.handleFrame fun handle message hframe hanswers entry hholding hnone => hgood ?_
      subst hframe
      exact ⟨.sync handle message, by rw [hqueue]; rfl, hanswers, entry, hholding, hnone⟩
  | serverReceives rateLimited =>
    rw [StoreRun.step] at hstep
    split at hstep
    · simp at hstep
    · rename_i frame rest hqueue
      obtain rfl := some.inj hstep
      obtain ⟨hstore, -⟩ := store_onMessage (s := s) rateLimited frame
      exact hstore ▸ h
  | serverOpens index role =>
    obtain ⟨⟨requestId, asked⟩, -, rfl⟩ := map_eq_some_iff.mp hstep
    exact h
  | serverRefuses index code =>
    obtain ⟨⟨requestId, asked⟩, -, rfl⟩ := map_eq_some_iff.mp hstep
    exact h
  | serverCloses handle =>
    obtain ⟨doc, -, rfl⟩ := map_eq_some_iff.mp hstep
    obtain ⟨hstore, -⟩ := store_onMessage (s := s.answer (.closed handle "not_authorized")) false
      (.close handle)
    exact hstore ▸ h
  | serverChangesRole handle role =>
    obtain ⟨doc, -, rfl⟩ := map_eq_some_iff.mp hstep
    exact h
  | remoteUpdates asked updates =>
    obtain rfl := some.inj hstep
    exact h

theorem Tidy.of_newStore (rooms : AskedName → Finset U) : (newStore rooms).Tidy where
  byHandle handle pageId hmap := by simp [newStore] at hmap
  byRequest requestId pageId hmap := by simp [newStore] at hmap
  released pageId entry hfind := by simp [newStore, Keyed.find_empty] at hfind

end DocumentStore

namespace StoreRun

variable {s s' s'' : StoreRun U} {entry : Entry U} {pageId : AskedName}

/-! ### What leaves the store -/

/-- Every entry stays, changed or not. -/
def Keeps (s s' : StoreRun U) : Prop :=
  ∀ pageId, s'.entries.find pageId = none → s.entries.find pageId = none

theorem Keeps.refl (s : StoreRun U) : s.Keeps s := fun _ hnone => hnone

theorem Keeps.trans (h : s.Keeps s') (h' : s'.Keeps s'') : s.Keeps s'' :=
  fun pageId hnone => h pageId (h' pageId hnone)

theorem keeps_setEntry (entry : Entry U) : s.Keeps (s.setEntry entry) := by
  intro pageId hnone
  rw [find_setEntry] at hnone
  split at hnone
  · simp at hnone
  · exact hnone

theorem keeps_requestOpen (entry : Entry U) : s.Keeps (s.requestOpen entry) := by
  rw [StoreRun.requestOpen]
  simp only
  split
  · exact keeps_setEntry _
  · exact keeps_setEntry _

theorem keeps_foldl {round : StoreRun U → AskedName → StoreRun U}
    (h : ∀ (s : StoreRun U) pageId, s.Keeps (round s pageId)) (pages : List AskedName)
    (s : StoreRun U) :
    s.Keeps (pages.foldl round s) :=
  List.foldlRecOn pages round (motive := fun s' => s.Keeps s') (Keeps.refl s)
    fun s' (hkeeps : s.Keeps s') pageId _ => hkeeps.trans (h s' pageId)

theorem keeps_modify {f : Entry U → Entry U} (hf : ∀ entry, (f entry).pageId = entry.pageId) :
    s.Keeps { s with entries := s.entries.modify f hf } := by
  intro pageId hnone
  rw [Keyed.find_modify] at hnone
  exact map_eq_none_iff.mp hnone

theorem keeps_authenticate : s.Keeps s.authenticate := by
  have hreissue : ∀ (s : StoreRun U) pageId, s.Keeps (s.reissue pageId) := by
    intro s pageId
    rw [StoreRun.reissue]
    split
    · exact Keeps.refl s
    · split
      · exact Keeps.refl s
      · exact keeps_requestOpen _
  have hreopen : ∀ (s : StoreRun U) pageId, s.Keeps (s.reopen pageId) := by
    intro s pageId
    rw [StoreRun.reopen]
    split
    · exact Keeps.refl s
    · exact keeps_requestOpen _
  have hreset : s.Keeps { s with
      toServerSide := ⟨.empty, fun _ => none, []⟩
      ready := true
      isOpen := true
      hasConnectedBefore := true
      toServer := []
      toClient := [] }.handleAuthenticated :=
    keeps_foldl hreissue _ _
  rw [StoreRun.authenticate]
  simp only
  split
  · exact hreset.trans (keeps_foldl hreopen _ _)
  · exact hreset

theorem keeps_handleFrame (frame : ServerFrame (SyncMessage U)) :
    s.Keeps (s.handleFrame frame) := by
  cases frame with
  | openAck requestId handle role =>
    rw [StoreRun.handleFrame, StoreRun.onOpenAck]
    split
    · exact Keeps.refl s
    · exact keeps_setEntry (s := s) _
  | sync handle message =>
    rw [StoreRun.handleFrame, StoreRun.onSync]
    split
    · exact Keeps.refl s
    · simp only
      split
      · exact keeps_setEntry _
      · exact keeps_setEntry (s := s) _
  | closed handle reason =>
    rw [StoreRun.handleFrame, StoreRun.onClosed]
    split
    · exact Keeps.refl s
    · exact keeps_setEntry (s := s) _
  | roleChanged handle role =>
    rw [StoreRun.handleFrame, StoreRun.onRoleChanged]
    split
    · exact Keeps.refl s
    · exact keeps_setEntry _
  | error requestId code detail =>
    rw [StoreRun.handleFrame, StoreRun.onError]
    split
    · exact Keeps.refl s
    · split
      · exact Keeps.refl s
      · exact keeps_setEntry (s := s) _
  | authAck ack => exact Keeps.refl s
  | awareness handle payload => exact Keeps.refl s
  | notify scope => exact Keeps.refl s
  | pong => exact Keeps.refl s

theorem entries_releaseEntry (hgone : ¬ (0 < entry.refCount - 1 ∨ entry.synced = false)) :
    (s.releaseEntry entry).entries =
      s.entries.filter fun other => other.pageId ≠ entry.pageId := by
  rw [StoreRun.releaseEntry]
  simp only
  rw [if_neg hgone]
  cases entry.handle <;> rfl

theorem close_releaseEntry (hgone : ¬ (0 < entry.refCount - 1 ∨ entry.synced = false))
    {handle : ℕ} (hhandle : entry.handle = some handle) :
    (s.releaseEntry entry).byHandle handle = none ∧
      (s.canSend = true → .close handle ∈ (s.releaseEntry entry).toServer) := by
  rw [StoreRun.releaseEntry]
  simp only
  rw [if_neg hgone]
  simp only [hhandle]
  refine ⟨by simp [StoreRun.destroy, deleted], fun hsend => ?_⟩
  simp [StoreRun.destroy, StoreRun.send, hsend]

/-- **A release** takes out an entry that is synced and held once, and closes its handle. -/
theorem find_releaseEntry_eq_none (hheld : 0 < entry.refCount)
    (hnone : (s.releaseEntry entry).entries.find pageId = none) :
    s.entries.find pageId = none ∨ pageId = entry.pageId ∧ entry.refCount = 1 ∧
      entry.synced = true ∧ ∀ handle ∈ entry.handle,
        (s.releaseEntry entry).byHandle handle = none ∧
          (s.canSend = true → .close handle ∈ (s.releaseEntry entry).toServer) := by
  by_cases hkept : 0 < entry.refCount - 1 ∨ entry.synced = false
  · rw [StoreRun.releaseEntry] at hnone
    simp only at hnone
    rw [if_pos hkept] at hnone
    exact .inl (keeps_setEntry _ pageId hnone)
  · by_cases heq : pageId = entry.pageId
    · have hlast := not_or.mp hkept
      refine .inr ⟨heq, by omega, Bool.eq_true_of_not_eq_false hlast.2, fun handle hhandle => ?_⟩
      exact close_releaseEntry hkept hhandle
    · rw [entries_releaseEntry hkept, Keyed.find_filter, filter_eq_none_iff] at hnone
      refine .inl (eq_none_iff_forall_ne_some.mpr fun other hother => ?_)
      exact hnone other hother (by simpa [pageId_eq hother] using heq)

/-- **What leaves the store** in a step has been released for the last time, is synced, and its
handle is closed. -/
theorem find_eq_none_of_step {event : StoreEvent U} (hstep : s.step event = some s')
    (hfind : s.entries.find pageId = some entry) (hnone : s'.entries.find pageId = none) :
    event = .releases pageId ∧ entry.refCount = 1 ∧ entry.synced = true ∧
      ∀ handle ∈ entry.handle, s'.byHandle handle = none ∧
        (s.canSend = true → .close handle ∈ s'.toServer) := by
  -- a step that keeps every document is not the one that let this one go
  have hstays : ¬ s.Keeps s' := fun hkeeps => by simpa [hfind] using hkeeps pageId hnone
  cases event with
  | opens opened attribution =>
    obtain rfl := some.inj hstep
    refine absurd ?_ hstays
    rw [StoreRun.openPage]
    split
    · exact keeps_setEntry _
    · exact (keeps_setEntry _).trans (keeps_requestOpen _)
  | edits edited update =>
    obtain ⟨other, -, rfl⟩ := map_eq_some_iff.mp hstep
    refine absurd ?_ hstays
    rw [StoreRun.onUpdate]
    simp only
    split
    · exact keeps_setEntry _
    · split
      · exact keeps_setEntry (s := s) _
      · exact keeps_setEntry _
  | releases released =>
    obtain ⟨other, hother, hrelease⟩ := bind_eq_some_iff.mp hstep
    obtain ⟨hheld, heq⟩ := ite_none_right_eq_some.mp hrelease
    obtain rfl := some.inj heq
    obtain rfl := pageId_eq hother
    rcases find_releaseEntry_eq_none hheld hnone with habsent | ⟨rfl, hleaves⟩
    · rw [hfind] at habsent
      simp at habsent
    · rw [hother] at hfind
      obtain rfl := some.inj hfind
      exact ⟨rfl, hleaves⟩
  | authenticates =>
    rw [StoreRun.step, ite_none_left_eq_some] at hstep
    obtain rfl := some.inj hstep.2
    exact absurd keeps_authenticate hstays
  | breaks =>
    obtain ⟨-, heq⟩ := ite_none_right_eq_some.mp hstep
    obtain rfl := some.inj heq
    exact absurd (Keeps.refl s) hstays
  | disconnects =>
    obtain ⟨-, heq⟩ := ite_none_right_eq_some.mp hstep
    obtain rfl := some.inj heq
    exact absurd (keeps_modify (s := s) (f := fun entry => { entry with
      synced := false
      status := .offline }) fun _ => rfl) hstays
  | fails code =>
    rw [StoreRun.step, ite_none_left_eq_some] at hstep
    obtain rfl := some.inj hstep.2
    have hkeeps : s.Keeps (s.handleFatal code) := fun page habsent => by
      rw [StoreRun.handleFatal, Keyed.find_modify] at habsent
      exact map_eq_none_iff.mp habsent
    exact absurd hkeeps hstays
  | clientReceives =>
    rw [StoreRun.step] at hstep
    split at hstep
    · simp at hstep
    · rename_i frame rest hqueue
      obtain ⟨-, heq⟩ := ite_none_right_eq_some.mp hstep
      obtain rfl := some.inj heq
      exact absurd (keeps_handleFrame (s := s) frame) hstays
  | serverReceives rateLimited =>
    rw [StoreRun.step] at hstep
    split at hstep
    · simp at hstep
    · rename_i frame rest hqueue
      obtain rfl := some.inj hstep
      obtain ⟨hstore, -⟩ := store_onMessage (s := s) rateLimited frame
      refine absurd (fun page habsent => ?_) hstays
      rw [← hstore]
      exact habsent
  | serverOpens index role =>
    obtain ⟨⟨requestId, asked⟩, -, rfl⟩ := map_eq_some_iff.mp hstep
    exact absurd (Keeps.refl s) hstays
  | serverRefuses index code =>
    obtain ⟨⟨requestId, asked⟩, -, rfl⟩ := map_eq_some_iff.mp hstep
    exact absurd (Keeps.refl s) hstays
  | serverCloses handle =>
    obtain ⟨doc, -, rfl⟩ := map_eq_some_iff.mp hstep
    obtain ⟨hstore, -⟩ := store_onMessage (s := s.answer (.closed handle "not_authorized")) false
      (.close handle)
    refine absurd (fun page habsent => ?_) hstays
    rw [← show _ = s.toDocumentStore from hstore]
    exact habsent
  | serverChangesRole handle role =>
    obtain ⟨doc, -, rfl⟩ := map_eq_some_iff.mp hstep
    exact absurd (Keeps.refl s) hstays
  | remoteUpdates asked updates =>
    obtain rfl := some.inj hstep
    exact absurd (Keeps.refl s) hstays

/-! ### Runs -/

theorem KeepsUnsyncedOnly.of_tidy (h : s.Tidy) : s.KeepsUnsyncedOnly where
  released entry hentry := h.released entry.pageId entry (Keyed.mem_rows_iff.mp hentry)
  closed event s' hstep entry hentry hnone :=
    find_eq_none_of_step hstep (Keyed.mem_rows_iff.mp hentry) hnone
  emptied hall := by
    have hempty : ∀ pageId entry, s.entries.find pageId ≠ some entry := by
      intro pageId entry hfind
      obtain ⟨hcount, hsynced⟩ := hall entry (Keyed.mem_rows hfind)
      simp [h.released pageId entry hfind hcount] at hsynced
    refine ⟨List.eq_nil_iff_forall_not_mem.mpr fun entry hentry =>
      hempty entry.pageId entry (Keyed.mem_rows_iff.mp hentry), fun handle => ?_,
      fun requestId => ?_⟩
    · refine eq_none_iff_forall_ne_some.mpr fun pageId hmap => ?_
      obtain ⟨entry, hfind, -⟩ := h.byHandle handle pageId hmap
      exact hempty pageId entry hfind
    · refine eq_none_iff_forall_ne_some.mpr fun pageId hmap => ?_
      obtain ⟨entry, hfind, -⟩ := h.byRequest requestId pageId hmap
      exact hempty pageId entry hfind

/-- **A document nobody holds stays only while it is unsynced**, and once everything is released
and synced nothing is left: in every run in which the client takes no answer to its step 1 for a
page that nobody holds any more. -/
theorem keepsUnsyncedOnly_of_reachesWhen
    (h : (documentStore U).ReachesWhen (fun s event => ¬ s.AnswersReleased event) s) :
    s.KeepsUnsyncedOnly := by
  refine .of_tidy (h.invariant (I := fun s => s.Tidy) ?_ ?_)
  · rintro s ⟨rooms, rfl⟩
    exact DocumentStore.Tidy.of_newStore rooms
  · intro s event s' htidy hgood hstep
    exact htidy.step hgood hstep

/-! ### A page given back, and one that is kept for good -/

/-- **A page released twice**: once before the server answered, while another handle held it, and
once after. It is gone then, and so is its handle. -/
theorem keepsUnsyncedOnly_of_reachesWhen_heldTwice : ∃ s : StoreRun ℕ, s.KeepsUnsyncedOnly ∧
    s.entries.rows.map (·.pageId) = [] ∧ s.destroyed.map (·.doc) = [∅] ∧ s.toServer.length = 1 := by
  have hreach : ∃ s : StoreRun ℕ,
      (documentStore ℕ).ReachesWhen (fun s event => ¬ s.AnswersReleased event) s ∧
        s.entries.rows.map (·.pageId) = [] ∧ s.destroyed.map (·.doc) = [∅] ∧
          s.toServer.length = 1 :=
    Machine.exists_reachesWhen_of_runWhen
      [.authenticates, .opens examplePage ∅, .opens examplePage ∅, .serverReceives false,
        .serverOpens 0 .editor, .clientReceives, .releases examplePage, .clientReceives,
        .serverReceives false, .serverReceives false, .clientReceives, .releases examplePage]
      newStore_init (by decide +kernel)
  obtain ⟨s, hs, hstate⟩ := hreach
  exact ⟨s, keepsUnsyncedOnly_of_reachesWhen hs, hstate⟩

/-- **A page can stay for good.** Released before the server answered, it is kept as unsynced; the
answer marks it synced, and nobody is left who could release it. -/
theorem not_keepsUnsyncedOnly :
    ¬ (∀ s, (documentStore ℕ).Reaches s → ∀ entry ∈ s.entries.rows, entry.refCount = 0 →
      entry.synced = false) ∧
    ¬ ∀ s, (documentStore ℕ).Reaches s →
      (∀ entry ∈ s.entries.rows, entry.refCount = 0 ∧ entry.synced = true) →
        s.entries.rows = [] := by
  have hreach : ∃ s : StoreRun ℕ, (documentStore ℕ).Reaches s ∧
      s.entries.rows.map (fun entry => (entry.refCount, entry.synced)) = [(0, true)] :=
    Machine.exists_reachesWhen_of_runWhen
      [.authenticates, .opens examplePage ∅, .serverReceives false, .serverOpens 0 .editor,
        .clientReceives, .releases examplePage, .clientReceives, .serverReceives false,
        .serverReceives false, .clientReceives]
      newStore_init (by decide +kernel)
  obtain ⟨s, hs, hrows⟩ := hreach
  obtain ⟨entry, hentry, hpair⟩ := List.map_eq_singleton_iff.mp hrows
  obtain ⟨hcount, hsynced⟩ := Prod.mk.injEq .. ▸ hpair
  refine ⟨fun hall => ?_, fun hall => ?_⟩
  · have hunsynced := hall s hs entry (by simp [hentry]) hcount
    simp [hsynced] at hunsynced
  · have hempty := hall s hs (by simp [hentry, hcount, hsynced])
    simp [hentry] at hempty

end StoreRun

end Sone.Client
