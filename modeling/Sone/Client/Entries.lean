import Sone.Client.InFlight

/-!
# Entries opened, edited, released and reopened

What the store does by itself keeps the invariant: asking for a page, a local update, a release,
and what the connection calls when it is authenticated, lost or has failed. `handleReconnect`
clears the maps at once and the handles one by one, so what entries have as handles is stated apart
(`Linked`), and holds again after its last round.
-/

set_option linter.unusedSectionVars false

namespace Sone.Client

open List Option Function Nat

universe u

variable {U : Type u} [DecidableEq U]

namespace StoreRun

variable {s s' : StoreRun U} {pageOf : ℕ → AskedName} {entry : Entry U} {pageId : AskedName}

/-! ### What the store does -/

/-- An entry **is loose**: it has no handle, and no map leads to it. -/
def IsLoose (entry : Entry U) : Prop :=
  entry.handle = none ∧ (∀ handle, s.byHandle handle ≠ some entry.pageId) ∧
    ∀ requestId, s.byRequest requestId ≠ some entry.pageId

theorem IsLoose.of_leads {old : Entry U} (hhandles : ∀ handle pageId,
      s.byHandle handle = some pageId → ∃ other, s.entries.find pageId = some other ∧
        other.handle = some handle)
    (hrequests : ∀ requestId pageId, s.byRequest requestId = some pageId →
      ∃ other, s.entries.find pageId = some other ∧ other.requestId = some requestId ∧
        other.handle = none)
    (hfind : s.entries.find entry.pageId = some old) (hnone : old.handle = none)
    (hrequest : old.requestId = none) (hhandle : entry.handle = none) : s.IsLoose entry := by
  refine ⟨hhandle, fun handle hmap => ?_, fun requestId hmap => ?_⟩
  · have hsome := has_of_leads hhandles hfind hmap
    simp [hnone] at hsome
  · have hsome := has_of_leads hrequests hfind hmap
    simp [hrequest] at hsome

theorem Inv.setEntry_of_isLoose (h : s.Inv pageOf) (hloose : s.IsLoose entry)
    (hfits : s.Fits entry) : (s.setEntry entry).Inv pageOf :=
  h.setEntry (fun handle hmap => absurd hmap (hloose.2.1 handle))
    (fun requestId hmap => absurd hmap (hloose.2.2 requestId)) hfits

theorem Inv.number (h : s.Inv pageOf) (map : Option AskedName)
    (hmap : ∀ pageId ∈ map, ∃ entry, s.entries.find pageId = some entry ∧
      entry.requestId = some s.nextRequestId ∧ entry.handle = none) :
    { s with
      nextRequestId := s.nextRequestId + 1
      byRequest := Function.update s.byRequest s.nextRequestId map }.Inv pageOf := by
  -- no frame has the number
  have hfresh : ∀ requestId < s.nextRequestId,
      Function.update s.byRequest s.nextRequestId map requestId = s.byRequest requestId :=
    fun requestId hlt => update_of_ne (Nat.ne_of_lt hlt) _ _
  refine { h with
    byRequest := fun requestId pageId hpage => ?_
    sentAsks := fun requestId asked hmem => ?_
    opening := fun requestId asked hmem => ?_
    acks := fun requestId handle role hmem => ?_ }
  · simp only at hpage
    by_cases heq : requestId = s.nextRequestId
    · subst heq
      rw [update_self] at hpage
      exact ⟨lt_succ_self _, hmap pageId hpage⟩
    · rw [update_of_ne heq] at hpage
      obtain ⟨hlt, hentry⟩ := h.byRequest requestId pageId hpage
      exact ⟨lt_succ_of_lt hlt, hentry⟩
  · obtain ⟨hlt, hsame⟩ := h.sentAsks requestId asked hmem
    simp only [hfresh requestId hlt]
    exact ⟨lt_succ_of_lt hlt, hsame⟩
  · obtain ⟨hlt, hsame⟩ := h.opening requestId asked hmem
    simp only [hfresh requestId hlt]
    exact ⟨lt_succ_of_lt hlt, hsame⟩
  · obtain ⟨hlt, hhandle, hsame⟩ := h.acks requestId handle role hmem
    simp only [hfresh requestId hlt]
    exact ⟨lt_succ_of_lt hlt, hhandle, hsame⟩

/-- **A page is asked for**, of an entry that no map leads to. -/
theorem Inv.requestOpen (h : s.Inv pageOf) (hloose : s.IsLoose entry) (hfits : s.Fits entry) :
    (s.requestOpen entry).Inv pageOf := by
  have hset : ∀ (requestId : Option ℕ) (status : DocumentStatus), (s.setEntry { entry with
      requestId
      status }).Inv pageOf := by
    intro requestId status
    exact h.setEntry_of_isLoose hloose hfits
  rw [StoreRun.requestOpen]
  simp only
  split
  · have hnumber := (hset (some s.nextRequestId) entry.status).number (some entry.pageId)
      (by
        rintro pageId ⟨⟩
        exact ⟨_, find_setEntry_self, rfl, hloose.1⟩)
    refine hnumber.send (.openPage s.nextRequestId entry.pageId) ?_ ?_
    · rintro requestId asked ⟨⟩
      refine ⟨lt_succ_self _, fun pageId hpage => ?_⟩
      simp only [StoreRun.setEntry, update_self, mem_some] at hpage
      exact hpage.symm
    · intro handle message hmessage
      simp [ClientFrame.message] at hmessage
  · exact (hset none .opening).number none (by simp)

theorem find_requestOpen (hpage : entry.pageId ≠ pageId) :
    (s.requestOpen entry).entries.find pageId = s.entries.find pageId := by
  rw [StoreRun.requestOpen]
  simp only
  split
  · exact find_setEntry.trans (if_neg hpage)
  · exact find_setEntry.trans (if_neg hpage)

theorem find_requestOpen_self (entry : Entry U) :
    ∃ other, (s.requestOpen entry).entries.find entry.pageId = some other ∧
      other.handle = entry.handle := by
  rw [StoreRun.requestOpen]
  simp only
  split
  · exact ⟨_, find_setEntry_self, rfl⟩
  · exact ⟨_, find_setEntry_self, rfl⟩

theorem byHandle_requestOpen : (s.requestOpen entry).byHandle = s.byHandle := by
  rw [StoreRun.requestOpen]
  simp only
  split <;> rfl

theorem Linked.requestOpen (h : s.Linked pageOf) (hhandle : entry.handle = none) :
    (s.requestOpen entry).Linked pageOf := by
  have hset : ∀ (requestId : Option ℕ) (status : DocumentStatus), (s.setEntry { entry with
      requestId
      status }).Linked pageOf := by
    intro requestId status
    refine h.setEntry fun _ handle hmem => ?_
    rw [hhandle] at hmem
    simp at hmem
  rw [StoreRun.requestOpen]
  simp only
  split
  · exact hset _ _
  · exact hset _ _

theorem Inv.setEntry_of_find (h : s.Inv pageOf) {old : Entry U}
    (hfind : s.entries.find entry.pageId = some old) (hhandle : entry.handle = old.handle)
    (hrequest : entry.requestId = old.requestId) (hfits : s.Fits entry) :
    (s.setEntry entry).Inv pageOf := by
  refine h.setEntry (fun handle hmap => ?_) (fun requestId hmap => ?_) hfits
  · exact hhandle.trans (has_of_leads h.byHandle hfind hmap)
  · rw [hrequest, hhandle]
    exact has_of_leads h.leads hfind hmap

theorem Linked.setEntry_of_find (h : s.Linked pageOf) {old : Entry U}
    (hfind : s.entries.find entry.pageId = some old) (hhandle : entry.handle = old.handle) :
    (s.setEntry entry).Linked pageOf := by
  refine h.setEntry fun hready handle hmem => ?_
  exact h hready entry.pageId old handle hfind (hhandle ▸ hmem)

theorem Inv.isLoose_of_find (h : s.Inv pageOf) (hhandle : entry.handle = none)
    (hfind : s.entries.find entry.pageId = none) : s.IsLoose entry := by
  refine ⟨hhandle, fun handle hmap => ?_, fun requestId hmap => ?_⟩
  · obtain ⟨other, hother, -⟩ := h.byHandle handle _ hmap
    rw [hfind] at hother
    simp at hother
  · obtain ⟨-, other, hother, -⟩ := h.byRequest requestId _ hmap
    rw [hfind] at hother
    simp at hother

/-- **Opening** a page. -/
theorem Inv.openPage (h : s.Inv pageOf) (hlinked : s.Linked pageOf) (attribution : Finset U) :
    (s.openPage pageId attribution).Inv pageOf ∧ (s.openPage pageId attribution).Linked pageOf := by
  rw [StoreRun.openPage]
  split
  · rename_i entry hfind
    have hpage := pageId_eq hfind
    subst hpage
    have hfits := h.entries _ _ hfind
    exact ⟨h.setEntry_of_find hfind rfl rfl hfits, hlinked.setEntry_of_find hfind rfl⟩
  · rename_i hfind
    have hnew : s.Fits ({ pageId, doc := attribution, edits := attribution } : Entry U) :=
      ⟨subset_rfl, Finset.subset_union_left, by simp, by simp⟩
    have hloose : s.IsLoose ({ pageId, doc := attribution, edits := attribution } : Entry U) :=
      h.isLoose_of_find rfl hfind
    exact ⟨(h.setEntry_of_isLoose hloose hnew).requestOpen hloose hnew,
      Linked.requestOpen (hlinked.setEntry (by simp)) rfl⟩

/-- **A local update** of an entry. Where it is sent, the entry was not synced, or the room had the
update. -/
theorem Inv.onUpdate (h : s.Inv pageOf) (hlinked : s.Linked pageOf) {update : U}
    (hfind : s.entries.find entry.pageId = some entry)
    (hgood : entry.synced = true → entry.handle.isSome = true → s.canSend = true →
      update ∈ s.rooms entry.pageId) :
    (s.onUpdate entry update).Inv pageOf ∧ (s.onUpdate entry update).Linked pageOf := by
  have hfits := h.entries _ _ hfind
  have hedits : insert update entry.edits ⊆ insert update entry.doc :=
    Finset.insert_subset_insert _ hfits.edits_subset
  have hdoc : insert update entry.doc ⊆ insert update entry.edits ∪ s.rooms entry.pageId := by
    rw [Finset.insert_union]
    exact Finset.insert_subset_insert _ hfits.doc_subset
  rw [StoreRun.onUpdate]
  simp only
  split
  · rename_i hhandle
    refine ⟨h.setEntry_of_find hfind rfl rfl ⟨hedits, hdoc, by simp, fun handle hmem => ?_⟩,
      hlinked.setEntry_of_find hfind rfl⟩
    simp [hhandle] at hmem
  · rename_i handle hhandle
    split
    · rename_i hsend
      have hinv := h.send (.sync handle (.update {update})) (by simp) (by
        intro other message hmessage hstep1
        obtain ⟨-, rfl⟩ := ClientFrame.message_sync.mp hmessage
        simp [SyncMessage.isStep1] at hstep1)
      refine ⟨hinv.setEntry_of_find hfind rfl rfl ⟨hedits, hdoc, fun hsynced => ?_,
        fun other hother => ?_⟩, hlinked.setEntry_of_find hfind rfl⟩
      · refine ⟨(hfits.synced hsynced).1, Finset.insert_subset ?_ (hfits.synced hsynced).2⟩
        exact hgood hsynced (by rw [hhandle]; rfl) hsend
      · refine ⟨(hfits.handle other hother).1, fun hcan hawaits edit hedit => ?_⟩
        rcases Finset.mem_insert.mp hedit with rfl | hold
        · -- the frame brings it
          have hsame : handle = other := some.inj (hhandle.symm.trans hother)
          subst hsame
          refine .inr (.inl ⟨.update {edit}, ?_, Finset.mem_singleton_self edit⟩)
          exact mem_sentOn_send.mpr (.inr ⟨hsend, if_pos rfl⟩)
        · have hentry := (hinv.entries _ _ hfind).handle other hother
          exact hentry.2 hcan hawaits edit hold
    · rename_i hsend
      refine ⟨h.setEntry_of_find hfind rfl rfl ⟨hedits, hdoc, by simp, fun other hother => ?_⟩,
        hlinked.setEntry_of_find hfind rfl⟩
      exact ⟨(hfits.handle other hother).1, fun hcan => absurd hcan hsend⟩

/-- **A document that is synced is destroyed.** -/
theorem Inv.destroy (h : s.Inv pageOf) (hlinked : s.Linked pageOf)
    (hfind : s.entries.find entry.pageId = some entry) (hsynced : entry.synced = true) :
    (s.destroy entry).Inv pageOf ∧ (s.destroy entry).Linked pageOf := by
  have hfits := h.entries _ _ hfind
  have hkept : ∀ {pageId : AskedName} {other : Entry U},
      (s.entries.filter fun other => other.pageId ≠ entry.pageId).find pageId = some other ↔
        s.entries.find pageId = some other ∧ pageId ≠ entry.pageId := by
    intro pageId other
    rw [Keyed.find_filter, filter_eq_some_iff]
    refine and_congr_right fun hother => ?_
    rw [decide_eq_true_iff, pageId_eq hother]
  refine ⟨{ h with
    entries := fun pageId other hother => ?_
    byHandle := fun handle pageId hmap => ?_
    byRequest := fun requestId pageId hmap => ?_
    sentAsks := fun requestId asked hmem => ?_
    opening := fun requestId asked hmem => ?_
    acks := fun requestId handle role hmem => ?_
    destroyed := fun doc hdoc => ?_ }, fun hready pageId other handle hother hhandle => ?_⟩
  · exact h.entries pageId other (hkept.mp hother).1
  · obtain ⟨hmap, hne⟩ := deleted_eq_some.mp hmap
    obtain ⟨other, hother, hhandle⟩ := h.byHandle handle pageId hmap
    refine ⟨other, hkept.mpr ⟨hother, ?_⟩, hhandle⟩
    rintro rfl
    exact hne (has_of_leads h.byHandle hfind hmap)
  · obtain ⟨hmap, hne⟩ := deleted_eq_some.mp hmap
    obtain ⟨hlt, other, hother, hrequest, hhandle⟩ := h.byRequest requestId pageId hmap
    refine ⟨hlt, other, hkept.mpr ⟨hother, ?_⟩, hrequest, hhandle⟩
    rintro rfl
    exact hne (has_of_leads h.leads hfind hmap).1
  · obtain ⟨hlt, hsame⟩ := h.sentAsks requestId asked hmem
    exact ⟨hlt, fun pageId hmap => hsame pageId (deleted_eq_some.mp hmap).1⟩
  · obtain ⟨hlt, hsame⟩ := h.opening requestId asked hmem
    exact ⟨hlt, fun pageId hmap => hsame pageId (deleted_eq_some.mp hmap).1⟩
  · obtain ⟨hlt, hhandle, hsame⟩ := h.acks requestId handle role hmem
    exact ⟨hlt, hhandle, fun pageId hmap => hsame pageId (deleted_eq_some.mp hmap).1⟩
  · rcases mem_append.mp hdoc with hold | hnew
    · exact h.destroyed doc hold
    · obtain rfl := mem_singleton.mp hnew
      exact hfits.doc_subset.trans (Finset.union_subset (hfits.synced hsynced).2 subset_rfl)
  · obtain ⟨hother, hne⟩ := hkept.mp hother
    obtain ⟨hmap, hlink⟩ := hlinked hready pageId other handle hother hhandle
    refine ⟨deleted_eq_some.mpr ⟨hmap, fun hsame => hne ?_⟩, hlink⟩
    obtain ⟨-, -, hpage⟩ := hlinked hready _ entry handle hfind hsame
    rw [← hlink.2, hpage]

/-- **Releasing** a document. -/
theorem Inv.releaseEntry (h : s.Inv pageOf) (hlinked : s.Linked pageOf)
    (hfind : s.entries.find entry.pageId = some entry) :
    (s.releaseEntry entry).Inv pageOf ∧ (s.releaseEntry entry).Linked pageOf := by
  rw [StoreRun.releaseEntry]
  simp only
  split
  · have hfits := h.entries _ _ hfind
    exact ⟨h.setEntry_of_find hfind rfl rfl hfits, hlinked.setEntry_of_find hfind rfl⟩
  · rename_i hgone
    have hsynced : entry.synced = true := by
      rw [not_or, Bool.not_eq_false] at hgone
      exact hgone.2
    split
    · have hdestroy := h.destroy hlinked hfind hsynced
      exact hdestroy
    · rename_i handle hhandle
      have hclose := h.send (.close handle) (by simp) (by simp [ClientFrame.message])
      have hdestroy := hclose.destroy hlinked hfind hsynced
      exact hdestroy

/-! ### Connecting -/

theorem Inv.reissue (h : s.Inv pageOf) : (s.reissue pageId).Inv pageOf := by
  rw [StoreRun.reissue]
  split
  · exact h
  · rename_i entry hfind
    have hfits := h.entries pageId entry hfind
    have hpage := pageId_eq hfind
    subst hpage
    split
    · exact h
    · rename_i hnone
      rw [not_or, not_isSome_iff_eq_none, not_isSome_iff_eq_none] at hnone
      exact h.requestOpen (.of_leads h.byHandle h.leads hfind hnone.1 hnone.2 hnone.1) hfits

theorem Linked.reissue (h : s.Linked pageOf) : (s.reissue pageId).Linked pageOf := by
  rw [StoreRun.reissue]
  split
  · exact h
  · split
    · exact h
    · rename_i hnone
      rw [not_or, not_isSome_iff_eq_none] at hnone
      exact h.requestOpen hnone.1

theorem Inv.handleAuthenticated (h : s.Inv pageOf) : s.handleAuthenticated.Inv pageOf :=
  List.foldlRecOn _ _ (motive := fun s : StoreRun U => s.Inv pageOf) h fun _ h _ _ => h.reissue

theorem Linked.handleAuthenticated (h : s.Linked pageOf) : s.handleAuthenticated.Linked pageOf :=
  List.foldlRecOn _ _ (motive := fun s : StoreRun U => s.Linked pageOf) h fun _ h _ _ => h.reissue

theorem Inv.reopen (h : s.Inv pageOf) (hhandle : ∀ handle, s.byHandle handle ≠ some pageId)
    (hrequest : ∀ requestId, s.byRequest requestId ≠ some pageId) :
    (s.reopen pageId).Inv pageOf := by
  rw [StoreRun.reopen]
  split
  · exact h
  · rename_i entry hfind
    have hfits := h.entries pageId entry hfind
    have hpage := pageId_eq hfind
    subst hpage
    exact h.requestOpen ⟨rfl, hhandle, hrequest⟩
      ⟨hfits.edits_subset, hfits.doc_subset, hfits.synced, by simp⟩

theorem byHandle_reopen : (s.reopen pageId).byHandle = s.byHandle := by
  rw [StoreRun.reopen]
  split
  · rfl
  · exact byHandle_requestOpen

theorem byRequest_reopen {requestId : ℕ} {other : AskedName}
    (h : (s.reopen pageId).byRequest requestId = some other) :
    s.byRequest requestId = some other ∨ other = pageId := by
  rw [StoreRun.reopen] at h
  split at h
  · exact .inl h
  · rename_i entry hfind
    rw [StoreRun.requestOpen] at h
    simp only at h
    split at h
    · by_cases heq : requestId = s.nextRequestId
      · subst heq
        simp only [update_self, Option.some.injEq] at h
        exact .inr (h.symm.trans (pageId_eq hfind))
      · simp only [update_of_ne heq] at h
        exact .inl h
    · by_cases heq : requestId = s.nextRequestId
      · subst heq
        simp only [update_self] at h
        simp at h
      · simp only [update_of_ne heq] at h
        exact .inl h

theorem handle_reopen {other : AskedName}
    (h : (s.reopen pageId).entries.find other = some entry) :
    entry.handle = none ∨ other ≠ pageId ∧ s.entries.find other = some entry := by
  by_cases heq : other = pageId
  · subst heq
    rw [StoreRun.reopen] at h
    split at h
    · rename_i hfind
      rw [hfind] at h
      simp at h
    · rename_i old hfind
      obtain rfl := pageId_eq hfind
      obtain ⟨found, hfound, hnone⟩ := find_requestOpen_self (s := s) { old with
        handle := none
        requestId := none
        status := .opening }
      rw [h] at hfound
      rw [some.inj hfound]
      exact .inl hnone
  · refine .inr ⟨heq, ?_⟩
    rw [StoreRun.reopen] at h
    split at h
    · exact h
    · rename_i old hfind
      rw [find_requestOpen (by simpa [pageId_eq hfind] using Ne.symm heq)] at h
      exact h

/-- **The rounds of `handleReconnect`** keep what one keeps of a page that no map leads to. -/
theorem foldl_reopen {P : StoreRun U → Prop} (hreopen : ∀ s pageId, P s →
      (∀ handle, s.byHandle handle ≠ some pageId) →
        (∀ requestId, s.byRequest requestId ≠ some pageId) → P (s.reopen pageId))
    (h : P s) {pages : List AskedName} (hnodup : pages.Nodup)
    (hhandle : ∀ handle pageId, s.byHandle handle ≠ some pageId)
    (hrequest : ∀ requestId, ∀ pageId ∈ pages, s.byRequest requestId ≠ some pageId) :
    P (pages.foldl StoreRun.reopen s) := by
  induction pages generalizing s with
  | nil => exact h
  | cons page rest ih =>
    obtain ⟨hnew, hrest⟩ := nodup_cons.mp hnodup
    refine ih (hreopen s page h (fun handle => hhandle handle page) fun requestId =>
      hrequest requestId page mem_cons_self) hrest ?_ ?_
    · rw [byHandle_reopen]
      exact hhandle
    · intro requestId pageId hmem hmap
      rcases byRequest_reopen hmap with hold | rfl
      · exact hrequest requestId pageId (mem_cons_of_mem _ hmem) hold
      · exact hnew hmem

theorem handle_foldl_reopen {pages : List AskedName}
    (h : ∀ pageId entry, s.entries.find pageId = some entry →
      entry.handle = none ∨ pageId ∈ pages)
    (hfind : (pages.foldl StoreRun.reopen s).entries.find pageId = some entry) :
    entry.handle = none := by
  induction pages generalizing s with
  | nil => exact (h pageId entry hfind).resolve_right not_mem_nil
  | cons page rest ih =>
    refine ih (fun other found hfound => ?_) hfind
    rcases handle_reopen hfound with hnone | ⟨hne, hold⟩
    · exact .inl hnone
    · exact (h other found hold).imp_right fun hmem => (mem_cons.mp hmem).resolve_left hne

theorem Inv.clearMaps (h : s.Inv pageOf) : s.clearMaps.Inv pageOf :=
  h.shrink _ _ (by simp) (by simp)

theorem Inv.handleReconnect (h : s.Inv pageOf) :
    s.handleReconnect.Inv pageOf ∧ s.handleReconnect.Linked pageOf := by
  refine ⟨foldl_reopen (fun _ _ => Inv.reopen) h.clearMaps s.entries.nodup
    (by simp [StoreRun.clearMaps]) (by simp [StoreRun.clearMaps]),
    fun _ pageId entry handle hentry hhandle => ?_⟩
  have hnone := handle_foldl_reopen (fun pageId entry hfind => .inr ?_) hentry
  · rw [hnone] at hhandle
    simp at hhandle
  · exact List.mem_map.mpr ⟨entry, Keyed.mem_rows hfind, pageId_eq hfind⟩

theorem Inv.reset (h : s.Inv pageOf) (hoffline : s.ready = false) :
    { s with
      toServerSide := ⟨.empty, fun _ => none, []⟩
      ready := true
      isOpen := true
      hasConnectedBefore := true
      toServer := []
      toClient := [] }.Inv pageOf := by
  refine { h with
    entries := fun pageId entry hentry => ?_
    connected := fun _ => rfl
    documents := by simp
    names := by simp
    sentAsks := by simp
    opening := by simp
    acks := by simp
    coming := by simp [comingOn]
    ordered := by simp [comingOn] }
  have hfits := h.entries pageId entry hentry
  refine ⟨hfits.edits_subset, hfits.doc_subset, fun hsynced => ?_, fun handle hhandle =>
    ⟨rfl, fun _ hawaits => ?_⟩⟩
  · exact absurd (hfits.synced hsynced).1 (by rw [hoffline]; simp)
  · simp [Awaits, sentOn, comingOn] at hawaits

theorem Inv.authenticate (h : s.Inv pageOf) (hoffline : s.ready = false) :
    s.authenticate.Inv pageOf ∧ s.authenticate.Linked pageOf := by
  have hreset := (h.reset hoffline).handleAuthenticated
  rw [StoreRun.authenticate]
  simp only
  split
  · exact hreset.handleReconnect
  · rename_i hfirst
    refine ⟨hreset, Linked.handleAuthenticated fun _ pageId entry handle hentry hhandle => ?_⟩
    exact absurd ((h.entries pageId entry hentry).handle handle hhandle).1 hfirst

/-- **A connection is lost.** -/
theorem Inv.disconnect (h : s.Inv pageOf) :
    s.disconnect.Inv pageOf ∧ s.disconnect.Linked pageOf := by
  have hfind : ∀ {pageId : AskedName}, s.disconnect.entries.find pageId =
      (s.entries.find pageId).map fun entry => { entry with
        synced := false
        status := .offline } := by
    intro pageId
    exact Keyed.find_modify (t := s.entries) (f := fun entry => { entry with
      synced := false
      status := .offline }) fun _ => rfl
  refine ⟨{ h with
    entries := fun pageId entry hentry => ?_
    byHandle := fun handle pageId hmap => ?_
    byRequest := fun requestId pageId hmap => ?_
    connected := by simp [StoreRun.disconnect, StoreRun.handleDisconnect]
    documents := by simp [StoreRun.disconnect, StoreRun.handleDisconnect]
    names := by simp [StoreRun.disconnect, StoreRun.handleDisconnect]
    sentAsks := by simp [StoreRun.disconnect, StoreRun.handleDisconnect]
    opening := by simp [StoreRun.disconnect, StoreRun.handleDisconnect]
    acks := by simp [StoreRun.disconnect, StoreRun.handleDisconnect]
    coming := by simp [StoreRun.disconnect, StoreRun.handleDisconnect, comingOn]
    ordered := by simp [StoreRun.disconnect, StoreRun.handleDisconnect, comingOn] },
    fun hready => absurd hready (by simp [StoreRun.disconnect, StoreRun.handleDisconnect])⟩
  · rw [hfind] at hentry
    obtain ⟨old, hold, rfl⟩ := map_eq_some_iff.mp hentry
    have hfits := h.entries pageId old hold
    refine ⟨hfits.edits_subset, hfits.doc_subset, by simp, fun handle hhandle =>
      ⟨(hfits.handle handle hhandle).1, fun hsend => ?_⟩⟩
    simp [StoreRun.disconnect, StoreRun.handleDisconnect, canSend] at hsend
  · obtain ⟨entry, hentry, hhandle⟩ := h.byHandle handle pageId hmap
    exact ⟨_, hfind.trans (congrArg _ hentry), hhandle⟩
  · obtain ⟨hlt, entry, hentry, hrequest, hnone⟩ := h.byRequest requestId pageId hmap
    exact ⟨hlt, _, hfind.trans (congrArg _ hentry), hrequest, hnone⟩

/-- **The connection fails for good.** -/
theorem Inv.handleFatal (h : s.Inv pageOf) (hoffline : s.ready = false) (code : String) :
    (s.handleFatal code).Inv pageOf ∧ (s.handleFatal code).Linked pageOf := by
  have hclear := h.clearMaps
  refine ⟨{ hclear with
    entries := fun pageId entry hentry => ?_
    byHandle := fun handle pageId hmap => ?_
    byRequest := fun requestId pageId hmap => ?_ }, fun hready => ?_⟩
  · rw [StoreRun.handleFatal, Keyed.find_modify] at hentry
    obtain ⟨old, hold, rfl⟩ := map_eq_some_iff.mp hentry
    have hfits := h.entries pageId old hold
    exact ⟨hfits.edits_subset, hfits.doc_subset, hfits.synced, by simp⟩
  · simp [StoreRun.handleFatal, StoreRun.clearMaps] at hmap
  · simp [StoreRun.handleFatal, StoreRun.clearMaps] at hmap
  · exact absurd hready (by simp [StoreRun.handleFatal, StoreRun.clearMaps, hoffline])

theorem Inv.breaks (h : s.Inv pageOf) : { s with isOpen := false }.Inv pageOf := by
  refine { h with entries := fun pageId entry hentry => ?_ }
  have hfits := h.entries pageId entry hentry
  refine ⟨hfits.edits_subset, hfits.doc_subset, hfits.synced, fun handle hhandle =>
    ⟨(hfits.handle handle hhandle).1, fun hsend => ?_⟩⟩
  simp [canSend] at hsend

end StoreRun

end Sone.Client
