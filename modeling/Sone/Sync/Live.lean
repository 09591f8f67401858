import Sone.Doc.Log

/-!
# A live room and the log it follows

A room keeps a document in memory (`sync/room.ts`). Its own updates are in memory before
they are stored; the updates of others reach it by a notification, which carries a sequence
number only, and a fetch of the rows after `throughSeq` (`onRemoteUpdate` in
`sync/server.ts`). `throughSeq` is the number of the room's last own append.

The machine `liveRoom` is one room with the log of its document: other writers take numbers
and commit, the room's flush takes a number, commits and returns, notifications are
delivered one at a time in any order and at any later time, fetches read and are applied,
and compactions delete rows. Nothing is assumed about how these interleave.

`throughSeq` is both "what I stored" and "everything up to here is in my memory", and an own
append makes the first true without the second. `Skips` collects the steps at which an
update stops being on its way to the memory; `settled_complete_of_reachesWhen` says that
without them a room whose notifications are all handled has every stored update, and
`Accounted` is the invariant that carries it.
-/

set_option linter.unusedSectionVars false

namespace Sone

open List Option

universe u

variable {U : Type u} [DecidableEq U]

/-- `fetchUpdatesSince`: the rows after a number, in the order of the numbers. -/
def fetchUpdatesSince (rows : List (UpdateRow U)) (sinceSeq : ℕ) : List (UpdateRow U) :=
  (rows.filter fun row => sinceSeq < row.seq).insertionSort fun a b => a.seq ≤ b.seq

theorem mem_fetchUpdatesSince {rows : List (UpdateRow U)} {sinceSeq : ℕ} {row : UpdateRow U} :
    row ∈ fetchUpdatesSince rows sinceSeq ↔ row ∈ rows ∧ sinceSeq < row.seq := by
  simp [fetchUpdatesSince]

/-- A run of `onRemoteUpdate` that passed its guard and has not ended. -/
inductive Fetch (U : Type u) where
  /-- The query was sent and has not been answered. -/
  | waiting (sinceSeq : ℕ)
  /-- The query was answered; the updates are to be applied. -/
  | read (updates : List (UpdateRow U))
  deriving DecidableEq

/-- The fetch is to bring the update: the query will find it, or has. -/
def Fetch.Brings (rows : List (UpdateRow U)) (row : UpdateRow U) : Fetch U → Prop
  | .waiting sinceSeq => row ∈ rows ∧ sinceSeq < row.seq
  | .read updates => row ∈ updates

instance (rows : List (UpdateRow U)) (row : UpdateRow U) :
    (fetch : Fetch U) → Decidable (fetch.Brings rows row)
  | .waiting _ => inferInstanceAs (Decidable (_ ∧ _))
  | .read updates => inferInstanceAs (Decidable (row ∈ updates))

/-- The room's append that has not returned to `doFlush`. -/
structure OwnAppend (U : Type u) where
  row : UpdateRow U
  /-- Whether its row has committed. -/
  stored : Bool
  deriving DecidableEq

/-- A room, the log of its document, and what is on its way between the two. -/
structure LiveRoom (U : Type u) where
  nextSeq : ℕ
  /-- `doc_updates`. -/
  rows : List (UpdateRow U)
  /-- Every update that has committed. -/
  committed : Finset (UpdateRow U)
  /-- The appends of other writers that have taken a number and not ended. -/
  foreign : List (UpdateRow U)
  own : Option (OwnAppend U)
  /-- The updates the document in memory contains. -/
  memory : Finset (UpdateRow U)
  /-- `persistedThroughSeq`. -/
  throughSeq : ℕ
  /-- The notifications sent and not delivered. -/
  notices : List ℕ
  fetches : List (Fetch U)

/-- An atomic step of the room, of another writer, of the bus or of a compaction. -/
inductive LiveEvent (U : Type u) where
  | foreignBegins (payload : U)
  | foreignCommits (row : UpdateRow U)
  | foreignAborts (row : UpdateRow U)
  /-- Another document takes a number. -/
  | skipSeq
  | flushAppends (payload : U)
  | flushCommits
  | flushFails
  | flushReturns
  | deliver (seq : ℕ)
  | fetchReads (sinceSeq : ℕ)
  | fetchApplies (updates : List (UpdateRow U))
  | fetchFails (fetch : Fetch U)
  /-- A compaction, of this room or elsewhere, commits the deletion of the rows up to a
  number. -/
  | compactionCommits (throughSeq : ℕ)
  deriving DecidableEq

namespace LiveRoom

/-- An append commits: the row appears and its notification is sent. -/
def store (s : LiveRoom U) (row : UpdateRow U) : LiveRoom U :=
  { s with
    rows := s.rows ++ [row]
    committed := insert row s.committed
    notices := s.notices ++ [row.seq] }

/-- `onRemoteUpdate`, up to its first await. -/
def onRemoteUpdate (s : LiveRoom U) (seq : ℕ) : LiveRoom U :=
  if seq ≤ s.throughSeq then s
  else { s with fetches := .waiting s.throughSeq :: s.fetches }

/-- `applyRemoteUpdate`, for each of the updates fetched. -/
def applyRemoteUpdates (s : LiveRoom U) (updates : List (UpdateRow U)) : LiveRoom U :=
  { s with memory := s.memory ∪ updates.toFinset }

def step (s : LiveRoom U) : LiveEvent U → Option (LiveRoom U)
  | .foreignBegins payload => some { s with
      nextSeq := s.nextSeq + 1
      foreign := ⟨s.nextSeq, payload⟩ :: s.foreign }
  | .foreignCommits row =>
    if row ∈ s.foreign then some { s.store row with foreign := s.foreign.erase row } else none
  | .foreignAborts row =>
    if row ∈ s.foreign then some { s with foreign := s.foreign.erase row } else none
  | .skipSeq => some { s with nextSeq := s.nextSeq + 1 }
  | .flushAppends payload =>
    -- one flush at a time; what it stores is in memory already
    if s.own = none then some { s with
      nextSeq := s.nextSeq + 1
      own := some ⟨⟨s.nextSeq, payload⟩, false⟩
      memory := insert ⟨s.nextSeq, payload⟩ s.memory }
    else none
  | .flushCommits =>
    match s.own with
    | some ⟨row, false⟩ => some { s.store row with own := some ⟨row, true⟩ }
    | _ => none
  | .flushFails =>
    match s.own with
    | some ⟨_, false⟩ => some { s with own := none }
    | _ => none
  | .flushReturns =>
    match s.own with
    | some ⟨row, true⟩ => some { s with own := none, throughSeq := row.seq }
    | _ => none
  | .deliver seq =>
    if seq ∈ s.notices then
      some (({ s with notices := s.notices.erase seq } : LiveRoom U).onRemoteUpdate seq)
    else none
  | .fetchReads sinceSeq =>
    if .waiting sinceSeq ∈ s.fetches then some { s with
      fetches := .read (fetchUpdatesSince s.rows sinceSeq) :: s.fetches.erase (.waiting sinceSeq) }
    else none
  | .fetchApplies updates =>
    if .read updates ∈ s.fetches then
      some { s.applyRemoteUpdates updates with fetches := s.fetches.erase (.read updates) }
    else none
  | .fetchFails fetch =>
    if fetch ∈ s.fetches then some { s with fetches := s.fetches.erase fetch } else none
  | .compactionCommits throughSeq =>
    some { s with rows := s.rows.filter fun row => throughSeq < row.seq }

/-- A room as it opens: its document contains what had committed, and nothing is on its
way from it. Other writers may be at work and notifications outstanding. -/
def Opened (s : LiveRoom U) : Prop :=
  s.committed ⊆ s.memory ∧ s.own = none ∧ s.fetches = []

end LiveRoom

/-- **The machine of a live room.** -/
def liveRoom (U : Type u) [DecidableEq U] : Machine (LiveRoom U) (LiveEvent U) where
  init := LiveRoom.Opened
  step := LiveRoom.step

namespace LiveRoom

/-! ### What is asked, and the steps that skip an update -/

/-- Every notification has been delivered and handled. -/
def Settled (s : LiveRoom U) : Prop := s.notices = [] ∧ s.fetches = []

/-- The document in memory contains every committed update. -/
def Complete (s : LiveRoom U) : Prop := s.committed ⊆ s.memory

/-- Some fetch under way is to bring the update. -/
def Fetched (s : LiveRoom U) (row : UpdateRow U) : Prop :=
  ∃ fetch ∈ s.fetches, fetch.Brings s.rows row

/-- **Accounted for**: the update is in memory, or a fetch is to bring it, or it is stored
above `throughSeq` and a notification at or above its number is still to come. -/
def Accounted (s : LiveRoom U) (row : UpdateRow U) : Prop :=
  row ∈ s.memory ∨ s.Fetched row ∨
    row ∈ s.rows ∧ s.throughSeq < row.seq ∧ ∃ seq ∈ s.notices, row.seq ≤ seq

instance (s : LiveRoom U) (row : UpdateRow U) : Decidable (s.Fetched row) :=
  inferInstanceAs (Decidable (∃ fetch ∈ s.fetches, fetch.Brings s.rows row))

instance (s : LiveRoom U) (row : UpdateRow U) : Decidable (s.Accounted row) :=
  inferInstanceAs (Decidable (_ ∨ _ ∨ _ ∧ _ ∧ ∃ seq ∈ s.notices, _))

/-- **The steps that skip an update.**

* A flush stores its number as `throughSeq` over a committed update that is neither in
  memory nor being fetched.
* Another writer's update commits under a number that is not above `throughSeq`, and no
  query below that number is still to be answered.
* A fetch fails that was the last account of an update.
* A compaction deletes a row that is neither in memory nor read by a fetch. -/
def Skips (s : LiveRoom U) : LiveEvent U → Prop
  | .flushReturns => ∃ own ∈ s.own, ∃ row ∈ s.committed,
      row.seq ≤ own.row.seq ∧ row ∉ s.memory ∧ ¬ s.Fetched row
  | .foreignCommits row =>
      row.seq ≤ s.throughSeq ∧ ∀ fetch ∈ s.fetches, ¬ fetch.Brings [row] row
  | .fetchFails fetch => ∃ row ∈ s.committed, fetch.Brings s.rows row ∧
      ¬ ({ s with fetches := s.fetches.erase fetch } : LiveRoom U).Accounted row
  | .compactionCommits throughSeq => ∃ row ∈ s.rows,
      row.seq ≤ throughSeq ∧ row ∉ s.memory ∧ ∀ fetch ∈ s.fetches, ¬ fetch.Brings [] row
  | _ => False

/-- **The invariant of a live room.** -/
structure Inv (s : LiveRoom U) : Prop where
  own : ∀ own ∈ s.own, own.row ∈ s.memory
  accounted : ∀ row ∈ s.committed, s.Accounted row

variable {s s' : LiveRoom U} {row : UpdateRow U} {fetch : Fetch U}

theorem Inv.complete (h : s.Inv) (hsettled : s.Settled) : s.Complete := by
  obtain ⟨hnotices, hfetches⟩ := hsettled
  intro row hrow
  rcases h.accounted row hrow with hmem | ⟨fetch, hfetch, -⟩ | ⟨-, -, seq, hseq, -⟩
  · exact hmem
  · simp [hfetches] at hfetch
  · simp [hnotices] at hseq

theorem Opened.inv (h : s.Opened) : s.Inv where
  own := by simp [h.2.1]
  accounted := fun _ hrow => .inl (h.1 hrow)

/-! ### What each step keeps -/

theorem brings_mono {rows rows' : List (UpdateRow U)} (h : fetch.Brings rows row)
    (hrows : row ∈ rows → row ∈ rows') : fetch.Brings rows' row := by
  cases fetch with
  | waiting sinceSeq => exact ⟨hrows h.1, h.2⟩
  | read updates => exact h

theorem Accounted.mono (h : s.Accounted row) (hmemory : s.memory ⊆ s'.memory)
    (hrows : ∀ row ∈ s.rows, row ∈ s'.rows) (hfetches : ∀ f ∈ s.fetches, f ∈ s'.fetches)
    (hthrough : s'.throughSeq = s.throughSeq) (hnotices : ∀ n ∈ s.notices, n ∈ s'.notices) :
    s'.Accounted row := by
  rcases h with hmem | ⟨fetch, hfetch, hbrings⟩ | ⟨hrow, hseq, n, hn, hle⟩
  · exact .inl (hmemory hmem)
  · exact .inr (.inl ⟨fetch, hfetches fetch hfetch, brings_mono hbrings (hrows row)⟩)
  · exact .inr (.inr ⟨hrows row hrow, hthrough ▸ hseq, n, hnotices n hn, hle⟩)

theorem Accounted.store (h : s.Accounted row) (new : UpdateRow U) :
    (s.store new).Accounted row :=
  h.mono (Finset.Subset.refl _) (fun _ hr => mem_append_left _ hr) (fun _ hf => hf) rfl
    fun _ hn => mem_append_left _ hn

theorem accounted_store_self
    (h : ¬ (row.seq ≤ s.throughSeq ∧ ∀ fetch ∈ s.fetches, ¬ fetch.Brings [row] row)) :
    (s.store row).Accounted row := by
  have hrow : row ∈ (s.store row).rows := by simp [LiveRoom.store]
  by_cases hseq : row.seq ≤ s.throughSeq
  · obtain ⟨fetch, hfetch, hbrings⟩ : ∃ fetch ∈ s.fetches, fetch.Brings [row] row := by
      by_contra hnone
      exact h ⟨hseq, fun fetch hfetch hbrings => hnone ⟨fetch, hfetch, hbrings⟩⟩
    exact .inr (.inl ⟨fetch, hfetch, brings_mono hbrings fun _ => hrow⟩)
  · exact .inr (.inr ⟨hrow, Nat.lt_of_not_le hseq, row.seq, by simp [LiveRoom.store], le_rfl⟩)

/-- **Delivery.** A notification that is dropped was at or below `throughSeq`, so it
accounted for nothing above; one that is not starts a fetch of everything above. -/
theorem Accounted.deliver {seq : ℕ} (h : s.Accounted row) :
    (({ s with notices := s.notices.erase seq } : LiveRoom U).onRemoteUpdate seq).Accounted
      row := by
  rw [LiveRoom.onRemoteUpdate]
  rcases h with hmem | ⟨fetch, hfetch, hbrings⟩ | ⟨hrow, habove, n, hn, hle⟩
  · split <;> exact .inl hmem
  · split
    · exact .inr (.inl ⟨fetch, hfetch, hbrings⟩)
    · exact .inr (.inl ⟨fetch, mem_cons_of_mem _ hfetch, hbrings⟩)
  · split
    · rename_i hguard
      -- the notification that accounts for the update is above the one that is dropped
      have hne : n ≠ seq := fun heq => by
        have hguard' : seq ≤ s.throughSeq := hguard
        omega
      exact .inr (.inr ⟨hrow, habove, n, (mem_erase_of_ne hne).mpr hn, hle⟩)
    · exact .inr (.inl ⟨.waiting s.throughSeq, mem_cons_self, hrow, habove⟩)

theorem Accounted.fetchReads {sinceSeq : ℕ} (h : s.Accounted row) :
    ({ s with fetches := .read (fetchUpdatesSince s.rows sinceSeq) ::
      s.fetches.erase (.waiting sinceSeq) } : LiveRoom U).Accounted row := by
  rcases h with hmem | ⟨fetch, hfetch, hbrings⟩ | habove
  · exact .inl hmem
  · refine .inr (.inl ?_)
    by_cases heq : fetch = .waiting sinceSeq
    · subst heq
      exact ⟨_, mem_cons_self, mem_fetchUpdatesSince.mpr hbrings⟩
    · exact ⟨fetch, mem_cons_of_mem _ ((mem_erase_of_ne heq).mpr hfetch), hbrings⟩
  · exact .inr (.inr habove)

theorem Accounted.fetchApplies {updates : List (UpdateRow U)} (h : s.Accounted row) :
    ({ s.applyRemoteUpdates updates with
      fetches := s.fetches.erase (.read updates) } : LiveRoom U).Accounted row := by
  rcases h with hmem | ⟨fetch, hfetch, hbrings⟩ | habove
  · exact .inl (Finset.mem_union_left _ hmem)
  · by_cases heq : fetch = .read updates
    · subst heq
      exact .inl (Finset.mem_union_right _ (List.mem_toFinset.mpr hbrings))
    · exact .inr (.inl ⟨fetch, (mem_erase_of_ne heq).mpr hfetch, hbrings⟩)
  · exact .inr (.inr habove)

theorem Inv.accounted_fetchFails (h : s.Inv) (hskips : ¬ s.Skips (.fetchFails fetch))
    (hrow : row ∈ s.committed) :
    ({ s with fetches := s.fetches.erase fetch } : LiveRoom U).Accounted row := by
  by_cases hbrings : fetch.Brings s.rows row
  · by_contra hlost
    exact hskips ⟨row, hrow, hbrings, hlost⟩
  · rcases h.accounted row hrow with hmem | ⟨f, hf, hf'⟩ | habove
    · exact .inl hmem
    · have hne : f ≠ fetch := fun heq => hbrings (heq ▸ hf')
      exact .inr (.inl ⟨f, (mem_erase_of_ne hne).mpr hf, hf'⟩)
    · exact .inr (.inr habove)

theorem Inv.accounted_compactionCommits {throughSeq : ℕ} (h : s.Inv)
    (hskips : ¬ s.Skips (.compactionCommits throughSeq)) (hrow : row ∈ s.committed) :
    ({ s with rows := s.rows.filter fun row => throughSeq < row.seq } : LiveRoom U).Accounted
      row := by
  by_cases hstays : row ∈ s.rows → throughSeq < row.seq
  · have hfilter : row ∈ s.rows → row ∈ s.rows.filter fun row => throughSeq < row.seq :=
      fun hmem => mem_filter.mpr ⟨hmem, decide_eq_true (hstays hmem)⟩
    rcases h.accounted row hrow with hmem | ⟨fetch, hfetch, hbrings⟩ | ⟨hmem, habove⟩
    · exact .inl hmem
    · exact .inr (.inl ⟨fetch, hfetch, brings_mono hbrings hfilter⟩)
    · exact .inr (.inr ⟨hfilter hmem, habove⟩)
  · -- the row goes, so it is in memory or a fetch has read it
    obtain ⟨hmem, hle⟩ := Classical.not_imp.mp hstays
    by_contra hlost
    refine hskips ⟨row, hmem, Nat.le_of_not_lt hle, fun hmemory => hlost (.inl hmemory), ?_⟩
    intro fetch hfetch hbrings
    exact hlost (.inr (.inl ⟨fetch, hfetch, brings_mono hbrings (by simp)⟩))

/-- **The step lemma.** Every step that skips no update keeps the invariant. -/
theorem Inv.step {e : LiveEvent U} (h : s.Inv) (hskips : ¬ s.Skips e)
    (hstep : s.step e = some s') : s'.Inv := by
  cases e with
  | foreignBegins payload | skipSeq =>
    obtain rfl := some.inj hstep
    exact ⟨h.own, h.accounted⟩
  | foreignCommits row =>
    simp only [LiveRoom.step, ite_none_right_eq_some, Option.some.injEq] at hstep
    obtain ⟨-, rfl⟩ := hstep
    refine ⟨h.own, fun r hr => ?_⟩
    rcases Finset.mem_insert.mp hr with rfl | hr
    · exact accounted_store_self hskips
    · exact (h.accounted r hr).store row
  | foreignAborts row =>
    simp only [LiveRoom.step, ite_none_right_eq_some, Option.some.injEq] at hstep
    obtain ⟨-, rfl⟩ := hstep
    exact ⟨h.own, h.accounted⟩
  | flushAppends payload =>
    simp only [LiveRoom.step, ite_none_right_eq_some, Option.some.injEq] at hstep
    obtain ⟨-, rfl⟩ := hstep
    refine ⟨by simp, fun r hr => (h.accounted r hr).mono (Finset.subset_insert _ _)
      (fun _ hr => hr) (fun _ hf => hf) rfl fun _ hn => hn⟩
  | flushCommits =>
    simp only [LiveRoom.step] at hstep
    split at hstep
    · rename_i row hown
      obtain rfl := some.inj hstep
      have hmemory : row ∈ s.memory := h.own ⟨row, false⟩ hown
      refine ⟨fun own hown' => some.inj hown' ▸ hmemory, fun r hr => ?_⟩
      rcases Finset.mem_insert.mp hr with rfl | hr
      · exact .inl hmemory
      · exact (h.accounted r hr).store row
    · simp at hstep
  | flushFails =>
    simp only [LiveRoom.step] at hstep
    split at hstep
    · obtain rfl := some.inj hstep
      exact ⟨by simp, h.accounted⟩
    · simp at hstep
  | flushReturns =>
    simp only [LiveRoom.step] at hstep
    split at hstep
    · rename_i own hown
      obtain rfl := some.inj hstep
      refine ⟨by simp, fun r hr => ?_⟩
      rcases h.accounted r hr with hmem | hfetched | ⟨hmem, -, hnotice⟩
      · exact .inl hmem
      · exact .inr (.inl hfetched)
      · by_cases hle : r.seq ≤ own.seq
        · -- the flush passes over the update, which is in memory or being fetched
          by_contra hlost
          exact hskips ⟨⟨own, true⟩, hown, r, hr, hle, fun hm => hlost (.inl hm),
            fun hf => hlost (.inr (.inl hf))⟩
        · exact .inr (.inr ⟨hmem, Nat.lt_of_not_le hle, hnotice⟩)
    · simp at hstep
  | deliver seq =>
    simp only [LiveRoom.step, ite_none_right_eq_some, Option.some.injEq] at hstep
    obtain ⟨-, rfl⟩ := hstep
    constructor
    · rw [onRemoteUpdate]
      split <;> exact h.own
    · intro r hr
      refine (h.accounted r ?_).deliver
      rw [onRemoteUpdate] at hr
      split at hr <;> exact hr
  | fetchReads sinceSeq =>
    simp only [LiveRoom.step, ite_none_right_eq_some, Option.some.injEq] at hstep
    obtain ⟨-, rfl⟩ := hstep
    exact ⟨h.own, fun r hr => (h.accounted r hr).fetchReads⟩
  | fetchApplies updates =>
    simp only [LiveRoom.step, ite_none_right_eq_some, Option.some.injEq] at hstep
    obtain ⟨-, rfl⟩ := hstep
    exact ⟨fun own hown => Finset.mem_union_left _ (h.own own hown),
      fun r hr => (h.accounted r hr).fetchApplies⟩
  | fetchFails fetch =>
    simp only [LiveRoom.step, ite_none_right_eq_some, Option.some.injEq] at hstep
    obtain ⟨-, rfl⟩ := hstep
    exact ⟨h.own, fun r hr => h.accounted_fetchFails hskips hr⟩
  | compactionCommits throughSeq =>
    obtain rfl := some.inj hstep
    exact ⟨h.own, fun r hr => h.accounted_compactionCommits hskips hr⟩

/-! ### Runs -/

/-- **A settled room is complete** in any run none of whose steps skips an update. -/
theorem settled_complete_of_reachesWhen
    (h : (liveRoom U).ReachesWhen (fun s e => ¬ s.Skips e) s) (hsettled : s.Settled) :
    s.Complete :=
  have hinv : s.Inv := h.invariant (fun _ hopened => hopened.inv)
    fun _ _ _ hinv hskips hstep => hinv.step hskips hstep
  hinv.complete hsettled

/-! ### A run that skips nothing, and one that skips -/

instance (s : LiveRoom U) : Decidable s.Settled := inferInstanceAs (Decidable (_ ∧ _))

instance (s : LiveRoom U) : Decidable s.Complete :=
  inferInstanceAs (Decidable (s.committed ⊆ s.memory))

instance (s : LiveRoom U) : (e : LiveEvent U) → Decidable (s.Skips e)
  | .flushReturns => inferInstanceAs (Decidable (∃ own ∈ s.own, ∃ row ∈ s.committed, _))
  | .foreignCommits _ => inferInstanceAs (Decidable (_ ∧ ∀ fetch ∈ s.fetches, _))
  | .fetchFails _ => inferInstanceAs (Decidable (∃ row ∈ s.committed, _ ∧ _))
  | .compactionCommits _ =>
      inferInstanceAs (Decidable (∃ row ∈ s.rows, _ ∧ _ ∧ ∀ fetch ∈ s.fetches, _))
  | .foreignBegins _ | .foreignAborts _ | .skipSeq | .flushAppends _ | .flushCommits
  | .flushFails | .deliver _ | .fetchReads _ | .fetchApplies _ =>
      inferInstanceAs (Decidable False)

def emptyRoom : LiveRoom ℕ where
  nextSeq := 1
  rows := []
  committed := ∅
  foreign := []
  own := none
  memory := ∅
  throughSeq := 0
  notices := []
  fetches := []

theorem emptyRoom_opened : (liveRoom ℕ).init emptyRoom :=
  ⟨Finset.Subset.refl _, rfl, rfl⟩

/-- Another writer's update is fetched before the room's own flush returns. -/
def fetchedInTime : List (LiveEvent ℕ) :=
  [.foreignBegins 0, .foreignCommits ⟨1, 0⟩, .flushAppends 1, .flushCommits, .deliver 1,
    .fetchReads 0, .flushReturns, .fetchApplies [⟨1, 0⟩, ⟨2, 1⟩], .deliver 2]

theorem settled_complete_of_reachesWhen_fetchedInTime :
    ∃ s, (liveRoom ℕ).runWhen (fun s e => ¬ s.Skips e) emptyRoom fetchedInTime = some s ∧
      s.Settled ∧ s.Complete := by
  have hsome : ((liveRoom ℕ).runWhen (fun s e => ¬ s.Skips e) emptyRoom fetchedInTime).any
    (fun s => decide s.Settled) = true := by decide
  cases hrun : (liveRoom ℕ).runWhen (fun s e => ¬ s.Skips e) emptyRoom fetchedInTime with
  | none => simp [hrun] at hsome
  | some s =>
    have hsettled : s.Settled := by simpa [hrun] using hsome
    exact ⟨s, rfl, hsettled, settled_complete_of_reachesWhen
      (Machine.reachesWhen_of_runWhen emptyRoom_opened hrun) hsettled⟩

/-- **An update is skipped for good**: the room's own append overtakes it, and both
notifications, delivered in order, are dropped by the guard. -/
theorem not_settled_complete :
    ¬ ∀ s, (liveRoom ℕ).Reaches s → s.Settled → s.Complete := by
  intro h
  have hmissing : ∃ s, (liveRoom ℕ).Reaches s ∧ s.Settled ∧ ¬ s.Complete :=
    Machine.exists_reachesWhen_of_runWhen
      [.foreignBegins 0, .flushAppends 1, .foreignCommits ⟨1, 0⟩, .flushCommits,
        .flushReturns, .deliver 1, .deliver 2] emptyRoom_opened (by decide)
  obtain ⟨s, hs, hsettled, hnot⟩ := hmissing
  exact hnot (h s hs hsettled)

end LiveRoom

end Sone
