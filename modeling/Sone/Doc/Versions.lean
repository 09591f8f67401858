import Sone.Table.Keyed
import Sone.Transition.Machine
import Mathlib.Algebra.Order.Group.Nat

/-!
# The versions of a page

`takeVersion` and `thinVersions` of `doc/versions.ts`, on the table `page_versions`. Versions are
taken as time passes and thinned again and again: all of the last day are kept, one for each hour
of the last week, one for each day before that, and none beyond the retention. A version is in one
band after the other as it gets older, and what is gone does not come back, so that what is kept
is a matter of all runs together (`pageHistory`).

`kept_of_reaches`: what history still has, after any number of runs. The newest version of a
day, or of an hour, comes first in its bucket whatever band it is in, which carries the induction
(`rank_eq_one_iff`).
-/

namespace Sone

open List

namespace PageHistory

/-- `reason` -/
inductive Reason where
  | quiet
  | compaction
  | restore
  deriving DecidableEq

/-- `page_versions` -/
structure PageVersion where
  id : ℕ
  docId : String
  throughSeq : ℕ
  state : List UInt8
  /-- `taken_at`, in microseconds. -/
  takenAt : ℤ
  authors : List String
  reason : Reason
  deriving DecidableEq

/-! ### Dates -/

def hourLength : ℤ := 3600000000

def dayLength : ℤ := 86400000000

/-- **A zone**: how far its clocks are from those of UTC, in microseconds. -/
structure Zone where
  offset : ℤ

/-- `date_trunc('hour', …)` -/
def Zone.hour (zone : Zone) (time : ℤ) : ℤ := time - (time + zone.offset) % hourLength

/-- `date_trunc('day', …)` -/
def Zone.day (zone : Zone) (time : ℤ) : ℤ := time - (time + zone.offset) % dayLength

/-- `now() - interval '… days'` -/
def daysBefore (now : ℤ) (days : ℕ) : ℤ := now - days * dayLength

/-- `VERSION_RETENTION_DAYS`, by what the environment asks for, where that is a whole number:
`envNumber` refuses what is below 1. -/
def versionRetentionDays : Option ℕ → ℕ
  | some asked => if 1 ≤ asked then asked else 90
  | none => 90

/-! ### Thinning -/

/-- What `bucket` is: the id of a version as a text, or the id of its page with a date behind it.
The first has no `-` in it and the second has, and both say what they are made of. The date is
that of an hour or of a day. -/
inductive Bucket where
  | own (id : ℕ)
  | dated (docId : String) (date : ℤ)
  deriving DecidableEq

/-- The `CASE` of `thinVersions`. -/
def bucket (zone : Zone) (now : ℤ) (version : PageVersion) : Bucket :=
  if version.takenAt > daysBefore now 1 then .own version.id
  else if version.takenAt > daysBefore now 7 then
    .dated version.docId (zone.hour version.takenAt)
  else .dated version.docId (zone.day version.takenAt)

/-- `PARTITION BY doc_id, …` -/
def SharesPartition (zone : Zone) (now : ℤ) (version other : PageVersion) : Prop :=
  other.docId = version.docId ∧ bucket zone now other = bucket zone now version
  deriving Decidable

/-- `ORDER BY taken_at DESC, id DESC`: one version comes before another. -/
def PageVersion.IsNewer (other version : PageVersion) : Prop :=
  other.takenAt > version.takenAt ∨ (other.takenAt = version.takenAt ∧ other.id > version.id)
  deriving Decidable

/-- `row_number() OVER …` -/
def rank (zone : Zone) (now : ℤ) (versions : List PageVersion) (version : PageVersion) : ℕ :=
  versions.countP (fun other => SharesPartition zone now version other ∧ other.IsNewer version) + 1

/-- The condition of the `DELETE`. -/
def isThinned (zone : Zone) (retention : ℕ) (now : ℤ) (versions : List PageVersion)
    (version : PageVersion) : Bool :=
  (rank zone now versions version > 1 ∨ version.takenAt < daysBefore now retention) ∧
    version.reason ≠ .restore

def thinVersions (zone : Zone) (retention : ℕ) (now : ℤ) (versions : Keyed PageVersion.id) :
    Keyed PageVersion.id :=
  versions.filter fun version => !isThinned zone retention now versions.rows version

/-! ### Histories -/

/-- The clock, the table, and every version that was ever taken. -/
structure State where
  now : ℤ
  versions : Keyed PageVersion.id
  taken : List PageVersion

inductive Event where
  | tick (us : ℕ)
  /-- A version is taken. Its time is that of its transaction, which has begun before. -/
  | takes (version : PageVersion)
  | thins

/-- `takeVersion`, with an id that no other version has. -/
def takeVersion (s : State) (version : PageVersion) : State :=
  -- `ON CONFLICT (doc_id, through_seq) DO NOTHING`
  if ∃ other ∈ s.versions.rows, other.docId = version.docId ∧
      other.throughSeq = version.throughSeq then s
  else { s with versions := s.versions.insertIgnore version, taken := version :: s.taken }

/-- The state after an event, or `none` where it cannot happen. -/
def step (zone : Zone) (retention : ℕ) (s : State) : Event → Option State
  | .tick us => some { s with now := s.now + us }
  | .takes version =>
    if version.takenAt ≤ s.now ∧ version.id ∉ s.taken.map PageVersion.id then
      some (takeVersion s version)
    else none
  | .thins => some { s with versions := thinVersions zone retention s.now s.versions }

end PageHistory

open PageHistory in
/-- **The history of pages**, in a zone and with a setting, from an empty table. -/
def pageHistory (zone : Zone) (setting : Option ℕ) : Machine State Event where
  init s := s.versions.rows = [] ∧ s.taken = []
  step := step zone (versionRetentionDays setting)

namespace PageHistory

/-! ### What is kept -/

/-- No version of the same page, of the same hour or day, was ever taken that is newer. `date` is
which of the two. -/
def IsNewestOf (date : ℤ → ℤ) (taken : List PageVersion) (version : PageVersion) : Prop :=
  ∀ other ∈ taken, other.docId = version.docId → date other.takenAt = date version.takenAt →
    ¬other.IsNewer version

/-- **What has to stay** in a state: every restore, the newest version of every day that the
retention reaches, every version of the last day, and the newest version of every hour that lies
within so many days. -/
inductive MustStay (zone : Zone) (retention hourDays : ℕ) (s : State) (version : PageVersion) :
    Prop where
  | restore (h : version.reason = .restore)
  | day (hnewest : IsNewestOf zone.day s.taken version)
      (hwithin : daysBefore s.now retention ≤ version.takenAt)
  | lastDay (h : daysBefore s.now 1 < version.takenAt)
  | hour (hnewest : IsNewestOf zone.hour s.taken version)
      (hwithin : ∀ time, zone.hour time = zone.hour version.takenAt →
        daysBefore s.now hourDays ≤ time)

/-- **What history keeps**: what has to stay of all that was ever taken; and once a run has
thinned, no two versions of one page but restores on a day that lies before the last seven. -/
structure Kept (zone : Zone) (setting : Option ℕ) (hourDays : ℕ) (s : State) : Prop where
  stays : ∀ version ∈ s.taken, MustStay zone (versionRetentionDays setting) hourDays s version →
    version ∈ s.versions.rows
  thinned : ∀ s', step zone (versionRetentionDays setting) s .thins = some s' →
    ∀ version ∈ s'.versions.rows, ∀ other ∈ s'.versions.rows,
      version.reason ≠ .restore → other.reason ≠ .restore → other.docId = version.docId →
      zone.day other.takenAt = zone.day version.takenAt →
      (∀ time, zone.day time = zone.day version.takenAt → time ≤ daysBefore s'.now 7) →
      other = version

variable {zone : Zone} {setting : Option ℕ} {retention hourDays : ℕ} {now : ℤ} {s s' : State}
  {versions : Keyed PageVersion.id} {version other : PageVersion}

/-! ### Dates of a zone -/

theorem daysBefore_le_of_le {now' : ℤ} (h : now ≤ now') (days : ℕ) :
    daysBefore now days ≤ daysBefore now' days := Int.sub_le_sub_right h _

theorem daysBefore_le_of_days_le {days days' : ℕ} (h : days ≤ days') :
    daysBefore now days' ≤ daysBefore now days := by
  simp only [daysBefore, dayLength]
  omega

theorem Zone.hour_le (zone : Zone) (time : ℤ) : zone.hour time ≤ time := by
  rw [hour, hourLength]
  omega

@[simp] theorem Zone.hour_hour (zone : Zone) (time : ℤ) :
    zone.hour (zone.hour time) = zone.hour time := by
  simp only [hour, hourLength]
  omega

theorem Zone.hour_mono (zone : Zone) {time time' : ℤ} (h : time ≤ time') :
    zone.hour time ≤ zone.hour time' := by
  simp only [hour, hourLength]
  omega

theorem Zone.day_eq_of_hour_eq (zone : Zone) {time time' : ℤ}
    (h : zone.hour time = zone.hour time') : zone.day time = zone.day time' := by
  simp only [hour, hourLength] at h
  simp only [day, dayLength]
  omega

theorem Zone.day_eq_of_hour_eq_day (zone : Zone) {time time' : ℤ}
    (h : zone.hour time = zone.day time') : zone.day time = zone.day time' := by
  simp only [hour, hourLength, day, dayLength] at h
  simp only [day, dayLength]
  omega

theorem Zone.day_le_hour (zone : Zone) (time : ℤ) : zone.day time ≤ zone.hour time := by
  simp only [hour, hourLength, day, dayLength]
  omega

theorem one_le_versionRetentionDays (setting : Option ℕ) : 1 ≤ versionRetentionDays setting := by
  rcases setting with _ | asked
  · exact (by decide : 1 ≤ 90)
  · rw [versionRetentionDays]
    split_ifs with h
    · exact h
    · omega

/-! ### What comes first in its bucket -/

theorem not_isNewer_self (version : PageVersion) : ¬version.IsNewer version := by
  rintro (h | ⟨-, h⟩) <;> exact lt_irrefl _ h

theorem isNewer_or_isNewer (hid : other.id ≠ version.id) :
    other.IsNewer version ∨ version.IsNewer other := by
  simp only [PageVersion.IsNewer]
  omega

theorem rank_eq_one_iff {rows : List PageVersion} :
    rank zone now rows version = 1 ↔
      ∀ other ∈ rows, SharesPartition zone now version other → ¬other.IsNewer version := by
  rw [rank, Nat.add_eq_right, countP_eq_zero]
  simp only [decide_eq_true_eq, not_and]

theorem mem_thinVersions :
    version ∈ (thinVersions zone retention now versions).rows ↔ version ∈ versions.rows ∧
      (version.reason = .restore ∨ (rank zone now versions.rows version = 1 ∧
        daysBefore now retention ≤ version.takenAt)) := by
  have hrank : 1 ≤ rank zone now versions.rows version := Nat.le_add_left 1 _
  rw [thinVersions, Keyed.filter, mem_filter, isThinned]
  refine and_congr_right fun _ => ?_
  by_cases hrestore : version.reason = .restore
  · simp [hrestore]
  · simp only [hrestore, ne_eq, not_false_eq_true, and_true, Bool.not_eq_true',
      decide_eq_false_iff_not, not_or, not_lt, false_or]
    exact and_congr_left fun _ => ⟨fun h => le_antisymm h hrank, le_of_eq⟩

theorem day_eq_of_bucket_eq (h : bucket zone now other = bucket zone now version) :
    other.id = version.id ∨ zone.day other.takenAt = zone.day version.takenAt := by
  simp only [bucket] at h
  split_ifs at h <;> simp only [Bucket.own.injEq, Bucket.dated.injEq] at h
  · exact .inl h
  · exact .inr (zone.day_eq_of_hour_eq h.2)
  · exact .inr (zone.day_eq_of_hour_eq_day h.2)
  · exact .inr (zone.day_eq_of_hour_eq_day h.2.symm).symm
  · exact .inr h.2

theorem id_eq_of_bucket_eq (hlast : daysBefore now 1 < version.takenAt)
    (h : bucket zone now other = bucket zone now version) : other.id = version.id := by
  rw [bucket, bucket, if_pos (show version.takenAt > daysBefore now 1 from hlast)] at h
  split_ifs at h
  exact Bucket.own.inj h

theorem PageVersion.IsNewer.le (h : other.IsNewer version) : version.takenAt ≤ other.takenAt := by
  rcases h with h | ⟨h, -⟩
  · exact le_of_lt h
  · exact le_of_eq h.symm

theorem hour_eq_of_bucket_eq (hnewer : other.IsNewer version)
    (hwithin : daysBefore now 7 ≤ zone.hour version.takenAt)
    (h : bucket zone now other = bucket zone now version) :
    other.id = version.id ∨ zone.hour other.takenAt = zone.hour version.takenAt := by
  have hle := hnewer.le
  have hbegins := zone.hour_le version.takenAt
  by_cases hlast : daysBefore now 1 < version.takenAt
  · exact .inl (id_eq_of_bucket_eq hlast h)
  by_cases hother : daysBefore now 1 < other.takenAt
  · exact .inl (id_eq_of_bucket_eq hother h.symm).symm
  refine .inr ?_
  rw [bucket, bucket, if_neg hlast, if_neg hother] at h
  by_cases hline : daysBefore now 7 < version.takenAt
  · rw [if_pos hline, if_pos (show other.takenAt > _ from hline.trans_le hle)] at h
    exact (Bucket.dated.inj h).2
  -- the version is of the moment at the line, which begins its hour
  by_cases hbeyond : daysBefore now 7 < other.takenAt
  · rw [if_neg hline, if_pos hbeyond] at h
    have hday := zone.day_le_hour version.takenAt
    have hmono := zone.hour_mono hle
    have hdate := (Bucket.dated.inj h).2
    omega
  · have hsame : other.takenAt = version.takenAt := by omega
    rw [hsame]

theorem mem_thinVersions_of_first (hmem : version ∈ versions.rows)
    (hfirst : ∀ other ∈ versions.rows, other.IsNewer version →
      ¬(other.docId = version.docId ∧ bucket zone now other = bucket zone now version))
    (hwithin : daysBefore now retention ≤ version.takenAt) :
    version ∈ (thinVersions zone retention now versions).rows :=
  mem_thinVersions.mpr ⟨hmem, .inr ⟨rank_eq_one_iff.mpr fun other hother hshares hnewer =>
    hfirst other hother hnewer hshares, hwithin⟩⟩

theorem eq_of_id_eq (hversion : version ∈ versions.rows) (hother : other ∈ versions.rows)
    (h : other.id = version.id) : other = version :=
  inj_on_of_nodup_map versions.nodup hother hversion h

/-- **What has to stay is not thinned.** -/
theorem MustStay.mem_thinVersions (h : MustStay zone retention hourDays s version)
    (hretention : 1 ≤ retention) (hdays : hourDays ≤ min 7 retention)
    (hmem : version ∈ s.versions.rows) (hsub : s.versions.rows ⊆ s.taken) :
    version ∈ (thinVersions zone retention s.now s.versions).rows := by
  obtain ⟨hseven, hkept⟩ := le_min_iff.mp hdays
  -- what shares an id with the version is the version, which is not newer
  have hself : ∀ other ∈ s.versions.rows, other.IsNewer version → other.id ≠ version.id :=
    fun other hother hnewer hid =>
      not_isNewer_self version (eq_of_id_eq hmem hother hid ▸ hnewer)
  rcases h with hrestore | ⟨hnewest, hwithin⟩ | hlast | ⟨hnewest, hwithin⟩
  · exact PageHistory.mem_thinVersions.mpr ⟨hmem, .inl hrestore⟩
  · refine mem_thinVersions_of_first hmem (fun other hother hnewer hshares => ?_) hwithin
    exact hnewest other (hsub hother) hshares.1
      ((day_eq_of_bucket_eq hshares.2).resolve_left (hself other hother hnewer)) hnewer
  · refine mem_thinVersions_of_first hmem (fun other hother hnewer hshares => ?_)
      ((daysBefore_le_of_days_le hretention).trans (le_of_lt hlast))
    exact hself other hother hnewer (id_eq_of_bucket_eq hlast hshares.2)
  · have hbegins := hwithin _ (zone.hour_hour version.takenAt)
    refine mem_thinVersions_of_first hmem (fun other hother hnewer hshares => ?_)
      ((daysBefore_le_of_days_le hkept).trans (hwithin _ rfl))
    have hhour := hour_eq_of_bucket_eq hnewer ((daysBefore_le_of_days_le hseven).trans hbegins)
      hshares.2
    exact hnewest other (hsub hother) hshares.1 (hhour.resolve_left (hself other hother hnewer))
      hnewer

/-! ### Runs -/

theorem MustStay.earlier (h : MustStay zone retention hourDays s' version) (hnow : s.now ≤ s'.now)
    (htaken : s.taken ⊆ s'.taken) : MustStay zone retention hourDays s version := by
  rcases h with h | ⟨hnewest, hwithin⟩ | h | ⟨hnewest, hwithin⟩
  · exact .restore h
  · exact .day (fun other hother => hnewest other (htaken hother))
      ((daysBefore_le_of_le hnow _).trans hwithin)
  · exact .lastDay ((daysBefore_le_of_le hnow _).trans_lt h)
  · exact .hour (fun other hother => hnewest other (htaken hother))
      fun time htime => (daysBefore_le_of_le hnow _).trans (hwithin time htime)

/-- **The invariant**: every version in the table was taken, and what has to stay is there. -/
structure Inv (zone : Zone) (retention hourDays : ℕ) (s : State) : Prop where
  taken : s.versions.rows ⊆ s.taken
  stays : ∀ version ∈ s.taken, MustStay zone retention hourDays s version →
    version ∈ s.versions.rows

theorem Inv.takeVersion (h : Inv zone retention hourDays s)
    (hid : version.id ∉ s.taken.map PageVersion.id) :
    Inv zone retention hourDays (takeVersion s version) := by
  rw [PageHistory.takeVersion]
  split_ifs
  · exact h
  have hnew : PageVersion.id version ∉ s.versions.rows.map PageVersion.id :=
    fun hmem => hid (map_subset _ h.taken hmem)
  refine ⟨fun other hother => ?_, fun other hother hstay => ?_⟩
  · rcases Keyed.mem_insertIgnore.mp hother with hother | ⟨-, rfl⟩
    · exact mem_cons_of_mem _ (h.taken hother)
    · exact mem_cons_self
  · rcases mem_cons.mp hother with rfl | hother
    · exact Keyed.mem_insertIgnore.mpr (.inr ⟨hnew, rfl⟩)
    · exact Keyed.mem_insertIgnore.mpr (.inl (h.stays other hother
        (hstay.earlier le_rfl (subset_cons_self _ _))))

theorem Inv.step {e : Event} (h : Inv zone retention hourDays s) (hretention : 1 ≤ retention)
    (hdays : hourDays ≤ min 7 retention) (hstep : step zone retention s e = some s') :
    Inv zone retention hourDays s' := by
  rcases e with us | version | _
  · obtain rfl := Option.some.inj hstep
    exact ⟨h.taken, fun version hmem hstay =>
      h.stays version hmem (hstay.earlier (Int.le_add_of_nonneg_right (Int.natCast_nonneg us))
        (List.Subset.refl _))⟩
  · simp only [PageHistory.step] at hstep
    split_ifs at hstep with hnew
    obtain rfl := Option.some.inj hstep
    exact h.takeVersion hnew.2
  · obtain rfl := Option.some.inj hstep
    refine ⟨fun version hmem => h.taken (mem_thinVersions.mp hmem).1, fun version hmem hstay => ?_⟩
    have hstay' : MustStay zone retention hourDays s version :=
      hstay.earlier le_rfl (List.Subset.refl _)
    exact hstay'.mem_thinVersions hretention hdays (h.stays version hmem hstay') h.taken

/-- **A run leaves one version for a page and a day** that lies before the last seven, apart from
restores. -/
theorem eq_of_mem_thinVersions
    (hversion : version ∈ (thinVersions zone retention now versions).rows)
    (hother : other ∈ (thinVersions zone retention now versions).rows)
    (hrestore : version.reason ≠ .restore) (hrestore' : other.reason ≠ .restore)
    (hdoc : other.docId = version.docId)
    (hday : zone.day other.takenAt = zone.day version.takenAt)
    (hbefore : ∀ time, zone.day time = zone.day version.takenAt → time ≤ daysBefore now 7) :
    other = version := by
  obtain ⟨hmem, hkept⟩ := mem_thinVersions.mp hversion
  obtain ⟨hmem', hkept'⟩ := mem_thinVersions.mp hother
  have hfirst := rank_eq_one_iff.mp (hkept.resolve_left hrestore).1
  have hfirst' := rank_eq_one_iff.mp (hkept'.resolve_left hrestore').1
  have hweek : daysBefore now 7 ≤ daysBefore now 1 := daysBefore_le_of_days_le (by decide)
  have hbucket : ∀ w : PageVersion, w.takenAt ≤ daysBefore now 7 →
      bucket zone now w = .dated w.docId (zone.day w.takenAt) := fun w hw => by
    rw [bucket, if_neg (by omega), if_neg (by omega)]
  have hsame : bucket zone now other = bucket zone now version := by
    rw [hbucket other (hbefore _ hday), hbucket version (hbefore _ rfl), hdoc, hday]
  by_contra hne
  have hid : other.id ≠ version.id := fun hid => hne (eq_of_id_eq hmem hmem' hid)
  rcases isNewer_or_isNewer hid with hnewer | hnewer
  · exact hfirst other hmem' ⟨hdoc, hsame⟩ hnewer
  · exact hfirst' version hmem ⟨hdoc.symm, hsame.symm⟩ hnewer

/-- **What history keeps**, in every state of every run, the hours of the last seven days as far as
the retention reaches. -/
theorem kept_of_reaches (h : (pageHistory zone setting).Reaches s) :
    Kept zone setting (min 7 (versionRetentionDays setting)) s := by
  have hinv : Inv zone (versionRetentionDays setting) (min 7 (versionRetentionDays setting)) s := by
    refine h.invariant (fun s hinit => ?_) fun s e s' hinv hstep =>
      hinv.step (one_le_versionRetentionDays setting) le_rfl hstep
    obtain ⟨hversions, htaken⟩ := hinit
    refine ⟨?_, ?_⟩
    · rw [hversions]
      exact nil_subset _
    · rw [htaken]
      exact fun _ hmem => absurd hmem not_mem_nil
  refine ⟨hinv.stays, fun s' hstep version hversion other hother => ?_⟩
  obtain rfl := Option.some.inj hstep
  exact eq_of_mem_thinVersions hversion hother

/-! ### A short retention -/

/-- A version of a page, taken in the hour that begins with the clock. -/
def firstVersion : PageVersion where
  id := 1
  docId := "p1"
  throughSeq := 1
  state := []
  takenAt := 0
  authors := []
  reason := .quiet

/-- The version is taken, five days pass, and versions are thinned. -/
def fiveDays : List Event := [.takes firstVersion, .tick 432000000000, .thins]

def emptyState : State := { now := 0, versions := Keyed.empty, taken := [] }

/-- **A retention of two days** leaves no version of an hour five days ago. -/
theorem not_kept_sevenDays :
    ¬∀ zone setting s, (pageHistory zone setting).Reaches s → Kept zone setting 7 s := by
  intro hall
  have hreach : ∃ s, (pageHistory ⟨0⟩ (some 2)).Reaches s ∧ s.now = 432000000000 ∧
      s.taken = [firstVersion] ∧ s.versions.rows = [] :=
    Machine.exists_reachesWhen_of_runWhen fiveDays
      (⟨rfl, rfl⟩ : (pageHistory ⟨0⟩ (some 2)).init emptyState) (by decide +kernel)
  obtain ⟨s, hs, hnow, htaken, hrows⟩ := hreach
  have hstay : MustStay ⟨0⟩ (versionRetentionDays (some 2)) 7 s firstVersion := by
    refine .hour (fun other hother _ _ => ?_) fun time htime => ?_
    · rw [htaken, mem_singleton] at hother
      exact hother ▸ not_isNewer_self firstVersion
    · have hle := Zone.hour_le ⟨0⟩ time
      rw [htime] at hle
      rw [hnow]
      exact le_trans (by decide) hle
  have hmem := (hall _ _ s hs).stays firstVersion (htaken ▸ mem_singleton_self _) hstay
  rw [hrows] at hmem
  exact absurd hmem not_mem_nil

/-- The hypothesis can be met: with the usual retention the version is there after five days. -/
theorem kept_of_reaches_fiveDays :
    ∃ s, (pageHistory ⟨0⟩ none).Reaches s ∧ s.versions.rows = [firstVersion] ∧
      Kept ⟨0⟩ none 7 s := by
  have hreach : ∃ s, (pageHistory ⟨0⟩ none).Reaches s ∧ s.versions.rows = [firstVersion] :=
    Machine.exists_reachesWhen_of_runWhen fiveDays
      (⟨rfl, rfl⟩ : (pageHistory ⟨0⟩ none).init emptyState) (by decide +kernel)
  obtain ⟨s, hs, hrows⟩ := hreach
  exact ⟨s, hs, hrows, kept_of_reaches hs⟩

end PageHistory

end Sone
