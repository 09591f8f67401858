import Sone.Archive.Names

/-!
# What an import would do

`planImport` of `import/plan.ts`: the pages and the folders an archive makes, in the order they are
made, its attachments, and what is skipped. Every entry is skipped, or an attachment, or a page at
its path (`planEntry`); an `index.md` is the folder it sits in. A folder that pages are in and that
has no entry is planned after them.

`pages_planEntries` and `skipped_planEntries` say what the loop gathers, `mem_folders_planEntries`
that every folder it notes is on the way to a page. `planImport_pages_perm` says what is planned of
entries that imply no folder of their own.
-/

namespace Sone.Import

open List

open Zip Export

inductive SkipReason where
  | notMarkdown
  | empty
  | tooDeep
  deriving DecidableEq

structure PlannedPage where
  path : List Text
  title : Text
  isFolder : Bool
  markdown : Text
  collidesWith : Option String
  entry : Option ImportedEntry

structure PlannedAttachment where
  name : Text
  bytes : ℕ
  deriving DecidableEq

/-- `totals` of an `ImportPlan`. -/
structure PlanTotals where
  pages : ℕ
  folders : ℕ
  attachments : ℕ
  bytes : ℕ

structure ImportPlan where
  pages : List PlannedPage
  attachments : List PlannedAttachment
  skipped : List (String × SkipReason)
  totals : PlanTotals

/-- `MAX_DEPTH` -/
def maxDepth : ℕ := 12

def key (js : Js) (path : List Text) : String :=
  String.ofList (joinPath (path.map fun part => (js.lowerCase (String.ofList part)).toList))

/-- `replace(/\.md$/i, '')` -/
def withoutMd (name : Text) : Text :=
  if [".md", ".Md", ".mD", ".MD"].any fun ending => name.drop (name.length - 3) = ending.toList then
    name.take (name.length - 3)
  else name

def PlannedPage.kind (page : PlannedPage) : EntryKind :=
  if page.isFolder then .folder
  else if page.entry.any ImportedEntry.isCanvas then .canvas
  else .page

/-! ### Entries -/

section Entries

variable (js : Js) (existing : YMap String)

/-- `entry.name.startsWith('attachments/')` -/
def isAttachment (entry : ArchiveEntry) : Bool := "attachments/".toList.isPrefixOf entry.name.toList

/-- `entry.name.toLowerCase().endsWith('.md')` -/
def isMarkdown (entry : ArchiveEntry) : Bool :=
  ".md".toList.isSuffixOf (js.lowerCase entry.name).toList

def entryParts (entry : ArchiveEntry) : List Text := splitPath entry.name.toList

/-- `fileName` -/
def entryFileName (entry : ArchiveEntry) : Text := withoutMd ((entryParts entry).getLastD [])

def isIndex (entry : ArchiveEntry) : Bool :=
  js.lowerCase (String.ofList (entryFileName entry)) = "index"

/-- `path` -/
def entryPath (entry : ArchiveEntry) : List Text :=
  if isIndex js entry then (entryParts entry).dropLast
  else (entryParts entry).dropLast ++ [entryFileName entry]

def skipReason (entry : ArchiveEntry) : Option SkipReason :=
  if !isMarkdown js entry then some .notMarkdown
  else if maxDepth < (entryParts entry).length then some .tooDeep
  else if entryPath js entry = [] then some .empty
  else none

def entryPage (entry : ArchiveEntry) : PlannedPage :=
  let markdown := (toStringUtf8 entry.body).toList
  { path := entryPath js entry
    title := titleFrom markdown (entryFileName entry)
    isFolder := isIndex js entry
    markdown := bodyWithoutTitle markdown
    collidesWith := existing.get (key js (entryPath js entry))
    entry := entryFrom js markdown }

/-- What the loop over the entries has gathered. `folders` are those the archive implies. -/
structure Planning where
  skipped : List (String × SkipReason)
  pages : List PlannedPage
  folders : YMap (List Text)

def noteFolders (path : List Text) (folders : YMap (List Text)) : YMap (List Text) :=
  (List.range (path.length - 1)).foldl
    (fun folders i => folders.set (key js (path.take (i + 1))) (path.take (i + 1))) folders

def planEntry (s : Planning) (entry : ArchiveEntry) : Planning :=
  if isAttachment entry then s
  else match skipReason js entry with
    | some reason => { s with skipped := s.skipped ++ [(entry.name, reason)] }
    | none =>
      { s with
        folders := noteFolders js (entryPath js entry) s.folders
        pages := s.pages ++ [entryPage js existing entry] }

def planEntries (entries : List ArchiveEntry) : Planning :=
  entries.foldl (planEntry js existing) { skipped := [], pages := [], folders := YMap.empty }

def impliedPages (s : Planning) : List PlannedPage :=
  (s.folders.rows.filter fun folder => folder.1 ∉ s.pages.map fun page => key js page.path).map
    fun folder =>
      { path := folder.2
        title := folder.2.getLastD []
        isFolder := true
        markdown := []
        collidesWith := existing.get folder.1
        entry := none }

def pageLe (a b : PlannedPage) : Bool :=
  a.path.length < b.path.length || (a.path.length = b.path.length &&
    js.localeLe (String.ofList (joinPath a.path)) (String.ofList (joinPath b.path)))

def planAttachments (entries : List ArchiveEntry) : List PlannedAttachment :=
  ((entries.filter isAttachment).map fun entry =>
    { name := entry.name.toList.drop 12, bytes := entry.body.length : PlannedAttachment }).filter
    fun attachment => attachment.name ≠ []

def planImport (entries : List ArchiveEntry) : ImportPlan :=
  let s := planEntries js existing entries
  let pages := (s.pages ++ impliedPages js existing s).mergeSort (pageLe js)
  let attachments := planAttachments entries
  { pages := pages
    attachments := attachments
    skipped := s.skipped
    totals :=
      { pages := (pages.filter fun page => !page.isFolder).length
        folders := (pages.filter fun page => page.isFolder).length
        attachments := attachments.length
        bytes := (attachments.map PlannedAttachment.bytes).sum } }

end Entries

/-! ### What is gathered -/

section Gathered

variable {js : Js} {existing : YMap String} {entries : List ArchiveEntry} {entry : ArchiveEntry}
  {s : Planning} {path branch : List Text} {folders : YMap (List Text)}

def isPlanned (js : Js) (entry : ArchiveEntry) : Bool :=
  !isAttachment entry && (skipReason js entry).isNone

def skippedAs (js : Js) (entry : ArchiveEntry) : Option (String × SkipReason) :=
  if isAttachment entry then none
  else (skipReason js entry).map fun reason => (entry.name, reason)

theorem mem_noteFolders {folder : String × List Text}
    (h : folder ∈ (noteFolders js path folders).rows) :
    folder ∈ folders.rows ∨ ∃ n, 0 < n ∧ n < path.length ∧ folder.2 = path.take n ∧
      folder.1 = key js folder.2 := by
  rw [noteFolders] at h
  obtain ⟨indices, hindices⟩ : ∃ l, l = List.range (path.length - 1) := ⟨_, rfl⟩
  have hlt : ∀ i ∈ indices, i + 1 < path.length := by
    intro i hi
    rw [hindices, mem_range] at hi
    omega
  rw [← hindices] at h
  clear hindices
  induction indices generalizing folders with
  | nil => exact .inl h
  | cons i indices ih =>
    obtain ⟨hi, hlt⟩ := forall_mem_cons.mp hlt
    rcases ih h hlt with hset | hway
    · dsimp only at hset
      rw [Keyed.mem_rows_iff, YMap.set, Keyed.find_upsert] at hset
      split at hset
      · obtain rfl := Option.some.inj hset
        exact .inr ⟨i + 1, Nat.succ_pos i, hi, rfl, rfl⟩
      · exact .inl (Keyed.mem_rows_iff.mpr hset)
    · exact .inr hway

/-- **What one entry adds.** -/
theorem planEntry_eq (s : Planning) (entry : ArchiveEntry) :
    (planEntry js existing s entry).pages =
        s.pages ++ ([entry].filter (isPlanned js)).map (entryPage js existing) ∧
      (planEntry js existing s entry).skipped = s.skipped ++ [entry].filterMap (skippedAs js) ∧
      ((planEntry js existing s entry).folders = s.folders ∨ isPlanned js entry = true ∧
        (planEntry js existing s entry).folders =
          noteFolders js (entryPath js entry) s.folders) := by
  rw [planEntry]
  by_cases hattachment : isAttachment entry = true
  · rw [if_pos hattachment]
    simp [isPlanned, skippedAs, hattachment]
  · rw [if_neg hattachment]
    rw [Bool.not_eq_true] at hattachment
    cases hreason : skipReason js entry with
    | some reason => simp [isPlanned, skippedAs, hattachment, hreason]
    | none => simp [isPlanned, skippedAs, hattachment, hreason]

theorem foldl_planEntry (s : Planning) (entries : List ArchiveEntry) :
    (entries.foldl (planEntry js existing) s).pages =
        s.pages ++ (entries.filter (isPlanned js)).map (entryPage js existing) ∧
      (entries.foldl (planEntry js existing) s).skipped =
        s.skipped ++ entries.filterMap (skippedAs js) ∧
      ∀ folder ∈ (entries.foldl (planEntry js existing) s).folders.rows,
        folder ∈ s.folders.rows ∨ ∃ entry ∈ entries, isPlanned js entry = true ∧
          ∃ n, 0 < n ∧ n < (entryPath js entry).length ∧
            folder.2 = (entryPath js entry).take n ∧ folder.1 = key js folder.2 := by
  induction entries generalizing s with
  | nil => exact ⟨by simp, by simp, fun folder hfolder => .inl hfolder⟩
  | cons entry entries ih =>
    obtain ⟨hpages, hskipped, hfolders⟩ := @planEntry_eq js existing s entry
    obtain ⟨hpages', hskipped', hfolders'⟩ := ih (planEntry js existing s entry)
    rw [foldl_cons]
    refine ⟨?_, ?_, fun folder hfolder => ?_⟩
    · rw [hpages', hpages, append_assoc, ← map_append, ← filter_append,
        singleton_append]
    · rw [hskipped', hskipped, append_assoc, ← filterMap_append, singleton_append]
    · rcases hfolders' folder hfolder with hbefore | ⟨other, hother, hrest⟩
      · rcases hfolders with hsame | ⟨hplanned, hnoted⟩
        · rw [hsame] at hbefore
          exact .inl hbefore
        · rw [hnoted] at hbefore
          rcases mem_noteFolders hbefore with hold | hway
          · exact .inl hold
          · exact .inr ⟨entry, mem_cons_self, hplanned, hway⟩
      · exact .inr ⟨other, mem_cons_of_mem _ hother, hrest⟩

theorem pages_planEntries (entries : List ArchiveEntry) :
    (planEntries js existing entries).pages =
      (entries.filter (isPlanned js)).map (entryPage js existing) :=
  (foldl_planEntry _ entries).1

theorem skipped_planEntries (entries : List ArchiveEntry) :
    (planEntries js existing entries).skipped = entries.filterMap (skippedAs js) :=
  (foldl_planEntry _ entries).2.1

theorem mem_folders_planEntries {folder : String × List Text}
    (h : folder ∈ (planEntries js existing entries).folders.rows) :
    ∃ entry ∈ entries, isPlanned js entry = true ∧
      ∃ n, 0 < n ∧ n < (entryPath js entry).length ∧
        folder.2 = (entryPath js entry).take n ∧ folder.1 = key js folder.2 := by
  rcases (foldl_planEntry _ entries).2.2 folder h with hempty | hway
  · cases hempty
  · exact hway

theorem planImport_pages_perm (entries : List ArchiveEntry) :
    (planImport js existing entries).pages.Perm
      ((entries.filter (isPlanned js)).map (entryPage js existing) ++
        impliedPages js existing (planEntries js existing entries)) := by
  rw [← pages_planEntries]
  exact mergeSort_perm _ _

theorem impliedPages_eq_nil
    (h : ∀ entry ∈ entries, isPlanned js entry = true →
      ∀ n, 0 < n → n < (entryPath js entry).length →
        ∃ other ∈ entries, isPlanned js other = true ∧
          entryPath js other = (entryPath js entry).take n) :
    impliedPages js existing (planEntries js existing entries) = [] := by
  rw [impliedPages, map_eq_nil_iff, filter_eq_nil_iff]
  intro folder hfolder
  obtain ⟨entry, hentry, hplanned, n, hpos, hn, hbranch, hkey⟩ := mem_folders_planEntries hfolder
  obtain ⟨other, hother, hplannedOther, hpath⟩ := h entry hentry hplanned n hpos hn
  rw [decide_eq_true_eq, not_not, pages_planEntries, List.map_map, List.mem_map]
  refine ⟨other, mem_filter.mpr ⟨hother, hplannedOther⟩, ?_⟩
  rw [hkey, hbranch, ← hpath]
  rfl

end Gathered

end Sone.Import
