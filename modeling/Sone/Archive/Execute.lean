import Sone.Archive.Plan
import Sone.Order.Stable

/-!
# Carrying out an import

`executePlan` of `import/execute.ts` makes the pages of a plan one after the other, each below what
its folder became. A folder is looked up in `madeByPath` by its path, spelled as it is in the
archive, while the plan has one folder for all the spellings that are one in lower case.

`accounts_iff` says for which archives every entry is planned, an attachment or skipped, and
`looksUp_iff` for which every page finds its folder: `KeepsSpelling` is about the folders of an
archive that have another spelling, one that is a page of its own or that comes after them.
-/

namespace Sone.Import

open List Option

open Zip Export

/-- `onCollision` -/
inductive OnCollision where
  | skip
  | duplicate
  deriving DecidableEq, Repr

/-- `ImportOptions`: the destination is the id of a page. -/
structure ImportOptions where
  parentPageId : String
  ne_empty : parentPageId ≠ ""
  onCollision : OnCollision

/-- A page that the plan named and that could not be written. -/
structure ImportFailure where
  path : String
  error : String
  deriving DecidableEq

structure ImportResult where
  created : List String
  collided : List String
  failed : List ImportFailure

/-- What `executePlan` has at hand: its result so far, and what the planned paths became. -/
structure Executing where
  result : ImportResult
  madeByPath : YMap String

/-- What is written of a page, after what was done before it, below a parent: `createEntry` and the
writes into its document. They give the id of the page, or the message of what one of them threw. -/
abbrev Write := Executing → PlannedPage → String → Except String String

def truthy (text : Option String) : Option String := text.filter (· ≠ "")

/-- `path.join('/')` -/
def pathText (path : List Text) : String := String.ofList (joinPath path)

/-! ### The executor -/

section Execute

variable (write : Write) (options : ImportOptions)

/-- The page that a planned one is left to: the one it collides with, where these are skipped. -/
def matchedPage (page : PlannedPage) : Option String :=
  if options.onCollision = .skip then truthy page.collidesWith else none

def parentPath (page : PlannedPage) : String := pathText page.path.dropLast

/-- `parent`, where it is true. -/
def parentOf (s : Executing) (page : PlannedPage) : Option String :=
  truthy (if parentPath page = "" then some options.parentPageId
    else s.madeByPath.get (parentPath page))

def executePage (s : Executing) (page : PlannedPage) : Executing :=
  let path := pathText page.path
  match matchedPage options page with
  | some id =>
    { result := { s.result with collided := s.result.collided ++ [path] }
      madeByPath := s.madeByPath.set path id }
  | none =>
    match parentOf options s page with
    | none =>
      { s with result :=
        { s.result with failed := s.result.failed ++ [{ path, error := "parent_missing" }] } }
    | some parent =>
      match write s page parent with
      | .ok id =>
        { result := { s.result with created := s.result.created ++ [id] }
          madeByPath := s.madeByPath.set path id }
      | .error error =>
        { s with result := { s.result with failed := s.result.failed ++ [{ path, error }] } }

/-- What is at hand after so many pages. -/
def executed (pages : List PlannedPage) : Executing :=
  pages.foldl (executePage write options)
    { result := { created := [], collided := [], failed := [] }, madeByPath := YMap.empty }

def executePlan (plan : ImportPlan) : ImportResult := (executed write options plan.pages).result

/-- **Every write succeeds** and gives an id. -/
def Succeeds : Prop := ∀ s page parent, ∃ id, id ≠ "" ∧ write s page parent = .ok id

/-- **A page is looked up** below its folder: it is not left to one that is there, and it is not at
the top. -/
def IsLookedUp (page : PlannedPage) : Prop :=
  matchedPage options page = none ∧ parentPath page ≠ ""

/-- **Every page finds its folder**: none fails for want of it, and what the path of the folder
became is a page that was created or matched before. -/
structure LooksUp (plan : ImportPlan) : Prop where
  never : ∀ failure ∈ (executePlan write options plan).failed, failure.error ≠ "parent_missing"
  parent : ∀ before page after, plan.pages = before ++ page :: after → IsLookedUp options page →
    ∃ id, (executed write options before).madeByPath.get (parentPath page) = some id ∧
      (id ∈ (executed write options before).result.created ∨
        ∃ other ∈ before, matchedPage options other = some id)

end Execute

/-! ### Runs of the executor -/

section Runs

variable {write : Write} {options : ImportOptions} {s : Executing} {page : PlannedPage}
  {pages : List PlannedPage} {id k : String}

theorem truthy_eq_some {text : Option String} :
    truthy text = some id ↔ text = some id ∧ id ≠ "" := by
  simp [truthy, filter_eq_some_iff]

theorem ne_empty_of_matchedPage (h : matchedPage options page = some id) : id ≠ "" := by
  rw [matchedPage] at h
  split_ifs at h
  exact (truthy_eq_some.mp h).2

theorem executePage_of_matched (h : matchedPage options page = some id) :
    executePage write options s page =
      { result := { s.result with collided := s.result.collided ++ [pathText page.path] }
        madeByPath := s.madeByPath.set (pathText page.path) id } := by
  rw [executePage, h]

theorem executePage_of_missing (h : matchedPage options page = none)
    (hparent : parentOf options s page = none) :
    executePage write options s page = { s with result := { s.result with
      failed := s.result.failed ++
        [{ path := pathText page.path, error := "parent_missing" }] } } := by
  rw [executePage, h, hparent]

theorem exists_executePage (hwrite : Succeeds write) (h : matchedPage options page = none)
    (hparent : parentOf options s page ≠ none) :
    ∃ id, id ≠ "" ∧ executePage write options s page =
      { result := { s.result with created := s.result.created ++ [id] }
        madeByPath := s.madeByPath.set (pathText page.path) id } := by
  obtain ⟨parent, hparent⟩ := ne_none_iff_exists'.mp hparent
  obtain ⟨id, hid, hok⟩ := hwrite s page parent
  exact ⟨id, hid, by rw [executePage, h, hparent]; simp only [hok]⟩

theorem executed_concat (pages : List PlannedPage) (page : PlannedPage) :
    executed write options (pages ++ [page]) =
      executePage write options (executed write options pages) page := by
  rw [executed, executed, foldl_append, foldl_cons, foldl_nil]

/-- **What a path became** is a page that was created or matched, for a planned page at it. -/
theorem made_of_get (hwrite : Succeeds write)
    (h : (executed write options pages).madeByPath.get k = some id) :
    id ≠ "" ∧ (∃ page ∈ pages, pathText page.path = k) ∧
      (id ∈ (executed write options pages).result.created ∨
        ∃ page ∈ pages, matchedPage options page = some id) := by
  induction pages using List.reverseRecOn with
  | nil => cases h
  | append_singleton pages page ih =>
    -- what was there stays, with more that is created
    have hstays : ∀ {created}, (executed write options pages).result.created ⊆ created →
        (executed write options pages).madeByPath.get k = some id →
          id ≠ "" ∧ (∃ other ∈ pages ++ [page], pathText other.path = k) ∧
            (id ∈ created ∨ ∃ other ∈ pages ++ [page], matchedPage options other = some id) := by
      intro created hcreated hget
      obtain ⟨hid, ⟨other, hother, hpath⟩, hmade⟩ := ih hget
      refine ⟨hid, ⟨other, mem_append_left _ hother, hpath⟩, hmade.imp (hcreated ·) ?_⟩
      exact fun ⟨matched, hmatched, heq⟩ => ⟨matched, mem_append_left _ hmatched, heq⟩
    have hlast : page ∈ pages ++ [page] := mem_append_right _ mem_cons_self
    rw [executed_concat] at h ⊢
    rcases hmatched : matchedPage options page with _ | other
    · by_cases hparent : parentOf options (executed write options pages) page = none
      · rw [executePage_of_missing hmatched hparent] at h ⊢
        exact hstays (List.Subset.refl _) h
      · obtain ⟨made, hmade, heq⟩ := exists_executePage hwrite hmatched hparent
        rw [heq] at h ⊢
        dsimp only at h ⊢
        rw [YMap.get_set] at h
        split_ifs at h with hk
        · obtain rfl := some.inj h
          exact ⟨hmade, ⟨page, hlast, hk⟩, .inl (mem_append_right _ mem_cons_self)⟩
        · exact hstays (subset_append_left _ _) h
    · rw [executePage_of_matched hmatched] at h ⊢
      dsimp only at h ⊢
      rw [YMap.get_set] at h
      split_ifs at h with hk
      · obtain rfl := some.inj h
        exact ⟨ne_empty_of_matchedPage hmatched, ⟨page, hlast, hk⟩, .inr ⟨page, hlast, hmatched⟩⟩
      · exact hstays (List.Subset.refl _) h

/-- **A run in which every folder is planned before its pages** fails for none, and every path
became something. -/
theorem executed_of_planned (hwrite : Succeeds write)
    (hplanned : ∀ before page after, pages = before ++ page :: after → IsLookedUp options page →
      ∃ other ∈ before, pathText other.path = parentPath page) :
    (executed write options pages).result.failed = [] ∧
      ∀ page ∈ pages,
        (executed write options pages).madeByPath.get (pathText page.path) ≠ none := by
  induction pages using List.reverseRecOn with
  | nil => exact ⟨rfl, fun page hpage => by cases hpage⟩
  | append_singleton pages page ih =>
    obtain ⟨hfailed, hmade⟩ := ih fun before page' after heq =>
      hplanned before page' (after ++ [page]) (by rw [heq]; simp)
    -- the page is there after its run, and so are all before it
    have hset : ∀ id, ∀ other ∈ pages ++ [page],
        ((executed write options pages).madeByPath.set (pathText page.path) id).get
          (pathText other.path) ≠ none := by
      intro id other hother
      rw [YMap.get_set]
      split_ifs with hk
      · exact some_ne_none id
      · rcases mem_append.mp hother with hother | hother
        · exact hmade other hother
        · obtain rfl := mem_singleton.mp hother
          exact absurd rfl hk
    rw [executed_concat]
    rcases hmatched : matchedPage options page with _ | id
    · have hparent : parentOf options (executed write options pages) page ≠ none := by
        rw [parentOf]
        split_ifs with htop
        · rw [truthy_eq_some.mpr ⟨rfl, options.ne_empty⟩]
          exact some_ne_none _
        · obtain ⟨other, hother, hpath⟩ := hplanned pages page [] rfl ⟨hmatched, htop⟩
          obtain ⟨id, hid⟩ := ne_none_iff_exists'.mp (hmade other hother)
          rw [hpath] at hid
          rw [truthy_eq_some.mpr ⟨hid, (made_of_get hwrite hid).1⟩]
          exact some_ne_none _
      obtain ⟨id, -, heq⟩ := exists_executePage hwrite hmatched hparent
      rw [heq]
      exact ⟨hfailed, hset id⟩
    · rw [executePage_of_matched hmatched]
      exact ⟨hfailed, hset id⟩

/-- **Every page finds its folder** exactly where the folder is planned before it. -/
theorem looksUp_iff_planned (hwrite : Succeeds write) {plan : ImportPlan} :
    LooksUp write options plan ↔ ∀ before page after, plan.pages = before ++ page :: after →
      IsLookedUp options page → ∃ other ∈ before, pathText other.path = parentPath page := by
  constructor
  · intro h before page after heq hlooked
    obtain ⟨id, hid, -⟩ := h.parent before page after heq hlooked
    exact (made_of_get hwrite hid).2.1
  · intro hplanned
    refine ⟨?_, fun before page after heq hlooked => ?_⟩
    · rw [executePlan, (executed_of_planned hwrite hplanned).1]
      simp
    · obtain ⟨other, hother, hpath⟩ := hplanned before page after heq hlooked
      have hmade : (executed write options before).madeByPath.get (pathText other.path) ≠ none :=
        (executed_of_planned hwrite fun front page' rest hfront =>
          hplanned front page' (rest ++ page :: after) (by rw [heq, hfront]; simp)).2 other hother
      obtain ⟨id, hid⟩ := ne_none_iff_exists'.mp hmade
      rw [hpath] at hid
      exact ⟨id, hid, (made_of_get hwrite hid).2.2⟩

end Runs

/-! ### Every entry is accounted for -/

/-- What a plan says of an entry. -/
inductive Account where
  | page (planned : PlannedPage)
  | attachment (planned : PlannedAttachment)
  | skipped (line : String × SkipReason)

namespace Account

def page? : Account → Option PlannedPage
  | page planned => some planned
  | _ => none

def attachment? : Account → Option PlannedAttachment
  | attachment planned => some planned
  | _ => none

def skipped? : Account → Option (String × SkipReason)
  | skipped line => some line
  | _ => none

end Account

/-- **What is said of an entry**: the page it is, the attachment of its name and size, or that it is
skipped. -/
inductive IsAccountOf (js : Js) (existing : YMap String) (entry : ArchiveEntry) :
    Account → Prop where
  | page (h : isAttachment entry = false) :
      IsAccountOf js existing entry (.page (entryPage js existing entry))
  | attachment (planned : PlannedAttachment)
      (hname : entry.name.toList = "attachments/".toList ++ planned.name)
      (hbytes : planned.bytes = entry.body.length) :
      IsAccountOf js existing entry (.attachment planned)
  | skipped (reason : SkipReason) (h : isAttachment entry = false) :
      IsAccountOf js existing entry (.skipped (entry.name, reason))

/-- **A plan accounts for every entry exactly once**: it is what is said of the entries, one thing
of each, and the folders that have none. -/
def Accounts (js : Js) (existing : YMap String) (entries : List ArchiveEntry)
    (plan : ImportPlan) : Prop :=
  ∃ accounts, List.Forall₂ (IsAccountOf js existing) entries accounts ∧
    plan.skipped = accounts.filterMap Account.skipped? ∧
    plan.attachments = accounts.filterMap Account.attachment? ∧
    ∃ folders, plan.pages.Perm (accounts.filterMap Account.page? ++ folders) ∧
      ∀ folder ∈ folders, folder.isFolder = true ∧ folder.markdown = [] ∧ folder.entry = none

section Accounted

variable {js : Js} {existing : YMap String} {entries : List ArchiveEntry} {entry : ArchiveEntry}

def accountOf (js : Js) (existing : YMap String) (entry : ArchiveEntry) : Account :=
  if isAttachment entry then
    .attachment { name := entry.name.toList.drop 12, bytes := entry.body.length }
  else match skipReason js entry with
    | some reason => .skipped (entry.name, reason)
    | none => .page (entryPage js existing entry)

theorem name_eq_of_isAttachment (h : isAttachment entry = true) :
    entry.name.toList = "attachments/".toList ++ entry.name.toList.drop 12 := by
  rw [isAttachment, isPrefixOf_iff_prefix] at h
  obtain ⟨rest, hrest⟩ := h
  rw [← hrest]
  rfl

theorem isAccountOf_accountOf (entry : ArchiveEntry) :
    IsAccountOf js existing entry (accountOf js existing entry) := by
  rw [accountOf]
  split_ifs with h
  · exact .attachment _ (name_eq_of_isAttachment h) rfl
  · rw [Bool.not_eq_true] at h
    split
    · exact .skipped _ h
    · exact .page h

theorem skipped?_accountOf : (accountOf js existing entry).skipped? = skippedAs js entry := by
  rw [accountOf, skippedAs]
  split_ifs
  · rfl
  · cases skipReason js entry <;> rfl

theorem page?_accountOf : (accountOf js existing entry).page? =
    if isPlanned js entry then some (entryPage js existing entry) else none := by
  rw [accountOf, isPlanned]
  by_cases h : isAttachment entry = true
  · rw [if_pos h, h]
    rfl
  · rw [if_neg h]
    rw [Bool.not_eq_true] at h
    rw [h]
    cases skipReason js entry <;> rfl

theorem planAttachments_eq (h : ∀ entry ∈ entries, entry.name ≠ "attachments/") :
    planAttachments entries =
      (entries.map (accountOf js existing)).filterMap Account.attachment? := by
  induction entries with
  | nil => rfl
  | cons entry entries ih =>
    obtain ⟨hentry, hentries⟩ := forall_mem_cons.mp h
    rw [map_cons, filterMap_cons, ← ih hentries, planAttachments, planAttachments]
    by_cases hattachment : isAttachment entry = true
    · have hname : entry.name.toList.drop 12 ≠ [] := by
        intro hnil
        have heq := name_eq_of_isAttachment hattachment
        rw [hnil, append_nil] at heq
        exact hentry (String.toList_injective heq)
      rw [filter_cons_of_pos hattachment, map_cons, filter_cons,
        if_pos (decide_eq_true hname), accountOf, if_pos hattachment]
      rfl
    · have hnone : (accountOf js existing entry).attachment? = none := by
        rw [accountOf, if_neg hattachment]
        split <;> rfl
      rw [filter_cons_of_neg hattachment, hnone]

/-- **Every entry is accounted for** exactly where none is the directory of the attachments. -/
theorem accounts_iff : Accounts js existing entries (planImport js existing entries) ↔
    ∀ entry ∈ entries, entry.name ≠ "attachments/" := by
  constructor
  · rintro ⟨accounts, hall, -, hattachments, -⟩ entry hentry hname
    have hattachment : isAttachment entry = true := by
      rw [isAttachment, hname]
      rfl
    obtain ⟨i, hi, rfl⟩ := mem_iff_getElem.mp hentry
    have hlength := hall.length_eq
    have haccount := hall.get hi (by omega)
    rw [get_eq_getElem, get_eq_getElem] at haccount
    obtain ⟨account, haccounts⟩ : ∃ account, accounts[i] = account := ⟨_, rfl⟩
    have hmem : account ∈ accounts := haccounts ▸ getElem_mem _
    rw [haccounts] at haccount
    cases haccount with
    | page h => rw [hattachment] at h; cases h
    | skipped _ h => rw [hattachment] at h; cases h
    | attachment planned hplanned _ =>
      have hnil : planned.name = [] := by
        rw [hname] at hplanned
        simpa using hplanned
      have hplan : planned ∈ planAttachments entries := by
        rw [show planAttachments entries = _ from hattachments]
        exact mem_filterMap.mpr ⟨_, hmem, rfl⟩
      exact of_decide_eq_true (mem_filter.mp hplan).2 hnil
  · intro h
    refine ⟨entries.map (accountOf js existing), ?_, ?_, planAttachments_eq h,
      impliedPages js existing (planEntries js existing entries), ?_, ?_⟩
    · rw [forall₂_map_right_iff, forall₂_same]
      exact fun entry _ => isAccountOf_accountOf entry
    · rw [planImport, skipped_planEntries, filterMap_map]
      exact filterMap_congr fun entry _ => skipped?_accountOf.symm
    · refine (planImport_pages_perm entries).trans (List.Perm.append_right _ (List.Perm.of_eq ?_))
      rw [filterMap_map, ← filterMap_eq_map, ← filterMap_eq_filter,
        filterMap_filterMap]
      refine filterMap_congr fun entry _ => ?_
      rw [Function.comp_apply, page?_accountOf]
      cases hplanned : isPlanned js entry <;> simp [Option.guard, hplanned]
    · intro folder hfolder
      obtain ⟨_, -, rfl⟩ := List.mem_map.mp hfolder
      exact ⟨rfl, rfl, rfl⟩

end Accounted

/-! ### The spelling of folders -/

section Spelling

variable (js : Js) (existing : YMap String) (options : ImportOptions) (entries : List ArchiveEntry)

def branchesOf (path : List Text) : List (List Text) :=
  (List.range (path.length - 1)).map fun i => path.take (i + 1)

/-- The folders that the pages of an archive are in, as often as they are, in its order. -/
def branches : List (List Text) :=
  (entries.filter (isPlanned js)).flatMap fun entry => branchesOf (entryPath js entry)

def IsEntryPath (path : List Text) : Prop :=
  ∃ entry ∈ entries, isPlanned js entry = true ∧ entryPath js entry = path

/-- The last folder of an archive that is one with a path in lower case. -/
def lastSpelling (path : List Text) : Option (List Text) :=
  (branches js entries).reverse.find? fun branch => key js branch = key js path

/-- **A folder has another spelling**: no page is at its path, and one is at that path in another
case, or the last folder of the archive that is there is another one. -/
def IsOutspelled (path : List Text) : Prop :=
  ¬IsEntryPath js entries path ∧
    ((∃ entry ∈ entries, isPlanned js entry = true ∧
        key js (entryPath js entry) = key js path) ∨
      lastSpelling js entries path ≠ some path)

def IsTaken (path : List Text) : Prop :=
  options.onCollision = .skip ∧ truthy (existing.get (key js path)) ≠ none

/-- **An archive keeps its spelling**: where a folder on the way to a page has another spelling, so
has what comes next on the way, or it is left to a page that is there. -/
def KeepsSpelling : Prop :=
  ∀ entry ∈ entries, isPlanned js entry = true → ∀ n < (entryPath js entry).length, 0 < n →
    IsOutspelled js entries ((entryPath js entry).take n) →
      IsOutspelled js entries ((entryPath js entry).take (n + 1)) ∨
        IsTaken js existing options ((entryPath js entry).take (n + 1))

instance (path : List Text) : Decidable (IsEntryPath js entries path) :=
  inferInstanceAs (Decidable (∃ entry ∈ entries, _ ∧ _))

instance (path : List Text) : Decidable (IsOutspelled js entries path) :=
  inferInstanceAs (Decidable (_ ∧ ((∃ entry ∈ entries, _ ∧ _) ∨ _)))

instance (path : List Text) : Decidable (IsTaken js existing options path) :=
  inferInstanceAs (Decidable (_ ∧ _))

instance : Decidable (KeepsSpelling js existing options entries) :=
  inferInstanceAs (Decidable (∀ entry ∈ entries, _ → ∀ n < (entryPath js entry).length, _))

end Spelling

section Spelled

variable {js : Js} {existing : YMap String} {options : ImportOptions} {write : Write}
  {entries : List ArchiveEntry} {entry : ArchiveEntry} {path : List Text} {part : Text} {n : ℕ}
  {k : String} {page : PlannedPage}

/-! #### The folders that are noted -/

theorem get_foldl_note (paths : List (List Text)) (folders : YMap (List Text)) :
    (paths.foldl (fun folders path => folders.set (key js path) path) folders).get k =
      (paths.reverse.find? fun path => key js path = k).or (folders.get k) := by
  induction paths generalizing folders with
  | nil => rfl
  | cons path paths ih =>
    rw [foldl_cons, ih, YMap.get_set, reverse_cons, List.find?_append, Option.or_assoc]
    congr 1
    by_cases hk : key js path = k
    · simp [hk]
    · simp [hk]

theorem folders_foldl_planEntry (s : Planning) (entries : List ArchiveEntry) :
    (entries.foldl (planEntry js existing) s).folders =
      (branches js entries).foldl (fun folders path => folders.set (key js path) path)
        s.folders := by
  induction entries generalizing s with
  | nil => rfl
  | cons entry entries ih =>
    have hstep : (planEntry js existing s entry).folders =
        (if isPlanned js entry then branchesOf (entryPath js entry) else []).foldl
          (fun folders path => folders.set (key js path) path) s.folders := by
      rw [planEntry, isPlanned]
      by_cases hattachment : isAttachment entry = true
      · rw [if_pos hattachment, hattachment]
        rfl
      · rw [if_neg hattachment]
        rw [Bool.not_eq_true] at hattachment
        rw [hattachment]
        cases skipReason js entry with
        | some reason => rfl
        | none =>
          dsimp only
          rw [noteFolders, if_pos (by rfl), branchesOf, foldl_map]
    rw [foldl_cons, ih, hstep, ← foldl_append, branches, branches]
    congr 1
    by_cases hplanned : isPlanned js entry = true
    · rw [filter_cons_of_pos hplanned, flatMap_cons, if_pos hplanned]
    · rw [filter_cons_of_neg hplanned, if_neg hplanned, nil_append]

theorem get_folders : (planEntries js existing entries).folders.get k =
    (branches js entries).reverse.find? fun path => key js path = k := by
  rw [planEntries, folders_foldl_planEntry, get_foldl_note]
  exact or_none

theorem mem_folders {folder : String × List Text} :
    folder ∈ (planEntries js existing entries).folders.rows ↔
      (branches js entries).reverse.find? (fun path => key js path = folder.1) =
        some folder.2 := by
  rw [Keyed.mem_rows_iff, ← @get_folders js existing, YMap.get]
  constructor
  · intro h
    rw [h]
    rfl
  · intro h
    obtain ⟨row, hrow, hpath⟩ := map_eq_some_iff.mp h
    have hfolder : row = folder := Prod.ext (Keyed.key_eq hrow) hpath
    rw [hrow, hfolder]

/-! #### The pages that are planned -/

/-- **A page is planned at a path** exactly where it has no other spelling. -/
theorem mem_paths_iff : path ∈ (planImport js existing entries).pages.map PlannedPage.path ↔
    ¬IsOutspelled js entries path := by
  have hentries : path ∈ ((entries.filter (isPlanned js)).map (entryPage js existing)).map
      PlannedPage.path ↔ IsEntryPath js entries path := by
    rw [List.map_map, List.mem_map]
    simp only [mem_filter, and_assoc]
    rfl
  have hclaimed : ∀ k, k ∈ (planEntries js existing entries).pages.map (fun page =>
      key js page.path) ↔
        ∃ entry ∈ entries, isPlanned js entry = true ∧ key js (entryPath js entry) = k := by
    intro k
    rw [pages_planEntries, List.map_map, List.mem_map]
    simp only [mem_filter, and_assoc]
    rfl
  have himplied : path ∈ (impliedPages js existing (planEntries js existing entries)).map
      PlannedPage.path ↔ (¬∃ entry ∈ entries, isPlanned js entry = true ∧
        key js (entryPath js entry) = key js path) ∧
          lastSpelling js entries path = some path := by
    rw [impliedPages, List.map_map, List.mem_map]
    constructor
    · rintro ⟨folder, hfolder, rfl⟩
      obtain ⟨hmem, hnot⟩ := mem_filter.mp hfolder
      have hlast := mem_folders.mp hmem
      have hkey : key js folder.2 = folder.1 := by simpa using List.find?_some hlast
      rw [decide_eq_true_eq, hclaimed, ← hkey] at hnot
      rw [← hkey] at hlast
      exact ⟨hnot, hlast⟩
    · rintro ⟨hnot, hlast⟩
      refine ⟨(key js path, path), mem_filter.mpr ⟨mem_folders.mpr hlast, ?_⟩, rfl⟩
      rw [decide_eq_true_eq, hclaimed]
      exact hnot
  rw [((planImport_pages_perm entries).map PlannedPage.path).mem_iff, map_append,
    mem_append, hentries, himplied, IsOutspelled, not_and_or, not_not, not_or, ne_eq, not_not]

theorem collidesWith_eq (h : page ∈ (planImport js existing entries).pages) :
    page.collidesWith = existing.get (key js page.path) := by
  rcases mem_append.mp ((planImport_pages_perm entries).mem_iff.mp h) with h | h
  · obtain ⟨entry, -, rfl⟩ := List.mem_map.mp h
    rfl
  · obtain ⟨folder, hfolder, rfl⟩ := List.mem_map.mp h
    have hkey := List.find?_some (mem_folders.mp (mem_filter.mp hfolder).1)
    rw [decide_eq_true_eq] at hkey
    rw [← hkey]

theorem matchedPage_eq_none_iff (h : page ∈ (planImport js existing entries).pages) :
    matchedPage options page = none ↔ ¬IsTaken js existing options page.path := by
  rw [matchedPage, collidesWith_eq h, IsTaken]
  split_ifs with hskip
  · simp [hskip]
  · simp [hskip]

theorem pairwise_pages : (planImport js existing entries).pages.Pairwise fun a b =>
    a.path.length ≤ b.path.length := by
  have htrans : IsTrans PlannedPage fun a b => a.path.length ≤ b.path.length :=
    ⟨fun _ _ _ hab hbc => hab.trans hbc⟩
  refine pairwise_mergeSort_of (fun a b hab => ?_) (fun a b hab => ?_) _
  · rw [pageLe, Bool.or_eq_true, Bool.and_eq_true, decide_eq_true_eq, decide_eq_true_eq] at hab
    omega
  · rw [pageLe, Bool.or_eq_false_iff, decide_eq_false_iff_not] at hab
    omega

/-! #### Paths and their texts -/

theorem no_slash_of_mem_entryPath (h : part ∈ entryPath js entry) : '/' ∉ part := by
  have hparts : ∀ other ∈ entryParts entry, '/' ∉ other := fun other hother =>
    (isPart_of_mem_splitPath hother).no_slash
  rw [entryPath] at h
  split_ifs at h
  · exact hparts part (mem_of_mem_dropLast h)
  · rcases mem_append.mp h with h | h
    · exact hparts part (mem_of_mem_dropLast h)
    · obtain rfl := mem_singleton.mp h
      have hlast : '/' ∉ (entryParts entry).getLastD [] := by
        rcases eq_nil_or_concat (entryParts entry) with hnil | ⟨front, last, hlast⟩
        · rw [hnil]
          exact not_mem_nil
        · rw [concat_eq_append] at hlast
          rw [hlast, getLastD_concat]
          exact hparts last (by rw [hlast]; simp)
      rw [entryFileName, withoutMd]
      split_ifs
      · exact fun hmem => hlast (mem_of_mem_take hmem)
      · exact hlast

theorem dropLast_take_succ (h : n + 1 ≤ path.length) :
    (path.take (n + 1)).dropLast = path.take n := by
  rw [dropLast_eq_take, length_take, Nat.min_eq_left h, Nat.add_sub_cancel,
    take_take, Nat.min_eq_left (Nat.le_succ n)]

theorem isPart_of_mem_take (h : part ∈ (entryPath js entry).take n)
    (hn : n < (entryPath js entry).length) : IsPart part := by
  refine @isPart_of_mem_splitPath part entry.name.toList ?_
  rw [entryPath] at h hn
  split_ifs at h hn
  · exact mem_of_mem_dropLast (mem_of_mem_take h)
  · rw [length_append, length_singleton] at hn
    rw [take_append_of_le_length (by omega)] at h
    exact mem_of_mem_dropLast (mem_of_mem_take h)

theorem eq_of_pathText {a b : List Text} (ha : a ≠ []) (hb : b ≠ [])
    (hslash : ∀ part ∈ a, '/' ∉ part) (hslash' : ∀ part ∈ b, '/' ∉ part)
    (h : pathText a = pathText b) : a = b := by
  have hjoin : joinPath a = joinPath b := String.ofList_injective h
  have hsplit := congrArg (List.splitOn '/') hjoin
  rwa [joinPath, joinPath, splitOn_intercalate _ hslash ha,
    splitOn_intercalate _ hslash' hb] at hsplit

theorem pathText_ne_empty {folder : List Text} (hne : folder ≠ [])
    (hparts : ∀ part ∈ folder, IsPart part) : pathText folder ≠ "" := by
  intro hempty
  have hjoin : joinPath folder = [] := String.ofList_injective hempty
  have hsplit := splitPath_joinPath hparts hne
  rw [hjoin] at hsplit
  exact hne hsplit.symm

/-- **What is planned is on the way to a page**, or there. -/
theorem exists_take_of_mem_paths
    (h : path ∈ (planImport js existing entries).pages.map PlannedPage.path) :
    ∃ entry ∈ entries, isPlanned js entry = true ∧
      ∃ n, 0 < n ∧ n ≤ (entryPath js entry).length ∧ path = (entryPath js entry).take n := by
  rw [mem_paths_iff, IsOutspelled, not_and_or, not_not, not_or, ne_eq, not_not] at h
  rcases h with ⟨entry, hentry, hplanned, rfl⟩ | ⟨-, hlast⟩
  · refine ⟨entry, hentry, hplanned, _, ?_, le_rfl, (take_length).symm⟩
    rw [isPlanned, Bool.and_eq_true, isNone_iff_eq_none, skipReason] at hplanned
    obtain ⟨-, hreason⟩ := hplanned
    split_ifs at hreason with _ _ hempty
    exact length_pos_iff.mpr hempty
  · have hmem := mem_reverse.mp (List.mem_of_find?_eq_some hlast)
    obtain ⟨entry, hentry, hbranch⟩ := mem_flatMap.mp hmem
    obtain ⟨hentry, hplanned⟩ := mem_filter.mp hentry
    obtain ⟨i, hi, rfl⟩ := List.mem_map.mp hbranch
    rw [mem_range] at hi
    exact ⟨entry, hentry, hplanned, i + 1, by omega, by omega, rfl⟩

/-! #### What is looked up -/

/-- **Every page finds its folder** exactly where the archive keeps its spelling. -/
theorem looksUp_iff (hwrite : Succeeds write) :
    LooksUp write options (planImport js existing entries) ↔
      KeepsSpelling js existing options entries := by
  rw [looksUp_iff_planned hwrite]
  constructor
  · intro h entry hentry hplanned n hn hpos houtspelled
    by_contra hnot
    obtain ⟨hspelled, htaken⟩ := not_or.mp hnot
    -- the page that comes next is looked up, so a page is planned at the folder
    obtain ⟨page, hpage, hpath⟩ :=
      List.mem_map.mp ((@mem_paths_iff js existing entries _).mpr hspelled)
    obtain ⟨before, after, hpages⟩ := append_of_mem hpage
    have hfolder : page.path.dropLast = (entryPath js entry).take n := by
      rw [hpath, dropLast_take_succ hn]
    have hne : (entryPath js entry).take n ≠ [] := by
      rw [← length_pos_iff, length_take]
      omega
    have hlooked : IsLookedUp options page := by
      refine ⟨(matchedPage_eq_none_iff hpage).mpr (hpath ▸ htaken), ?_⟩
      rw [parentPath, hfolder]
      exact pathText_ne_empty hne fun part hpart => isPart_of_mem_take hpart hn
    obtain ⟨other, hother, htext⟩ := h before page after hpages hlooked
    have hmem : other.path ∈ (planImport js existing entries).pages.map PlannedPage.path :=
      List.mem_map.mpr ⟨other, by rw [hpages]; exact mem_append_left _ hother, rfl⟩
    obtain ⟨entry', -, -, m, hm, hle, hotherPath⟩ := exists_take_of_mem_paths hmem
    rw [parentPath, hfolder] at htext
    have hsame : other.path = (entryPath js entry).take n := by
      refine eq_of_pathText ?_ hne ?_ ?_ htext
      · rw [hotherPath, ← length_pos_iff, length_take]
        omega
      · intro part hpart
        rw [hotherPath] at hpart
        exact no_slash_of_mem_entryPath (mem_of_mem_take hpart)
      · exact fun part hpart => no_slash_of_mem_entryPath (mem_of_mem_take hpart)
    rw [hsame] at hmem
    exact mem_paths_iff.mp hmem houtspelled
  · intro h before page after hpages ⟨hmatched, htop⟩
    have hpage : page ∈ (planImport js existing entries).pages := by
      rw [hpages]
      exact mem_append_right _ mem_cons_self
    have hmem := List.mem_map_of_mem (f := PlannedPage.path) hpage
    obtain ⟨entry, hentry, hplanned, n, hpos, hle, hpath⟩ := exists_take_of_mem_paths hmem
    obtain ⟨m, rfl⟩ := Nat.exists_eq_add_of_lt hpos
    rw [Nat.zero_add] at hpath hle
    have hfolder : page.path.dropLast = (entryPath js entry).take m := by
      rw [hpath, dropLast_take_succ hle]
    have hm : 0 < m := by
      rw [Nat.pos_iff_ne_zero]
      rintro rfl
      rw [parentPath, hfolder] at htop
      exact htop rfl
    -- the folder has no other spelling, so it is planned, and it comes first
    have hspelled : ¬IsOutspelled js entries ((entryPath js entry).take m) := by
      intro houtspelled
      rcases h entry hentry hplanned m hle hm houtspelled with hnext | htaken
      · exact mem_paths_iff.mp hmem (hpath ▸ hnext)
      · exact (matchedPage_eq_none_iff hpage).mp hmatched (hpath ▸ htaken)
    obtain ⟨other, hother, hotherPath⟩ :=
      List.mem_map.mp ((@mem_paths_iff js existing entries _).mpr hspelled)
    refine ⟨other, ?_, by rw [parentPath, hfolder, hotherPath]⟩
    have hlength : other.path.length < page.path.length := by
      rw [hotherPath, hpath, length_take, length_take]
      omega
    have hsorted := @pairwise_pages js existing entries
    rw [hpages] at hother hsorted
    rcases mem_append.mp hother with hother | hother
    · exact hother
    · have hrest := (pairwise_append.mp hsorted).2.1
      rcases mem_cons.mp hother with rfl | hother
      · exact absurd hlength (lt_irrefl _)
      · exact absurd hlength (not_lt.mpr ((pairwise_cons.mp hrest).1 other hother))

/-- **Every entry is accounted for and every page finds its folder** exactly where no entry is the
directory of the attachments and the archive keeps its spelling. -/
theorem accounts_and_looksUp_iff (hwrite : Succeeds write) :
    (Accounts js existing entries (planImport js existing entries) ∧
        LooksUp write options (planImport js existing entries)) ↔
      (∀ entry ∈ entries, entry.name ≠ "attachments/") ∧
        KeepsSpelling js existing options entries :=
  and_congr accounts_iff (looksUp_iff hwrite)

end Spelled

/-! ### Folders that differ in letter case -/

def numbered : Write := fun s _ _ => .ok s!"page {s.result.created.length}"

theorem succeeds_numbered : Succeeds numbered := by
  intro s _ _
  refine ⟨_, ?_, rfl⟩
  simp

def intoFolder (onCollision : OnCollision) : ImportOptions where
  parentPageId := "folder"
  ne_empty := by decide
  onCollision := onCollision

def emptyPages (names : List String) : List ArchiveEntry := names.map fun name => ⟨name, []⟩

/-- **Two folders that differ in letter case** are planned as one, and the page in the other has no
parent. -/
theorem not_accounts_and_looksUp : ¬∀ (js : Js) (existing : YMap String)
    (entries : List ArchiveEntry) (write : Write) (options : ImportOptions), Succeeds write →
      Accounts js existing entries (planImport js existing entries) ∧
        LooksUp write options (planImport js existing entries) := by
  intro h
  have hkeeps := (looksUp_iff succeeds_numbered).mp (h Js.ascii YMap.empty
    (emptyPages ["A/x.md", "a/y.md"]) numbered (intoFolder .duplicate) succeeds_numbered).2
  revert hkeeps
  decide +kernel

/-- The two pages are made where what is below the folder is there already and is skipped. -/
theorem accounts_and_looksUp_skipped :
    Accounts Js.ascii (YMap.empty.set "a/x" "old") (emptyPages ["A/x.md", "a/y.md"])
        (planImport Js.ascii (YMap.empty.set "a/x" "old") (emptyPages ["A/x.md", "a/y.md"])) ∧
      LooksUp numbered (intoFolder .skip)
        (planImport Js.ascii (YMap.empty.set "a/x" "old") (emptyPages ["A/x.md", "a/y.md"])) :=
  (accounts_and_looksUp_iff succeeds_numbered).mpr ⟨by decide +kernel, by decide +kernel⟩

end Sone.Import
