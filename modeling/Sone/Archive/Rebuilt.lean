import Sone.Archive.Plan

/-!
# What an import makes of an export

An archive names its pages by their titles, and an import goes by the names alone.
`rebuilds_iff_keepsApart` says for which pages the import plans what was exported: siblings have
file names of their own, no page but a folder is called `index`, nothing at the top is a directory
`attachments`, no page is too deep, every title is one that a heading can have, and what stands
below a title says that a page is a board where it is one, and only there. Nothing checks any of
these: `siblings_share_name` has two pages of one title.
-/

namespace Sone.Export

open List Function

open Zip Import

/-- **What letters become** in lower case: those that are small already stay. -/
structure KeepsSmall (js : Js) : Prop where
  md (s : String) : ".md".toList <:+ (js.lowerCase (s ++ ".md")).toList
  index : js.lowerCase "index" = "index"

/-- **An import rebuilds** what was exported: every page has an entry of its own, and is planned
at its place with its title and its kind and below its parent alone; nothing else is. -/
structure Rebuilds (js : Js) (existing : YMap String) (set : ExportSet) : Prop where
  names : (set.pages.rows.map fun page => (set.pageEntry js page).name).Nodup
  skipped : (planImport js existing (set.buildArchive js)).skipped = []
  attachments : (planImport js existing (set.buildArchive js)).attachments =
    set.files.map fun file => { name := file.id.toList, bytes := file.body.length }
  pages : ((planImport js existing (set.buildArchive js)).pages.map fun planned =>
    (planned.path, planned.title, planned.kind)).Perm
      (set.pages.rows.map fun page => (set.place page, page.title.toList, page.entry.kind))
  root : ∀ page ∈ set.pages.rows, set.parent page = none → (set.place page).length = 1
  parent : ∀ page ∈ set.pages.rows, ∀ above, set.parent page = some above →
    (set.place page).dropLast = set.place above ∧
      ∀ other ∈ set.pages.rows, set.place other = set.place above → other = above

/-- **The pages keep apart** by what their archive says of them. -/
structure KeepsApart (js : Js) (set : ExportSet) : Prop where
  siblings : ∀ page ∈ set.pages.rows, ∀ other ∈ set.pages.rows,
    set.parent page = set.parent other → page.fileName = other.fileName → page ≠ other →
      page.isFolder ≠ other.isFolder ∧ ∀ child ∈ set.pages.rows, set.parent child ≠ some page
  index : ∀ page ∈ set.pages.rows, page.isFolder = false →
    js.lowerCase (String.ofList page.fileName) ≠ "index"
  attachments : ∀ page ∈ set.pages.rows, set.parent page = none →
    page.fileName = "attachments".toList →
      page.isFolder = false ∧ ∀ child ∈ set.pages.rows, set.parent child ≠ some page
  depth : ∀ page ∈ set.pages.rows, ∃ trail, IsTrail set.parent ExportPage.fileName page trail ∧
    trail.length + (if page.isFolder then 1 else 0) ≤ maxDepth
  title : ∀ page ∈ set.pages.rows, IsTitle page.title.toList
  kind : ∀ page ∈ set.pages.rows, page.isFolder = false →
    (saysCanvas js (page.written (joinParagraphs (page.below js))) = true ↔
      page.entry.kind = .canvas)

section Entries

variable {js : Js} {existing : YMap String} {set : ExportSet} {page other : ExportPage}
  {parts : List Text} {name : Text}

/-! ### The entry of a page -/

theorem withoutMd_append (name : Text) : withoutMd (name ++ ".md".toList) = name := by
  have hlength : (name ++ ".md".toList).length - 3 = name.length := by
    rw [length_append]
    exact Nat.add_sub_cancel ..
  rw [withoutMd, hlength, drop_left, take_left, if_pos (by simp)]

theorem name_pageEntry (h : page ∈ set.pages.rows) :
    (set.pageEntry js page).name.toList = joinPath (set.entryParts page) := by
  have hname : (set.pageEntry js page).name.toList = set.entryName page := String.toList_ofList
  rw [hname, ExportSet.entryName_eq h]

theorem entryParts_pageEntry (h : page ∈ set.pages.rows) :
    Import.entryParts (set.pageEntry js page) = set.entryParts page := by
  rw [Import.entryParts, name_pageEntry h, splitPath_joinPath (ExportSet.isPart_entryParts h)
    (ExportSet.entryParts_ne_nil set page)]

theorem entryFileName_pageEntry (h : page ∈ set.pages.rows) :
    entryFileName (set.pageEntry js page) =
      if page.isFolder then "index".toList else page.fileName := by
  rw [entryFileName, entryParts_pageEntry h, ExportSet.entryParts]
  split_ifs
  · rw [getLastD_concat]
    exact withoutMd_append "index".toList
  · rw [getLastD_concat, withoutMd_append]

theorem isIndex_pageEntry (hjs : KeepsSmall js) (h : page ∈ set.pages.rows) :
    isIndex js (set.pageEntry js page) =
      (page.isFolder || js.lowerCase (String.ofList page.fileName) = "index") := by
  rw [isIndex, entryFileName_pageEntry h]
  split_ifs with hfolder
  · rw [String.ofList_toList, hjs.index, hfolder]
    rfl
  · rw [Bool.not_eq_true] at hfolder
    rw [hfolder, Bool.false_or]

theorem entryPath_pageEntry (h : page ∈ set.pages.rows)
    (hindex : isIndex js (set.pageEntry js page) = page.isFolder) :
    entryPath js (set.pageEntry js page) = set.place page := by
  obtain ⟨front, hplace⟩ := ExportSet.exists_place_eq h
  rw [entryPath, hindex, entryFileName_pageEntry h, entryParts_pageEntry h, ExportSet.entryParts]
  split_ifs with hfolder
  · rw [dropLast_concat]
  · rw [dropLast_concat, hplace, dropLast_concat]

theorem length_entryParts (h : page ∈ set.pages.rows) :
    (set.entryParts page).length =
      (set.place page).length + (if page.isFolder then 1 else 0) := by
  obtain ⟨front, hplace⟩ := ExportSet.exists_place_eq h
  rw [ExportSet.entryParts]
  split_ifs <;> simp [hplace]

theorem isMarkdown_pageEntry (hjs : KeepsSmall js) (set : ExportSet) (page : ExportPage) :
    isMarkdown js (set.pageEntry js page) = true := by
  have hends : ∀ front, String.ofList (front ++ ".md".toList) = String.ofList front ++ ".md" := by
    intro front
    rw [String.ofList_append, String.ofList_toList]
  obtain ⟨front, hname⟩ : ∃ front : String, (set.pageEntry js page).name = front ++ ".md" := by
    rw [ExportSet.pageEntry, ExportSet.entryName]
    dsimp only
    split_ifs
    · have hindex : joinPath (set.place page) ++ "/index.md".toList =
          joinPath (set.place page) ++ "/index".toList ++ ".md".toList := by
        rw [append_assoc]
        rfl
      exact ⟨_, by rw [hindex, hends]⟩
    · exact ⟨_, hends _⟩
  rw [isMarkdown, hname, isSuffixOf_iff_suffix]
  exact hjs.md front

/-- **A page's entry is taken for an attachment** where it is in a directory of that name. -/
theorem isAttachment_pageEntry_iff (h : page ∈ set.pages.rows) :
    isAttachment (set.pageEntry js page) = true ↔
      (set.place page).head? = some "attachments".toList ∧
        (page.isFolder = true ∨ 2 ≤ (set.place page).length) := by
  have hparts : ∀ {parts : List Text}, (∀ part ∈ parts, IsPart part) → parts ≠ [] →
      ("attachments/".toList <+: joinPath parts ↔
        parts.head? = some "attachments".toList ∧ 2 ≤ parts.length) := by
    intro parts hall hne
    obtain ⟨reserved, hreserved⟩ : ∃ l, l = "attachments".toList := ⟨_, rfl⟩
    have hno : '/' ∉ reserved := by
      rw [hreserved]
      decide
    rw [show "attachments/".toList = "attachments".toList ++ ['/'] from rfl, ← hreserved, joinPath]
    cases parts with
    | nil => exact absurd rfl hne
    | cons first parts =>
      obtain ⟨hfirst, -⟩ := forall_mem_cons.mp hall
      cases parts with
      | nil =>
        rw [intercalate_singleton]
        constructor
        · rintro ⟨rest, rfl⟩
          exact absurd hfirst.no_slash (by simp)
        · rintro ⟨-, hlength⟩
          exact absurd hlength (by simp)
      | cons second parts =>
        rw [intercalate_cons_cons]
        constructor
        · rintro ⟨rest, hrest⟩
          have hbefore : ∀ {a b : Text}, '/' ∉ a → (a ++ ['/'] ++ b).takeWhile (· ≠ '/') = a := by
            intro a b ha
            rw [append_assoc, takeWhile_append_of_pos]
            · simp
            · intro c hc
              exact decide_eq_true fun heq => ha (heq ▸ hc)
          have htake := congrArg (List.takeWhile (· ≠ '/')) hrest
          rw [hbefore hno, hbefore hfirst.no_slash] at htake
          exact ⟨by rw [htake]; rfl, by simp⟩
        · rintro ⟨hhead, -⟩
          rw [List.head?_cons, Option.some.injEq] at hhead
          rw [hhead]
          exact prefix_append ..
  obtain ⟨front, hplace⟩ := ExportSet.exists_place_eq h
  rw [isAttachment, isPrefixOf_iff_prefix, name_pageEntry h,
    hparts (ExportSet.isPart_entryParts h) (ExportSet.entryParts_ne_nil set page),
    length_entryParts h, ExportSet.entryParts]
  split_ifs with hfolder
  · simp [hplace, hfolder, List.head?_append]
  · rw [hplace, dropLast_concat]
    cases front with
    | nil => simp [hfolder]
    | cons first front => simp [hfolder]

/-- **A page's entry is planned** where it is no attachment, not too deep, and has a path. -/
theorem isPlanned_pageEntry_iff (hjs : KeepsSmall js) (h : page ∈ set.pages.rows) :
    isPlanned js (set.pageEntry js page) = true ↔
      isAttachment (set.pageEntry js page) = false ∧
        (set.place page).length + (if page.isFolder then 1 else 0) ≤ maxDepth ∧
          entryPath js (set.pageEntry js page) ≠ [] := by
  rw [isPlanned, Bool.and_eq_true, Bool.not_eq_true', skipReason, isMarkdown_pageEntry hjs,
    entryParts_pageEntry h, length_entryParts h]
  refine and_congr_right fun _ => ?_
  simp only [Bool.not_true, Bool.false_eq_true, if_false]
  rw [← not_lt]
  by_cases hdeep : maxDepth < (set.place page).length + if page.isFolder then 1 else 0
  · rw [if_pos hdeep]
    exact iff_of_false (fun h => by cases h) fun h => h.1 hdeep
  · rw [if_neg hdeep, and_iff_right hdeep]
    by_cases hnil : entryPath js (set.pageEntry js page) = []
    · rw [if_pos hnil]
      exact iff_of_false (fun h => by cases h) fun h => h hnil
    · rw [if_neg hnil]
      exact iff_of_true rfl hnil

/-! ### What is planned -/

theorem isAttachment_fileEntry (file : ExportFile) :
    isAttachment (ExportSet.fileEntry file) = true := by
  rw [isAttachment, isPrefixOf_iff_prefix, ExportSet.fileEntry, String.toList_append]
  exact prefix_append ..

theorem planAttachments_files (files : List ExportFile) :
    planAttachments (files.map ExportSet.fileEntry) =
      files.map fun file => { name := file.id.toList, bytes := file.body.length } := by
  have hname : ∀ file : ExportFile,
      (ExportSet.fileEntry file).name.toList.drop 12 = file.id.toList := by
    intro file
    rw [ExportSet.fileEntry, String.toList_append]
    exact @drop_left _ "attachments/".toList file.id.toList
  have hall : (files.map ExportSet.fileEntry).filter isAttachment =
      files.map ExportSet.fileEntry := by
    rw [List.filter_eq_self]
    intro entry hentry
    obtain ⟨file, -, rfl⟩ := List.mem_map.mp hentry
    exact isAttachment_fileEntry file
  rw [planAttachments, hall, List.map_map, List.filter_eq_self.mpr]
  · refine map_congr_left fun file _ => ?_
    rw [comp_apply, hname]
    rfl
  · intro attachment hattachment
    obtain ⟨file, -, rfl⟩ := List.mem_map.mp hattachment
    refine decide_eq_true ?_
    rw [comp_apply, hname]
    exact (isPart_of_isUuidText file.isUuid).ne_nil

theorem planAttachments_pages (pages : List ExportPage) :
    planAttachments (pages.map (set.pageEntry js)) = [] ↔
      ∀ page ∈ pages, isAttachment (set.pageEntry js page) = false := by
  rw [planAttachments, filter_eq_nil_iff]
  constructor
  · intro hnone page hpage
    by_contra hattachment
    rw [Bool.not_eq_false] at hattachment
    refine hnone _ (List.mem_map.mpr ⟨_, mem_filter.mpr
      ⟨List.mem_map.mpr ⟨page, hpage, rfl⟩, hattachment⟩, rfl⟩) (decide_eq_true ?_)
    -- the name goes on behind the directory
    rw [isAttachment, isPrefixOf_iff_prefix] at hattachment
    obtain ⟨rest, hrest⟩ := hattachment
    have hname : (set.pageEntry js page).name.toList = set.entryName page := String.toList_ofList
    have hlast : (set.entryName page).getLast? = some 'd' := by
      rw [ExportSet.entryName]
      split_ifs <;> exact List.getLast?_append_of_ne_nil _ (by simp)
    dsimp only
    rw [← hrest]
    intro hnil
    obtain rfl : rest = [] := hnil
    rw [← hname, ← hrest] at hlast
    exact absurd hlast (by decide)
  · intro hall attachment hattachment
    obtain ⟨entry, hentry, -⟩ := List.mem_map.mp hattachment
    obtain ⟨hmem, hisAttachment⟩ := mem_filter.mp hentry
    obtain ⟨page, hpage, rfl⟩ := List.mem_map.mp hmem
    rw [hall page hpage] at hisAttachment
    cases hisAttachment

theorem planAttachments_append (entries entries' : List ArchiveEntry) :
    planAttachments (entries ++ entries') =
      planAttachments entries ++ planAttachments entries' := by
  simp [planAttachments]

/-- **Nothing is skipped and no page is an attachment** exactly where every page is planned. -/
theorem all_planned_iff :
    ((planImport js existing (set.buildArchive js)).skipped = [] ∧
        (planImport js existing (set.buildArchive js)).attachments =
          set.files.map fun file => { name := file.id.toList, bytes := file.body.length }) ↔
      ∀ page ∈ set.pages.rows, isPlanned js (set.pageEntry js page) = true := by
  have hskipped : (planImport js existing (set.buildArchive js)).skipped = [] ↔
      ∀ page ∈ set.pages.rows, skippedAs js (set.pageEntry js page) = none := by
    rw [planImport, skipped_planEntries, ExportSet.buildArchive, filterMap_eq_nil_iff]
    constructor
    · exact fun hnone page hpage => hnone _
        (mem_append_left _ (List.mem_map.mpr ⟨page, hpage, rfl⟩))
    · intro hnone entry hentry
      rcases mem_append.mp hentry with hentry | hentry
      · obtain ⟨page, hpage, rfl⟩ := List.mem_map.mp hentry
        exact hnone page hpage
      · obtain ⟨file, -, rfl⟩ := List.mem_map.mp hentry
        rw [skippedAs, isAttachment_fileEntry, if_pos rfl]
  have hattachments : (planImport js existing (set.buildArchive js)).attachments =
        set.files.map (fun file => { name := file.id.toList, bytes := file.body.length }) ↔
      ∀ page ∈ set.pages.rows, isAttachment (set.pageEntry js page) = false := by
    rw [planImport, ExportSet.buildArchive, planAttachments_append, planAttachments_files,
      append_left_eq_self]
    exact planAttachments_pages _
  rw [hskipped, hattachments]
  constructor
  · rintro ⟨hnone, hnot⟩ page hpage
    have hskip := hnone page hpage
    rw [skippedAs, hnot page hpage] at hskip
    rw [isPlanned, hnot page hpage]
    cases hreason : skipReason js (set.pageEntry js page) with
    | none => rfl
    | some reason => simp [hreason] at hskip
  · intro hplanned
    refine ⟨fun page hpage => ?_, fun page hpage => ?_⟩
    · have hpage := hplanned page hpage
      rw [isPlanned, Bool.and_eq_true, Option.isNone_iff_eq_none] at hpage
      rw [skippedAs, hpage.2]
      split <;> rfl
    · have hpage := hplanned page hpage
      rw [isPlanned, Bool.and_eq_true, Bool.not_eq_true'] at hpage
      exact hpage.1

/-- **The pages that are planned**, where every page is. -/
theorem pages_of_all_planned
    (hplanned : ∀ page ∈ set.pages.rows, isPlanned js (set.pageEntry js page) = true) :
    (planImport js existing (set.buildArchive js)).pages.Perm
      (set.pages.rows.map (fun page => entryPage js existing (set.pageEntry js page)) ++
        impliedPages js existing (planEntries js existing (set.buildArchive js))) := by
  have hfilter : (set.buildArchive js).filter (isPlanned js) =
      set.pages.rows.map (set.pageEntry js) := by
    have hpages : (set.pages.rows.map (set.pageEntry js)).filter (isPlanned js) =
        set.pages.rows.map (set.pageEntry js) := by
      rw [List.filter_eq_self]
      intro entry hentry
      obtain ⟨page, hpage, rfl⟩ := List.mem_map.mp hentry
      exact hplanned page hpage
    have hfiles : (set.files.map ExportSet.fileEntry).filter (isPlanned js) = [] := by
      rw [filter_eq_nil_iff]
      intro entry hentry
      obtain ⟨file, -, rfl⟩ := List.mem_map.mp hentry
      rw [isPlanned, isAttachment_fileEntry]
      simp
    rw [ExportSet.buildArchive, filter_append, hpages, hfiles, append_nil]
  have hperm := @planImport_pages_perm js existing (set.buildArchive js)
  rw [hfilter, List.map_map] at hperm
  exact hperm

theorem entryPage_eq (h : page ∈ set.pages.rows)
    (hindex : isIndex js (set.pageEntry js page) = page.isFolder) :
    (entryPage js existing (set.pageEntry js page)).path = set.place page ∧
      (entryPage js existing (set.pageEntry js page)).title = titleFrom (page.markdown js)
        (if page.isFolder then "index".toList else page.fileName) ∧
      (entryPage js existing (set.pageEntry js page)).kind =
        if page.isFolder then .folder
        else if saysCanvas js (page.markdown js) then .canvas else .page := by
  have hbody : (toStringUtf8 (set.pageEntry js page).body).toList = page.markdown js := by
    rw [ExportSet.pageEntry, toStringUtf8_utf8, String.toList_ofList]
  refine ⟨entryPath_pageEntry h hindex, ?_, ?_⟩
  · rw [entryPage, hbody, entryFileName_pageEntry h]
  · rw [PlannedPage.kind, entryPage, hbody, hindex]
    rfl

/-! ### Pages that keep apart -/

namespace KeepsApart

theorem trail (h : KeepsApart js set) (hpage : page ∈ set.pages.rows) :
    IsTrail set.parent ExportPage.fileName page (set.place page) ∧
      (set.place page).length + (if page.isFolder then 1 else 0) ≤ maxDepth := by
  obtain ⟨trail, htrail, hdepth⟩ := h.depth page hpage
  have hlength : trail.length ≤ 64 :=
    (Nat.le_add_right _ _).trans (hdepth.trans (by decide))
  rw [ExportSet.place_eq_of_isTrail hpage htrail hlength]
  exact ⟨htrail, hdepth⟩

theorem siblings_of_place (h : KeepsApart js set) (hpage : page ∈ set.pages.rows)
    (hother : other ∈ set.pages.rows) (hplace : set.place page = set.place other) :
    set.parent page = set.parent other ∧ page.fileName = other.fileName := by
  have htrail := (h.trail hother).1
  rw [← hplace] at htrail
  refine @IsTrail.siblings _ _ _ _ _ _ _ {page | page ∈ set.pages.rows}
    (fun a _ b hb => ExportSet.parent_mem hb) ?_ (h.trail hpage).1 hpage htrail hother
  rintro a ha b hb hparent hname ⟨child, hchild, hup⟩
  by_contra hne
  exact (h.siblings a ha b hb hparent hname hne).2 child hchild hup

theorem eq_of_place (h : KeepsApart js set) (hpage : page ∈ set.pages.rows)
    (hother : other ∈ set.pages.rows) (hplace : set.place page = set.place other)
    (hfolder : page.isFolder = other.isFolder) : page = other := by
  obtain ⟨hparent, hname⟩ := h.siblings_of_place hpage hother hplace
  by_contra hne
  exact (h.siblings page hpage other hother hparent hname hne).1 hfolder

theorem isIndex_eq (h : KeepsApart js set) (hjs : KeepsSmall js) (hpage : page ∈ set.pages.rows) :
    isIndex js (set.pageEntry js page) = page.isFolder := by
  rw [isIndex_pageEntry hjs hpage]
  cases hfolder : page.isFolder with
  | true => rfl
  | false =>
    rw [Bool.false_or, decide_eq_false_iff_not]
    exact h.index page hpage hfolder

theorem isPlanned (h : KeepsApart js set) (hjs : KeepsSmall js) (hpage : page ∈ set.pages.rows) :
    isPlanned js (set.pageEntry js page) = true := by
  obtain ⟨htrail, hdepth⟩ := h.trail hpage
  rw [isPlanned_pageEntry_iff hjs hpage, entryPath_pageEntry hpage (h.isIndex_eq hjs hpage)]
  refine ⟨?_, hdepth, htrail.ne_nil⟩
  by_contra hattachment
  rw [Bool.not_eq_false, isAttachment_pageEntry_iff hpage] at hattachment
  obtain ⟨hhead, hbelow⟩ := hattachment
  have hpos := length_pos_of_ne_nil htrail.ne_nil
  by_cases hlong : 2 ≤ (set.place page).length
  · -- what is at the top of the path is a page with others below it
    obtain ⟨child, hchild, above, habove, hup, htop⟩ :=
      @IsTrail.take _ _ _ _ _ _ {page | page ∈ set.pages.rows} 1
        (fun a _ b hb => ExportSet.parent_mem hb) htrail hpage one_pos hlong
    obtain ⟨first, rest, hfirst⟩ := exists_cons_of_ne_nil htrail.ne_nil
    rw [hfirst, take_succ_cons, take_zero] at htop
    rw [hfirst, List.head?_cons, Option.some.injEq] at hhead
    have hroot := htop.length_eq_one_iff.mp rfl
    have hname := htop.of_root hroot
    rw [List.cons.injEq] at hname
    exact (h.attachments above habove hroot (hname.1.symm.trans hhead)).2 child hchild hup
  · have hroot := htrail.length_eq_one_iff.mp (by omega)
    have hplace := htrail.of_root hroot
    rw [hplace, List.head?_cons, Option.some.injEq] at hhead
    have hfolder := (h.attachments page hpage hroot hhead).1
    rcases hbelow with hisFolder | hlong'
    · rw [hfolder] at hisFolder
      cases hisFolder
    · exact hlong hlong'

/-- **An entry name** is that of one page. -/
theorem eq_of_entryName (h : KeepsApart js set) (hjs : KeepsSmall js)
    (hpage : page ∈ set.pages.rows) (hother : other ∈ set.pages.rows)
    (hname : (set.pageEntry js page).name = (set.pageEntry js other).name) : page = other := by
  have hparts : set.entryParts page = set.entryParts other := by
    rw [← @entryParts_pageEntry js set page hpage, ← @entryParts_pageEntry js set other hother,
      Import.entryParts, Import.entryParts, hname]
  -- a page is not called what the file of a folder is
  have hindex : ∀ {b : ExportPage}, b ∈ set.pages.rows → b.isFolder = false →
      "index.md".toList ≠ b.fileName ++ ".md".toList := by
    intro b hb hfolder heq
    have hsame : b.fileName = "index".toList := by
      rw [← withoutMd_append b.fileName, ← heq]
      rfl
    refine h.index b hb hfolder ?_
    rw [hsame, String.ofList_toList, hjs.index]
  rw [ExportSet.entryParts, ExportSet.entryParts] at hparts
  split_ifs at hparts with hfolder hfolder' hfolder'
  · exact h.eq_of_place hpage hother (append_singleton_inj.mp hparts).1
      (hfolder.trans hfolder'.symm)
  · have hlast := (append_singleton_inj.mp hparts).2
    exact absurd hlast (@hindex other hother (Bool.eq_false_iff.mpr hfolder'))
  · have hlast := (append_singleton_inj.mp hparts).2
    exact absurd hlast.symm (@hindex page hpage (Bool.eq_false_iff.mpr hfolder))
  · obtain ⟨hfront, hlast⟩ := append_singleton_inj.mp hparts
    refine h.eq_of_place hpage hother ?_ ?_
    · obtain ⟨front, hplace⟩ := ExportSet.exists_place_eq hpage
      obtain ⟨front', hplace'⟩ := ExportSet.exists_place_eq hother
      rw [hplace, hplace', dropLast_concat, dropLast_concat] at hfront
      rw [hplace, hplace', hfront, append_cancel_right hlast]
    · rw [Bool.eq_false_iff.mpr hfolder, Bool.eq_false_iff.mpr hfolder']

theorem entryPage_eq (h : KeepsApart js set) (hjs : KeepsSmall js)
    (hpage : page ∈ set.pages.rows) :
    (entryPage js existing (set.pageEntry js page)).path = set.place page ∧
      (entryPage js existing (set.pageEntry js page)).title = page.title.toList ∧
      (entryPage js existing (set.pageEntry js page)).kind = page.entry.kind := by
  obtain ⟨hpath, htitle, hkind⟩ :=
    @Export.entryPage_eq js existing set page hpage (h.isIndex_eq hjs hpage)
  have hisTitle := h.title page hpage
  rw [ExportPage.titleFrom_markdown hisTitle] at htitle
  refine ⟨hpath, htitle, ?_⟩
  rw [hkind, ExportPage.saysCanvas_markdown hisTitle]
  split_ifs with hfolder hcanvas
  · exact (of_decide_eq_true hfolder).symm
  · exact ((h.kind page hpage (Bool.eq_false_iff.mpr hfolder)).mp hcanvas).symm
  · have hnot := mt (h.kind page hpage (Bool.eq_false_iff.mpr hfolder)).mpr hcanvas
    have hdocument := page.isDocument
    rw [ExportPage.isFolder, decide_eq_true_eq] at hfolder
    cases hentry : page.entry.kind with
    | page => rfl
    | folder => exact absurd hentry hfolder
    | canvas => exact absurd hentry hnot
    | row => exact absurd hentry hdocument.1
    | container => exact absurd hentry hdocument.2

/-- **Pages that keep apart** are rebuilt. -/
theorem rebuilds (h : KeepsApart js set) (hjs : KeepsSmall js) : Rebuilds js existing set := by
  have hplanned : ∀ page ∈ set.pages.rows, Import.isPlanned js (set.pageEntry js page) = true :=
    fun page hpage => h.isPlanned hjs hpage
  obtain ⟨hskipped, hattachments⟩ := (@all_planned_iff js existing set).mpr hplanned
  have himplied : impliedPages js existing
      (planEntries js existing (set.buildArchive js)) = [] := by
    refine impliedPages_eq_nil fun entry hentry hisPlanned n hpos hn => ?_
    rcases mem_append.mp hentry with hentry | hentry
    · obtain ⟨page, hpage, rfl⟩ := List.mem_map.mp hentry
      rw [entryPath_pageEntry hpage (h.isIndex_eq hjs hpage)] at hn ⊢
      obtain ⟨-, -, above, habove, -, htrail⟩ :=
        @IsTrail.take _ _ _ _ _ _ {page | page ∈ set.pages.rows} n
          (fun a _ b hb => ExportSet.parent_mem hb) (h.trail hpage).1 hpage hpos hn
      refine ⟨set.pageEntry js above,
        mem_append_left _ (List.mem_map.mpr ⟨above, habove, rfl⟩), hplanned above habove, ?_⟩
      rw [entryPath_pageEntry habove (h.isIndex_eq hjs habove)]
      exact (h.trail habove).1.unique htrail
    · obtain ⟨file, -, rfl⟩ := List.mem_map.mp hentry
      rw [Import.isPlanned, isAttachment_fileEntry] at hisPlanned
      cases hisPlanned
  refine ⟨?_, hskipped, hattachments, ?_, fun page hpage hroot => ?_,
    fun page hpage above habove => ⟨?_, fun other hother hplace => ?_⟩⟩
  · exact List.Nodup.map_on (fun page hpage other hother => h.eq_of_entryName hjs hpage hother)
      set.pages.nodup.of_map
  · have hpages := @pages_of_all_planned js existing set hplanned
    rw [himplied, append_nil] at hpages
    refine (hpages.map _).trans (List.Perm.of_eq ?_)
    rw [List.map_map]
    refine map_congr_left fun page hpage => ?_
    obtain ⟨hpath, htitle, hkind⟩ := @entryPage_eq js existing set page h hjs hpage
    rw [comp_apply, hpath, htitle, hkind]
  · exact (h.trail hpage).1.length_eq_one_iff.mpr hroot
  · obtain ⟨trail, htrail, hplace⟩ := (h.trail hpage).1.of_under habove
    rw [hplace, dropLast_concat]
    exact htrail.unique (h.trail (ExportSet.parent_mem habove)).1
  · by_contra hne
    have hmem := ExportSet.parent_mem habove
    obtain ⟨hparent, hname⟩ := h.siblings_of_place hother hmem hplace
    exact (h.siblings above hmem other hother hparent.symm hname.symm (Ne.symm hne)).2
      page hpage habove

end KeepsApart

/-! ### Pages that are rebuilt -/

theorem of_countP_eq {α : Type*} {l : List α} {p q : α → Bool}
    (hle : ∀ a ∈ l, q a = true → p a = true) (hcount : l.countP p = l.countP q) :
    ∀ a ∈ l, p a = true → q a = true := by
  intro a ha hp
  by_contra hq
  obtain ⟨before, after, rfl⟩ := append_of_mem ha
  have hbefore := countP_mono_left fun b hb => hle b (mem_append_left _ hb)
  have hafter := countP_mono_left fun b hb =>
    hle b (mem_append_right _ (mem_cons_of_mem _ hb))
  rw [countP_append, countP_append, countP_cons_of_neg hq,
    countP_cons_of_pos hp] at hcount
  omega

namespace Rebuilds

theorem planned (h : Rebuilds js existing set) (hpage : page ∈ set.pages.rows) :
    isPlanned js (set.pageEntry js page) = true :=
  (@all_planned_iff js existing set).mp ⟨h.skipped, h.attachments⟩ page hpage

theorem read_perm (h : Rebuilds js existing set) :
    (set.pages.rows.map fun page =>
      ((entryPage js existing (set.pageEntry js page)).path,
        (entryPage js existing (set.pageEntry js page)).title,
        (entryPage js existing (set.pageEntry js page)).kind)).Perm
      (set.pages.rows.map fun page => (set.place page, page.title.toList, page.entry.kind)) := by
  have hpages := @pages_of_all_planned js existing set fun page hpage => h.planned hpage
  have himplied : impliedPages js existing
      (planEntries js existing (set.buildArchive js)) = [] := by
    have hlength := hpages.length_eq
    have hlength' := h.pages.length_eq
    rw [length_append, length_map] at hlength
    rw [length_map, length_map] at hlength'
    exact length_eq_zero_iff.mp (by omega)
  rw [himplied, append_nil] at hpages
  have hread := (hpages.map fun planned : PlannedPage =>
    (planned.path, planned.title, planned.kind)).symm.trans h.pages
  rwa [List.map_map] at hread

/-- **No page is taken for a folder.** -/
theorem isIndex_eq (h : Rebuilds js existing set) (hjs : KeepsSmall js)
    (hpage : page ∈ set.pages.rows) :
    isIndex js (set.pageEntry js page) = page.isFolder := by
  have hkind : ∀ planned : PlannedPage, planned.kind = .folder ↔ planned.isFolder = true := by
    intro planned
    rw [PlannedPage.kind]
    split_ifs with hfolder <;> simp [hfolder]
  have hcount : set.pages.rows.countP (fun page => isIndex js (set.pageEntry js page)) =
      set.pages.rows.countP ExportPage.isFolder := by
    have hboth := h.read_perm.countP_eq fun read => decide (read.2.2 = EntryKind.folder)
    rw [countP_map, countP_map] at hboth
    refine Eq.trans (countP_congr fun page hpage => ?_) (hboth.trans rfl)
    rw [comp_apply, decide_eq_true_eq, hkind]
    rfl
  have hle : ∀ page ∈ set.pages.rows, page.isFolder = true →
      isIndex js (set.pageEntry js page) = true := by
    intro page hpage hfolder
    rw [isIndex_pageEntry hjs hpage, hfolder]
    rfl
  -- as many pages are taken for folders as there are folders, and these are
  have hback := of_countP_eq hle hcount page hpage
  cases hfolder : page.isFolder with
  | true => exact hle page hpage hfolder
  | false =>
    by_contra hindex
    rw [Bool.not_eq_false] at hindex
    rw [hback hindex] at hfolder
    cases hfolder

theorem isTrail (h : Rebuilds js existing set) (hjs : KeepsSmall js)
    (hpage : page ∈ set.pages.rows) :
    IsTrail set.parent ExportPage.fileName page (set.place page) ∧
      (set.place page).length + (if page.isFolder then 1 else 0) ≤ maxDepth := by
  have hdepth := ((isPlanned_pageEntry_iff hjs hpage).mp (h.planned hpage)).2.1
  refine ⟨ExportSet.isTrail_place hpage ?_, hdepth⟩
  exact lt_of_le_of_lt ((Nat.le_add_right _ _).trans hdepth) (by decide)

theorem read_eq (h : Rebuilds js existing set) (hjs : KeepsSmall js)
    (hpage : page ∈ set.pages.rows) :
    titleFrom (page.markdown js) (if page.isFolder then "index".toList else page.fileName) =
        page.title.toList ∧
      (if page.isFolder then EntryKind.folder
        else if saysCanvas js (page.markdown js) then .canvas else .page) = page.entry.kind := by
  obtain ⟨hpath, htitle, hkind⟩ :=
    @Export.entryPage_eq js existing set page hpage (h.isIndex_eq hjs hpage)
  obtain ⟨other, hother, hread⟩ := List.mem_map.mp
    (h.read_perm.mem_iff.mp (List.mem_map.mpr ⟨page, hpage, rfl⟩))
  rw [hpath, htitle, hkind, Prod.mk.injEq, Prod.mk.injEq] at hread
  obtain ⟨hplace, hsameTitle, hsameKind⟩ := hread
  have hfolder : other.isFolder = page.isFolder := by
    rw [ExportPage.isFolder, hsameKind]
    split_ifs with hfolder hcanvas
    · rw [hfolder]
      rfl
    · rw [Bool.eq_false_iff.mpr hfolder]
      rfl
    · rw [Bool.eq_false_iff.mpr hfolder]
      rfl
  have hsame : other = page := by
    refine inj_on_of_nodup_map h.names hother hpage (String.toList_inj.mp ?_)
    rw [name_pageEntry hother, name_pageEntry hpage,
      ExportSet.entryParts_congr hother hpage hplace hfolder]
  rw [hsame] at hsameTitle hsameKind
  exact ⟨hsameTitle.symm, hsameKind.symm⟩

/-- **What is rebuilt kept apart.** -/
theorem keepsApart (h : Rebuilds js existing set) (hjs : KeepsSmall js) : KeepsApart js set := by
  have hchild : ∀ page ∈ set.pages.rows, ∀ other ∈ set.pages.rows, page ≠ other →
      set.place page = set.place other → ∀ child ∈ set.pages.rows,
        set.parent child ≠ some page := by
    intro page hpage other hother hne hplace child hchild hup
    exact hne ((h.parent child hchild page hup).2 other hother hplace.symm).symm
  have htitle : ∀ page ∈ set.pages.rows, IsTitle page.title.toList := by
    intro page hpage
    refine ExportPage.isTitle_of_titleFrom ?_ ?_ (fun hempty hspaces => ?_)
      (h.read_eq hjs hpage).1
    · split_ifs
      · decide
      · exact isDot_fileNameFor page.title page.isUuid
    · split_ifs
      · decide
      · exact (isPart_fileNameFor page.title page.isUuid).ne_nil
    · split_ifs
      · exact ⟨'i', by decide, by decide⟩
      · rw [ExportPage.fileName, fileNameFor, if_neg hempty, cleaned_of_spaces hspaces, if_pos rfl]
        obtain ⟨first, rest, hid⟩ :=
          exists_cons_of_ne_nil (isPart_of_isUuidText page.isUuid).ne_nil
        have hfirst : first ∈ page.id.toList := hid ▸ mem_cons_self
        exact ⟨first, hfirst, isSpace_of_mem_uuid page.isUuid hfirst⟩
  have hnotAttachment : ∀ page ∈ set.pages.rows,
      (set.place page).head? = some "attachments".toList →
        page.isFolder = false ∧ (set.place page).length < 2 := by
    intro page hpage hhead
    have hnot := ((isPlanned_pageEntry_iff hjs hpage).mp (h.planned hpage)).1
    rw [Bool.eq_false_iff, Ne, isAttachment_pageEntry_iff hpage, not_and, not_or] at hnot
    obtain ⟨hfolder, hlength⟩ := hnot hhead
    exact ⟨Bool.eq_false_iff.mpr hfolder, Nat.lt_of_not_le hlength⟩
  refine ⟨fun page hpage other hother hparent hname hne => ?_, fun page hpage hfolder => ?_,
    fun page hpage hroot hname => ?_, fun page hpage => ⟨_, h.isTrail hjs hpage⟩, htitle,
    fun page hpage hfolder => ?_⟩
  · have hplace : set.place page = set.place other := by
      cases hup : set.parent page with
      | none =>
        rw [(h.isTrail hjs hpage).1.of_root hup,
          (h.isTrail hjs hother).1.of_root (hparent.symm.trans hup), hname]
      | some above =>
        obtain ⟨trail, htrail, heq⟩ := (h.isTrail hjs hpage).1.of_under hup
        obtain ⟨trail', htrail', heq'⟩ :=
          (h.isTrail hjs hother).1.of_under (hparent.symm.trans hup)
        rw [heq, heq', htrail.unique htrail', hname]
    refine ⟨fun hfolder => hne ?_, hchild page hpage other hother hne hplace⟩
    refine inj_on_of_nodup_map h.names hpage hother (String.toList_inj.mp ?_)
    rw [name_pageEntry hpage, name_pageEntry hother,
      ExportSet.entryParts_congr hpage hother hplace hfolder]
  · have hindex := h.isIndex_eq hjs hpage
    rw [isIndex_pageEntry hjs hpage, hfolder, Bool.false_or, decide_eq_false_iff_not] at hindex
    exact hindex
  · have hplace := (h.isTrail hjs hpage).1.of_root hroot
    refine ⟨(hnotAttachment page hpage (by rw [hplace, hname]; rfl)).1, fun child hmem hup => ?_⟩
    obtain ⟨trail, htrail, heq⟩ := (h.isTrail hjs hmem).1.of_under hup
    rw [htrail.of_root hroot] at heq
    have hhead : (set.place child).head? = some "attachments".toList := by
      rw [heq, hname]
      rfl
    have hlength := (hnotAttachment child hmem hhead).2
    rw [heq] at hlength
    exact absurd hlength (by simp)
  · have hkind := (h.read_eq hjs hpage).2
    rw [← ExportPage.saysCanvas_markdown (htitle page hpage)]
    rw [hfolder, if_neg (by simp)] at hkind
    split_ifs at hkind with hcanvas
    · exact ⟨fun _ => hkind.symm, fun _ => hcanvas⟩
    · refine ⟨fun hsays => absurd hsays hcanvas, fun hisCanvas => ?_⟩
      rw [hisCanvas] at hkind
      cases hkind

end Rebuilds

end Entries

/-! ### The look says what a page is -/

section Look

variable {js : Js} {page : ExportPage} {rest : Text}

end Look

/-- **An import rebuilds what was exported** exactly where the pages keep apart. -/
theorem rebuilds_iff_keepsApart {js : Js} (hjs : KeepsSmall js) (existing : YMap String)
    (set : ExportSet) : Rebuilds js existing set ↔ KeepsApart js set :=
  ⟨fun h => h.keepsApart hjs, fun h => h.rebuilds hjs⟩

/-! ### A workspace -/

theorem keepsSmall_ascii : KeepsSmall Js.ascii where
  md s := by
    refine ⟨s.toLower.toList, ?_⟩
    have hlower : ∀ text : String, text.toLower = text.map Char.toLower := fun _ => rfl
    rw [show Js.ascii.lowerCase (s ++ ".md") = (s ++ ".md").toLower from rfl, hlower, hlower,
      String.toList_map, String.toList_map, String.toList_append, map_append]
    rfl
  index := by decide +kernel

def blank (id : String) (parentId : Option String) (title : String) (isFolder : Bool)
    (isUuid : isUuidText id = true) : ExportPage where
  id := id
  parentId := parentId
  title := title
  entry := { kind := if isFolder then .folder else .page }
  parts := []
  isUuid := isUuid
  isDocument := by cases isFolder <;> exact ⟨nofun, nofun⟩

/-- A folder with two pages of these titles. -/
def minutes (first second : String) : ExportSet where
  pages :=
    { rows := [
        blank "00000000-0000-4000-8000-000000000001" none "Minutes" true (by decide +kernel),
        blank "00000000-0000-4000-8000-000000000002"
          (some "00000000-0000-4000-8000-000000000001") first false (by decide +kernel),
        blank "00000000-0000-4000-8000-000000000003"
          (some "00000000-0000-4000-8000-000000000001") second false (by decide +kernel)]
      nodup := show ["00000000-0000-4000-8000-000000000001",
        "00000000-0000-4000-8000-000000000002",
        "00000000-0000-4000-8000-000000000003"].Nodup by decide }
  rootId := none
  files := []

/-- **Two siblings of one title** share the name of their files. -/
theorem siblings_share_name : ¬ Rebuilds Js.ascii .empty (minutes "May" "May") := by
  intro h
  exact absurd h.names (by decide +kernel)

/-- Pages of different titles are rebuilt where they keep apart. -/
theorem rebuilds_iff_keepsApart_minutes :
    Rebuilds Js.ascii .empty (minutes "May" "June") ↔ KeepsApart Js.ascii (minutes "May" "June") :=
  rebuilds_iff_keepsApart keepsSmall_ascii .empty (minutes "May" "June")

end Sone.Export
