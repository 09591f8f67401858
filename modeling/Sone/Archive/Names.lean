import Sone.Archive.Unzip
import Sone.Markdown.Entry
import Sone.Tree.Trails

/-!
# The entries of an export

`buildArchive` of `export/build.ts` makes a file of every page it may show and names it by the
titles on the way to the page, as a file system will take them (`fileNameFor`). A folder becomes a
directory with an `index.md`. The pictures and files of the pages come after them, below
`attachments/`.

The pages are those the query gives: no rows and no structural containers, each with the title and
the kind its document has. What the blocks of a page are written as is not of interest here; a page
has the paragraphs its file gets.

`pathOf_eq_walk`: the walk of the code is a walk up the tree of what is exported, which gives up
after 64 pages. `splitPath_joinPath`: a path is read back from the name it is written as.
-/

namespace Sone.Export

open List

open Zip

/-! ### Names -/

/-- `/[\\/:*?"<>|]|[\u0000-\u001f]/` -/
def isRefused (c : Char) : Bool :=
  c ∈ ['\\', '/', ':', '*', '?', '"', '<', '>', '|'] || c.toNat ≤ 0x1f

/-- What `fileNameFor` makes of a text. -/
def cleaned (text : Text) : Text :=
  let spaced := text.map fun c => if isRefused c then ' ' else c
  JsString.takeUnits 120 ((trimLine (JsString.collapse false spaced)).dropWhile (· = '.'))

def fileNameFor (title fallback : String) : Text :=
  let name := cleaned (if title = "" then fallback else title).toList
  if name = [] then fallback.toList else name

/-- `parts.join('/')` -/
def joinPath (parts : List Text) : Text := ['/'].intercalate parts

/-- `name.split('/').filter((part) => part !== '')` -/
def splitPath (name : Text) : List Text := (name.splitOn '/').filter (· ≠ [])

/-- **A part of a path**: not empty, and with no separator in it. -/
structure IsPart (part : Text) : Prop where
  ne_nil : part ≠ []
  no_slash : '/' ∉ part

/-! ### Pages and files -/

/-- **A page of an export**, by the row of it that the query gives and by what its document says.
`parts` are the paragraphs below the title and the look: what every block is written as, or the
board. -/
structure ExportPage where
  id : String
  parentId : Option String
  title : String
  entry : ExportEntry
  parts : List Text
  isUuid : isUuidText id = true
  /-- Rows and containers are not exported. -/
  isDocument : entry.kind ≠ .row ∧ entry.kind ≠ .container

structure ExportFile where
  id : String
  body : List UInt8
  isUuid : isUuidText id = true

structure ExportSet where
  pages : Keyed ExportPage.id
  rootId : Option String
  files : List ExportFile

namespace ExportPage

def isFolder (page : ExportPage) : Bool := page.entry.kind = .folder

def fileName (page : ExportPage) : Text := fileNameFor page.title page.id

def below (js : Js) (page : ExportPage) : List Text :=
  (entryLook js page.entry).toList ++ page.parts

def written (page : ExportPage) (text : Text) : Text :=
  if page.entry.kind = .canvas then text ++ ['\n'] else stripLineEnds text ++ ['\n']

/-- `canvasToMarkdown` or `pageToMarkdown`, by the kind. -/
def markdown (js : Js) (page : ExportPage) : Text :=
  page.written (joinParagraphs (titleHeading page.title :: page.below js))

end ExportPage

namespace ExportSet

/-- `pathOf`, with how many pages are left for it to look at. -/
def pathOf (set : ExportSet) : ℕ → String → List Text
  | 0, _ => []
  | left + 1, id =>
    match set.pages.find id with
    | none => []
    | some page =>
      (if some id = set.rootId then [] else
        match page.parentId with
        | none => []
        | some parent => pathOf set left parent) ++ [page.fileName]

def place (set : ExportSet) (page : ExportPage) : List Text := set.pathOf 64 page.id

def entryName (set : ExportSet) (page : ExportPage) : Text :=
  joinPath (set.place page) ++
    (if page.isFolder then "/index.md".toList else ".md".toList)

def pageEntry (js : Js) (set : ExportSet) (page : ExportPage) : ArchiveEntry where
  name := String.ofList (set.entryName page)
  body := utf8 (String.ofList (page.markdown js))

def fileEntry (file : ExportFile) : ArchiveEntry where
  name := "attachments/" ++ file.id
  body := file.body

/-- `buildArchive`: the entries that are zipped. -/
def buildArchive (js : Js) (set : ExportSet) : List ArchiveEntry :=
  set.pages.rows.map (set.pageEntry js) ++ set.files.map fileEntry

/-- **The parent of a page** as it is exported: none of the root of a subtree, nor of a page whose
own is not exported. -/
def parent (set : ExportSet) (page : ExportPage) : Option ExportPage :=
  if some page.id = set.rootId then none else page.parentId.bind set.pages.find

end ExportSet

section Names

variable {parts : List Text} {part cs rest : Text} {n : ℕ}

theorem splitPath_joinPath (h : ∀ part ∈ parts, IsPart part) (hne : parts ≠ []) :
    splitPath (joinPath parts) = parts := by
  rw [splitPath, joinPath, splitOn_intercalate _ (fun part hpart => (h part hpart).no_slash)
    hne, List.filter_eq_self]
  exact fun part hpart => decide_eq_true (h part hpart).ne_nil

theorem isPart_of_mem_splitPath (h : part ∈ splitPath cs) : IsPart part := by
  obtain ⟨hsplit, hne⟩ := mem_filter.mp h
  refine ⟨of_decide_eq_true hne, ?_⟩
  clear h hne
  induction cs generalizing part with
  | nil =>
    obtain rfl := mem_singleton.mp hsplit
    exact not_mem_nil
  | cons c cs ih =>
    rw [splitOn_cons_eq_if_modifyHead] at hsplit
    split_ifs at hsplit with hc
    · rcases mem_cons.mp hsplit with rfl | hsplit
      · exact not_mem_nil
      · exact ih hsplit
    · obtain ⟨first, parts, hparts⟩ := exists_cons_of_ne_nil (splitOn_ne_nil '/' cs)
      rw [hparts, modifyHead_cons] at hsplit
      rcases mem_cons.mp hsplit with rfl | hsplit
      · have hfirst : '/' ∉ first := ih (by rw [hparts]; exact mem_cons_self)
        rw [beq_iff_eq] at hc
        rw [mem_cons, not_or]
        exact ⟨Ne.symm hc, hfirst⟩
      · exact ih (by rw [hparts]; exact mem_cons_of_mem _ hsplit)

theorem joinPath_append (parts : List Text) (part rest : Text) :
    joinPath (parts ++ [part]) ++ rest = joinPath (parts ++ [part ++ rest]) := by
  rw [joinPath, joinPath]
  induction parts with
  | nil => simp
  | cons first parts ih =>
    cases parts with
    | nil => simp [List.intercalate]
    | cons second parts =>
      rw [cons_append, cons_append, cons_append, cons_append,
        intercalate_cons_cons, intercalate_cons_cons, ← cons_append,
        ← cons_append, append_assoc, append_assoc, ih]
      simp

theorem joinPath_concat (hne : parts ≠ []) (part : Text) :
    joinPath parts ++ '/' :: part = joinPath (parts ++ [part]) := by
  rw [joinPath, joinPath]
  induction parts with
  | nil => exact absurd rfl hne
  | cons first parts ih =>
    cases parts with
    | nil => simp [List.intercalate]
    | cons second parts =>
      rw [cons_append, cons_append, intercalate_cons_cons,
        intercalate_cons_cons, ← cons_append, append_assoc, append_assoc,
        ih (by simp)]
      simp

theorem mem_cleaned {text : Text} {c : Char} (h : c ∈ cleaned text) :
    c ∈ text.map (fun c => if isRefused c then ' ' else c) ∧ JsString.isSpace c = false ∨
      c = ' ' ∨ c = '\uFFFD' := by
  rcases mem_takeUnits h with hmem | h
  · have hmem := (trimLine_sublist _).mem ((dropWhile_sublist _).mem hmem)
    exact (mem_collapse hmem).imp_right .inl
  · exact .inr (.inr h)

theorem isPart_of_isUuidText {id : String} (h : isUuidText id = true) : IsPart id.toList where
  ne_nil := by
    intro hnil
    have hempty : id = "" := String.toList_inj.mp hnil
    rw [hempty] at h
    exact absurd h (by decide)
  no_slash hmem := by
    rcases mem_of_isUuidText h '/' hmem with hhex | hdash
    · exact absurd hhex (by decide)
    · exact absurd hdash (by decide)

theorem no_slash_cleaned (text : Text) : '/' ∉ cleaned text := by
  intro hmem
  rcases mem_cleaned hmem with ⟨hmem, -⟩ | h | h
  · obtain ⟨c, -, hc⟩ := List.mem_map.mp hmem
    split_ifs at hc with hrefused
    · cases hc
    · rw [hc] at hrefused
      exact hrefused (by decide)
  · cases h
  · cases h

theorem fileNameFor_eq (title fallback : String) :
    fileNameFor title fallback = fallback.toList ∨
      ∃ text, cleaned text ≠ [] ∧ fileNameFor title fallback = cleaned text := by
  rw [fileNameFor]
  generalize (if title = "" then fallback else title).toList = chosen
  by_cases hcleaned : cleaned chosen = []
  · exact .inl (if_pos hcleaned)
  · exact .inr ⟨chosen, hcleaned, if_neg hcleaned⟩

theorem isPart_fileNameFor (title : String) {id : String} (h : isUuidText id = true) :
    IsPart (fileNameFor title id) := by
  rcases fileNameFor_eq title id with hid | ⟨text, hne, hname⟩
  · rw [hid]
    exact isPart_of_isUuidText h
  · rw [hname]
    exact ⟨hne, no_slash_cleaned text⟩

theorem isSpace_of_mem_uuid {id : String} (h : isUuidText id = true) {c : Char}
    (hc : c ∈ id.toList) : JsString.isSpace c = false := by
  rw [JsString.isSpace, Bool.or_eq_false_iff, decide_eq_false_iff_not, Bool.and_eq_false_iff,
    decide_eq_false_iff_not]
  have hrange : 0x2d ≤ c.toNat ∧ c.toNat ≤ 0x66 := by
    rcases mem_of_isUuidText h c hc with hhex | rfl
    · simp only [isHexDigit, Bool.or_eq_true, Bool.and_eq_true, decide_eq_true_eq, Char.le_def,
        UInt32.le_iff_toNat_le] at hhex
      have h0 : '0'.val.toNat = 0x30 := rfl
      have h9 : '9'.val.toNat = 0x39 := rfl
      have ha : 'a'.val.toNat = 0x61 := rfl
      have hf : 'f'.val.toNat = 0x66 := rfl
      have hA : 'A'.val.toNat = 0x41 := rfl
      have hF : 'F'.val.toNat = 0x46 := rfl
      change 0x2d ≤ c.val.toNat ∧ c.val.toNat ≤ 0x66
      omega
    · decide
  refine ⟨fun hmem => ?_, .inl (by omega)⟩
  simp only [mem_cons, not_mem_nil, or_false] at hmem
  omega

theorem isDot_fileNameFor (title : String) {id : String} (h : isUuidText id = true) :
    (fileNameFor title id).all isDot = true := by
  rw [List.all_eq_true]
  intro c hc
  rcases fileNameFor_eq title id with hid | ⟨text, -, hname⟩
  · rw [hid] at hc
    exact isDot_of_not_isSpace (isSpace_of_mem_uuid h hc)
  · rw [hname] at hc
    rcases mem_cleaned hc with ⟨-, hspace⟩ | rfl | rfl
    · exact isDot_of_not_isSpace hspace
    · decide
    · decide

theorem cleaned_of_spaces {text : Text} (h : ∀ c ∈ text, JsString.isSpace c = true) :
    cleaned text = [] := by
  have hspaces : ∀ c ∈ JsString.collapse false
      (text.map fun c => if isRefused c then ' ' else c), JsString.isSpace c = true := by
    intro c hc
    rcases mem_collapse hc with ⟨hc, -⟩ | rfl
    · obtain ⟨d, hd, rfl⟩ := List.mem_map.mp hc
      split_ifs
      · decide
      · exact h d hd
    · decide
  have htrim : trimLine (JsString.collapse false
      (text.map fun c => if isRefused c then ' ' else c)) = [] := by
    rw [trimLine, dropWhile_eq_nil_iff.mpr hspaces]
    rfl
  rw [cleaned, htrim]
  rfl

end Names

/-! ### What a file says -/

namespace ExportPage

variable {js : Js} {page : ExportPage} {fallback cs rest : Text} {c : Char}

theorem joinParagraphs_cons (first : Text) (lines : List Text) :
    joinParagraphs (first :: lines) =
      first ++ (if lines = [] then [] else '\n' :: '\n' :: joinParagraphs lines) := by
  rw [joinParagraphs, joinParagraphs]
  cases lines with
  | nil => simp
  | cons second lines => simp [intercalate_cons_cons]

/-- **A heading is written** without what its title ends with that the file does not keep. -/
theorem written_heading {spaces : Text} (hspaces : ∀ c ∈ spaces, JsString.isSpace c = true)
    (hc : JsString.isSpace c = false) :
    ∃ left rest, (∀ c ∈ left, JsString.isSpace c = true) ∧ left ≠ [] ∧
      page.written ('#' :: ' ' :: (spaces ++ c :: cs)) = '#' :: (left ++ c :: rest) := by
  have hall : ∀ d ∈ ' ' :: spaces, JsString.isSpace d = true :=
    forall_mem_cons.mpr ⟨by decide, hspaces⟩
  obtain ⟨left, hleft, hne, hstrip⟩ := @stripLineEnds_spaces cs c (' ' :: spaces) hall hc
  rw [written]
  split_ifs
  · exact ⟨' ' :: spaces, cs ++ ['\n'], hall, by simp, by simp⟩
  · refine ⟨left, stripLineEnds cs ++ ['\n'], hleft, hne (by simp), ?_⟩
    rw [stripLineEnds_cons_of_not_isSpace (by decide), ← cons_append, hstrip]
    simp

/-- **A file with a title** that is one keeps it, and what is below it as it is alone. -/
theorem markdown_of_isTitle (h : IsTitle page.title.toList) :
    page.markdown js = '#' :: ' ' :: (page.title.toList ++
      (if page.below js = [] then ['\n']
      else '\n' :: '\n' :: page.written (joinParagraphs (page.below js)))) := by
  have htitle : page.title ≠ "" := fun hempty => h.ne_nil (by rw [hempty]; rfl)
  have hkept : ∀ rest, stripLineEnds ('#' :: ' ' :: (page.title.toList ++ rest)) =
      '#' :: ' ' :: (page.title.toList ++ stripLineEnds rest) := by
    intro rest
    have hline : ('#' :: ' ' :: page.title.toList).all isDot = true := by
      rw [all_cons, all_cons, h.isDot]
      decide
    have hlast : ∀ c ∈ ('#' :: ' ' :: page.title.toList).getLast?, JsString.isSpace c = false := by
      obtain ⟨first, chars, hchars, -⟩ := h.head
      intro c hc
      rw [hchars, List.getLast?_cons_cons, List.getLast?_cons_cons, ← hchars] at hc
      exact h.getLast c hc
    exact stripLineEnds_append hline hlast
  have hbreak : ∀ rest, stripLineEnds ('\n' :: '\n' :: rest) = '\n' :: '\n' :: stripLineEnds rest :=
    fun rest => rfl
  rw [markdown, titleHeading, if_neg htitle, joinParagraphs_cons, written, written]
  simp only [cons_append]
  split_ifs with hcanvas hbelow
  · simp
  · simp
  · rw [hkept]
    simp [stripLineEnds]
  · rw [hkept, hbreak]
    simp

theorem titleFrom_markdown (h : IsTitle page.title.toList) :
    titleFrom (page.markdown js) fallback = page.title.toList := by
  rw [markdown_of_isTitle h]
  refine titleFrom_heading h ?_
  split_ifs <;> rfl

/-- **No other title is read**, where what is taken instead of a blank one is not blank. -/
theorem isTitle_of_titleFrom (hdot : fallback.all isDot = true) (hne : fallback ≠ [])
    (hblank : page.title ≠ "" → (∀ c ∈ page.title.toList, JsString.isSpace c = true) →
      ∃ c ∈ fallback, JsString.isSpace c = false)
    (h : titleFrom (page.markdown js) fallback = page.title.toList) :
    IsTitle page.title.toList := by
  by_cases hspaces : ∀ c ∈ page.title.toList, JsString.isSpace c = true
  · rcases titleFrom_isTitle (page.markdown js) hdot with htitle | hfallback
    · rwa [h] at htitle
    · have hempty : page.title ≠ "" := by
        intro hempty
        rw [hempty] at h
        exact hne (hfallback.symm.trans h)
      obtain ⟨c, hc, hnot⟩ := hblank hempty hspaces
      rw [← hfallback, h] at hc
      rw [hspaces c hc] at hnot
      cases hnot
  · -- the title is what its heading says from the first that is no space
    obtain ⟨spaces, c, cs, htitle, hall, hc⟩ : ∃ spaces c cs,
        page.title.toList = spaces ++ c :: cs ∧ (∀ c ∈ spaces, JsString.isSpace c = true) ∧
          JsString.isSpace c = false := by
      push Not at hspaces
      obtain ⟨c, hc, hnot⟩ := hspaces
      cases hdrop : page.title.toList.dropWhile JsString.isSpace with
      | nil => exact absurd (dropWhile_eq_nil_iff.mp hdrop c hc) hnot
      | cons d cs =>
        refine ⟨page.title.toList.takeWhile JsString.isSpace, d, cs, ?_, ?_, ?_⟩
        · rw [← hdrop, takeWhile_append_dropWhile]
        · exact fun c hc => List.all_eq_true.mp (all_takeWhile ..) c hc
        · exact eq_false_of_dropWhile hdrop
    have hne : page.title ≠ "" := by
      intro hempty
      rw [hempty] at htitle
      exact absurd htitle (by simp)
    have hmarkdown : page.markdown js = page.written ('#' :: ' ' :: (spaces ++ c :: (cs ++
        (if page.below js = [] then []
          else '\n' :: '\n' :: joinParagraphs (page.below js))))) := by
      rw [markdown, joinParagraphs_cons, titleHeading, if_neg hne, htitle]
      simp
    obtain ⟨left, rest, hleft, hleftne, hwritten⟩ :=
      @written_heading page (cs ++ (if page.below js = [] then []
          else '\n' :: '\n' :: joinParagraphs (page.below js))) c spaces hall hc
    obtain ⟨hread, hisTitle⟩ := @titleFrom_of_heading rest fallback c left hleft hleftne hc
    rw [← hwritten, ← hmarkdown, h] at hread
    rwa [← hread] at hisTitle

theorem searchLines_break {α : Type*} {pattern : Text → Option α}
    (h : pattern ('\n' :: rest) = none) :
    searchLines pattern true ('\n' :: rest) = searchLines pattern true rest := by
  rw [searchLines, if_pos rfl, h]
  rfl

/-- **Whether a file is a board** is said below its title. -/
theorem saysCanvas_markdown (h : IsTitle page.title.toList) :
    saysCanvas js (page.markdown js) =
      saysCanvas js (page.written (joinParagraphs (page.below js))) := by
  have hsearch : searchLines entryAt true (page.markdown js) =
      searchLines entryAt true (page.written (joinParagraphs (page.below js))) := by
    have hbreak : ∀ rest, searchLines entryAt true ('\n' :: rest) =
        searchLines entryAt true rest :=
      fun rest => searchLines_break (entryAt_of_head? (by simp))
    have hline : (' ' :: page.title.toList).all isDot = true := by
      rw [all_cons, h.isDot]
      decide
    have hheading : ∀ rest, searchLines entryAt true
        ('#' :: ' ' :: (page.title.toList ++ '\n' :: rest)) = searchLines entryAt true rest := by
      intro rest
      have hbelow := @searchLines_entryAt_heading (' ' :: page.title.toList) rest hline
      rw [hbreak] at hbelow
      exact hbelow
    rw [markdown_of_isTitle h]
    split_ifs with hnil
    · rw [hheading, hnil, written]
      split_ifs
      · exact (hbreak []).symm
      · exact (hbreak []).symm
    · rw [hheading, hbreak]
  rw [saysCanvas, entryFrom, hsearch]
  rfl

end ExportPage

/-! ### Places -/

namespace ExportSet

variable {js : Js} {set : ExportSet} {page above : ExportPage} {fallback : Text}

theorem parent_mem (h : set.parent page = some above) : above ∈ set.pages.rows := by
  rw [parent] at h
  split at h
  · cases h
  · obtain ⟨id, -, hfind⟩ := Option.bind_eq_some_iff.mp h
    exact Keyed.mem_rows hfind

theorem pathOf_eq_walk (set : ExportSet) (left : ℕ) (id : String) :
    set.pathOf left id = walk set.parent ExportPage.fileName left (set.pages.find id) := by
  induction left generalizing id with
  | zero => rfl
  | succ left ih =>
    rw [pathOf]
    cases hfind : set.pages.find id with
    | none => rfl
    | some page =>
      have hid : page.id = id := Keyed.key_eq hfind
      dsimp only
      rw [walk, parent, hid]
      split_ifs with hroot
      · rw [walk_none]
      · cases hparent : page.parentId with
        | none =>
          rw [Option.bind_none, walk_none]
        | some parent =>
          rw [Option.bind_some, ← ih]

theorem place_eq_walk (h : page ∈ set.pages.rows) :
    set.place page = walk set.parent ExportPage.fileName 64 (some page) := by
  rw [place, pathOf_eq_walk, Keyed.mem_rows_iff.mp h]

theorem place_eq_of_isTrail {trail : List Text} (h : page ∈ set.pages.rows)
    (htrail : IsTrail set.parent ExportPage.fileName page trail) (hlength : trail.length ≤ 64) :
    set.place page = trail := by
  rw [place_eq_walk h, htrail.walk_eq hlength]

theorem isTrail_place (h : page ∈ set.pages.rows) (hlength : (set.place page).length < 64) :
    IsTrail set.parent ExportPage.fileName page (set.place page) := by
  rw [place_eq_walk h] at hlength ⊢
  exact isTrail_of_length_walk_lt hlength

theorem exists_place_eq (h : page ∈ set.pages.rows) :
    ∃ front, set.place page = front ++ [page.fileName] := by
  rw [place_eq_walk h, walk]
  exact ⟨_, rfl⟩

theorem isPart_place (h : page ∈ set.pages.rows) : ∀ part ∈ set.place page, IsPart part := by
  intro part hpart
  rw [place_eq_walk h] at hpart
  obtain ⟨other, rfl⟩ := exists_of_mem_walk hpart
  exact isPart_fileNameFor other.title other.isUuid

def entryParts (set : ExportSet) (page : ExportPage) : List Text :=
  if page.isFolder then set.place page ++ ["index.md".toList]
  else (set.place page).dropLast ++ [page.fileName ++ ".md".toList]

theorem entryName_eq (h : page ∈ set.pages.rows) :
    set.entryName page = joinPath (set.entryParts page) := by
  obtain ⟨front, hplace⟩ := exists_place_eq h
  rw [entryName, entryParts]
  split_ifs with hfolder
  · exact joinPath_concat (by simp [hplace]) _
  · rw [hplace, dropLast_concat]
    exact joinPath_append ..

theorem isPart_entryParts (h : page ∈ set.pages.rows) :
    ∀ part ∈ set.entryParts page, IsPart part := by
  intro part hpart
  rw [entryParts] at hpart
  split_ifs at hpart
  · rcases mem_append.mp hpart with hpart | hpart
    · exact isPart_place h part hpart
    · rw [mem_singleton.mp hpart]
      exact ⟨by decide, by decide⟩
  · rcases mem_append.mp hpart with hpart | hpart
    · exact isPart_place h part (dropLast_subset _ hpart)
    · have hname := isPart_fileNameFor page.title page.isUuid
      rw [mem_singleton.mp hpart]
      refine ⟨?_, ?_⟩
      · rw [ExportPage.fileName]
        exact fun hnil => hname.ne_nil (append_eq_nil_iff.mp hnil).1
      · rw [mem_append, not_or]
        exact ⟨hname.no_slash, by decide⟩

theorem entryParts_ne_nil (set : ExportSet) (page : ExportPage) : set.entryParts page ≠ [] := by
  rw [entryParts]
  split_ifs <;> simp

theorem entryParts_congr {other : ExportPage} (h : page ∈ set.pages.rows)
    (h' : other ∈ set.pages.rows) (hplace : set.place page = set.place other)
    (hfolder : page.isFolder = other.isFolder) : set.entryParts page = set.entryParts other := by
  obtain ⟨front, hfront⟩ := exists_place_eq h
  obtain ⟨front', hfront'⟩ := exists_place_eq h'
  have hname : page.fileName = other.fileName := by
    rw [hfront, hfront'] at hplace
    exact (append_singleton_inj.mp hplace).2
  rw [entryParts, entryParts, hplace, hfolder, hname]

end ExportSet

end Sone.Export
