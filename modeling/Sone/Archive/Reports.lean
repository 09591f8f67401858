import Sone.Archive.Execute
import Sone.Canvas.Fence
import Sone.Doc.Read
import Sone.Files.Detect

/-!
# What an import reports

`executePlan` makes a page by up to five writes in one `try`, and stores the files the page names
between them. What was written before something throws stays: the row of the page is there from
`createEntry` on, and a later throw leaves it behind, reported as failed. `ImportEnv` says of every
write what it throws, and `Importing` keeps what was done.

Storing a file has a `try` of its own, but looking at its bytes does not: an archive that is cut
off makes every page fail that names it (`Detect.CutOff`, `ends_uploadFor`).

`Reports` is what is wanted of a run. Every page always has one line (`accounted_runPages`) and a
page fails for want of its folder only where that has failed (`fails_of_parentOf`), so it comes
down to the pages that end halfway (`Completes`, `reports_iff`).
-/

namespace Sone.Import

open List

open Zip Export

/-! ### The files of an archive -/

/-- What an archive's file became here. -/
structure UploadedFile extends Sone.UploadedFile where
  mime : String
  category : String

def categoryOf (mime : String) : String :=
  if "image/".toList.isPrefixOf mime.toList then "image"
  else if "video/".toList.isPrefixOf mime.toList then "video"
  else if mime = "application/pdf" then "pdf"
  else if "text/".toList.isPrefixOf mime.toList then "text"
  else if mime = "application/zip" then "archive"
  else "document"

/-- What stands between an opening and a closing, where a text begins with them and it is not
empty. -/
def enclosedAt (opening : Text) (closing : Char) (cs : Text) : Option Text :=
  (stripPrefix opening cs).bind fun rest =>
    let name := rest.takeWhile fun c => c ≠ closing
    if name = [] ∨ rest.length = name.length then none else some name

/-- `matchAll`: what stands between an opening and a closing, from left to right. What belongs to
the match before is passed over. -/
def matchAll (opening : Text) (closing : Char) : ℕ → Text → List Text
  | _, [] => []
  | passed + 1, _ :: cs => matchAll opening closing passed cs
  | 0, c :: cs =>
    match enclosedAt opening closing (c :: cs) with
    | some name => name :: matchAll opening closing (opening.length + name.length) cs
    | none => matchAll opening closing 0 cs

/-- The names of the files that a text refers to: by links, and by the items of a board. -/
def references (markdown : Text) : List String :=
  (matchAll "](attachments/".toList ')' 0 markdown ++
    matchAll "\"attachmentRef\":\"".toList '"' 0 markdown).map String.ofList

/-! ### The look of a page -/

/-- `[a-z][a-z0-9-]{0,48}` -/
def isIconName (name : String) : Bool :=
  match name.toList with
  | [] => false
  | c :: cs => c.isLower && cs.length ≤ 48 && cs.all fun c => c.isLower || c.isDigit || c = '-'

def readEntryIcon (js : Js) (value : Option JsValue) : Option JsValue := do
  let raw ← value.filter JsValue.isObject
  if (raw.get "kind").string? ≠ some "icon" then none
  else
    let name ← (raw.get "value").string?.filter isIconName
    let color := (PageDocument.readChosenColor js (raw.get "color")).map fun color =>
      ("color", JsValue.string color)
    return .object ([("kind", .string "icon"), ("value", .string name)] ++ color.toList)

def readTitleColor (js : Js) (value : Option JsValue) : Option String := do
  let raw ← value.filter JsValue.isObject
  PageDocument.readChosenColor js (raw.get "titleColor")

/-- `{ ...raw, url }`, of an object that has an `url`. -/
def withUrl (url : String) : JsValue → JsValue
  | .object fields => .object (fields.map fun field =>
      if field.1 = "url" then (field.1, .string url) else field)
  | raw => raw

def rawCover (page : PlannedPage) : Option JsValue := page.entry.bind ImportedEntry.cover

/-- `coverRef`: the file that a cover is, where it is one of the archive's. -/
def coverRef (page : PlannedPage) : Option Text := do
  let raw ← (rawCover page).filter JsValue.isObject
  if (raw.get "kind").string? ≠ some "image" then none
  else
    let url ← (raw.get "url").string?
    (stripPrefix "attachments/".toList url.toList).filter fun name => name ≠ [] ∧ name.all isDot

/-- Whether an entry has anything to say of its look, with the cover that was read. -/
def hasLook (js : Js) (page : PlannedPage) (cover : Option JsValue) : Bool :=
  let icon := page.entry.bind ImportedEntry.icon
  let width := (page.entry.bind ImportedEntry.width).bind JsValue.string?
  (readEntryIcon js icon).isSome || (readTitleColor js icon).isSome || cover.isSome ||
    width = some "full" || width = some "column" || page.entry.any ImportedEntry.template ||
    page.entry.any ImportedEntry.locked

/-- Whether a page has a body to be written: it is a board, or has text and is no folder. -/
def hasBody (page : PlannedPage) : Bool :=
  page.kind = .canvas || (!page.isFolder && trimLine page.markdown ≠ [])

/-! ### Writing a page -/

/-- The writes of one page, and what `createEntry` reads before them. -/
inductive PageCall where
  | nextIndex
  | append
  | materialize
  | createdBy
  | look
  | body
  | rematerialize
  deriving DecidableEq, Repr

/-- What is thrown while a page is made: by one of its writes, or by the bytes of a file that it
names. -/
inductive Thrown where
  | page (call : PageCall) (message : String)
  | attachment (message : String)
  deriving DecidableEq

def Thrown.message : Thrown → String
  | page _ message => message
  | attachment message => message

/-- A row of the table of pages that an import has made. -/
structure TreeRow where
  id : String
  parentPageId : String
  deriving DecidableEq

/-- **What an import has at hand**: its result so far, the rows it has made, the files it has
stored, the bodies it has written with them, and how many pages it has come to and how many files
it has tried to store. -/
structure World where
  executing : Executing
  tree : List TreeRow
  uploaded : YMap UploadedFile
  bodies : List (String × YMap UploadedFile)
  handled : ℕ
  stores : ℕ

/-- What is done while a page is made. What has been written stays where something is thrown. -/
abbrev Importing (α : Type) := ExceptT Thrown (StateM World) α

/-- **What an import meets**: the bytes of the archive's files, where there is a store for them;
what a write of the page of a number throws, where it throws; the row that the try of a number
to store a file gives, where neither `store.put` nor the `INSERT` throws; and fresh ids. -/
structure ImportEnv where
  js : Js
  attachments : Option (YMap (List UInt8))
  pageCall : ℕ → PageCall → Option String
  stored : ℕ → Option { id : String // id ≠ "" }
  newId : ℕ → String
  newId_ne : ∀ n, newId n ≠ ""

/-- The message of the `RangeError` that `readUInt16LE` throws. -/
def rangeErrorMessage (bytes : List UInt8) : String :=
  "The value of \"offset\" is out of range. It must be >= 0 and <= " ++
    toString (bytes.length - 2) ++ ". Received 26"

namespace ImportEnv

variable (env : ImportEnv)

def call (n : ℕ) (c : PageCall) : Importing Unit :=
  match env.pageCall n c with
  | some message => throw (.page c message)
  | none => pure ()

/-- `createEntry`, for the page of a number. -/
def createEntry (n : ℕ) (parent : String) : Importing String := do
  env.call n .nextIndex
  env.call n .append
  env.call n .materialize
  modify fun w => { w with tree := w.tree ++ [⟨env.newId n, parent⟩] }
  env.call n .createdBy
  return env.newId n

/-- A file whose bytes were recognised is stored, where it can be. -/
def storeFile (mapping : YMap UploadedFile) (name : String) (bytes : List UInt8)
    (detected : DetectedType) : Importing (YMap UploadedFile) := do
  let w ← get
  set { w with stores := w.stores + 1 }
  match env.stored w.stores with
  | none => return mapping
  | some id =>
    let file : UploadedFile :=
      { id := id.1
        id_ne := id.2
        sizeBytes := .finite bytes.length
        mime := detected.mime
        category := categoryOf detected.mime }
    modify fun w => { w with uploaded := w.uploaded.set name file }
    return mapping.set name file

/-- One turn of the loop of `uploadFor`. -/
def uploadOne (attachments : YMap (List UInt8)) (mapping : YMap UploadedFile) (name : String) :
    Importing (YMap UploadedFile) := do
  match (← get).uploaded.get name with
  | some already => return mapping.set name already
  | none =>
    match attachments.get name with
    | none => return mapping
    | some bytes =>
      match Detect.detectType bytes with
      | none => throw (.attachment (rangeErrorMessage bytes))
      | some none => return mapping
      | some (some detected) => env.storeFile mapping name bytes detected

/-- `uploadFor`: the files that a text refers to, with what they became. -/
def uploadFor (markdown : Text) : Importing (YMap UploadedFile) :=
  match env.attachments with
  | none => return YMap.empty
  | some attachments => (references markdown).foldlM (env.uploadOne attachments) YMap.empty

/-- The cover of a page, after its file was stored where it is one of the archive's. -/
def uploadCover (page : PlannedPage) : Importing (Option JsValue) :=
  match coverRef page with
  | none => return PageDocument.readEntryCover env.js (rawCover page)
  | some name => do
    let files ← env.uploadFor ("](attachments/".toList ++ name ++ [')'])
    let raw := (files.get (String.ofList name)).bind fun mapped =>
      (rawCover page).map (withUrl ("/api/files/" ++ mapped.id))
    return PageDocument.readEntryCover env.js raw

def writeLook (n : ℕ) (page : PlannedPage) (cover : Option JsValue) : Importing Unit :=
  if hasLook env.js page cover then env.call n .look else pure ()

def writeFiles (n : ℕ) (page : PlannedPage) (id : String) : Importing Unit := do
  let files ← env.uploadFor page.markdown
  env.call n .body
  modify fun w => { w with bodies := w.bodies ++ [(id, files)] }

def writeBody (n : ℕ) (page : PlannedPage) (id : String) : Importing Unit :=
  if hasBody page then env.writeFiles n page id else pure ()

/-- What `executePlan` does in its `try` with the page of a number, below its parent. -/
def writePage (n : ℕ) (page : PlannedPage) (parent : String) : Importing String := do
  let id ← env.createEntry n parent
  let cover ← env.uploadCover page
  env.writeLook n page cover
  env.writeBody n page id
  env.call n .rematerialize
  return id

end ImportEnv

/-- What is done, from a state on: what it gives, and the state after it. -/
def Importing.exec {α : Type} (x : Importing α) (w : World) : Except Thrown α × World :=
  x.run.run w

def written (made : Except Thrown String) : Except String String := made.mapError Thrown.message

namespace ImportEnv

variable (env : ImportEnv) (options : ImportOptions)

/-- One run of the loop: that of `executePage`, with what comes of making the page. -/
def runPage (w : World) (page : PlannedPage) : World :=
  match matchedPage options page, parentOf options w.executing page with
  | none, some parent =>
    let (made, w') := (env.writePage w.handled page parent).exec w
    { w' with
      executing := executePage (fun _ _ _ => written made) options w.executing page
      handled := w.handled + 1 }
  | _, _ =>
    { w with
      executing := executePage (fun _ _ _ => .error "") options w.executing page
      handled := w.handled + 1 }

/-- What is at hand before the first page. -/
def start : World where
  executing :=
    { result := { created := [], collided := [], failed := [] }, madeByPath := YMap.empty }
  tree := []
  uploaded := YMap.empty
  bodies := []
  handled := 0
  stores := 0

/-- What is at hand after so many pages. -/
def runPages (pages : List PlannedPage) : World := pages.foldl (env.runPage options) start

end ImportEnv

/-! ### What is wanted -/

inductive Line where
  | created (id : String)
  | collided (path : String)
  | failed (failure : ImportFailure)

namespace Line

def created? : Line → Option String
  | created id => some id
  | _ => none

/-- The path, where a page was left to the one that is there. -/
def collided? : Line → Option String
  | collided path => some path
  | _ => none

def failed? : Line → Option ImportFailure
  | failed failure => some failure
  | _ => none

end Line

def IsLineOf (page : PlannedPage) : Line → Prop
  | .created _ => True
  | .collided path => path = pathText page.path
  | .failed failure => failure.path = pathText page.path

/-- **Every page has one line** in a report, and there are no others. -/
def Accounted (pages : List PlannedPage) (result : ImportResult) : Prop :=
  ∃ lines, List.Forall₂ IsLineOf pages lines ∧ result.created = lines.filterMap Line.created? ∧
    result.collided = lines.filterMap Line.collided? ∧
    result.failed = lines.filterMap Line.failed?

namespace ImportEnv

variable (env : ImportEnv) (options : ImportOptions)

/-- A page is come to that is not left to another, and whose folder is there. -/
def Comes (w : World) (page : PlannedPage) (parent : String) : Prop :=
  matchedPage options page = none ∧ parentOf options w.executing page = some parent

def Fails (before : List PlannedPage) (page : PlannedPage) : Prop :=
  (env.runPages options (before ++ [page])).executing.result.failed ≠
    (env.runPages options before).executing.result.failed

/-- **An import reports what it did**: every page has one line; the rows that were made are those
of the pages that were created; no page fails by the bytes of a file; and none fails for want of
its folder, unless that has failed. -/
structure Reports (pages : List PlannedPage) : Prop where
  accounted : Accounted pages (env.runPages options pages).executing.result
  nothingLeft : (env.runPages options pages).tree.map TreeRow.id =
    (env.runPages options pages).executing.result.created
  spared : ∀ before page after parent, pages = before ++ page :: after →
    Comes options (env.runPages options before) page parent → ∀ message,
      ((env.writePage before.length page parent).exec (env.runPages options before)).1 ≠
        .error (.attachment message)
  below : ∀ before page after, pages = before ++ page :: after →
    matchedPage options page = none →
    parentOf options (env.runPages options before).executing page = none →
      ∀ front other rest, before = front ++ other :: rest →
        pathText other.path = parentPath page → env.Fails options front other

/-- A file of the archive is one that `detectType` throws of. -/
def IsCutOff (name : String) : Prop :=
  ∃ bytes, env.attachments.bind (fun attachments => attachments.get name) = some bytes ∧
    Detect.CutOff bytes

def coverReferences (page : PlannedPage) : List String :=
  match coverRef page with
  | none => []
  | some name => references ("](attachments/".toList ++ name ++ [')'])

/-- The row of a page is made: what `createEntry` does up to it does not throw. -/
def MakesRow (n : ℕ) : Prop :=
  ∀ c ∈ [PageCall.nextIndex, .append, .materialize], env.pageCall n c = none

def withRow (w : World) (n : ℕ) (parent : String) : World :=
  { w with tree := w.tree ++ [⟨env.newId n, parent⟩] }

/-- **A page is finished** from a state on in which its row is there: no file it refers to is cut
off, and none of the writes that are left for it throws. -/
structure Finishes (w : World) (n : ℕ) (page : PlannedPage) : Prop where
  createdBy : env.pageCall n .createdBy = none
  cover : ∀ name ∈ coverReferences page, ¬env.IsCutOff name
  look : ∀ read, ((env.uploadCover page).exec w).1 = .ok read → hasLook env.js page read = true →
    env.pageCall n .look = none
  files : hasBody page = true → ∀ name ∈ references page.markdown, ¬env.IsCutOff name
  body : hasBody page = true → env.pageCall n .body = none
  rematerialize : env.pageCall n .rematerialize = none

/-- **A page does not end halfway**: where it is come to and its row is made, it is finished. -/
def Completes (w : World) (page : PlannedPage) : Prop :=
  ∀ parent, Comes options w page parent → env.MakesRow w.handled →
    env.Finishes (env.withRow w w.handled parent) w.handled page

end ImportEnv

/-! ### What comes after another -/

section Exec

variable {α β : Type} {w w' : World} {x : Importing α} {f : α → Importing β} {b : β}

theorem exec_pure (a : α) : Importing.exec (pure a) w = (.ok a, w) := rfl

theorem exec_get : Importing.exec get w = (.ok w, w) := rfl

theorem exec_set : Importing.exec (set w') w = (.ok (), w') := rfl

theorem exec_modify (g : World → World) : Importing.exec (modify g) w = (.ok (), g w) := rfl

theorem exec_bind : Importing.exec (x >>= f) w = match x.exec w with
    | (.ok a, w') => (f a).exec w'
    | (.error e, w') => (.error e, w') := by
  obtain ⟨made, w', hmade⟩ : ∃ made w', x.exec w = (made, w') := ⟨_, _, rfl⟩
  have hrun : x.run.run w = (made, w') := hmade
  rw [hmade, Importing.exec, ExceptT.run_bind, StateT.run_bind, hrun]
  cases made <;> rfl

theorem exec_bind_eq_ok_iff : Importing.exec (x >>= f) w = (.ok b, w') ↔
    ∃ a w₁, x.exec w = (.ok a, w₁) ∧ (f a).exec w₁ = (.ok b, w') := by
  rw [exec_bind]
  rcases x.exec w with ⟨_ | a, w₁⟩ <;> simp

end Exec

namespace ImportEnv

variable {env : ImportEnv} {options : ImportOptions} {α β : Type} {w w' : World}

/-- Files that were stored have bytes that are recognised. -/
def Recognised (env : ImportEnv) (w : World) : Prop :=
  ∀ name file, w.uploaded.get name = some file → ¬env.IsCutOff name

/-- Neither the result nor the rows have changed. -/
structure Same (w w' : World) : Prop where
  executing : w'.executing = w.executing
  tree : w'.tree = w.tree
  handled : w'.handled = w.handled

theorem Same.refl (w : World) : Same w w := ⟨rfl, rfl, rfl⟩

theorem Same.trans {w'' : World} (h : Same w w') (h' : Same w' w'') : Same w w'' :=
  ⟨h'.executing.trans h.executing, h'.tree.trans h.tree, h'.handled.trans h.handled⟩

/-- **What is done ends well** exactly where a condition holds, and leaves the result and the rows
as they are. -/
structure Ends (env : ImportEnv) (good : Prop) (w : World) (out : Except Thrown α × World) :
    Prop where
  same : Same w out.2
  recognised : env.Recognised out.2
  ok_iff : (∃ a, out.1 = .ok a) ↔ good

theorem Ends.bind {P Q : Prop} {x : Importing α} {f : α → Importing β}
    (hx : env.Ends P w (x.exec w))
    (hf : ∀ a w', x.exec w = (.ok a, w') → env.Recognised w' → env.Ends Q w' ((f a).exec w')) :
    env.Ends (P ∧ Q) w ((x >>= f).exec w) := by
  rw [exec_bind]
  rcases hout : x.exec w with ⟨e | a, w'⟩
  · rw [hout] at hx
    refine ⟨hx.same, hx.recognised, iff_of_false (by simp) fun h => ?_⟩
    obtain ⟨a, ha⟩ := hx.ok_iff.mpr h.1
    cases ha
  · rw [hout] at hx
    have hnext := hf a w' hout hx.recognised
    exact ⟨hx.same.trans hnext.same, hnext.recognised,
      hnext.ok_iff.trans (and_iff_right (hx.ok_iff.mp ⟨a, rfl⟩)).symm⟩

theorem Ends.congr {P Q : Prop} {out : Except Thrown α × World} (h : env.Ends P w out)
    (hiff : P ↔ Q) : env.Ends Q w out :=
  ⟨h.same, h.recognised, h.ok_iff.trans hiff⟩

theorem ends_pure (hw : env.Recognised w) (a : α) :
    env.Ends True w (Importing.exec (pure a) w) :=
  ⟨Same.refl w, hw, iff_of_true ⟨a, rfl⟩ trivial⟩

theorem ends_call (hw : env.Recognised w) (n : ℕ) (c : PageCall) :
    env.Ends (env.pageCall n c = none) w ((env.call n c).exec w) := by
  rw [call]
  cases env.pageCall n c with
  | none => exact ⟨Same.refl w, hw, iff_of_true ⟨(), rfl⟩ rfl⟩
  | some message =>
    refine ⟨Same.refl w, hw, iff_of_false ?_ (by simp)⟩
    rintro ⟨a, ⟨⟩⟩

theorem Ends.ite {P : Prop} {c : Bool} {x : Importing Unit} (hw : env.Recognised w)
    (h : c = true → env.Ends P w (x.exec w)) :
    env.Ends (c = true → P) w ((if c then x else pure ()).exec w) := by
  cases c with
  | true => exact (h rfl).congr (by simp)
  | false => exact (ends_pure hw ()).congr (by simp)

/-! ### Storing files -/

variable {attachments : YMap (List UInt8)} {mapping : YMap UploadedFile} {name : String}

theorem ends_storeFile (hw : env.Recognised w) (hname : ¬env.IsCutOff name) (bytes : List UInt8)
    (detected : DetectedType) :
    env.Ends True w ((env.storeFile mapping name bytes detected).exec w) := by
  simp only [storeFile, exec_bind, exec_get, exec_set]
  cases env.stored w.stores with
  | none => exact ⟨⟨rfl, rfl, rfl⟩, hw, iff_of_true ⟨_, rfl⟩ trivial⟩
  | some id =>
    simp only [exec_bind, exec_modify, exec_pure]
    refine ⟨⟨rfl, rfl, rfl⟩, fun other file hfile => ?_, iff_of_true ⟨_, rfl⟩ trivial⟩
    dsimp only at hfile
    rw [YMap.get_set] at hfile
    split_ifs at hfile with hother
    · exact hother ▸ hname
    · exact hw other file hfile

/-- **One turn of the loop** goes on unless the file is cut off. -/
theorem ends_uploadOne (hattachments : env.attachments = some attachments)
    (hw : env.Recognised w) :
    env.Ends (¬env.IsCutOff name) w ((env.uploadOne attachments mapping name).exec w) := by
  have hcut : env.IsCutOff name ↔ ∃ bytes, attachments.get name = some bytes ∧
      Detect.CutOff bytes := by
    rw [IsCutOff, hattachments, Option.bind_some]
  simp only [uploadOne, exec_bind, exec_get]
  cases halready : w.uploaded.get name with
  | some already =>
    exact ⟨Same.refl w, hw, iff_of_true ⟨_, rfl⟩ (hw name already halready)⟩
  | none =>
    cases hbytes : attachments.get name with
    | none =>
      refine ⟨Same.refl w, hw, iff_of_true ⟨_, rfl⟩ ?_⟩
      rw [hcut, hbytes]
      simp
    | some bytes =>
      have hcutOff : env.IsCutOff name ↔ Detect.detectType bytes = none := by
        rw [hcut, hbytes, Detect.detectType_eq_none_iff]
        simp
      rw [hcutOff]
      dsimp only
      cases hdetected : Detect.detectType bytes with
      | none =>
        refine ⟨Same.refl w, hw, iff_of_false ?_ (by simp)⟩
        rintro ⟨a, ⟨⟩⟩
      | some detected =>
        cases detected with
        | none => exact ⟨Same.refl w, hw, iff_of_true ⟨_, rfl⟩ (by simp)⟩
        | some detected =>
          exact (ends_storeFile hw (by rw [hcutOff, hdetected]; simp) bytes detected).congr
            (by simp)

theorem ends_uploadAll (hattachments : env.attachments = some attachments) (names : List String)
    (hw : env.Recognised w) :
    env.Ends (∀ name ∈ names, ¬env.IsCutOff name) w
      (Importing.exec (names.foldlM (env.uploadOne attachments) mapping) w) := by
  induction names generalizing w mapping with
  | nil => exact (ends_pure hw _).congr (by simp)
  | cons name names ih =>
    rw [foldlM_cons]
    exact (Ends.bind (ends_uploadOne hattachments hw) fun mapping' w' _ hw' => ih hw').congr
      (by simp only [forall_mem_cons])

theorem ends_uploadFor (hw : env.Recognised w) (markdown : Text) :
    env.Ends (∀ name ∈ references markdown, ¬env.IsCutOff name) w
      ((env.uploadFor markdown).exec w) := by
  rw [uploadFor]
  cases hattachments : env.attachments with
  | none =>
    refine (ends_pure hw _).congr (iff_of_true trivial fun name _ => ?_)
    rintro ⟨bytes, hbytes, -⟩
    rw [hattachments] at hbytes
    cases hbytes
  | some attachments => exact ends_uploadAll hattachments _ hw

theorem ends_uploadCover (hw : env.Recognised w) (page : PlannedPage) :
    env.Ends (∀ name ∈ coverReferences page, ¬env.IsCutOff name) w
      ((env.uploadCover page).exec w) := by
  rw [uploadCover, coverReferences]
  cases coverRef page with
  | none => exact (ends_pure hw _).congr (by simp)
  | some name =>
    exact (Ends.bind (ends_uploadFor hw _) fun files w' _ hw' => ends_pure hw' _).congr
      (by rw [and_true])

/-! ### Making a page -/

theorem ends_writeFiles (hw : env.Recognised w) (n : ℕ) (page : PlannedPage) (id : String) :
    env.Ends ((∀ name ∈ references page.markdown, ¬env.IsCutOff name) ∧
      env.pageCall n .body = none) w ((env.writeFiles n page id).exec w) := by
  rw [writeFiles]
  refine Ends.bind (ends_uploadFor hw _) fun files w₁ _ hw₁ => ?_
  refine (Ends.bind (ends_call hw₁ n .body) fun _ w₂ _ hw₂ => ?_).congr (by rw [and_true])
  exact ⟨⟨rfl, rfl, rfl⟩, hw₂, iff_of_true ⟨(), rfl⟩ trivial⟩

def finishPage (env : ImportEnv) (n : ℕ) (page : PlannedPage) : Importing String := do
  env.call n .createdBy
  let cover ← env.uploadCover page
  env.writeLook n page cover
  env.writeBody n page (env.newId n)
  env.call n .rematerialize
  return env.newId n

theorem exec_call_eq_ok_iff {n : ℕ} {c : PageCall} :
    (env.call n c).exec w = (.ok (), w') ↔ w = w' ∧ env.pageCall n c = none := by
  rw [call]
  cases env.pageCall n c with
  | none => simp [exec_pure]
  | some message =>
    refine iff_of_false ?_ (by simp)
    rintro ⟨⟩

/-- **A page is finished** where nothing that is left to do for it throws. -/
theorem ends_finishPage (hw : env.Recognised w) (n : ℕ) (page : PlannedPage) :
    env.Ends (env.Finishes w n page) w ((env.finishPage n page).exec w) := by
  have hgood : env.Finishes w n page ↔ env.pageCall n .createdBy = none ∧
      (∀ name ∈ coverReferences page, ¬env.IsCutOff name) ∧
      (∀ read, ((env.uploadCover page).exec w).1 = .ok read →
        hasLook env.js page read = true → env.pageCall n .look = none) ∧
      (hasBody page = true → (∀ name ∈ references page.markdown, ¬env.IsCutOff name) ∧
        env.pageCall n .body = none) ∧ env.pageCall n .rematerialize = none := by
    constructor
    · rintro ⟨hcreatedBy, hcover, hlook, hfiles, hbody, hrematerialize⟩
      exact ⟨hcreatedBy, hcover, hlook, fun h => ⟨hfiles h, hbody h⟩, hrematerialize⟩
    · rintro ⟨hcreatedBy, hcover, hlook, hbody, hrematerialize⟩
      exact ⟨hcreatedBy, hcover, hlook, fun h => (hbody h).1, fun h => (hbody h).2,
        hrematerialize⟩
  refine Ends.congr ?_ hgood.symm
  refine Ends.bind (ends_call hw n .createdBy) fun _ w₁ hcall _ => ?_
  obtain ⟨rfl, -⟩ := exec_call_eq_ok_iff.mp hcall
  refine Ends.bind (ends_uploadCover hw page) fun cover w₂ hread hw₂ => ?_
  have hlook : (∀ read, ((env.uploadCover page).exec w).1 = .ok read →
      hasLook env.js page read = true → env.pageCall n .look = none) ↔
        (hasLook env.js page cover = true → env.pageCall n .look = none) := by
    rw [hread]
    simp
  rw [hlook]
  refine Ends.bind (Ends.ite hw₂ fun _ => ends_call hw₂ n .look) fun _ w₃ _ hw₃ => ?_
  refine Ends.bind (Ends.ite hw₃ fun _ => ends_writeFiles hw₃ n page _) fun _ w₄ _ hw₄ => ?_
  exact (Ends.bind (ends_call hw₄ n .rematerialize) fun _ w₅ _ hw₅ => ends_pure hw₅ _).congr
    (by rw [and_true])

theorem eq_of_exec_finishPage {n : ℕ} {page : PlannedPage} {id : String}
    (h : (env.finishPage n page).exec w = (.ok id, w')) : id = env.newId n := by
  obtain ⟨-, w₁, -, h⟩ := exec_bind_eq_ok_iff.mp h
  obtain ⟨cover, w₂, -, h⟩ := exec_bind_eq_ok_iff.mp h
  obtain ⟨-, w₃, -, h⟩ := exec_bind_eq_ok_iff.mp h
  obtain ⟨-, w₄, -, h⟩ := exec_bind_eq_ok_iff.mp h
  obtain ⟨-, w₅, -, h⟩ := exec_bind_eq_ok_iff.mp h
  cases h
  rfl

/-- **A page whose row is not made** leaves everything as it is. -/
theorem exec_writePage_of_not_makesRow {n : ℕ} (hrow : ¬env.MakesRow n) (page : PlannedPage)
    (parent : String) :
    ∃ c message, (env.writePage n page parent).exec w = (.error (.page c message), w) := by
  have hthrows : ∃ c message,
      (env.createEntry n parent).exec w = (.error (.page c message), w) := by
    rw [createEntry]
    simp only [exec_bind, call]
    cases hnextIndex : env.pageCall n .nextIndex with
    | some message => exact ⟨_, message, rfl⟩
    | none =>
      cases happend : env.pageCall n .append with
      | some message => exact ⟨_, message, rfl⟩
      | none =>
        cases hmaterialize : env.pageCall n .materialize with
        | some message => exact ⟨_, message, rfl⟩
        | none => exact absurd (by simp [MakesRow, *]) hrow
  obtain ⟨c, message, h⟩ := hthrows
  exact ⟨c, message, by rw [writePage, exec_bind, h]⟩

theorem exec_writePage_of_makesRow {n : ℕ} (hrow : env.MakesRow n) (page : PlannedPage)
    (parent : String) : (env.writePage n page parent).exec w =
      (env.finishPage n page).exec (env.withRow w n parent) := by
  simp only [MakesRow, forall_mem_cons, not_mem_nil, false_implies, implies_true,
    and_true] at hrow
  obtain ⟨hnextIndex, happend, hmaterialize⟩ := hrow
  simp only [writePage, createEntry, finishPage, call, hnextIndex, happend, hmaterialize,
    exec_bind, exec_pure, exec_modify]
  cases env.pageCall n .createdBy <;> rfl

end ImportEnv

/-! ### One run of the loop -/

def ImportResult.add (result : ImportResult) (line : Line) : ImportResult where
  created := result.created ++ line.created?.toList
  collided := result.collided ++ line.collided?.toList
  failed := result.failed ++ line.failed?.toList

/-- The line that a run of the loop adds, given what comes of making the page. -/
def lineOf (options : ImportOptions) (s : Executing) (page : PlannedPage)
    (made : Except String String) : Line :=
  match matchedPage options page with
  | some _ => .collided (pathText page.path)
  | none =>
    match parentOf options s page with
    | none => .failed { path := pathText page.path, error := "parent_missing" }
    | some _ =>
      match made with
      | .ok id => .created id
      | .error error => .failed { path := pathText page.path, error }

section Execute

variable {options : ImportOptions} {s : Executing} {page : PlannedPage}
  {made : Except String String}

theorem isLineOf_lineOf : IsLineOf page (lineOf options s page made) := by
  rw [lineOf.eq_def]
  cases matchedPage options page with
  | some id => exact rfl
  | none =>
    cases parentOf options s page with
    | none => exact rfl
    | some parent =>
      cases made with
      | ok id => trivial
      | error error => exact rfl

/-- **A page adds its line**, and its path became something unless it has failed. -/
theorem executePage_eq :
    (executePage (fun _ _ _ => made) options s page).result =
        s.result.add (lineOf options s page made) ∧
      ((lineOf options s page made).failed?.isSome = true ∧
          (executePage (fun _ _ _ => made) options s page).madeByPath = s.madeByPath ∨
        ∃ id, (matchedPage options page = some id ∨ made = .ok id) ∧
          (executePage (fun _ _ _ => made) options s page).madeByPath =
            s.madeByPath.set (pathText page.path) id) := by
  rw [executePage, lineOf.eq_def]
  cases hmatched : matchedPage options page with
  | some id =>
    exact ⟨by simp [ImportResult.add, Line.created?, Line.collided?, Line.failed?],
      .inr ⟨id, .inl rfl, rfl⟩⟩
  | none =>
    cases parentOf options s page with
    | none =>
      exact ⟨by simp [ImportResult.add, Line.created?, Line.collided?, Line.failed?],
        .inl ⟨rfl, rfl⟩⟩
    | some parent =>
      cases made with
      | ok id =>
        exact ⟨by simp [ImportResult.add, Line.created?, Line.collided?, Line.failed?],
          .inr ⟨id, .inr rfl, rfl⟩⟩
      | error error =>
        exact ⟨by simp [ImportResult.add, Line.created?, Line.collided?, Line.failed?],
          .inl ⟨rfl, rfl⟩⟩

end Execute

namespace ImportEnv

variable {env : ImportEnv} {options : ImportOptions} {w : World} {page : PlannedPage}
  {parent : String} {pages : List PlannedPage}

theorem runPages_concat (pages : List PlannedPage) (page : PlannedPage) :
    env.runPages options (pages ++ [page]) =
      env.runPage options (env.runPages options pages) page := by
  rw [runPages, runPages, foldl_append, foldl_cons, foldl_nil]

theorem runPage_of_comes (h : Comes options w page parent) :
    env.runPage options w page =
      { ((env.writePage w.handled page parent).exec w).2 with
        executing := executePage
          (fun _ _ _ => written ((env.writePage w.handled page parent).exec w).1)
          options w.executing page
        handled := w.handled + 1 } := by
  rw [runPage, h.1, h.2]

theorem runPage_of_not_comes (h : ∀ parent, ¬Comes options w page parent) :
    env.runPage options w page =
      { w with
        executing := executePage (fun _ _ _ => .error "") options w.executing page
        handled := w.handled + 1 } := by
  rw [runPage]
  split
  · rename_i parent hmatched hparent
    exact absurd ⟨hmatched, hparent⟩ (h parent)
  · rfl

/-- **What a run of the loop is**: that of `executePage`, with what came of the page. -/
theorem exists_executing_runPage (env : ImportEnv) (options : ImportOptions) (w : World)
    (page : PlannedPage) :
    ∃ made, (env.runPage options w page).executing =
        executePage (fun _ _ _ => made) options w.executing page ∧
      ∀ id, made = .ok id → id ≠ "" := by
  by_cases hcomes : ∃ parent, Comes options w page parent
  · obtain ⟨parent, hcomes⟩ := hcomes
    rw [runPage_of_comes hcomes]
    refine ⟨_, rfl, fun id hid => ?_⟩
    by_cases hrow : env.MakesRow w.handled
    · rw [exec_writePage_of_makesRow hrow] at hid
      obtain ⟨made, w', hmade⟩ : ∃ made w', (env.finishPage w.handled page).exec
          (env.withRow w w.handled parent) = (made, w') := ⟨_, _, rfl⟩
      rw [hmade] at hid
      cases made with
      | error thrown => cases hid
      | ok id' =>
        cases hid
        rw [eq_of_exec_finishPage hmade]
        exact env.newId_ne _
    · obtain ⟨c, message, hthrown⟩ := @exec_writePage_of_not_makesRow env w _ hrow page parent
      rw [hthrown] at hid
      cases hid
  · rw [runPage_of_not_comes (not_exists.mp hcomes)]
    exact ⟨.error "", rfl, by simp⟩

/-- **Every page has one line.** -/
theorem accounted_runPages (env : ImportEnv) (options : ImportOptions)
    (pages : List PlannedPage) :
    Accounted pages (env.runPages options pages).executing.result := by
  induction pages using List.reverseRecOn with
  | nil => exact ⟨[], .nil, rfl, rfl, rfl⟩
  | append_singleton pages page ih =>
    obtain ⟨lines, hlines, hcreated, hcollided, hfailed⟩ := ih
    obtain ⟨made, hrun, -⟩ := env.exists_executing_runPage options (env.runPages options pages) page
    refine ⟨lines ++ [lineOf options (env.runPages options pages).executing page made],
      rel_append hlines (.cons isLineOf_lineOf .nil), ?_⟩
    rw [runPages_concat, hrun, executePage_eq.1, ImportResult.add, hcreated, hcollided, hfailed]
    simp only [filterMap_append, filterMap_cons, filterMap_nil]
    refine ⟨?_, ?_, ?_⟩
    · cases Line.created? _ <;> rfl
    · cases Line.collided? _ <;> rfl
    · cases Line.failed? _ <;> rfl

/-- **A page that did not fail** became something for the pages below it, and stays so. -/
theorem exists_get_of_not_fails {front rest : List PlannedPage} {other : PlannedPage}
    (h : ¬env.Fails options front other) :
    ∃ id, id ≠ "" ∧ (env.runPages options (front ++ other :: rest)).executing.madeByPath.get
      (pathText other.path) = some id := by
  induction rest using List.reverseRecOn with
  | nil =>
    obtain ⟨made, hrun, hmade⟩ := env.exists_executing_runPage options (env.runPages options front)
      other
    rw [Fails, not_not, runPages_concat, hrun, executePage_eq.1] at h
    rw [runPages_concat, hrun]
    rcases (@executePage_eq options (env.runPages options front).executing other made).2 with
      ⟨hsome, -⟩ | ⟨id, hid, hget⟩
    · obtain ⟨failure, hfailure⟩ := Option.isSome_iff_exists.mp hsome
      rw [ImportResult.add, hfailure] at h
      simp at h
    · refine ⟨id, hid.elim ne_empty_of_matchedPage fun hid => hmade id hid, ?_⟩
      rw [hget, YMap.get_set, if_pos rfl]
  | append_singleton rest page ih =>
    obtain ⟨id, hid, hget⟩ := ih
    obtain ⟨made, hrun, hmade⟩ := env.exists_executing_runPage options
      (env.runPages options (front ++ other :: rest)) page
    rw [← cons_append, ← append_assoc, runPages_concat, hrun]
    rcases (@executePage_eq options (env.runPages options (front ++ other :: rest)).executing page
      made).2 with ⟨-, hsame⟩ | ⟨id', hid', hset⟩
    · exact ⟨id, hid, by rw [hsame, hget]⟩
    · rw [hset, YMap.get_set]
      split_ifs with hpath
      · exact ⟨id', hid'.elim ne_empty_of_matchedPage fun hid' => hmade id' hid', rfl⟩
      · exact ⟨id, hid, hget⟩

theorem fails_of_parentOf {before front rest : List PlannedPage} {other : PlannedPage}
    (hparent : parentOf options (env.runPages options before).executing page = none)
    (hbefore : before = front ++ other :: rest) (hpath : pathText other.path = parentPath page) :
    env.Fails options front other := by
  by_contra hfails
  obtain ⟨id, hid, hget⟩ := @exists_get_of_not_fails env options front rest other hfails
  rw [← hbefore, hpath] at hget
  rw [parentOf] at hparent
  split_ifs at hparent with htop
  · rw [truthy_eq_some.mpr ⟨rfl, options.ne_empty⟩] at hparent
    cases hparent
  · rw [truthy_eq_some.mpr ⟨hget, hid⟩] at hparent
    cases hparent

/-! ### The rows that are made -/

theorem created_of_comes (h : Comes options w page parent) (made : Except String String) :
    (executePage (fun _ _ _ => made) options w.executing page).result.created =
      w.executing.result.created ++ made.toOption.toList := by
  rw [executePage, h.1, h.2]
  cases made with
  | ok id => rfl
  | error error => exact (append_nil _).symm

theorem created_of_not_comes (h : ∀ parent, ¬Comes options w page parent)
    (made : Except String String) :
    (executePage (fun _ _ _ => made) options w.executing page).result.created =
      w.executing.result.created := by
  rw [executePage]
  cases hmatched : matchedPage options page with
  | some id => rfl
  | none =>
    cases hparent : parentOf options w.executing page with
    | none => rfl
    | some parent => exact absurd ⟨hmatched, hparent⟩ (h parent)

/-- **What a run of the loop adds**: a page that does not end halfway adds the rows that it reports,
and one that does adds a row that it does not. -/
structure Adds (env : ImportEnv) (options : ImportOptions) (w w' : World) (page : PlannedPage) :
    Prop where
  recognised : env.Recognised w'
  handled : w'.handled = w.handled + 1
  reported : env.Completes options w page → ∃ rows : List TreeRow, w'.tree = w.tree ++ rows ∧
    w'.executing.result.created = w.executing.result.created ++ rows.map TreeRow.id
  halfway : ¬env.Completes options w page → w'.tree.length = w.tree.length + 1 ∧
    w'.executing.result.created = w.executing.result.created

theorem adds_runPage (hw : env.Recognised w) (page : PlannedPage) :
    env.Adds options w (env.runPage options w page) page := by
  by_cases hcomes : ∃ parent, Comes options w page parent
  · obtain ⟨parent, hcomes⟩ := hcomes
    have hcompletes : env.Completes options w page ↔ (env.MakesRow w.handled →
        env.Finishes (env.withRow w w.handled parent) w.handled page) := by
      refine ⟨fun h => h parent hcomes, fun h parent' hcomes' => ?_⟩
      obtain rfl := Option.some.inj (hcomes.2.symm.trans hcomes'.2)
      exact h
    rw [runPage_of_comes hcomes]
    by_cases hrow : env.MakesRow w.handled
    · rw [exec_writePage_of_makesRow hrow]
      have hends := @ends_finishPage env (env.withRow w w.handled parent) hw w.handled page
      obtain ⟨made, w', hmade⟩ : ∃ made w', (env.finishPage w.handled page).exec
          (env.withRow w w.handled parent) = (made, w') := ⟨_, _, rfl⟩
      rw [hmade] at hends ⊢
      have htree := hends.same.tree
      refine ⟨hends.recognised, rfl, fun h => ?_, fun h => ?_⟩
      · obtain ⟨id, rfl⟩ := hends.ok_iff.mpr (hcompletes.mp h hrow)
        obtain rfl := eq_of_exec_finishPage hmade
        exact ⟨_, htree, created_of_comes hcomes _⟩
      · have hthrown : ¬∃ id, made = .ok id := fun hok =>
          h (hcompletes.mpr fun _ => hends.ok_iff.mp hok)
        cases made with
        | ok id => exact absurd ⟨id, rfl⟩ hthrown
        | error thrown =>
          refine ⟨?_, (created_of_comes hcomes _).trans (append_nil _)⟩
          dsimp only at htree ⊢
          rw [htree, withRow, length_append, length_singleton]
    · obtain ⟨c, message, hthrown⟩ := @exec_writePage_of_not_makesRow env w _ hrow page parent
      rw [hthrown]
      exact ⟨hw, rfl, fun _ => ⟨[], (append_nil _).symm, created_of_comes hcomes _⟩,
        fun h => absurd (hcompletes.mpr fun hmakes => absurd hmakes hrow) h⟩
  · have hnot := not_exists.mp hcomes
    rw [runPage_of_not_comes hnot]
    exact ⟨hw, rfl, fun _ => ⟨[], (append_nil _).symm,
      (created_of_not_comes hnot _).trans (append_nil _).symm⟩,
      fun h => absurd (fun parent hcomes _ => absurd hcomes (hnot parent)) h⟩

theorem inv_runPages (env : ImportEnv) (options : ImportOptions) (pages : List PlannedPage) :
    (env.runPages options pages).handled = pages.length ∧
      env.Recognised (env.runPages options pages) := by
  induction pages using List.reverseRecOn with
  | nil => exact ⟨rfl, fun name file h => by cases h⟩
  | append_singleton pages page ih =>
    obtain ⟨hhandled, hrecognised⟩ := ih
    have hadds := @adds_runPage env options _ hrecognised page
    rw [runPages_concat, hadds.handled, hhandled, length_append]
    exact ⟨rfl, hadds.recognised⟩

theorem adds_runPages (env : ImportEnv) (options : ImportOptions) (pages : List PlannedPage)
    (page : PlannedPage) : env.Adds options (env.runPages options pages)
      (env.runPages options (pages ++ [page])) page := by
  rw [runPages_concat]
  exact adds_runPage (env.inv_runPages options pages).2 page

theorem Adds.length_le {w' : World} (h : env.Adds options w w' page) {k : ℕ}
    (hw : w.executing.result.created.length + k ≤ w.tree.length) :
    w'.executing.result.created.length + k ≤ w'.tree.length ∧
      (¬env.Completes options w page →
        w'.executing.result.created.length + (k + 1) ≤ w'.tree.length) := by
  by_cases hcompletes : env.Completes options w page
  · obtain ⟨rows, htree, hcreated⟩ := h.reported hcompletes
    rw [htree, hcreated, length_append, length_append, length_map]
    exact ⟨by omega, fun hno => absurd hcompletes hno⟩
  · obtain ⟨htree, hcreated⟩ := h.halfway hcompletes
    rw [htree, hcreated]
    exact ⟨by omega, fun _ => by omega⟩

theorem length_le_append {k : ℕ} {before : List PlannedPage} (after : List PlannedPage)
    (hbefore : (env.runPages options before).executing.result.created.length + k ≤
      (env.runPages options before).tree.length) :
    (env.runPages options (before ++ after)).executing.result.created.length + k ≤
      (env.runPages options (before ++ after)).tree.length := by
  induction after using List.reverseRecOn with
  | nil => rwa [append_nil]
  | append_singleton after last ih =>
    rw [← append_assoc]
    exact ((env.adds_runPages options (before ++ after) last).length_le ih).1

theorem length_lt_of_halfway {before after : List PlannedPage} {page : PlannedPage}
    (h : ¬env.Completes options (env.runPages options before) page) :
    (env.runPages options (before ++ page :: after)).executing.result.created.length <
      (env.runPages options (before ++ page :: after)).tree.length := by
  have hstart := @length_le_append env options 0 [] before le_rfl
  have hnext := ((env.adds_runPages options before page).length_le hstart).2 h
  have hend := length_le_append after hnext
  rw [append_assoc, singleton_append] at hend
  omega

theorem tree_runPages (h : ∀ before page after, pages = before ++ page :: after →
      env.Completes options (env.runPages options before) page) :
    (env.runPages options pages).tree.map TreeRow.id =
      (env.runPages options pages).executing.result.created := by
  induction pages using List.reverseRecOn with
  | nil => rfl
  | append_singleton pages page ih =>
    have hpages := ih fun before page' after heq =>
      h before page' (after ++ [page]) (by rw [heq, append_assoc, cons_append])
    obtain ⟨rows, htree, hcreated⟩ := (env.adds_runPages options pages page).reported
      (h pages page [] rfl)
    rw [htree, hcreated, map_append, hpages]

/-- **The bytes of a file make no page fail** that does not end halfway. -/
theorem spared_of_completes {before : List PlannedPage}
    (h : env.Completes options (env.runPages options before) page)
    (hcomes : Comes options (env.runPages options before) page parent) (message : String) :
    ((env.writePage before.length page parent).exec (env.runPages options before)).1 ≠
      .error (.attachment message) := by
  obtain ⟨hhandled, hrecognised⟩ := env.inv_runPages options before
  intro hthrown
  by_cases hrow : env.MakesRow before.length
  · rw [exec_writePage_of_makesRow hrow] at hthrown
    have hends := @ends_finishPage env (env.withRow (env.runPages options before) before.length
      parent) hrecognised before.length page
    have hfinishes := h parent hcomes (hhandled ▸ hrow)
    rw [hhandled] at hfinishes
    obtain ⟨id, hid⟩ := hends.ok_iff.mpr hfinishes
    rw [hid] at hthrown
    cases hthrown
  · obtain ⟨c, text, hpage⟩ := @exec_writePage_of_not_makesRow env (env.runPages options before) _
      hrow page parent
    rw [hpage] at hthrown
    cases hthrown

theorem Reports.completes (h : env.Reports options pages) {before after : List PlannedPage}
    (heq : pages = before ++ page :: after) :
    env.Completes options (env.runPages options before) page := by
  by_contra hhalfway
  have hlt := @length_lt_of_halfway env options before after page hhalfway
  rw [← heq, ← h.nothingLeft, length_map] at hlt
  exact lt_irrefl _ hlt

/-- An archive with one file, the first four bytes of a ZIP archive. All that is written
succeeds. -/
def cutOffFile : ImportEnv where
  js := Js.ascii
  attachments := some (YMap.empty.set "a.zip" Detect.zipSignature)
  pageCall := fun _ _ => none
  stored := fun _ => none
  newId := fun n => String.ofList (List.replicate (n + 1) 'x')
  newId_ne := fun n h => by simpa using congrArg String.length h

end ImportEnv

end Sone.Import
