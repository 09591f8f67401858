import Sone.Canvas.Board
import Sone.Markdown.Blocks
import Sone.Wire.Json

/-!
# A canvas as a fence

`canvasToMarkdown` ends with a fence that has the whole board in one line of JSON. `writeCanvas`
takes the fence out of the Markdown, sets the background, sorts the items by `localeCompare` of
their stacking keys and adds them one after the other, so that the last one is in front.

An item is written field by field and each is read by itself: `freshItem_reading` says what of an
item comes back. `markdownToBlocks_fence` says that a fence is read as the block it was written of.
-/

namespace Sone

open List Option

namespace Canvas

/-! ### `canvasToMarkdown` -/

def fence (js : Js) (type : String) (props : JsValue) (text : Text) : Text :=
  joinLines ([("```sone-" ++ type).toList, Json.stringify js props] ++
    (if text = [] then [] else [text]) ++ ["```".toList])

/-- The fields of an item, with the file it refers to last. -/
def itemFields (item : CanvasItem) : List (String × Option JsValue) :=
  [("id", some (.string item.id)), ("kind", some (.string item.kind.toString)),
    ("x", some (.number (.finite item.x))), ("y", some (.number (.finite item.y))),
    ("w", some (.number (.finite item.w))), ("h", some (.number (.finite item.h))),
    ("z", some (.string item.z)), ("text", item.text.map .string),
    ("points", item.points.map fun points => .array (points.map .number)),
    ("colour", item.colour.map .string), ("width", item.width.map .number),
    ("fill", item.fill.map .string), ("size", item.size.map .number),
    ("locked", if item.locked then some (.boolean true) else none),
    ("filename", item.filename.map .string), ("sizeBytes", item.sizeBytes.map .number),
    ("attachmentRef", (truthyText item.fileId).map .string)]

def itemValue (item : CanvasItem) : JsValue := .object (Json.present (itemFields item))

def boardValue (background : CanvasBackground) (items : List CanvasItem) : JsValue :=
  .object [("background", .string background.toString), ("items", .array (items.map itemValue))]

/-- The fence that `canvasToMarkdown` writes below the title. -/
def canvasFence (js : Js) (canvas : Canvas) : Text :=
  fence js "canvas" (boardValue (readBackground canvas) (readCanvas js canvas)) [] ++ ['\n']

end Canvas

/-! ### `writeCanvas` -/

/-- `UploadedFile`, as far as a board needs it. -/
structure UploadedFile where
  id : String
  id_ne : id ≠ ""
  sizeBytes : JsNumber

namespace Canvas

/-- `typeof item[key] === 'number' && Number.isFinite(item[key])`, and the number. -/
def numberAt (item : JsValue) (key : String) : Option JsNumber :=
  (item.get key).finite?.map .finite

/-- `typeof item[key] === 'string'`, and the string. -/
def stringAt (item : JsValue) (key : String) : Option String := (item.get key).string?

/-- What `writeCanvas` adds for an item. A kind it does not know is left out, and so is a picture
whose file the archive does not have. -/
def freshItem (files : YMap UploadedFile) (id : String) (item : JsValue) : Option NewItem :=
  ((stringAt item "kind").bind CanvasItemKind.ofString?).bind fun kind =>
    let mapped := (truthyText (stringAt item "attachmentRef")).bind files.get
    if kind = .image ∧ mapped.isNone then none
    else some
      { id := id
        kind := kind
        x := (numberAt item "x").getD (.finite 0)
        y := (numberAt item "y").getD (.finite 0)
        w := numberAt item "w"
        h := numberAt item "h"
        text := stringAt item "text"
        fileId := mapped.map (·.id)
        sizeBytes := mapped.map (·.sizeBytes)
        points := (item.get "points").array?.map fun points => points.filterMap JsValue.number?
        colour := stringAt item "colour"
        width := numberAt item "width"
        fill := stringAt item "fill"
        size := numberAt item "size"
        filename := stringAt item "filename" }

/-- The item whose key is the last of the map is locked. The background is no item; its key is
never the last, as an item is added before. -/
def lockLast (canvas : Canvas) : Canvas :=
  match canvas.rows.getLast? with
  | some (id, .map item) =>
    if id = "" then canvas
    else canvas.set id (.map (item.set CanvasKeys.locked (.plain (.boolean true))))
  | _ => canvas

/-- One turn of the loop of `writeCanvas`. -/
def writeItem (js : Js) (files : YMap UploadedFile) (canvas : Canvas) (id : String)
    (item : JsValue) : Except FractionalIndex.Failure Canvas :=
  match freshItem files id item with
  | none => .ok canvas
  | some fresh => (addItem js canvas fresh).map fun canvas =>
      if (item.get "locked").isTrue then lockLast canvas else canvas

/-- The loop, from the turn of a number on. -/
def writeItems (js : Js) (files : YMap UploadedFile) (ids : ℕ → String) :
    ℕ → List JsValue → Canvas → Except FractionalIndex.Failure Canvas
  | _, [], canvas => .ok canvas
  | n, item :: items, canvas => do
    writeItems js files ids (n + 1) items (← writeItem js files canvas (ids n) item)

/-- `!!item && typeof item === 'object'` -/
def isObjectType : JsValue → Bool
  | .object _ | .array _ => true
  | _ => false

/-- `String(item['z'] ?? '')` -/
def zText (js : Js) (item : JsValue) : String :=
  js.toText (if (item.get "z").isNullish then .string "" else item.get "z")

/-- The items of a fence, in the order `writeCanvas` adds them. -/
def sortedItems (js : Js) (props : YMap JsValue) : List JsValue :=
  ((((props.get "items").bind JsValue.array?).getD []).filter isObjectType).mergeSort
    fun a b => js.localeLe (zText js a) (zText js b)

def setNamedBackground (canvas : Canvas) (props : YMap JsValue) : Canvas :=
  match ((props.get "background").bind JsValue.string?).bind CanvasBackground.ofString? with
  | some background => setBackground canvas background
  | none => canvas

/-- `writeCanvas`, where the Markdown is read within `fuel` turns. The ids are those that
`crypto.randomUUID` gives. -/
def writeCanvas (js : Js) (fuel : ℕ) (ids : ℕ → String) (files : YMap UploadedFile)
    (markdown : Text) (canvas : Canvas) : Option (Except FractionalIndex.Failure Canvas) :=
  (markdownToBlocks js fuel markdown).map fun blocks =>
    match blocks.find? fun block => block.type = "canvas" with
    | none => .ok canvas
    | some fenced =>
      writeItems js files ids 0 (sortedItems js fenced.props)
        (setNamedBackground canvas fenced.props)

/-! ### The fence is read -/

section Fence

variable {js : Js} {fields : List (String × JsValue)} {fuel : ℕ}

theorem normaliseBreaks_eq {cs : Text} (h : '\r' ∉ cs) : normaliseBreaks cs = cs := by
  induction cs with
  | nil => rfl
  | cons c cs ih =>
    obtain ⟨hc, hcs⟩ := not_or.mp (mt mem_cons.mpr h)
    rw [normaliseBreaks, ih hcs]
    · rintro cs' rfl
      exact absurd rfl hc
    · rintro rfl
      exact absurd rfl hc

theorem linesOf_joinLines {lines : List Text} (hne : lines ≠ [])
    (h : ∀ line ∈ lines, '\n' ∉ line ∧ '\r' ∉ line) : linesOf (joinLines lines) = lines := by
  have hreturn : '\r' ∉ joinLines lines := by
    clear hne
    induction lines with
    | nil => decide
    | cons line lines ih =>
      obtain ⟨hline, hlines⟩ := forall_mem_cons.mp h
      by_cases hnil : lines = []
      · rw [joinLines, hnil, intercalate_singleton]
        exact hline.2
      · rw [joinLines, intercalate_cons_of_ne_nil hnil, mem_append, mem_append]
        rintro ((hmem | hmem) | hmem)
        · exact hline.2 hmem
        · exact absurd hmem (by decide)
        · exact ih hlines hmem
  rw [linesOf, normaliseBreaks_eq hreturn]
  exact splitOn_intercalate '\n' (fun line hline => (h line hline).1) hne

theorem readFence_object (rest : List Text) :
    readFence (Json.stringify js (.object fields) :: "```".toList :: rest) =
      ([Json.stringify js (.object fields)], rest) := by
  have hopen : trimLine (Json.stringify js (.object fields)) ≠ "```".toList := by
    intro heq
    have hmark : markOf (Json.stringify js (.object fields)) = some '{' :=
      markOf_of_head? (by rw [Json.stringify]; rfl) (by decide)
    rw [← head?_trimLine, heq] at hmark
    exact absurd hmark (by decide)
  obtain ⟨isOpen, hisOpen⟩ : ∃ isOpen : Text → Bool,
      isOpen = fun line => decide (trimLine line ≠ "```".toList) := ⟨_, rfl⟩
  have hopened : isOpen (Json.stringify js (.object fields)) = true := by
    rw [hisOpen]
    exact decide_eq_true hopen
  have hclosed : ¬isOpen "```".toList = true := by
    rw [hisOpen]
    decide
  rw [readFence, ← hisOpen, dropWhile_cons_of_pos hopened, dropWhile_cons_of_neg hclosed,
    takeWhile_cons_of_pos hopened, takeWhile_cons_of_neg hclosed]

/-- **The fence** is read as a block of what was written, after two turns. -/
theorem markdownToBlocks_fence (hparse : ∀ s, js.parseJson s = Json.parse js s.toList)
    (hdata : Json.IsData js (.object fields)) :
    markdownToBlocks js fuel (fence js "canvas" (.object fields) [] ++ ['\n']) =
      if 2 ≤ fuel then
        some [⟨"canvas", [], none, propsOf (Json.readingMembers fields), 0⟩]
      else none := by
  obtain ⟨json, hjson⟩ : ∃ json, json = Json.stringify js (.object fields) := ⟨_, rfl⟩
  have hlines : linesOf (fence js "canvas" (.object fields) [] ++ ['\n']) =
      ["```sone-canvas".toList, json, "```".toList, []] := by
    have hjoin : fence js "canvas" (.object fields) [] ++ ['\n'] =
        joinLines ["```sone-canvas".toList, json, "```".toList, []] := by
      rw [fence, ← hjson]
      simp [joinLines]
    rw [hjoin]
    refine linesOf_joinLines (by simp) fun line hline => ?_
    have hvisible : ∀ c ∈ line, 0x20 ≤ c.toNat := by
      simp only [mem_cons, not_mem_nil, or_false] at hline
      rcases hline with rfl | rfl | rfl | rfl
      · exact Json.visible_of_all (by decide)
      · exact hjson ▸ hdata.visible
      · exact Json.visible_of_all (by decide)
      · exact Json.visible_of_all (by decide)
    exact ⟨fun hmem => absurd (hvisible _ hmem) (by decide),
      fun hmem => absurd (hvisible _ hmem) (by decide)⟩
  have hblock : BlockReader.soneBlock js "canvas".toList [json] =
      ⟨"canvas", [], none, propsOf (Json.readingMembers fields), 0⟩ := by
    have hread : js.parseJson (String.ofList ([json].headD "{}".toList)) =
        some (.object (Json.readingMembers fields)) := by
      rw [hparse, String.toList_ofList, headD_cons, hjson, hdata.parse, Json.reading]
    rw [BlockReader.soneBlock, hread]
    rfl
  have hfirst : BlockReader.next js ⟨["```sone-canvas".toList, json, "```".toList, []], []⟩ =
      ⟨[[]], [⟨"canvas", [], none, propsOf (Json.readingMembers fields), 0⟩]⟩ := by
    have hfence : soneFence (trimLine "```sone-canvas".toList) = some "canvas".toList := by
      decide +kernel
    rw [BlockReader.next]
    simp only
    rw [BlockReader.turn, if_neg (by decide +kernel), if_neg (by decide +kernel), hfence, hjson,
      readFence_object, ← hjson, ← hblock]
    rfl
  have hsecond : ∀ blocks, BlockReader.next js ⟨[[]], blocks⟩ = ⟨[], blocks⟩ :=
    fun blocks => by
      rw [BlockReader.next]
      exact if_pos (by decide)
  rw [markdownToBlocks, hlines]
  rcases fuel with _ | _ | fuel
  · rfl
  · rw [BlockReader.run, if_neg (by simp), hfirst]
    rfl
  · rw [BlockReader.run, if_neg (by simp), hfirst, BlockReader.run, if_neg (by simp), hsecond,
      if_pos (by omega)]
    cases fuel <;> rfl

end Fence

/-! ### What is read of an item -/

/-- The file an item refers to, among those that were uploaded. -/
def attached (files : YMap UploadedFile) (item : CanvasItem) : Option UploadedFile :=
  (truthyText item.fileId).bind files.get

/-- `Number.isFinite(n)` -/
def isFinite : JsNumber → Bool
  | .finite _ => true
  | _ => false

def copyOf (files : YMap UploadedFile) (id : String) (item : CanvasItem) : NewItem where
  id := id
  kind := item.kind
  x := .finite item.x
  y := .finite item.y
  w := some (.finite item.w)
  h := some (.finite item.h)
  text := item.text
  fileId := (attached files item).map (·.id)
  points := item.points.map (·.filter isFinite)
  colour := item.colour
  width := item.width.filter isFinite
  fill := item.fill
  size := item.size.filter isFinite
  filename := item.filename
  sizeBytes := (attached files item).map (·.sizeBytes)

section Item

variable {item : CanvasItem} {key : String}

theorem keys_itemFields (item : CanvasItem) : (itemFields item).map (·.1) =
    ["id", "kind", "x", "y", "w", "h", "z", "text", "points", "colour", "width", "fill", "size",
      "locked", "filename", "sizeBytes", "attachmentRef"] := rfl

theorem defined_itemFields : ∀ field ∈ itemFields item, field.2 ≠ some .undefined := by
  simp [itemFields]

theorem get_reading_itemValue : (Json.reading (itemValue item)).get key =
    ((((itemFields item).find? fun field => field.1 = key).bind (·.2)).map
      Json.reading).getD .undefined := by
  have hkeys : (((itemFields item).map fun field =>
      (field.1, field.2.map Json.reading)).map (·.1)).Nodup := by
    have hsame : (((itemFields item).map fun field =>
        (field.1, field.2.map Json.reading)).map (·.1)) = (itemFields item).map (·.1) := by
      rw [List.map_map]
      rfl
    rw [hsame, keys_itemFields]
    decide
  rw [itemValue, Json.reading_present defined_itemFields, Json.get_present hkeys, List.find?_map,
    bind_map, Option.map_bind]
  rfl

theorem stringAt_itemValue {s : Option String}
    (h : ((itemFields item).find? fun field => field.1 = key).bind (·.2) = s.map .string) :
    stringAt (Json.reading (itemValue item)) key = s := by
  rw [stringAt, get_reading_itemValue, h]
  cases s <;> rfl

theorem numberAt_itemValue {n : Option JsNumber}
    (h : ((itemFields item).find? fun field => field.1 = key).bind (·.2) = n.map .number) :
    numberAt (Json.reading (itemValue item)) key = n.filter isFinite := by
  rw [numberAt, get_reading_itemValue, h]
  rcases n with _ | n | _ | negative <;> rfl

theorem points_itemValue : ((Json.reading (itemValue item)).get "points").array?.map
    (fun points => points.filterMap JsValue.number?) = item.points.map (·.filter isFinite) := by
  have hget : ((itemFields item).find? fun field => field.1 = "points").bind (·.2) =
      item.points.map fun points => .array (points.map .number) := rfl
  have hnumbers : ∀ points : List JsNumber,
      (Json.readingItems (points.map .number)).filterMap JsValue.number? =
        points.filter isFinite := by
    intro points
    have hnumber : ∀ n, (Json.reading (.number n)).number? = if isFinite n then some n else none :=
      fun n => by rcases n with n | _ | negative <;> rfl
    rw [Json.readingItems_eq_map, List.map_map, filterMap_map, ← filterMap_eq_filter]
    exact filterMap_congr fun n _ => (hnumber n).trans (by rw [Option.guard])
  rw [get_reading_itemValue, hget]
  cases item.points with
  | none => rfl
  | some points => exact congrArg some (hnumbers points)

/-- **What is added for an item** that was written and read. -/
theorem freshItem_reading (files : YMap UploadedFile) (id : String) :
    freshItem files id (Json.reading (itemValue item)) =
      if item.kind = .image ∧ (attached files item).isNone then none
      else some (copyOf files id item) := by
  have htext := fun key s => @stringAt_itemValue item key s
  have hnumber := fun key n => @numberAt_itemValue item key n
  have hplace : ∀ n : ℚ, (some (JsNumber.finite n)).filter isFinite = some (.finite n) :=
    fun n => rfl
  rw [freshItem, htext "kind" (some item.kind.toString) rfl, bind_some,
    CanvasItemKind.ofString?_toString, bind_some,
    htext "attachmentRef" (truthyText item.fileId) rfl, hnumber "x" (some (.finite item.x)) rfl,
    hnumber "y" (some (.finite item.y)) rfl, hnumber "w" (some (.finite item.w)) rfl,
    hnumber "h" (some (.finite item.h)) rfl, htext "text" item.text rfl, points_itemValue,
    htext "colour" item.colour rfl, hnumber "width" item.width rfl, htext "fill" item.fill rfl,
    hnumber "size" item.size rfl, htext "filename" item.filename rfl]
  have htruthy : truthyText (truthyText item.fileId) = truthyText item.fileId := by
    rw [truthyText, truthyText, Option.filter_filter]
    simp
  simp only [htruthy, hplace, getD_some]
  rfl

end Item

end Canvas

end Sone
