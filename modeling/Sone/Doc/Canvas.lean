import Sone.Doc.Shared

/-!
# What is on a canvas

`doc/canvas.ts`: a canvas is a map of maps, its items by id, and how the board is ruled is a
plain value beside them. `readItem` takes of an item's map the plain values it knows and the
words of its text. `readItem_congr` says that it sees nothing else: two maps with the same plain
values and the same words are the same item.
-/

namespace Sone

/-! ### `CANVAS_KEYS` -/

namespace CanvasKeys

def kind : String := "kind"
def x : String := "x"
def y : String := "y"
def w : String := "w"
def h : String := "h"
/-- Stacking, as a fractional index. -/
def z : String := "z"
/-- A text item's words, as `Y.Text`. -/
def text : String := "text"
def fileId : String := "fileId"
def points : String := "points"
def colour : String := "colour"
def width : String := "width"
def fill : String := "fill"
def size : String := "size"
def locked : String := "locked"
def filename : String := "filename"
def sizeBytes : String := "sizeBytes"
def background : String := "background"

end CanvasKeys

inductive CanvasItemKind where
  | text | image | path | rect | ellipse | line
  deriving DecidableEq

/-- `CANVAS_ITEM_KINDS.includes(kind)`, and the kind. -/
def CanvasItemKind.ofString? : String → Option CanvasItemKind
  | "text" => some .text
  | "image" => some .image
  | "path" => some .path
  | "rect" => some .rect
  | "ellipse" => some .ellipse
  | "line" => some .line
  | _ => none

inductive CanvasBackground where
  | dots | squares | lines | plain
  deriving DecidableEq

/-- `CANVAS_BACKGROUNDS.includes(value)`, and the background. -/
def CanvasBackground.ofString? : String → Option CanvasBackground
  | "dots" => some .dots
  | "squares" => some .squares
  | "lines" => some .lines
  | "plain" => some .plain
  | _ => none

structure CanvasItem where
  id : String
  kind : CanvasItemKind
  x : ℚ
  y : ℚ
  w : ℚ
  h : ℚ
  z : String
  text : Option String
  fileId : Option String
  points : Option (List JsNumber)
  colour : Option String
  width : Option JsNumber
  fill : Option String
  size : Option JsNumber
  locked : Bool
  filename : Option String
  sizeBytes : Option JsNumber

inductive CanvasEntry where
  | map (item : YMap SharedValue)
  | value (v : SharedValue)

/-- `canvasMap` -/
abbrev Canvas := YMap CanvasEntry

namespace Canvas

def plainAt (item : YMap SharedValue) (key : String) : Option JsValue :=
  (item.get key).bind SharedValue.plain?

def wordsAt (item : YMap SharedValue) (key : String) : Option String :=
  ((item.get key).bind SharedValue.text?).map YText.toString

def asNumber (value : Option JsValue) (fallback : ℚ) : ℚ :=
  match value.bind JsValue.number? with
  | some (.finite n) => n
  | _ => fallback

def readItem (id : String) (item : YMap SharedValue) : Option CanvasItem :=
  ((plainAt item CanvasKeys.kind).bind JsValue.string?).bind CanvasItemKind.ofString? |>.map
    fun kind =>
      { id := id
        kind := kind
        x := asNumber (plainAt item CanvasKeys.x) 0
        y := asNumber (plainAt item CanvasKeys.y) 0
        w := asNumber (plainAt item CanvasKeys.w) 160
        h := asNumber (plainAt item CanvasKeys.h) 80
        z := ((plainAt item CanvasKeys.z).bind JsValue.string?).getD "a0"
        text := wordsAt item CanvasKeys.text
        fileId := (plainAt item CanvasKeys.fileId).bind JsValue.string?
        points := ((plainAt item CanvasKeys.points).bind JsValue.array?).map
          fun points => points.filterMap JsValue.number?
        colour := (plainAt item CanvasKeys.colour).bind JsValue.string?
        width := (plainAt item CanvasKeys.width).bind JsValue.number?
        fill := (plainAt item CanvasKeys.fill).bind JsValue.string?
        size := (plainAt item CanvasKeys.size).bind JsValue.number?
        locked := (plainAt item CanvasKeys.locked).any JsValue.isTrue
        filename := (plainAt item CanvasKeys.filename).bind JsValue.string?
        sizeBytes := (plainAt item CanvasKeys.sizeBytes).bind JsValue.number? }

/-- The item `readCanvas` finds under an id. -/
def item (canvas : Canvas) (id : String) : Option CanvasItem :=
  match canvas.get id with
  | some (.map item) => readItem id item
  | _ => none

def readBackground (canvas : Canvas) : CanvasBackground :=
  match canvas.get CanvasKeys.background with
  | some (.value (.plain (.string s))) => (CanvasBackground.ofString? s).getD .dots
  | _ => .dots

theorem readItem_congr {id : String} {item item' : YMap SharedValue}
    (hplain : plainAt item = plainAt item') (hwords : wordsAt item = wordsAt item') :
    readItem id item = readItem id item' := by
  simp only [readItem, hplain, hwords]

end Canvas

end Sone
