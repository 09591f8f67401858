import Sone.Doc.Canvas
import Sone.Doc.Text
import Sone.Order.KeyBetween
import Mathlib.Algebra.GroupWithZero.Nat

/-!
# Putting things on a canvas

`readCanvas` is everything on a canvas, back to front: by the bytes of the stacking keys, and by
id where two are one. `addItem` puts an item in front of all others, unless the map has as many
keys as it may.

A canvas is `Stacked` where its first row is the background and every other row is an item whose
key is above those of the rows before it. On such a canvas `readCanvas` gives the items in the
order they were put there, and `addItem` adds one at their end (`Stacked.addItem`).
-/

namespace Sone

open List Option

def CanvasItemKind.toString : CanvasItemKind → String
  | .text => "text"
  | .image => "image"
  | .path => "path"
  | .rect => "rect"
  | .ellipse => "ellipse"
  | .line => "line"

@[simp]
theorem CanvasItemKind.ofString?_toString (kind : CanvasItemKind) :
    ofString? kind.toString = some kind := by
  cases kind <;> rfl

def CanvasBackground.toString : CanvasBackground → String
  | .dots => "dots"
  | .squares => "squares"
  | .lines => "lines"
  | .plain => "plain"

/-- `if (value)`, of a string that may be missing. -/
def truthyText (s : Option String) : Option String := s.filter fun s => s ≠ ""

namespace Canvas

/-- `MAX_CANVAS_ITEMS` -/
def maxItems : ℕ := 2000

/-- `MAX_PATH_POINTS` -/
def maxPathPoints : ℕ := 4000

/-- What `readCanvas` reads under a key. -/
def readEntry (entry : String × CanvasEntry) : Option CanvasItem :=
  match entry.2 with
  | .map item => readItem entry.1 item
  | .value _ => none

/-- The order of `readCanvas`: whether an item may stand before another. -/
def isUnder (js : Js) (a b : CanvasItem) : Bool :=
  if a.z = b.z then js.localeLe a.id b.id else decide (JsString.units a.z < JsString.units b.z)

def readCanvas (js : Js) (canvas : Canvas) : List CanvasItem :=
  (canvas.rows.filterMap readEntry).mergeSort (isUnder js)

def frontIndex (js : Js) (canvas : Canvas) : Except FractionalIndex.Failure String :=
  (FractionalIndex.generateKeyBetween ((readCanvas js canvas).getLast?.map (·.z.toList))
    none).map String.ofList

end Canvas

structure NewItem where
  id : String
  kind : CanvasItemKind
  x : JsNumber
  y : JsNumber
  w : Option JsNumber := none
  h : Option JsNumber := none
  text : Option String := none
  fileId : Option String := none
  points : Option (List JsNumber) := none
  colour : Option String := none
  width : Option JsNumber := none
  fill : Option String := none
  size : Option JsNumber := none
  filename : Option String := none
  sizeBytes : Option JsNumber := none

namespace NewItem

def ofText (s : Option String) : Option SharedValue := s.map fun s => .plain (.string s)

def ofNumber (n : Option JsNumber) : Option SharedValue := n.map fun n => .plain (.number n)

/-- What `addItem` sets under each key of the map of an item. -/
def fields (item : NewItem) (z : String) : List (String × Option SharedValue) :=
  [(CanvasKeys.kind, ofText (some item.kind.toString)),
    (CanvasKeys.x, ofNumber (some item.x)),
    (CanvasKeys.y, ofNumber (some item.y)),
    (CanvasKeys.w, ofNumber (some (item.w.getD (.finite 200)))),
    (CanvasKeys.h, ofNumber (some (item.h.getD (.finite 80)))),
    (CanvasKeys.z, ofText (some z)),
    (CanvasKeys.text,
      if item.kind = .text then some (.text (.insert (item.text.getD ""))) else none),
    (CanvasKeys.fileId, ofText (truthyText item.fileId)),
    (CanvasKeys.points, item.points.map fun points =>
      .plain (.array ((points.take Canvas.maxPathPoints).map .number))),
    (CanvasKeys.colour, ofText (truthyText item.colour)),
    (CanvasKeys.width, ofNumber item.width),
    (CanvasKeys.fill, ofText (truthyText item.fill)),
    (CanvasKeys.size, ofNumber item.size),
    (CanvasKeys.filename, ofText (truthyText item.filename)),
    (CanvasKeys.sizeBytes, ofNumber item.sizeBytes)]

def entry (item : NewItem) (z : String) : YMap SharedValue :=
  YMap.empty.assign (item.fields z) fun _ value => value

def placed (item : NewItem) (z : String) : CanvasItem where
  id := item.id
  kind := item.kind
  x := Canvas.asNumber (some (.number item.x)) 0
  y := Canvas.asNumber (some (.number item.y)) 0
  w := Canvas.asNumber (some (.number (item.w.getD (.finite 200)))) 160
  h := Canvas.asNumber (some (.number (item.h.getD (.finite 80)))) 80
  z := z
  text := if item.kind = .text then some (item.text.getD "") else none
  fileId := truthyText item.fileId
  points := item.points.map (·.take Canvas.maxPathPoints)
  colour := truthyText item.colour
  width := item.width
  fill := truthyText item.fill
  size := item.size
  locked := false
  filename := truthyText item.filename
  sizeBytes := item.sizeBytes

end NewItem

namespace Canvas

def addItem (js : Js) (canvas : Canvas) (item : NewItem) :
    Except FractionalIndex.Failure Canvas :=
  if maxItems ≤ canvas.rows.length then .ok canvas
  else (frontIndex js canvas).map fun z => canvas.set item.id (.map (item.entry z))

def setBackground (canvas : Canvas) (background : CanvasBackground) : Canvas :=
  canvas.set CanvasKeys.background (.value (.plain (.string background.toString)))

/-! ### What is read of an item that was put there -/

theorem nodup_fields (item : NewItem) (z : String) : ((item.fields z).map (·.1)).Nodup := by
  have hkeys : (item.fields z).map (·.1) = [CanvasKeys.kind, CanvasKeys.x, CanvasKeys.y,
      CanvasKeys.w, CanvasKeys.h, CanvasKeys.z, CanvasKeys.text, CanvasKeys.fileId,
      CanvasKeys.points, CanvasKeys.colour, CanvasKeys.width, CanvasKeys.fill, CanvasKeys.size,
      CanvasKeys.filename, CanvasKeys.sizeBytes] := rfl
  rw [hkeys]
  decide

theorem get_entry (item : NewItem) (z key : String) :
    (item.entry z).get key = ((item.fields z).find? fun field => field.1 = key).bind (·.2) := by
  rw [NewItem.entry, YMap.get_assign_entries (nodup_fields item z), YMap.get_empty, or_none,
    bind_map]
  rfl

theorem text_ofText (s : Option String) :
    ((NewItem.ofText s).bind SharedValue.plain?).bind JsValue.string? = s := by
  cases s <;> rfl

theorem number_ofNumber (n : Option JsNumber) :
    ((NewItem.ofNumber n).bind SharedValue.plain?).bind JsValue.number? = n := by
  cases n <;> rfl

theorem filterMap_number (points : List JsNumber) :
    (points.map JsValue.number).filterMap JsValue.number? = points := by
  rw [filterMap_map]
  exact filterMap_some

/-- **What is put on a canvas** is read as it was given. -/
theorem readItem_entry (item : NewItem) (z : String) :
    readItem item.id (item.entry z) = some (item.placed z) := by
  have hplain : ∀ key, plainAt (item.entry z) key =
      (((item.fields z).find? fun field => field.1 = key).bind (·.2)).bind SharedValue.plain? :=
    fun key => by rw [plainAt, get_entry]
  have htexts : ∀ key s,
      ((item.fields z).find? fun field => field.1 = key).bind (·.2) = NewItem.ofText s →
        (plainAt (item.entry z) key).bind JsValue.string? = s :=
    fun key s h => by rw [hplain, h, text_ofText]
  have hnumbers : ∀ key n,
      ((item.fields z).find? fun field => field.1 = key).bind (·.2) = NewItem.ofNumber n →
        (plainAt (item.entry z) key).bind JsValue.number? = n :=
    fun key n h => by rw [hplain, h, number_ofNumber]
  have hplace : ∀ key n fallback,
      ((item.fields z).find? fun field => field.1 = key).bind (·.2) = NewItem.ofNumber (some n) →
        asNumber (plainAt (item.entry z) key) fallback = asNumber (some (.number n)) fallback :=
    fun key n fallback h => by rw [hplain, h]; rfl
  have hkind : ((plainAt (item.entry z) CanvasKeys.kind).bind JsValue.string?).bind
      CanvasItemKind.ofString? = some item.kind := by
    rw [htexts CanvasKeys.kind (some item.kind.toString) rfl]
    exact CanvasItemKind.ofString?_toString item.kind
  have htext : wordsAt (item.entry z) CanvasKeys.text =
      if item.kind = .text then some (item.text.getD "") else none := by
    have hget : (item.entry z).get CanvasKeys.text =
        if item.kind = .text then some (.text (.insert (item.text.getD ""))) else none := by
      rw [get_entry]
      rfl
    rw [wordsAt, hget]
    split_ifs
    · exact congrArg some (YText.toString_insert _)
    · rfl
  have hpoints : ((plainAt (item.entry z) CanvasKeys.points).bind JsValue.array?).map
      (fun points => points.filterMap JsValue.number?) =
        item.points.map (·.take maxPathPoints) := by
    have hget : ((item.fields z).find? fun field => field.1 = CanvasKeys.points).bind (·.2) =
        item.points.map fun points =>
          .plain (.array ((points.take maxPathPoints).map .number)) := rfl
    rw [hplain, hget]
    cases item.points with
    | none => rfl
    | some points => exact congrArg some (filterMap_number _)
  rw [readItem, hkind, map_some, NewItem.placed, htext, hpoints,
    hplace CanvasKeys.x _ 0 rfl, hplace CanvasKeys.y _ 0 rfl, hplace CanvasKeys.w _ 160 rfl,
    hplace CanvasKeys.h _ 80 rfl, htexts CanvasKeys.z (some z) rfl,
    htexts CanvasKeys.fileId _ rfl, htexts CanvasKeys.colour _ rfl,
    hnumbers CanvasKeys.width _ rfl, htexts CanvasKeys.fill _ rfl,
    hnumbers CanvasKeys.size _ rfl, htexts CanvasKeys.filename _ rfl,
    hnumbers CanvasKeys.sizeBytes _ rfl, hplain CanvasKeys.locked]
  rfl

theorem rows_set_last {V : Type*} {m : YMap V} {before : List (String × V)} {key : String}
    {old value : V} (h : m.rows = before ++ [(key, old)]) :
    (m.set key value).rows = before ++ [(key, value)] := by
  have hmem : (key, value).1 ∈ m.rows.map (·.1) := by simp [h]
  have hnodup := m.nodup
  rw [h, map_append, nodup_append] at hnodup
  have hbefore : ∀ entry ∈ before, entry.1 ≠ key := fun entry hentry =>
    hnodup.2.2 entry.1 (List.mem_map_of_mem hentry) key (by simp)
  have hset : (m.set key value).rows =
      m.rows.map fun other => if other.1 = key then (key, value) else other := by
    rw [YMap.set, Keyed.upsert, dif_pos hmem]
    rfl
  have hkept : before.map (fun other => if other.1 = key then (key, value) else other) = before :=
    (map_congr_left fun entry hentry => if_neg (hbefore entry hentry)).trans before.map_id
  rw [hset, h, map_append, hkept, map_singleton, if_pos rfl]

/-- **A lock** is all that is read of setting it. -/
theorem readItem_set_locked {id : String} {entry : YMap SharedValue} {item : CanvasItem}
    (h : readItem id entry = some item) :
    readItem id (entry.set CanvasKeys.locked (.plain (.boolean true))) =
      some { item with locked := true } := by
  have hplain : ∀ key, CanvasKeys.locked ≠ key →
      plainAt (entry.set CanvasKeys.locked (.plain (.boolean true))) key = plainAt entry key :=
    fun key hne => by rw [plainAt, YMap.get_set, if_neg hne, plainAt]
  have hwords : wordsAt (entry.set CanvasKeys.locked (.plain (.boolean true))) CanvasKeys.text =
      wordsAt entry CanvasKeys.text := by
    rw [wordsAt, YMap.get_set, if_neg (by decide), wordsAt]
  have hlocked : (plainAt (entry.set CanvasKeys.locked (.plain (.boolean true)))
      CanvasKeys.locked).any JsValue.isTrue = true := by
    rw [plainAt, YMap.get_set, if_pos rfl]
    rfl
  rw [readItem] at h ⊢
  obtain ⟨kind, hkind, rfl⟩ := map_eq_some_iff.mp h
  rw [hplain CanvasKeys.kind (by decide), hkind, hplain CanvasKeys.x (by decide),
    hplain CanvasKeys.y (by decide), hplain CanvasKeys.w (by decide),
    hplain CanvasKeys.h (by decide), hplain CanvasKeys.z (by decide), hwords,
    hplain CanvasKeys.fileId (by decide), hplain CanvasKeys.points (by decide),
    hplain CanvasKeys.colour (by decide), hplain CanvasKeys.width (by decide),
    hplain CanvasKeys.fill (by decide), hplain CanvasKeys.size (by decide), hlocked,
    hplain CanvasKeys.filename (by decide), hplain CanvasKeys.sizeBytes (by decide)]
  rfl

/-! ### The order of keys -/

theorem units_of_isDigits {s : String} (h : FractionalIndex.IsDigits s.toList) :
    JsString.units s = s.toList.map Char.toNat := by
  have hsmall : ∀ c ∈ FractionalIndex.digits, c.toNat < 0x10000 :=
    FractionalIndex.forall_mem_of_all (by decide +kernel)
  have hunits : ∀ c ∈ s.toList, Char.units c = [c.toNat] :=
    fun c hc => if_pos (hsmall c (h c hc))
  rw [JsString.units, flatMap_congr hunits, ← map_eq_flatMap]

theorem isDigits_of_validate {key : FractionalIndex.Text}
    (h : FractionalIndex.validate key = .ok ()) : FractionalIndex.IsDigits key := by
  have hheads : ∀ c ∈ FractionalIndex.heads, c ∈ FractionalIndex.digits :=
    fun c hc => mem_of_mem_drop hc
  obtain ⟨int, frac, rfl, ⟨head, ds, rfl, hhead, hds⟩, hfrac⟩ :=
    FractionalIndex.validate_eq_ok_iff.mp h
  refine FractionalIndex.IsDigits.append (fun c hc => ?_) hfrac.isDigits
  rcases mem_cons.mp hc with rfl | hc
  · exact hheads c (FractionalIndex.mem_heads hhead)
  · exact hds c hc

theorem units_lt {a b : String} (ha : FractionalIndex.validate a.toList = .ok ())
    (hb : FractionalIndex.validate b.toList = .ok ()) (hlt : a.toList < b.toList) :
    JsString.units a < JsString.units b := by
  rw [units_of_isDigits (isDigits_of_validate ha), units_of_isDigits (isDigits_of_validate hb)]
  exact List.map_lt (fun x y hxy => hxy) hlt

/-! ### A canvas that was written item by item -/

/-- **A canvas is stacked** with items: its first row is the background, and every other row is
an item whose key is above those before it. -/
structure Stacked (background : CanvasBackground) (canvas : Canvas) (items : List CanvasItem) :
    Prop where
  ground : readBackground canvas = background
  rows : canvas.rows.map (fun entry => (entry.1, readEntry entry)) =
    (CanvasKeys.background, none) :: items.map fun item => (item.id, some item)
  keys : items.Pairwise fun a b => a.z.toList < b.z.toList
  valid : ∀ item ∈ items, FractionalIndex.validate item.z.toList = .ok ()

namespace Stacked

variable {js : Js} {background : CanvasBackground} {canvas : Canvas} {items : List CanvasItem}
  {item : NewItem}

theorem length_rows (h : Stacked background canvas items) :
    canvas.rows.length = items.length + 1 := by
  simpa using congrArg List.length h.rows

theorem readCanvas (h : Stacked background canvas items) : readCanvas js canvas = items := by
  have hread : canvas.rows.filterMap readEntry = items := by
    have hmap := congrArg (List.filterMap (·.2)) h.rows
    rw [filterMap_map, filterMap_cons_none rfl, filterMap_map] at hmap
    exact hmap.trans filterMap_some
  rw [Canvas.readCanvas, hread]
  refine mergeSort_of_pairwise (h.keys.imp_of_mem fun {a b} ha hb hlt => ?_)
  have hne : a.z ≠ b.z := fun heq => absurd hlt (by rw [heq]; exact lt_irrefl _)
  rw [isUnder, if_neg hne, decide_eq_true_eq]
  exact units_lt (h.valid a ha) (h.valid b hb) hlt

theorem exists_frontIndex (h : Stacked background canvas items) :
    ∃ z, frontIndex js canvas = .ok z ∧ FractionalIndex.validate z.toList = .ok () ∧
      ∀ item ∈ items, item.z.toList < z.toList := by
  have hfront : frontIndex js canvas = (FractionalIndex.generateKeyBetween
      (items.getLast?.map (·.z.toList)) none).map String.ofList := by
    rw [frontIndex, h.readCanvas]
  rw [hfront]
  rcases eq_nil_or_concat items with hnil | ⟨before, last, rfl⟩
  · subst hnil
    exact ⟨String.ofList FractionalIndex.firstIndex, rfl, by decide +kernel, by simp⟩
  · rw [concat_eq_append] at h
    have hlast : last ∈ before ++ [last] := by simp
    obtain ⟨int, frac, hkey, hint, hfrac⟩ :=
      FractionalIndex.validate_eq_ok_iff.mp (h.valid last hlast)
    obtain ⟨z, hz, hvalid, habove⟩ := FractionalIndex.exists_generateKeyAfter hint hfrac
    rw [← hkey] at hz habove
    refine ⟨String.ofList z, by simp [hz, Except.map], by rwa [String.toList_ofList], ?_⟩
    rw [String.toList_ofList]
    intro item hitem
    rw [concat_eq_append] at hitem
    rcases mem_append.mp hitem with hitem | hitem
    · exact lt_trans ((pairwise_append.mp h.keys).2.2 item hitem last (by simp)) habove
    · exact mem_singleton.mp hitem ▸ habove

/-- **An item is put in front** of those there are, while there are fewer than there may be. -/
theorem addItem (h : Stacked background canvas items) (hroom : items.length + 1 < maxItems)
    (hid : item.id ∉ CanvasKeys.background :: items.map (·.id)) :
    ∃ z canvas', addItem js canvas item = .ok canvas' ∧
      canvas'.rows = canvas.rows ++ [(item.id, .map (item.entry z))] ∧
      Stacked background canvas' (items ++ [item.placed z]) := by
  obtain ⟨z, hz, hvalid, habove⟩ := @exists_frontIndex js _ _ _ h
  have hnew : item.id ∉ canvas.keys := by
    have hkeys := congrArg (List.map (·.1)) h.rows
    rw [List.map_map, map_cons, List.map_map] at hkeys
    exact fun hmem => hid (hkeys ▸ hmem)
  have hrows : (canvas.set item.id (.map (item.entry z))).rows =
      canvas.rows ++ [(item.id, .map (item.entry z))] := YMap.rows_set_of_notMem hnew
  refine ⟨z, canvas.set item.id (.map (item.entry z)), ?_, hrows, ?_, ?_, ?_, ?_⟩
  · rw [Canvas.addItem, if_neg (by rw [h.length_rows]; omega), hz]
    rfl
  · have hne : item.id ≠ CanvasKeys.background := fun heq => hid (heq ▸ mem_cons_self)
    rw [← h.ground, readBackground, YMap.get_set, if_neg hne, readBackground]
  · rw [hrows, map_append, h.rows, map_append]
    simp [readEntry, readItem_entry, NewItem.placed]
  · rw [pairwise_append]
    refine ⟨h.keys, pairwise_singleton _ _, fun a ha b hb => ?_⟩
    exact mem_singleton.mp hb ▸ habove a ha
  · intro other hother
    rcases mem_append.mp hother with hother | hother
    · exact h.valid other hother
    · exact mem_singleton.mp hother ▸ hvalid

theorem addItem_full (h : Stacked background canvas items) (hfull : maxItems ≤ items.length + 1) :
    Canvas.addItem js canvas item = .ok canvas := by
  rw [Canvas.addItem, if_pos (by rwa [h.length_rows])]

theorem setBackground (background : CanvasBackground) :
    Stacked background (setBackground .empty background) [] where
  ground := by cases background <;> rfl
  rows := rfl
  keys := List.Pairwise.nil
  valid := by simp

end Stacked

end Canvas

end Sone
