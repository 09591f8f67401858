import Sone.Canvas.Fence
import Mathlib.Data.List.Perm.Basic

/-!
# A canvas written out and read back

`writeCanvas` of a canvas's fence is a canvas again. What a board shows is the sequence of the
`Look`s of its items, all of an item but its id and its stacking key.

The loop adds an item for every one that was written, unless it is a picture without a file, and
each item it adds looks like the one that was written with its empty strings, its numbers that are
not finite and the end of a long stroke left out (`Stacked.writeItems`). It goes through the items
in the order of `localeCompare`, and the background is a key of the map like an item, so that a
board of as many items as there may be loses its last. `comesBack_iff_carries` says what is left:
the boards that come back are those that `Carries` describes.
-/

namespace Sone

open List Option

namespace Canvas

/-! ### What an item looks like -/

/-- **What is seen of an item**, with the file it shows. -/
structure Look where
  kind : CanvasItemKind
  x : ℚ
  y : ℚ
  w : ℚ
  h : ℚ
  text : Option String
  points : Option (List JsNumber)
  colour : Option String
  width : Option JsNumber
  fill : Option String
  size : Option JsNumber
  filename : Option String
  locked : Bool
  file : Option String
  deriving DecidableEq

def lookWith (item : CanvasItem) (file : Option String) : Look where
  kind := item.kind
  x := item.x
  y := item.y
  w := item.w
  h := item.h
  text := item.text
  points := item.points
  colour := item.colour
  width := item.width
  fill := item.fill
  size := item.size
  filename := item.filename
  locked := item.locked
  file := file

def look (item : CanvasItem) : Look := lookWith item item.fileId

def mappedLook (files : YMap UploadedFile) (item : CanvasItem) : Look :=
  lookWith item ((attached files item).map (·.id))

def carriedLook (files : YMap UploadedFile) (item : CanvasItem) : Look where
  kind := item.kind
  x := item.x
  y := item.y
  w := item.w
  h := item.h
  text := if item.kind = .text then some (item.text.getD "") else none
  points := item.points.map fun points => (points.filter isFinite).take maxPathPoints
  colour := truthyText item.colour
  width := item.width.filter isFinite
  fill := truthyText item.fill
  size := item.size.filter isFinite
  filename := truthyText item.filename
  locked := item.locked
  file := (attached files item).map (·.id)

/-- **A look carries over**: no string in it is empty, its numbers are finite, its stroke is no
longer than a stroke may be, and it has a text where it is one. -/
structure Look.CarriesOver (look : Look) : Prop where
  text : look.text.isSome = true ↔ look.kind = .text
  points : ∀ points ∈ look.points, points.length ≤ maxPathPoints ∧ ∀ n ∈ points, isFinite n = true
  colour : look.colour ≠ some ""
  width : ∀ n ∈ look.width, isFinite n = true
  fill : look.fill ≠ some ""
  size : ∀ n ∈ look.size, isFinite n = true
  filename : look.filename ≠ some ""

section Look

variable {files : YMap UploadedFile} {item : CanvasItem}

theorem truthyText_eq_self_iff {s : Option String} : truthyText s = s ↔ s ≠ some "" := by
  rcases s with _ | s
  · simp [truthyText]
  · by_cases hs : s = ""
    · simp [truthyText, hs]
    · simp [truthyText, hs, Option.filter]

theorem truthyText_ne (s : Option String) : truthyText s ≠ some "" := by
  rcases s with _ | s
  · simp [truthyText]
  · by_cases hs : s = ""
    · simp [truthyText, hs]
    · simp [truthyText, hs, Option.filter]

theorem carriesOver_carriedLook : (carriedLook files item).CarriesOver where
  text := by
    rw [carriedLook]
    split_ifs with hkind <;> simp [hkind]
  points := by
    intro points hpoints
    obtain ⟨before, -, rfl⟩ := map_eq_some_iff.mp hpoints
    refine ⟨length_take_le _ _, fun n hn => ?_⟩
    exact (mem_filter.mp (mem_of_mem_take hn)).2
  colour := truthyText_ne _
  width := fun n hn => (mem_filter_iff.mp hn).2
  fill := truthyText_ne _
  size := fun n hn => (mem_filter_iff.mp hn).2
  filename := truthyText_ne _

theorem filter_eq_self {n : Option JsNumber} (h : ∀ m ∈ n, isFinite m = true) :
    n.filter isFinite = n := by
  rcases n with _ | n
  · rfl
  · exact filter_some_pos (h n rfl)

/-- **What carries over** comes back as it is. -/
theorem carriedLook_eq_of_carriesOver (h : (mappedLook files item).CarriesOver) :
    carriedLook files item = mappedLook files item := by
  have htext : (if item.kind = .text then some (item.text.getD "") else none) = item.text := by
    have hiff : item.text.isSome = true ↔ item.kind = .text := h.text
    rcases htext : item.text with _ | text
    · rw [htext] at hiff
      exact if_neg (by simpa using hiff)
    · rw [htext] at hiff
      exact if_pos (by simpa using hiff)
  have hpoints : item.points.map (fun points => (points.filter isFinite).take maxPathPoints) =
      item.points := by
    have hall : ∀ points ∈ item.points, points.length ≤ maxPathPoints ∧
        ∀ n ∈ points, isFinite n = true := h.points
    rcases hpoints : item.points with _ | points
    · rfl
    · obtain ⟨hlength, hfinite⟩ := hall points hpoints
      rw [map_some, List.filter_eq_self.mpr hfinite, take_of_length_le hlength]
  have hcolour : truthyText item.colour = item.colour := truthyText_eq_self_iff.mpr h.colour
  have hwidth : item.width.filter isFinite = item.width := filter_eq_self h.width
  have hfill : truthyText item.fill = item.fill := truthyText_eq_self_iff.mpr h.fill
  have hsize : item.size.filter isFinite = item.size := filter_eq_self h.size
  have hfilename : truthyText item.filename = item.filename :=
    truthyText_eq_self_iff.mpr h.filename
  rw [carriedLook, mappedLook, lookWith, htext, hpoints, hcolour, hwidth, hfill, hsize, hfilename]

theorem look_placed (id z : String) :
    look { (copyOf files id item).placed z with locked := item.locked } =
      carriedLook files item := by
  have hfile : truthyText ((attached files item).map (·.id)) =
      (attached files item).map (·.id) := by
    rw [truthyText_eq_self_iff]
    rcases attached files item with _ | file
    · simp
    · simpa using file.id_ne
  have hpoints : (item.points.map (·.filter isFinite)).map (·.take maxPathPoints) =
      item.points.map fun points => (points.filter isFinite).take maxPathPoints :=
    Option.map_map _ _ _
  rw [look, lookWith, carriedLook]
  simp only [NewItem.placed, copyOf, hfile, hpoints, asNumber, getD_some]
  rfl

end Look

/-! ### The items are added -/

/-- What is kept of an item: nothing of a picture whose file is not there. -/
def keptLook (files : YMap UploadedFile) (item : CanvasItem) : Option Look :=
  if item.kind = .image ∧ (attached files item).isNone then none
  else some (carriedLook files item)

namespace Stacked

variable {js : Js} {files : YMap UploadedFile} {background : CanvasBackground} {canvas : Canvas}
  {items before : List CanvasItem} {item last : CanvasItem} {id : String}

theorem nodup (h : Stacked background canvas items) :
    (CanvasKeys.background :: items.map (·.id)).Nodup := by
  have hkeys := congrArg (List.map (·.1)) h.rows
  rw [List.map_map, map_cons, List.map_map] at hkeys
  exact hkeys ▸ canvas.nodup

/-- **The last item is locked**, and nothing else is changed. -/
theorem lockLast (h : Stacked background canvas (before ++ [last])) (hid : last.id ≠ "") :
    Stacked background (lockLast canvas) (before ++ [{ last with locked := true }]) := by
  have hrows := h.rows
  rw [map_append, ← cons_append, map_singleton] at hrows
  obtain ⟨others, ends, hsplit, hothers, hends⟩ := map_eq_append_iff.mp hrows
  obtain ⟨row, rfl, hrow⟩ := map_eq_singleton_iff.mp hends
  obtain ⟨key, value⟩ := row
  obtain ⟨hkey, hread⟩ := Prod.mk.inj hrow
  obtain rfl : key = last.id := hkey
  obtain ⟨entry, rfl⟩ : ∃ entry, value = .map entry := by
    cases value with
    | map entry => exact ⟨entry, rfl⟩
    | value v => cases hread
  have hlock : Canvas.lockLast canvas = canvas.set last.id
      (.map (entry.set CanvasKeys.locked (.plain (.boolean true)))) := by
    rw [Canvas.lockLast, hsplit, List.getLast?_concat]
    exact if_neg hid
  have hlocked := readItem_set_locked hread
  rw [hlock]
  refine ⟨?_, ?_, ?_, fun other hother => ?_⟩
  · have hne : last.id ≠ CanvasKeys.background := fun heq =>
      (nodup_cons.mp h.nodup).1 (by simp [← heq])
    rw [← h.ground, readBackground, YMap.get_set, if_neg hne, readBackground]
  · rw [rows_set_last hsplit, map_append, hothers, map_append]
    simp [readEntry, hlocked]
  · have hkeys := h.keys
    rw [pairwise_append] at hkeys ⊢
    refine ⟨hkeys.1, pairwise_singleton _ _, fun a ha b hb => ?_⟩
    obtain rfl := mem_singleton.mp hb
    exact hkeys.2.2 a ha last (by simp)
  · rcases mem_append.mp hother with hother | hother
    · exact h.valid other (mem_append_left _ hother)
    · obtain rfl := mem_singleton.mp hother
      exact h.valid last (by simp)

theorem lockLast_if (h : Stacked background canvas (before ++ [last])) (hid : last.id ≠ "")
    (locks : Bool) (hlast : last.locked = false) :
    Stacked background (if locks then Canvas.lockLast canvas else canvas)
      (before ++ [{ last with locked := locks }]) := by
  cases locks with
  | true => exact h.lockLast hid
  | false =>
    have hsame : { last with locked := false } = last := by rw [← hlast]
    rw [hsame]
    exact h

theorem locked_itemValue :
    ((Json.reading (itemValue item)).get "locked").isTrue = item.locked := by
  have hget : ((itemFields item).find? fun field => field.1 = "locked").bind (·.2) =
      if item.locked then some (.boolean true) else none := rfl
  rw [get_reading_itemValue, hget]
  cases item.locked <;> rfl

/-- **One turn of the loop**: while there is room, what comes back of an item is put in front. -/
theorem writeItem (h : Stacked background canvas items) (hroom : items.length < maxItems)
    (hempty : ∀ item ∈ items, item.id ≠ "") (hid : id ≠ "")
    (hnew : id ∉ CanvasKeys.background :: items.map (·.id)) :
    ∃ canvas' items', writeItem js files canvas id (Json.reading (itemValue item)) = .ok canvas' ∧
      Stacked background canvas' items' ∧ items'.length < maxItems ∧
      (∀ other ∈ items', other.id = id ∨ other.id ∈ items.map (·.id)) ∧
      (items.length + 1 < maxItems →
        items'.map look = items.map look ++ (keptLook files item).toList) := by
  rw [Canvas.writeItem, freshItem_reading]
  by_cases hlost : item.kind = .image ∧ (attached files item).isNone
  · rw [if_pos hlost]
    refine ⟨canvas, items, rfl, h, hroom, fun other hother => ?_, fun _ => ?_⟩
    · exact .inr (List.mem_map_of_mem hother)
    · rw [keptLook, if_pos hlost, toList_none, append_nil]
  · rw [if_neg hlost]
    simp only [locked_itemValue]
    by_cases hfits : items.length + 1 < maxItems
    · obtain ⟨z, canvas', hadd, -, hstacked⟩ :=
        @addItem js _ _ _ (copyOf files id item) h hfits hnew
      have hlocked := hstacked.lockLast_if hid item.locked rfl
      refine ⟨_, _, by rw [hadd]; rfl, hlocked, by simpa using hfits, fun other hother => ?_,
        fun _ => ?_⟩
      · rcases mem_append.mp hother with hother | hother
        · exact .inr (List.mem_map_of_mem hother)
        · exact .inl (congrArg CanvasItem.id (mem_singleton.mp hother))
      · rw [map_append, map_singleton, look_placed, keptLook, if_neg hlost]
        rfl
    · -- the canvas is full: nothing is added, and a lock goes to the item before
      rw [addItem_full h (by omega)]
      rcases eq_nil_or_concat items with hnil | ⟨before, last, hconcat⟩
      · exact absurd hnil (by rintro rfl; exact hfits (by decide))
      · rw [concat_eq_append] at hconcat
        subst hconcat
        have hids : ∀ other ∈ before ++ [{ last with locked := true }],
            other.id ∈ (before ++ [last]).map (·.id) := by
          intro other hother
          rw [map_append, mem_append]
          rcases mem_append.mp hother with hother | hother
          · exact .inl (List.mem_map_of_mem hother)
          · exact .inr (by rw [mem_singleton.mp hother]; exact mem_singleton_self _)
        cases item.locked with
        | false =>
          exact ⟨_, _, rfl, h, hroom, fun other hother => .inr (List.mem_map_of_mem hother),
            fun hlt => absurd hlt hfits⟩
        | true =>
          exact ⟨_, _, rfl, h.lockLast (hempty last (by simp)), by simpa using hroom,
            fun other hother => .inr (hids other hother), fun hlt => absurd hlt hfits⟩

/-- **The whole loop** ends with fewer items than the map may have keys, and where all fit, with
those that come back. -/
theorem writeItems {ids : ℕ → String} {bound : ℕ}
    (hinj : ∀ m n, m < n → n < bound → ids m ≠ ids n)
    (hids : ∀ n, ids n ≠ "" ∧ ids n ≠ CanvasKeys.background) (source : List CanvasItem) {n : ℕ}
    (hbound : n + source.length ≤ bound) (h : Stacked background canvas items)
    (hroom : items.length < maxItems)
    (hold : ∀ item ∈ items, ∃ m < n, item.id = ids m) :
    ∃ written items', writeItems js files ids n
        (source.map fun item => Json.reading (itemValue item)) canvas = .ok written ∧
      Stacked background written items' ∧ items'.length < maxItems ∧
      (items.length + source.length < maxItems →
        items'.map look = items.map look ++ source.filterMap (keptLook files)) := by
  induction source generalizing n canvas items with
  | nil => exact ⟨canvas, items, rfl, h, hroom, fun _ => by simp⟩
  | cons item source ih =>
    rw [length_cons] at hbound
    have hnew : ids n ∉ CanvasKeys.background :: items.map (·.id) := by
      intro hmem
      rcases mem_cons.mp hmem with heq | hmem
      · exact (hids n).2 heq
      · obtain ⟨other, hother, heq⟩ := List.mem_map.mp hmem
        obtain ⟨m, hm, hother⟩ := hold other hother
        exact hinj m n hm (by omega) (hother.symm.trans heq)
    have hempty : ∀ item ∈ items, item.id ≠ "" := by
      intro other hother
      obtain ⟨m, -, hm⟩ := hold other hother
      exact hm ▸ (hids m).1
    obtain ⟨canvas', items', hwrite, hstacked, hroom', hids', hlooks⟩ :=
      @writeItem js files _ _ _ item _ h hroom hempty (hids n).1 hnew
    have hold' : ∀ item ∈ items', ∃ m < n + 1, item.id = ids m := by
      intro other hother
      rcases hids' other hother with heq | hmem
      · exact ⟨n, by omega, heq⟩
      · obtain ⟨earlier, hearlier, heq⟩ := List.mem_map.mp hmem
        obtain ⟨m, hm, hid⟩ := hold earlier hearlier
        exact ⟨m, by omega, heq ▸ hid⟩
    obtain ⟨written, items'', hrest, hstacked', hroom'', hlooks'⟩ :=
      ih (by omega) hstacked hroom' hold'
    refine ⟨written, items'', ?_, hstacked', hroom'', fun hfits => ?_⟩
    · rw [map_cons, Canvas.writeItems, hwrite]
      exact hrest
    · rw [length_cons] at hfits
      have hstep := hlooks (by omega)
      have hgrows : items'.length ≤ items.length + 1 := by
        have hlength := congrArg List.length hstep
        rw [length_map, length_append, length_map] at hlength
        have hone : (keptLook files item).toList.length ≤ 1 := by
          cases keptLook files item <;> simp
        omega
      rw [hlooks' (by omega), hstep, append_assoc, filterMap_cons]
      rcases keptLook files item with _ | back <;> rfl

end Stacked

/-! ### The board that comes back -/

/-- The items of a board by `localeCompare` of their stacking keys, which is the order they are
added in. -/
def inLocaleOrder (js : Js) (items : List CanvasItem) : List CanvasItem :=
  items.mergeSort fun a b => js.localeLe a.z b.z

/-- **A board carries over**: it has fewer items than the map may have keys, each carries over by
itself, no picture is without a file, and the order of `localeCompare` shows the same as that of
the bytes. -/
structure Carries (js : Js) (files : YMap UploadedFile) (items : List CanvasItem) : Prop where
  room : items.length < maxItems
  looks : ∀ item ∈ items, (mappedLook files item).CarriesOver
  pictures : ∀ item ∈ items, item.kind = .image → truthyText item.fileId ≠ none
  order : (inLocaleOrder js items).map (mappedLook files) = items.map (mappedLook files)

def numbers (item : CanvasItem) : List JsNumber :=
  [.finite item.x, .finite item.y, .finite item.w, .finite item.h] ++ item.points.getD [] ++
    item.width.toList ++ item.size.toList ++ item.sizeBytes.toList

section Board

variable {js : Js} {files : YMap UploadedFile} {ids : ℕ → String} {items : List CanvasItem}
  {background : CanvasBackground}

/-- **An item is data**, where the language reads back its numbers. -/
theorem isData_itemValue {item : CanvasItem}
    (h : ∀ n : ℚ, .finite n ∈ numbers item → Json.Writes js n) :
    Json.IsData js (itemValue item) := by
  have hnumber : ∀ n, n ∈ numbers item → Json.IsData js (.number n) := by
    rintro n hn
    refine .number fun q hq => h q (hq ▸ hn)
  have htext : ∀ s : Option String, ∀ value ∈ s.map JsValue.string, Json.IsData js value := by
    intro s value hvalue
    obtain ⟨s, -, rfl⟩ := map_eq_some_iff.mp hvalue
    exact .string s
  have hoptional : ∀ n : Option JsNumber, (∀ m ∈ n, m ∈ numbers item) →
      ∀ value ∈ n.map JsValue.number, Json.IsData js value := by
    intro n hn value hvalue
    obtain ⟨m, hm, rfl⟩ := map_eq_some_iff.mp hvalue
    exact hnumber m (hn m hm)
  have hfields : ∀ field ∈ itemFields item, ∀ value ∈ field.2, Json.IsData js value := by
    simp only [itemFields, forall_mem_cons]
    refine ⟨htext (some _), htext (some _), hoptional (some _) ?_, hoptional (some _) ?_,
      hoptional (some _) ?_, hoptional (some _) ?_, htext (some _), htext _, ?_, htext _,
      hoptional _ ?_, htext _, hoptional _ ?_, ?_, htext _, hoptional _ ?_, htext _, by simp⟩
    case refine_5 =>
      intro value hvalue
      obtain ⟨points, hpoints, rfl⟩ := map_eq_some_iff.mp hvalue
      refine .array fun n hn => ?_
      obtain ⟨m, hm, rfl⟩ := List.mem_map.mp hn
      exact hnumber m (by simp [numbers, hpoints, hm])
    case refine_8 =>
      intro value hvalue
      cases hlocked : item.locked with
      | true =>
        rw [hlocked] at hvalue
        obtain rfl := some.inj hvalue
        exact .boolean true
      | false =>
        rw [hlocked] at hvalue
        cases hvalue
    all_goals
      clear h hnumber htext hoptional
      intro m hm
      simp_all [numbers]
  refine .object ?_ fun field hfield => ?_
  · refine List.Nodup.sublist (Json.keys_present _) ?_
    rw [keys_itemFields]
    decide
  · obtain ⟨from', hmem, hfrom⟩ := mem_filterMap.mp hfield
    obtain ⟨value, hvalue, rfl⟩ := map_eq_some_iff.mp hfrom
    exact hfields from' hmem value hvalue

theorem isData_boardValue (h : ∀ item ∈ items, ∀ n : ℚ, .finite n ∈ numbers item →
    Json.Writes js n) : Json.IsData js (boardValue background items) := by
  refine .object (show ["background", "items"].Nodup by decide) ?_
  rw [forall_mem_cons, forall_mem_singleton]
  refine ⟨.string _, .array fun value hvalue => ?_⟩
  obtain ⟨item, hitem, rfl⟩ := List.mem_map.mp hvalue
  exact isData_itemValue (h item hitem)

/-- The items of the fence are added in the order of `localeCompare`. -/
theorem sortedItems_boardValue (htext : ∀ s, js.toText (.string s) = s) :
    sortedItems js (propsOf (Json.readingMembers
      [("background", .string background.toString), ("items", .array (items.map itemValue))])) =
      (inLocaleOrder js items).map fun item => Json.reading (itemValue item) := by
  have hget : (propsOf (Json.readingMembers [("background", .string background.toString),
      ("items", .array (items.map itemValue))])).get "items" =
        some (.array (items.map fun item => Json.reading (itemValue item))) := by
    have hitems : Json.readingItems (items.map itemValue) =
        items.map fun item => Json.reading (itemValue item) := by
      rw [Json.readingItems_eq_map, List.map_map]
      rfl
    rw [← hitems]
    rfl
  have hobjects : (items.map fun item => Json.reading (itemValue item)).filter isObjectType =
      items.map fun item => Json.reading (itemValue item) := by
    refine List.filter_eq_self.mpr fun value hvalue => ?_
    obtain ⟨item, -, rfl⟩ := List.mem_map.mp hvalue
    rfl
  have hz : ∀ item, zText js (Json.reading (itemValue item)) = item.z := by
    intro item
    have hget : (Json.reading (itemValue item)).get "z" = .string item.z :=
      get_reading_itemValue
    rw [zText, hget]
    exact htext item.z
  rw [sortedItems, hget, bind_some, JsValue.array?, getD_some, hobjects]
  refine (map_mergeSort fun a _ b _ => ?_).symm
  rw [hz, hz]

/-- **What is written of a board's fence** has fewer items than the map may have keys, and where
all fit, those that come back, in the order of `localeCompare`. -/
theorem writeCanvas_canvasFence {canvas : Canvas} {fuel : ℕ}
    (hparse : ∀ s, js.parseJson s = Json.parse js s.toList)
    (htext : ∀ s, js.toText (.string s) = s)
    (hnumbers : ∀ item ∈ readCanvas js canvas, ∀ n : ℚ, .finite n ∈ numbers item →
      Json.Writes js n)
    (hinj : ∀ m n, m < n → n < (readCanvas js canvas).length → ids m ≠ ids n)
    (hids : ∀ n, ids n ≠ "" ∧ ids n ≠ CanvasKeys.background) :
    ∃ written, writeCanvas js fuel ids files (canvasFence js canvas) .empty =
        (if 2 ≤ fuel then some (.ok written) else none) ∧
      readBackground written = readBackground canvas ∧
      (readCanvas js written).length < maxItems ∧
      ((readCanvas js canvas).length < maxItems → (readCanvas js written).map look =
        (inLocaleOrder js (readCanvas js canvas)).filterMap (keptLook files)) := by
  obtain ⟨items, hitems⟩ : ∃ items, readCanvas js canvas = items := ⟨_, rfl⟩
  obtain ⟨background, hbackground⟩ : ∃ background, readBackground canvas = background := ⟨_, rfl⟩
  rw [hitems] at hnumbers hinj ⊢
  have hstart : Stacked background (setBackground .empty background) [] := .setBackground _
  have hlength : (inLocaleOrder js items).length = items.length := length_mergeSort _
  obtain ⟨written, items', hwrite, hstacked, hroom, hlooks⟩ :=
    @Stacked.writeItems js files _ _ _ ids _ hinj hids (inLocaleOrder js items) 0
      (by rw [hlength, Nat.zero_add]) hstart (by decide) (by simp)
  have hground : setNamedBackground .empty (propsOf (Json.readingMembers
      [("background", .string background.toString), ("items", .array (items.map itemValue))])) =
        setBackground .empty background := by
    cases background <;> rfl
  refine ⟨written, ?_, hbackground ▸ hstacked.ground, ?_, fun hfits => ?_⟩
  · rw [canvasFence, hitems, hbackground, boardValue, writeCanvas,
      markdownToBlocks_fence hparse (isData_boardValue hnumbers)]
    split_ifs
    · rw [← hwrite, ← hground, ← sortedItems_boardValue htext]
      rfl
    · rfl
  · rwa [hstacked.readCanvas]
  · rw [hstacked.readCanvas]
    simpa using hlooks (by simpa [hlength] using hfits)

theorem filterMap_keptLook_iff
    (hfiles : ∀ item ∈ items, item.kind = .image → ∀ file, truthyText item.fileId = some file →
      files.has file) (hroom : items.length < maxItems) :
    (inLocaleOrder js items).filterMap (keptLook files) = items.map (mappedLook files) ↔
      Carries js files items := by
  have hperm : (inLocaleOrder js items).Perm items := mergeSort_perm _ _
  constructor
  · intro hsame
    have hlength : ((inLocaleOrder js items).filterMap (keptLook files)).length =
        (inLocaleOrder js items).length := by
      rw [hsame, length_map, hperm.length_eq]
    have hall := filterMap_length_eq_length.mp hlength
    have hback : ∀ item ∈ inLocaleOrder js items,
        keptLook files item = some (carriedLook files item) := by
      intro item hitem
      have hsome := hall item hitem
      rw [keptLook] at hsome ⊢
      split_ifs at hsome ⊢ with hlost
      · exact absurd hsome (by simp)
      · rfl
    rw [filterMap_congr hback, filterMap_eq_map'] at hsame
    have hlooks : ∀ item ∈ items, (mappedLook files item).CarriesOver := by
      intro item hitem
      have hmem : mappedLook files item ∈ (inLocaleOrder js items).map (carriedLook files) :=
        hsame ▸ List.mem_map_of_mem hitem
      obtain ⟨other, -, heq⟩ := List.mem_map.mp hmem
      exact heq ▸ carriesOver_carriedLook
    refine ⟨hroom, hlooks, fun item hitem himage hnone => ?_, ?_⟩
    · have hsome := hall item (hperm.mem_iff.mpr hitem)
      have hlost : (attached files item).isNone := by rw [attached, hnone]; rfl
      rw [keptLook, if_pos ⟨himage, hlost⟩] at hsome
      exact absurd hsome (by simp)
    · rw [← hsame]
      exact map_congr_left fun item hitem =>
        (carriedLook_eq_of_carriesOver (hlooks item (hperm.mem_iff.mp hitem))).symm
  · intro h
    have hback : ∀ item ∈ inLocaleOrder js items,
        keptLook files item = some (mappedLook files item) := by
      intro item hitem
      have hmem := hperm.mem_iff.mp hitem
      have hkept : ¬(item.kind = .image ∧ (attached files item).isNone) := by
        rintro ⟨himage, hnone⟩
        obtain ⟨file, hfile⟩ := ne_none_iff_exists'.mp (h.pictures item hmem himage)
        have hhas := hfiles item hmem himage file hfile
        rw [attached, hfile, bind_some, isNone_iff_eq_none] at hnone
        rw [YMap.has, hnone] at hhas
        exact absurd hhas (by simp)
      rw [keptLook, if_neg hkept, carriedLook_eq_of_carriesOver (h.looks item hmem)]
    rw [filterMap_congr hback, filterMap_eq_map']
    exact h.order

end Board

/-- **A canvas comes back** from its fence: what `writeCanvas` makes of it has the same background
and shows, back to front, the same. -/
def ComesBack (js : Js) (files : YMap UploadedFile) (ids : ℕ → String) (canvas : Canvas) : Prop :=
  ∃ fuel written,
    writeCanvas js fuel ids files (canvasFence js canvas) .empty = some (.ok written) ∧
      readBackground written = readBackground canvas ∧
      (readCanvas js written).map look = (readCanvas js canvas).map (mappedLook files)

theorem comesBack_iff_keptLook {js : Js} {files : YMap UploadedFile} {ids : ℕ → String}
    {canvas : Canvas}
    (hparse : ∀ s, js.parseJson s = Json.parse js s.toList)
    (htext : ∀ s, js.toText (.string s) = s)
    (hnumbers : ∀ item ∈ readCanvas js canvas, ∀ n : ℚ, .finite n ∈ numbers item →
      Json.Writes js n)
    (hinj : ∀ m n, m < n → n < (readCanvas js canvas).length → ids m ≠ ids n)
    (hids : ∀ n, isUuidText (ids n) = true) :
    ComesBack js files ids canvas ↔ (readCanvas js canvas).length < maxItems ∧
      (inLocaleOrder js (readCanvas js canvas)).filterMap (keptLook files) =
        (readCanvas js canvas).map (mappedLook files) := by
  have hnew : ∀ n, ids n ≠ "" ∧ ids n ≠ CanvasKeys.background := by
    intro n
    constructor
    · intro heq
      exact absurd (heq ▸ hids n) (by decide)
    · intro heq
      exact absurd (heq ▸ hids n) (by decide)
  constructor
  · rintro ⟨fuel, written, hwrite, -, hlooks⟩
    obtain ⟨written', hrun, -, hroom, hback⟩ := @writeCanvas_canvasFence js files ids canvas fuel
      hparse htext hnumbers hinj hnew
    obtain rfl : written' = written := by
      rw [hrun] at hwrite
      split_ifs at hwrite
      exact Except.ok.inj (some.inj hwrite)
    have hlength := congrArg List.length hlooks
    rw [length_map, length_map] at hlength
    have hfits : (readCanvas js canvas).length < maxItems := hlength ▸ hroom
    exact ⟨hfits, (hback hfits).symm.trans hlooks⟩
  · rintro ⟨hfits, hkept⟩
    obtain ⟨written, hrun, hground, -, hback⟩ := @writeCanvas_canvasFence js files ids canvas 2
      hparse htext hnumbers hinj hnew
    exact ⟨2, written, hrun, hground, (hback hfits).trans hkept⟩

/-- **A canvas comes back from its fence** exactly where its board carries over. The language reads
the JSON and the numbers it writes, the ids are different uuids, and every file that a picture
names is in the archive. -/
theorem comesBack_iff_carries {js : Js} {files : YMap UploadedFile} {ids : ℕ → String}
    {canvas : Canvas}
    (hparse : ∀ s, js.parseJson s = Json.parse js s.toList)
    (htext : ∀ s, js.toText (.string s) = s)
    (hnumbers : ∀ item ∈ readCanvas js canvas, ∀ n : ℚ, .finite n ∈ numbers item →
      Json.Writes js n)
    (hinj : ∀ m n, m < n → n < (readCanvas js canvas).length → ids m ≠ ids n)
    (hids : ∀ n, isUuidText (ids n) = true)
    (hfiles : ∀ item ∈ readCanvas js canvas, item.kind = .image →
      ∀ file, truthyText item.fileId = some file → files.has file) :
    ComesBack js files ids canvas ↔ Carries js files (readCanvas js canvas) := by
  rw [comesBack_iff_keptLook hparse htext hnumbers hinj hids]
  constructor
  · rintro ⟨hfits, hkept⟩
    exact (filterMap_keptLook_iff hfiles hfits).mp hkept
  · intro h
    exact ⟨h.room, (filterMap_keptLook_iff hfiles h.room).mpr h⟩

/-- A language whose locale has the order of a dictionary, in which case is no matter. -/
def dictionary : Js where
  __ := Js.ascii
  localeLe := fun a b => decide (a.toList.map Char.toLower ≤ b.toList.map Char.toLower)
  parseJson := fun s => Json.parse .ascii s.toList

theorem parseJson_dictionary (s : String) :
    dictionary.parseJson s = Json.parse dictionary s.toList := by
  have hsame : Json.parse .ascii = Json.parse dictionary := Json.parse_congr rfl
  exact congrFun hsame s.toList

/-- A square at a place, `n` to the right. -/
def square (id : String) (n : ℕ) : NewItem where
  id := id
  kind := .rect
  x := .finite n
  y := .finite 0

/-- A board of two squares with their stacking keys. -/
def squares (z z' : String) : Canvas where
  rows := [(CanvasKeys.background, .value (.plain (.string "dots"))),
    ("first", .map ((square "first" 0).entry z)), ("second", .map ((square "second" 1).entry z'))]
  nodup := show [CanvasKeys.background, "first", "second"].Nodup by decide

def twoIds (n : ℕ) : String :=
  if n = 0 then "00000000-0000-4000-8000-000000000000" else "00000000-0000-4000-8000-000000000001"

theorem stacked_squares {z z' : String} (hlt : z.toList < z'.toList)
    (hz : FractionalIndex.validate z.toList = .ok ())
    (hz' : FractionalIndex.validate z'.toList = .ok ()) :
    Stacked .dots (squares z z') [(square "first" 0).placed z, (square "second" 1).placed z'] where
  ground := rfl
  rows := by
    have hfirst := readItem_entry (square "first" 0) z
    have hsecond := readItem_entry (square "second" 1) z'
    have hread : (squares z z').rows.map (fun entry => (entry.1, readEntry entry)) =
        [(CanvasKeys.background, none),
          ("first", readItem "first" ((square "first" 0).entry z)),
          ("second", readItem "second" ((square "second" 1).entry z'))] := rfl
    rw [hread]
    exact congrArg₂ (fun a b => [_, ("first", a), ("second", b)]) hfirst hsecond
  keys := by simpa [NewItem.placed] using hlt
  valid := by simp [NewItem.placed, hz, hz']

theorem writes_squares {z z' : String} : ∀ item ∈ [(square "first" 0).placed z,
    (square "second" 1).placed z'], ∀ n : ℚ, .finite n ∈ numbers item →
      Json.Writes dictionary n := by
  intro item hitem n hn
  have hnatural : n ∈ ([0, 1, 200, 80] : List ℕ).map fun n : ℕ => (n : ℚ) := by
    simp only [mem_cons, not_mem_nil, or_false] at hitem
    rcases hitem with rfl | rfl <;>
      simp [numbers, NewItem.placed, square, asNumber] at hn ⊢ <;> tauto
  obtain ⟨m, hm, rfl⟩ := List.mem_map.mp hnatural
  refine Json.writes_natural ?_
  exact (by decide : ∀ m ∈ [0, 1, 200, 80], m ≤ maxSafeInteger) m hm

theorem twoIds_ne : ∀ m n, m < n → n < 2 → twoIds m ≠ twoIds n := by
  intro m n hm hn
  have hboth : m = 0 ∧ n = 1 := by omega
  rw [hboth.1, hboth.2]
  decide

theorem isUuidText_twoIds (n : ℕ) : isUuidText (twoIds n) = true := by
  rw [twoIds]
  split_ifs <;> decide +kernel

theorem inLocaleOrder_pair (js : Js) (a b : CanvasItem) :
    inLocaleOrder js [a, b] = if js.localeLe a.z b.z then [a, b] else [b, a] := by
  simp [inLocaleOrder, List.mergeSort, List.merge, List.MergeSort.Internal.splitInTwo]

/-- **Two items change places** where the one was put in front of the other after its key had
reached the end of the capital letters: `aa` comes after `aZ` by bytes and before it in a
dictionary. -/
theorem item_comes_back_behind : FractionalIndex.generateKeyBetween (some "aZ".toList) none =
      .ok "aa".toList ∧
    ¬∀ (js : Js) (files : YMap UploadedFile) (ids : ℕ → String) (canvas : Canvas),
      (∀ s, js.parseJson s = Json.parse js s.toList) → (∀ s, js.toText (.string s) = s) →
      (∀ item ∈ readCanvas js canvas, ∀ n : ℚ, .finite n ∈ numbers item → Json.Writes js n) →
      (∀ m n, m < n → n < (readCanvas js canvas).length → ids m ≠ ids n) →
      (∀ n, isUuidText (ids n) = true) →
      (∀ item ∈ readCanvas js canvas, item.kind = .image →
        ∀ file, truthyText item.fileId = some file → files.has file) →
      (readCanvas js canvas).length ≤ maxItems →
      (∀ item ∈ readCanvas js canvas, FractionalIndex.validate item.z.toList = .ok ()) →
      ComesBack js files ids canvas := by
  refine ⟨by decide +kernel, fun hall => ?_⟩
  have hstacked : Stacked .dots (squares "aZ" "aa")
      [(square "first" 0).placed "aZ", (square "second" 1).placed "aa"] :=
    stacked_squares (by decide) (by decide +kernel) (by decide +kernel)
  have hread := @Stacked.readCanvas dictionary _ _ _ hstacked
  have hnone : ∀ item ∈ readCanvas dictionary (squares "aZ" "aa"), item.kind ≠ .image := by
    rw [hread]
    simp [NewItem.placed, square]
  have hback : ComesBack dictionary .empty twoIds (squares "aZ" "aa") :=
    hall dictionary .empty twoIds (squares "aZ" "aa") parseJson_dictionary (fun _ => rfl)
      (hread ▸ writes_squares) (hread ▸ twoIds_ne) isUuidText_twoIds
      (fun item hitem himage => absurd himage (hnone item hitem)) (by rw [hread]; decide)
      (by rw [hread]; exact hstacked.valid)
  rw [comesBack_iff_keptLook parseJson_dictionary (fun _ => rfl) (hread ▸ writes_squares)
    (hread ▸ twoIds_ne) isUuidText_twoIds, hread, inLocaleOrder_pair] at hback
  have hlast := congrArg (fun looks => (looks.getLast?).map (·.x)) hback.2
  rw [if_neg (by decide)] at hlast
  exact absurd hlast (by decide)

/-- The hypotheses can be met: the first two items of a board come back in their order. -/
theorem comesBack_iff_carries_squares :
    ComesBack dictionary .empty twoIds (squares "a0" "a1") := by
  have hstacked : Stacked .dots (squares "a0" "a1")
      [(square "first" 0).placed "a0", (square "second" 1).placed "a1"] :=
    stacked_squares (by decide) (by decide +kernel) (by decide +kernel)
  have hread := @Stacked.readCanvas dictionary _ _ _ hstacked
  have hplain : ∀ item ∈ readCanvas dictionary (squares "a0" "a1"),
      item.kind ≠ .image ∧ (mappedLook .empty item).CarriesOver := by
    rw [hread]
    simp only [forall_mem_cons]
    refine ⟨⟨by decide, ?_⟩, ⟨by decide, ?_⟩, by simp⟩
    all_goals
      constructor
      all_goals simp [mappedLook, lookWith, NewItem.placed, square, truthyText]
  refine (comesBack_iff_carries parseJson_dictionary (fun _ => rfl) (hread ▸ writes_squares)
    (hread ▸ twoIds_ne) isUuidText_twoIds
    (fun item hitem himage => absurd himage (hplain item hitem).1)).mpr ?_
  refine ⟨by rw [hread]; decide, fun item hitem => (hplain item hitem).2,
    fun item hitem himage => absurd himage (hplain item hitem).1, ?_⟩
  rw [hread, inLocaleOrder_pair, if_pos (by decide)]

end Canvas

end Sone
