import Sone.Canvas.Board
import Sone.Doc.Read

/-!
# Writing collections

`doc/collection.ts`: a page's document holds collections, each a map with the map of its fields and
the map of its views. Every writer looks at what it is given, answers `false` where that cannot
hold, and changes the maps in one transaction where it can.

`onItems` is what they share, so that a refusal changes nothing (`eq_of_refused`). What they keep of
a collection is `IsCollection`. The options of a field are checked by `setOptions` alone:
`addField` and `updateField` store any config (`SpoilsOptions`), and `keeps_of_reachesWhen` is about
the runs in which none of these has more options than there may be, or two of one id.
-/

namespace Sone

open List Option

inductive FieldType where
  | text | number | select | multiSelect | status | date | checkbox | url | email | phone | person
  | files | relation | formula | rollup | lookup | createdAt | createdBy | lastEditedAt
  | lastEditedBy
  deriving DecidableEq, Repr

def FieldType.toString : FieldType → String
  | .text => "text"
  | .number => "number"
  | .select => "select"
  | .multiSelect => "multiSelect"
  | .status => "status"
  | .date => "date"
  | .checkbox => "checkbox"
  | .url => "url"
  | .email => "email"
  | .phone => "phone"
  | .person => "person"
  | .files => "files"
  | .relation => "relation"
  | .formula => "formula"
  | .rollup => "rollup"
  | .lookup => "lookup"
  | .createdAt => "createdAt"
  | .createdBy => "createdBy"
  | .lastEditedAt => "lastEditedAt"
  | .lastEditedBy => "lastEditedBy"

inductive NewViewType where
  | table | board | gallery | list
  deriving DecidableEq, Repr

def NewViewType.toString : NewViewType → String
  | .table => "table"
  | .board => "board"
  | .gallery => "gallery"
  | .list => "list"

/-- A value whose type is `Record<string, unknown>`. -/
abbrev Record := List (String × JsValue)

namespace Collection

/-! ### What is stored -/

/-- A value of the map of fields, or of views. -/
inductive ItemEntry where
  | map (entries : YMap SharedValue)
  | value (v : SharedValue)

inductive CollectionValue where
  | items (entries : YMap ItemEntry)
  | value (v : SharedValue)

/-- A value of the root: a collection, by its id. -/
inductive CollectionEntry where
  | map (entries : YMap CollectionValue)
  | value (v : SharedValue)

abbrev Root := YMap CollectionEntry

/-! ### What the writers are given -/

structure NewField where
  id : String
  name : String
  fieldType : FieldType
  description : Option String := none
  config : Option Record := none

structure NewView where
  id : String
  name : String
  viewType : NewViewType
  definition : Option Record := none

/-- The changes of `updateField`. A description of `null` is deleted. -/
structure FieldChanges where
  name : Option String := none
  description : Option (Option String) := none
  config : Option Record := none

/-- The changes of `updateView`. -/
structure ViewChanges where
  name : Option String := none
  definition : Option Record := none

structure SelectOption where
  id : String
  name : String
  color : String
  deriving DecidableEq, Repr

/-- `MAX_FIELDS` -/
def maxFields : ℕ := 64

/-- `MAX_VIEWS` -/
def maxViews : ℕ := 16

/-- `MAX_OPTIONS` -/
def maxOptions : ℕ := 100

/-- `OPTION_COLORS` -/
def optionColors : List String :=
  ["grey", "red", "orange", "yellow", "green", "blue", "purple", "pink"]

def knownColor (color : String) : String := if color ∈ optionColors then color else "grey"

/-! ### The writers -/

private def text (s : String) : SharedValue := .plain (.string s)

/-- `name.trim() || fallback` -/
def nameOr (name fallback : String) : String :=
  if JsString.trim name = "" then fallback else JsString.trim name

def collectionMap (root : Root) (collectionId : String) : Option (YMap CollectionValue) :=
  match root.get collectionId with
  | some (.map entries) => some entries
  | _ => none

/-- `map.get(key)`, where it is a `Y.Map`. -/
def itemsOf (map : YMap CollectionValue) (key : String) : Option (YMap ItemEntry) :=
  match map.get key with
  | some (.items entries) => some entries
  | _ => none

/-- `items.get(id)`, where it is a `Y.Map`. -/
def itemAt (items : YMap ItemEntry) (id : String) : Option (YMap SharedValue) :=
  match items.get id with
  | some (.map entries) => some entries
  | _ => none

/-- What a writer makes of the items of a collection under a key: nothing where there are none, or
where it refuses. -/
def onItems (root : Root) (collectionId key : String)
    (change : YMap CollectionValue → YMap ItemEntry →
      Except FractionalIndex.Failure (Option (YMap ItemEntry))) :
    Except FractionalIndex.Failure (Root × Bool) :=
  match collectionMap root collectionId with
  | none => .ok (root, false)
  | some map =>
    match itemsOf map key with
    | none => .ok (root, false)
    | some items => do
      match ← change map items with
      | none => return (root, false)
      | some items' => return (root.set collectionId (.map (map.set key (.items items'))), true)

/-- `String(entry.get(key) ?? '')`, and nothing of what is no map. -/
def indexText (js : Js) (key : String) : ItemEntry → String
  | .value _ => ""
  | .map entries =>
    match entries.get key with
    | none | some (.plain .undefined) | some (.plain .null) => ""
    | some (.plain (.string s)) => s
    | some (.plain value) => js.toText value
    | some (.text t) => t.toString
    | some (.array _) | some (.shared _) => "[object Object]"

def lastIndex (js : Js) (key : String) (items : YMap ItemEntry) : Option String :=
  (((items.rows.map fun row => indexText js key row.2).filter (· ≠ "")).mergeSort
    JsString.le).getLast?

/-- What `addField` and `addView` share: an item with a new id is put behind all others, while there
are fewer than there may be. -/
def addItem (js : Js) (limit : ℕ) (key id : String) (created : String → YMap SharedValue)
    (items : YMap ItemEntry) : Except FractionalIndex.Failure (Option (YMap ItemEntry)) :=
  if items.has id then .ok none
  else if limit ≤ items.rows.length then .ok none
  else do
    let idx ← FractionalIndex.generateKeyBetween ((lastIndex js key items).map String.toList) none
    return some (items.set id (.map (created (String.ofList idx))))

def newField (field : NewField) (idx : String) : YMap SharedValue :=
  let created := (YMap.empty.set FieldKeys.name (text (nameOr field.name "Untitled"))).set
    FieldKeys.fieldType (text field.fieldType.toString)
  let description := field.description.getD ""
  let created := if description = "" then created else
    created.set FieldKeys.description (text description)
  let created := match field.config with
    | none => created
    | some config => created.set FieldKeys.config (.plain (.object config))
  (created.set FieldKeys.idx (text idx)).set FieldKeys.schemaVersion
    (.plain (.number (.finite 1)))

def newView (view : NewView) (idx : String) : YMap SharedValue :=
  ((((YMap.empty.set ViewKeys.name (text (nameOr view.name "Untitled view"))).set
    ViewKeys.viewType (text view.viewType.toString)).set ViewKeys.idx (text idx)).set
    ViewKeys.definition (.plain (.object (view.definition.getD [])))).set ViewKeys.schemaVersion
    (.plain (.number (.finite 1)))

def newCollection (titleFieldId titleName : String) : YMap CollectionValue :=
  let title := (((YMap.empty.set FieldKeys.name (text titleName)).set FieldKeys.fieldType
    (text FieldType.text.toString)).set FieldKeys.idx (text "a0")).set FieldKeys.schemaVersion
    (.plain (.number (.finite 1)))
  ((YMap.empty.set CollectionKeys.titleFieldId (.value (text titleFieldId))).set
    CollectionKeys.fields (.items (YMap.empty.set titleFieldId (.map title)))).set
    CollectionKeys.views (.items YMap.empty)

def initCollection (root : Root) (collectionId titleFieldId : String)
    (titleName : Option String) : Root :=
  if root.has collectionId then root
  else root.set collectionId (.map (newCollection titleFieldId (titleName.getD "Name")))

def addField (js : Js) (root : Root) (collectionId : String) (field : NewField) :
    Except FractionalIndex.Failure (Root × Bool) :=
  onItems root collectionId CollectionKeys.fields fun _ =>
    addItem js maxFields FieldKeys.idx field.id (newField field)

/-- `map.get(COLLECTION_KEYS.titleFieldId) === fieldId` -/
def isTitle (map : YMap CollectionValue) (fieldId : String) : Bool :=
  match map.get CollectionKeys.titleFieldId with
  | some (.value (.plain (.string s))) => s = fieldId
  | _ => false

def removeField (root : Root) (collectionId fieldId : String) :
    Except FractionalIndex.Failure (Root × Bool) :=
  onItems root collectionId CollectionKeys.fields fun map items =>
    if isTitle map fieldId then .ok none
    else if !items.has fieldId then .ok none
    else .ok (some (items.delete fieldId))

/-- What the writers of one item share: it is changed where it is a map. -/
def onItem (items : YMap ItemEntry) (id : String)
    (change : YMap SharedValue → Option (YMap SharedValue)) : Option (YMap ItemEntry) :=
  (itemAt items id).bind fun entry => (change entry).map fun entry => items.set id (.map entry)

def changedField (entry : YMap SharedValue) (changes : FieldChanges) : YMap SharedValue :=
  let entry := match changes.name with
    | none => entry
    | some name => entry.set FieldKeys.name (text (nameOr name "Untitled"))
  let entry := match changes.description with
    | none => entry
    | some none => entry.delete FieldKeys.description
    | some (some description) => entry.set FieldKeys.description (text description)
  match changes.config with
  | none => entry
  | some config => entry.set FieldKeys.config (.plain (.object config))

def updateField (root : Root) (collectionId fieldId : String) (changes : FieldChanges) :
    Except FractionalIndex.Failure (Root × Bool) :=
  onItems root collectionId CollectionKeys.fields fun _ items =>
    .ok (onItem items fieldId fun entry => some (changedField entry changes))

def addView (js : Js) (root : Root) (collectionId : String) (view : NewView) :
    Except FractionalIndex.Failure (Root × Bool) :=
  onItems root collectionId CollectionKeys.views fun _ =>
    addItem js maxViews ViewKeys.idx view.id (newView view)

def changedView (entry : YMap SharedValue) (changes : ViewChanges) : YMap SharedValue :=
  let entry := match changes.name with
    | none => entry
    | some name => entry.set ViewKeys.name (text (nameOr name "Untitled view"))
  match changes.definition with
  | none => entry
  | some definition => entry.set ViewKeys.definition (.plain (.object definition))

def updateView (root : Root) (collectionId viewId : String) (changes : ViewChanges) :
    Except FractionalIndex.Failure (Root × Bool) :=
  onItems root collectionId CollectionKeys.views fun _ items =>
    .ok (onItem items viewId fun entry => some (changedView entry changes))

/-! ### Options -/

/-- An option of the list, unless it has no id. What is no object has none. -/
def readOption (entry : JsValue) : Option SelectOption :=
  match (entry.get "id").string? with
  | none | some "" => none
  | some id => some {
      id
      name := (entry.get "name").string?.getD ""
      color := ((entry.get "color").string?.map knownColor).getD "grey" }

def optionsIn (config : JsValue) : List SelectOption :=
  ((config.get "options").array?.getD []).filterMap readOption

/-- `readOptions`, of the map of a field. -/
def readOptions (entry : YMap SharedValue) : List SelectOption :=
  match entry.get FieldKeys.config with
  | some (.plain config) => optionsIn config
  | _ => []

def idsClash (seen : List String) : List SelectOption → Bool
  | [] => false
  | option :: rest => option.id = "" || option.id ∈ seen || idsClash (option.id :: seen) rest

def hasOptions (entry : YMap SharedValue) : Bool :=
  match entry.get FieldKeys.fieldType with
  | some (.plain (.string s)) => s = "select" || s = "multiSelect" || s = "status"
  | _ => false

/-- `{ ...record, [key]: value }` -/
def withKey (record : Record) (key : String) (value : JsValue) : Record :=
  if key ∈ record.map (·.1) then
    record.map fun field => if field.1 = key then (key, value) else field
  else record ++ [(key, value)]

def configOf (entry : YMap SharedValue) : Record :=
  match entry.get FieldKeys.config with
  | some (.plain (.object fields)) => fields
  | _ => []

def SelectOption.stored (option : SelectOption) : JsValue :=
  .object [("id", .string option.id), ("name", .string (JsString.trim option.name)),
    ("color", .string (knownColor option.color))]

def setOptions (root : Root) (collectionId fieldId : String) (options : List SelectOption) :
    Except FractionalIndex.Failure (Root × Bool) :=
  onItems root collectionId CollectionKeys.fields fun _ items =>
    .ok (onItem items fieldId fun entry =>
      if !hasOptions entry then none
      else if maxOptions < options.length then none
      else if idsClash [] options then none
      else some (entry.set FieldKeys.config (.plain (.object
        (withKey (configOf entry) "options" (.array (options.map SelectOption.stored)))))))

/-! ### The machine -/

inductive WriterOp where
  | initCollection (collectionId titleFieldId : String) (titleName : Option String)
  | addField (collectionId : String) (field : NewField)
  | removeField (collectionId fieldId : String)
  | updateField (collectionId fieldId : String) (changes : FieldChanges)
  | setOptions (collectionId fieldId : String) (options : List SelectOption)
  | addView (collectionId : String) (view : NewView)
  | updateView (collectionId viewId : String) (changes : ViewChanges)

/-- The collections after a writer, and what it answers. `initCollection` answers nothing. -/
def write (js : Js) (root : Root) : WriterOp → Except FractionalIndex.Failure (Root × Bool)
  | .initCollection collectionId titleFieldId titleName =>
    .ok (Collection.initCollection root collectionId titleFieldId titleName, true)
  | .addField collectionId field => Collection.addField js root collectionId field
  | .removeField collectionId fieldId => Collection.removeField root collectionId fieldId
  | .updateField collectionId fieldId changes =>
    Collection.updateField root collectionId fieldId changes
  | .setOptions collectionId fieldId options =>
    Collection.setOptions root collectionId fieldId options
  | .addView collectionId view => Collection.addView js root collectionId view
  | .updateView collectionId viewId changes =>
    Collection.updateView root collectionId viewId changes

/-- **The machine of a page's collections**, from none of them. A writer that throws changes
nothing. -/
def writers (js : Js) : Machine Root WriterOp where
  init root := root = YMap.empty
  step root op := match write js root op with
    | .ok (root', _) => some root'
    | .error _ => none

/-! ### What is kept -/

/-- **Options as there may be**: not too many, and no two of one id. -/
def OptionsKept (options : List SelectOption) : Prop :=
  options.length ≤ maxOptions ∧ (options.map (·.id)).Nodup

/-- **A collection**: its title field is there, and the fields, the views and the options of each
field are as many as there may be, with distinct ids. -/
structure IsCollection (map : YMap CollectionValue) : Prop where
  title : ∃ fields titleFieldId, itemsOf map CollectionKeys.fields = some fields ∧
    isTitle map titleFieldId = true ∧ (itemAt fields titleFieldId).isSome = true
  fields : ∀ fields, itemsOf map CollectionKeys.fields = some fields →
    fields.rows.length ≤ maxFields ∧ fields.keys.Nodup ∧
      ∀ id entry, itemAt fields id = some entry → OptionsKept (readOptions entry)
  views : ∀ views, itemsOf map CollectionKeys.views = some views →
    views.rows.length ≤ maxViews ∧ views.keys.Nodup

/-- An item of a collection **sorts last** by its position. -/
def SortsLast (js : Js) (root : Root) (collectionId items key id : String) : Prop :=
  ∃ map entries entry, collectionMap root collectionId = some map ∧
    itemsOf map items = some entries ∧ entries.get id = some entry ∧
    ∀ other value, entries.get other = some value → other ≠ id →
      JsString.units (indexText js key value) < JsString.units (indexText js key entry)

/-- **What the writers keep** of the collections of a page. -/
structure Keeps (js : Js) (root : Root) : Prop where
  collection : ∀ collectionId map, collectionMap root collectionId = some map → IsCollection map
  returns : ∀ op, ∃ answer, write js root op = .ok answer
  refused : ∀ op root', write js root op = .ok (root', false) → root' = root
  lastField : ∀ collectionId field root', addField js root collectionId field = .ok (root', true) →
    SortsLast js root' collectionId CollectionKeys.fields FieldKeys.idx field.id
  lastView : ∀ collectionId view root', addView js root collectionId view = .ok (root', true) →
    SortsLast js root' collectionId CollectionKeys.views ViewKeys.idx view.id

/-- **A config spoils the options** of a field: they are too many, or two have one id, and it is
stored. -/
def SpoilsOptions (root : Root) : WriterOp → Prop
  | .addField collectionId field => ∃ config map fields, field.config = some config ∧
      ¬OptionsKept (optionsIn (.object config)) ∧ collectionMap root collectionId = some map ∧
      itemsOf map CollectionKeys.fields = some fields ∧ fields.has field.id = false ∧
      fields.rows.length < maxFields
  | .updateField collectionId fieldId changes => ∃ config map fields entry,
      changes.config = some config ∧ ¬OptionsKept (optionsIn (.object config)) ∧
      collectionMap root collectionId = some map ∧
      itemsOf map CollectionKeys.fields = some fields ∧ itemAt fields fieldId = some entry
  | _ => False

variable {js : Js} {root root' : Root} {map : YMap CollectionValue} {items items' : YMap ItemEntry}
  {entry entry' : YMap SharedValue} {collectionId key id : String} {op : WriterOp}

/-! ### What the options are -/

theorem readOption_stored {option : SelectOption} (hid : option.id ≠ "") :
    (readOption option.stored).map (·.id) = some option.id := by
  have hstring : (option.stored.get "id").string? = some option.id := rfl
  rw [readOption, hstring]
  split
  · rename_i heq
    cases heq
  · rename_i heq
    exact absurd (some.inj heq) hid
  · rename_i heq
    exact heq.symm

theorem idsClash_eq_false_iff {seen : List String} {options : List SelectOption} :
    idsClash seen options = false ↔ (∀ option ∈ options, option.id ≠ "" ∧ option.id ∉ seen) ∧
      (options.map (·.id)).Nodup := by
  induction options generalizing seen with
  | nil => simp [idsClash]
  | cons option rest ih =>
    rw [idsClash, Bool.or_eq_false_iff, Bool.or_eq_false_iff, ih, decide_eq_false_iff_not,
      decide_eq_false_iff_not, map_cons, nodup_cons, forall_mem_cons]
    constructor
    · rintro ⟨⟨hne, hseen⟩, hrest, hnodup⟩
      refine ⟨⟨⟨hne, hseen⟩, fun other hother => ?_⟩, fun hmem => ?_, hnodup⟩
      · obtain ⟨hnot, hfresh⟩ := hrest other hother
        exact ⟨hnot, fun hmem => hfresh (mem_cons_of_mem _ hmem)⟩
      · obtain ⟨other, hother, heq⟩ := List.mem_map.mp hmem
        exact (hrest other hother).2 (heq ▸ mem_cons_self)
    · rintro ⟨⟨⟨hne, hseen⟩, hrest⟩, hmem, hnodup⟩
      refine ⟨⟨hne, hseen⟩, fun other hother => ⟨(hrest other hother).1, ?_⟩, hnodup⟩
      rw [mem_cons]
      rintro (heq | hold)
      · exact hmem (List.mem_map.mpr ⟨other, hother, heq⟩)
      · exact (hrest other hother).2 hold

theorem get_withKey {record : Record} {value : JsValue} :
    (JsValue.object (withKey record key value)).get key = value := by
  rw [JsValue.get, withKey]
  split
  · rename_i hmem
    obtain ⟨field, hfield, hkey⟩ := List.mem_map.mp hmem
    obtain ⟨found, hfound⟩ : ∃ found, record.find? (fun field => field.1 = key) = some found :=
      isSome_iff_exists.mp
        (List.find?_isSome.mpr ⟨field, hfield, decide_eq_true hkey⟩)
    have hsame : ((fun field : String × JsValue => decide (field.1 = key)) ∘
        fun field => if field.1 = key then (key, value) else field) =
        fun field => decide (field.1 = key) := by
      funext field
      by_cases heq : field.1 = key <;> simp [heq]
    have hkeyed : found.1 = key := by simpa using List.find?_some hfound
    rw [List.find?_map, hsame, hfound, map_some, map_some, if_pos hkeyed,
      getD_some]
  · rename_i hnew
    have hnone : record.find? (fun field => field.1 = key) = none := by
      rw [List.find?_eq_none]
      exact fun field hfield heq => hnew (List.mem_map.mpr ⟨field, hfield, of_decide_eq_true heq⟩)
    rw [List.find?_append, hnone]
    simp

theorem ids_optionsIn {record : Record} {options : List SelectOption}
    (hids : ∀ option ∈ options, option.id ≠ "") :
    (optionsIn (.object (withKey record "options" (.array (options.map SelectOption.stored))))).map
      (·.id) = options.map (·.id) := by
  rw [optionsIn, get_withKey, JsValue.array?, getD_some, filterMap_map,
    map_filterMap, ← filterMap_eq_map]
  exact filterMap_congr fun option hoption => readOption_stored (hids option hoption)

theorem optionsKept_of_set {record : Record} {options : List SelectOption}
    (hlength : ¬maxOptions < options.length) (hclash : ¬idsClash [] options = true) :
    OptionsKept (optionsIn
      (.object (withKey record "options" (.array (options.map SelectOption.stored))))) := by
  obtain ⟨hall, hnodup⟩ := idsClash_eq_false_iff.mp (Bool.eq_false_iff.mpr hclash)
  have hids := @ids_optionsIn record options fun option hoption => (hall option hoption).1
  have hsame := congrArg List.length hids
  rw [length_map, length_map] at hsame
  exact ⟨by omega, hids ▸ hnodup⟩

/-! ### Maps -/

theorem length_set_of_has {V : Type} {m : YMap V} {value : V} (h : m.has key = true) :
    (m.set key value).rows.length = m.rows.length := by
  obtain ⟨row, hrow⟩ : ∃ row, m.find key = some row := by
    rw [YMap.has, YMap.get, isSome_map] at h
    exact isSome_iff_exists.mp h
  have hkeys : (m.set key value).rows.map (·.1) = m.rows.map (·.1) :=
    Keyed.map_upsert hrow (Keyed.key_eq hrow).symm
  have hlength := congrArg List.length hkeys
  rw [length_map, length_map] at hlength
  exact hlength

theorem length_set_of_not_has {V : Type} {m : YMap V} {value : V} (h : m.has key = false) :
    (m.set key value).rows.length = m.rows.length + 1 := by
  have hnew : key ∉ m.keys := YMap.get_eq_none_iff.mp (by simpa [YMap.has] using h)
  rw [YMap.rows_set_of_notMem hnew, length_append, length_singleton]

theorem length_delete_le {V : Type} {m : YMap V} : (m.delete key).rows.length ≤ m.rows.length :=
  length_filter_le _ _

theorem collectionMap_set {other : String} :
    collectionMap (root.set collectionId (.map map)) other =
      if collectionId = other then some map else collectionMap root other := by
  by_cases heq : collectionId = other <;> simp [collectionMap, YMap.get_set, heq]

theorem itemsOf_set {other : String} :
    itemsOf (map.set key (.items items)) other =
      if key = other then some items else itemsOf map other := by
  by_cases heq : key = other <;> simp [itemsOf, YMap.get_set, heq]

theorem itemAt_set {other : String} :
    itemAt (items.set id (.map entry)) other =
      if id = other then some entry else itemAt items other := by
  by_cases heq : id = other <;> simp [itemAt, YMap.get_set, heq]

theorem itemAt_delete {other : String} :
    itemAt (items.delete id) other = if id = other then none else itemAt items other := by
  by_cases heq : id = other <;> simp [itemAt, YMap.get_delete, heq]

theorem get_of_itemAt (h : itemAt items id = some entry) : items.get id = some (.map entry) := by
  rw [itemAt] at h
  split at h
  · rename_i found hfound
    rw [hfound, some.inj h]
  · cases h

/-! ### What a writer does -/

variable {change : YMap CollectionValue → YMap ItemEntry →
  Except FractionalIndex.Failure (Option (YMap ItemEntry))} {answer : Bool}

/-- **A writer refuses**, and changes nothing, or it writes what it makes of the items. -/
theorem onItems_eq_ok (h : onItems root collectionId key change = .ok (root', answer)) :
    answer = false ∧ root' = root ∨
      answer = true ∧ ∃ map items items', collectionMap root collectionId = some map ∧
        itemsOf map key = some items ∧ change map items = .ok (some items') ∧
        root' = root.set collectionId (.map (map.set key (.items items'))) := by
  rw [onItems] at h
  split at h
  · obtain ⟨rfl, rfl⟩ := Prod.mk.inj (Except.ok.inj h)
    exact .inl ⟨rfl, rfl⟩
  · rename_i map hmap
    split at h
    · obtain ⟨rfl, rfl⟩ := Prod.mk.inj (Except.ok.inj h)
      exact .inl ⟨rfl, rfl⟩
    · rename_i items hitems
      rcases hchange : change map items with failure | made
      · rw [hchange] at h
        cases h
      · rw [hchange] at h
        rcases made with _ | items'
        · obtain ⟨rfl, rfl⟩ := Prod.mk.inj (Except.ok.inj h)
          exact .inl ⟨rfl, rfl⟩
        · obtain ⟨rfl, rfl⟩ := Prod.mk.inj (Except.ok.inj h)
          exact .inr ⟨rfl, map, items, items', hmap, hitems, hchange, rfl⟩

theorem onItems_of_some (hmap : collectionMap root collectionId = some map)
    (hitems : itemsOf map key = some items) (hchange : change map items = .ok (some items')) :
    onItems root collectionId key change =
      .ok (root.set collectionId (.map (map.set key (.items items'))), true) := by
  simp only [onItems, hmap, hitems, hchange]
  rfl

theorem exists_onItems (hchange : ∀ map items, collectionMap root collectionId = some map →
    itemsOf map key = some items → ∃ made, change map items = .ok made) :
    ∃ answer, onItems root collectionId key change = .ok answer := by
  rw [onItems]
  split
  · exact ⟨_, rfl⟩
  · rename_i map hmap
    split
    · exact ⟨_, rfl⟩
    · rename_i items hitems
      obtain ⟨made, hmade⟩ := hchange map items hmap hitems
      rw [hmade]
      rcases made with _ | items'
      · exact ⟨_, rfl⟩
      · exact ⟨_, rfl⟩

/-! ### Positions -/

def IsOrdered (key : String) (items : YMap ItemEntry) : Prop :=
  ∀ id value, items.get id = some value → ∃ entries s, value = .map entries ∧
    entries.get key = some (text s) ∧ FractionalIndex.validate s.toList = .ok ()

theorem indexText_of_get {s : String} (h : entry.get key = some (text s)) :
    indexText js key (.map entry) = s := by
  simp [indexText, h, text]

theorem ne_empty_of_validate {s : String} (h : FractionalIndex.validate s.toList = .ok ()) :
    s ≠ "" := by
  rintro rfl
  cases h

theorem le_iff {a b : String} :
    JsString.le a b = true ↔ JsString.units a ≤ JsString.units b := by
  rw [JsString.le, Bool.not_eq_true', decide_eq_false_iff_not, not_lt]

/-- **The last position** is a key, and that of no item is above it. -/
theorem lastIndex_spec (js : Js) (h : IsOrdered key items) :
    (∀ s ∈ lastIndex js key items, FractionalIndex.validate s.toList = .ok ()) ∧
      ∀ id value, items.get id = some value →
        ∃ s ∈ lastIndex js key items,
          JsString.units (indexText js key value) ≤ JsString.units s := by
  obtain ⟨texts, htexts⟩ : ∃ texts, texts =
      (items.rows.map fun row => indexText js key row.2).filter (· ≠ "") := ⟨_, rfl⟩
  have hvalid : ∀ s ∈ texts, FractionalIndex.validate s.toList = .ok () := by
    intro s hs
    obtain ⟨row, hrow, rfl⟩ := List.mem_map.mp (mem_filter.mp (htexts ▸ hs)).1
    have hget : items.get row.1 = some row.2 := by
      rw [YMap.get, Keyed.mem_rows_iff.mp hrow, map_some]
    obtain ⟨entries, s, hmap, hkey, hs⟩ := h _ _ hget
    rwa [hmap, indexText_of_get hkey]
  have hmem : ∀ id value, items.get id = some value → indexText js key value ∈ texts := by
    intro id value hget
    obtain ⟨row, hrow, rfl⟩ := map_eq_some_iff.mp hget
    obtain ⟨entries, s, hmap, hkey, hs⟩ := h _ _ hget
    rw [htexts, mem_filter]
    refine ⟨List.mem_map.mpr ⟨row, Keyed.mem_rows hrow, rfl⟩, decide_eq_true ?_⟩
    rw [hmap, indexText_of_get hkey]
    exact ne_empty_of_validate hs
  have hsorted : (texts.mergeSort JsString.le).Pairwise fun a b => JsString.le a b = true := by
    refine pairwise_mergeSort (fun a b c hab hbc => ?_) (fun a b => ?_) texts
    · exact le_iff.mpr ((le_iff.mp hab).trans (le_iff.mp hbc))
    · rw [Bool.or_eq_true, le_iff, le_iff]
      exact le_total _ _
  have hlast : lastIndex js key items = (texts.mergeSort JsString.le).getLast? := by
    rw [lastIndex, htexts]
  rw [hlast]
  refine ⟨fun s hs => hvalid s (mem_mergeSort.mp (mem_of_getLast? hs)), ?_⟩
  intro id value hget
  have hin : indexText js key value ∈ texts.mergeSort JsString.le :=
    mem_mergeSort.mpr (hmem id value hget)
  rcases eq_nil_or_concat (texts.mergeSort JsString.le) with hnil | ⟨before, last, hconcat⟩
  · rw [hnil] at hin
    cases hin
  · rw [hconcat] at hin hsorted ⊢
    rw [concat_eq_append] at hin hsorted ⊢
    refine ⟨last, List.getLast?_concat, ?_⟩
    rcases mem_append.mp hin with hbefore | hsame
    · exact le_iff.mp ((pairwise_append.mp hsorted).2.2 _ hbefore last (by simp))
    · rw [mem_singleton.mp hsame]

/-- **An item that is added** gets a key above all positions there are. -/
theorem addItem_spec (js : Js) {limit : ℕ} {created : String → YMap SharedValue}
    (h : IsOrdered key items) :
    ∃ made, addItem js limit key id created items = .ok made ∧
      (items.has id = false → items.rows.length < limit → made.isSome = true) ∧
      ∀ items', made = some items' → items.has id = false ∧ items.rows.length < limit ∧
        ∃ s, items' = items.set id (.map (created s)) ∧
          FractionalIndex.validate s.toList = .ok () ∧ ∀ other value, items.get other = some value →
            JsString.units (indexText js key value) < JsString.units s := by
  obtain ⟨hvalid, hlast⟩ := lastIndex_spec js h
  rw [addItem]
  split_ifs with hhas hfull
  · exact ⟨none, rfl, by simp [hhas], fun items' hnone => nomatch hnone⟩
  · exact ⟨none, rfl, by omega, fun items' hnone => nomatch hnone⟩
  · obtain ⟨idx, hidx, hkey, habove, -⟩ := FractionalIndex.exists_key
      ((lastIndex js key items).map String.toList) none
      (fun b hb => by
        obtain ⟨s, hs, rfl⟩ := map_eq_some_iff.mp hb
        exact hvalid s hs)
      (fun a ha => nomatch ha) (fun b _ a ha => nomatch ha) (fun hboth => nomatch hboth.2)
    rw [hidx]
    refine ⟨_, rfl, fun _ _ => rfl, fun items' hitems' => ?_⟩
    obtain rfl := some.inj hitems'
    have htext : (String.ofList idx).toList = idx := String.toList_ofList
    refine ⟨by simpa using hhas, by omega, String.ofList idx, rfl, by rwa [htext], ?_⟩
    intro other value hget
    obtain ⟨s, hs, hle⟩ := hlast other value hget
    refine lt_of_le_of_lt hle (Canvas.units_lt (hvalid s hs) (by rwa [htext]) ?_)
    rw [htext]
    exact habove s.toList (by simp [mem_def.mp hs])

/-! ### The invariant -/

structure AreFields (map : YMap CollectionValue) (fields : YMap ItemEntry) : Prop where
  ordered : IsOrdered FieldKeys.idx fields
  length : fields.rows.length ≤ maxFields
  title : ∃ titleFieldId, isTitle map titleFieldId = true ∧ fields.has titleFieldId = true

structure AreViews (views : YMap ItemEntry) : Prop where
  ordered : IsOrdered ViewKeys.idx views
  length : views.rows.length ≤ maxViews

/-- **The invariant of a collection.** -/
structure Inv (map : YMap CollectionValue) : Prop where
  fields : ∃ fields, itemsOf map CollectionKeys.fields = some fields ∧ AreFields map fields
  views : ∃ views, itemsOf map CollectionKeys.views = some views ∧ AreViews views

def OptionsOf (map : YMap CollectionValue) : Prop :=
  ∀ fields id entry, itemsOf map CollectionKeys.fields = some fields →
    itemAt fields id = some entry → OptionsKept (readOptions entry)

theorem isTitle_set {value : CollectionValue} (hkey : key ≠ CollectionKeys.titleFieldId) :
    isTitle (map.set key value) id = isTitle map id := by
  rw [isTitle, YMap.get_set, if_neg hkey, isTitle]

theorem Inv.set_fields (h : Inv map) (hfields : AreFields map items) :
    Inv (map.set CollectionKeys.fields (.items items)) where
  fields := by
    refine ⟨items, by rw [itemsOf_set, if_pos rfl], hfields.ordered, hfields.length, ?_⟩
    obtain ⟨titleFieldId, htitle, hhas⟩ := hfields.title
    exact ⟨titleFieldId, by rw [isTitle_set (by decide), htitle], hhas⟩
  views := by
    obtain ⟨views, hviews, hall⟩ := h.views
    exact ⟨views, by rw [itemsOf_set, if_neg (by decide), hviews], hall⟩

theorem Inv.set_views (h : Inv map) (hviews : AreViews items) :
    Inv (map.set CollectionKeys.views (.items items)) where
  fields := by
    obtain ⟨fields, hfields, hall⟩ := h.fields
    refine ⟨fields, by rw [itemsOf_set, if_neg (by decide), hfields], hall.ordered, hall.length, ?_⟩
    obtain ⟨titleFieldId, htitle, hhas⟩ := hall.title
    exact ⟨titleFieldId, by rw [isTitle_set (by decide), htitle], hhas⟩
  views := ⟨items, by rw [itemsOf_set, if_pos rfl], hviews⟩

theorem IsOrdered.set {s : String} (h : IsOrdered key items) (hidx : entry.get key = some (text s))
    (hvalid : FractionalIndex.validate s.toList = .ok ()) :
    IsOrdered key (items.set id (.map entry)) := by
  intro other value hget
  rw [YMap.get_set] at hget
  split_ifs at hget
  · obtain rfl := some.inj hget
    exact ⟨entry, s, rfl, hidx, hvalid⟩
  · exact h other value hget

theorem IsOrdered.update (h : IsOrdered key items) (hentry : itemAt items id = some entry)
    (hidx : entry'.get key = entry.get key) : IsOrdered key (items.set id (.map entry')) := by
  obtain ⟨entries, s, hmap, hkey, hvalid⟩ := h id _ (get_of_itemAt hentry)
  obtain rfl := ItemEntry.map.inj hmap
  exact h.set (hidx.trans hkey) hvalid

theorem IsOrdered.delete (h : IsOrdered key items) : IsOrdered key (items.delete id) := by
  intro other value hget
  rw [YMap.get_delete] at hget
  split_ifs at hget
  exact h other value hget

theorem has_of_itemAt (h : itemAt items id = some entry) : items.has id = true := by
  rw [YMap.has, get_of_itemAt h]
  rfl

theorem has_set {value : ItemEntry} {other : String} (h : items.has other = true) :
    (items.set id value).has other = true := by
  rw [YMap.has, YMap.get_set]
  split
  · rfl
  · exact h

theorem AreFields.update (h : AreFields map items) (hentry : itemAt items id = some entry)
    (hidx : entry'.get FieldKeys.idx = entry.get FieldKeys.idx) :
    AreFields map (items.set id (.map entry')) where
  ordered := h.ordered.update hentry hidx
  length := (length_set_of_has (has_of_itemAt hentry)).trans_le h.length
  title := by
    obtain ⟨titleFieldId, htitle, hhas⟩ := h.title
    exact ⟨titleFieldId, htitle, has_set hhas⟩

theorem get_newField_idx (field : NewField) (idx : String) :
    (newField field idx).get FieldKeys.idx = some (text idx) := by
  rw [newField, YMap.get_set, if_neg (by decide), YMap.get_set, if_pos rfl]

theorem get_newView_idx (view : NewView) (idx : String) :
    (newView view idx).get ViewKeys.idx = some (text idx) := by
  rw [newView, YMap.get_set, if_neg (by decide), YMap.get_set, if_neg (by decide), YMap.get_set,
    if_pos rfl]

theorem get_changedField (changes : FieldChanges)
    (hkey : key ∉ [FieldKeys.name, FieldKeys.description, FieldKeys.config]) :
    (changedField entry changes).get key = entry.get key := by
  simp only [mem_cons, not_mem_nil, or_false, not_or] at hkey
  obtain ⟨hname, hdescription, hconfig⟩ := hkey
  rcases changes with ⟨_ | name, _ | _ | description, _ | config⟩ <;>
    simp [changedField, YMap.get_set, YMap.get_delete, Ne.symm hname, Ne.symm hdescription,
      Ne.symm hconfig]

theorem get_changedView_idx (changes : ViewChanges) :
    (changedView entry changes).get ViewKeys.idx = entry.get ViewKeys.idx := by
  rcases changes with ⟨_ | name, _ | definition⟩ <;>
    simp [changedView, YMap.get_set, ViewKeys.name, ViewKeys.idx, ViewKeys.definition]

theorem inv_newCollection (titleFieldId titleName : String) :
    Inv (newCollection titleFieldId titleName) := by
  have hempty : IsOrdered FieldKeys.idx YMap.empty := fun _ _ hget => nomatch hget
  refine ⟨⟨_, rfl, ?_, ?_, titleFieldId, ?_, ?_⟩, ⟨YMap.empty, rfl, ⟨?_, Nat.zero_le _⟩⟩⟩
  · refine hempty.set (s := "a0") ?_ (by decide +kernel)
    rw [YMap.get_set, if_neg (by decide), YMap.get_set, if_pos rfl]
  · rw [length_set_of_not_has rfl]
    decide
  · simp [isTitle, newCollection, YMap.get_set, text, CollectionKeys.titleFieldId,
      CollectionKeys.fields, CollectionKeys.views]
  · simp [YMap.has, YMap.get_set]
  · exact fun _ _ hget => nomatch hget

/-! ### The options of a field -/

theorem readOptions_of_get {config : Record}
    (h : entry.get FieldKeys.config = some (.plain (.object config))) :
    readOptions entry = optionsIn (.object config) := by
  rw [readOptions, h]

theorem optionsKept_of_get_none (h : entry.get FieldKeys.config = none) :
    OptionsKept (readOptions entry) := by
  rw [readOptions, h]
  exact ⟨Nat.zero_le _, nodup_nil⟩

theorem readOptions_newField (field : NewField) (idx : String) :
    readOptions (newField field idx) =
      (field.config.map fun config => optionsIn (.object config)).getD [] := by
  have hget : (newField field idx).get FieldKeys.config =
      field.config.map fun config => .plain (.object config) := by
    rw [newField, YMap.get_set, if_neg (by decide), YMap.get_set, if_neg (by decide)]
    rcases field with ⟨id, name, fieldType, description, _ | config⟩
    · by_cases hdescription : description.getD "" = "" <;>
        simp [hdescription, YMap.get_set, FieldKeys.config, FieldKeys.name, FieldKeys.fieldType,
          FieldKeys.description]
    · simp [YMap.get_set]
  rw [readOptions, hget]
  rcases field.config with _ | config
  · rfl
  · rfl

theorem readOptions_changedField (changes : FieldChanges) :
    readOptions (changedField entry changes) =
      (changes.config.map fun config => optionsIn (.object config)).getD (readOptions entry) := by
  rcases changes with ⟨name, description, _ | config⟩
  · have hget : (changedField entry ⟨name, description, none⟩).get FieldKeys.config =
        entry.get FieldKeys.config := by
      rcases name with _ | name <;> rcases description with _ | _ | description <;>
        simp [changedField, YMap.get_set, YMap.get_delete, FieldKeys.config, FieldKeys.name,
          FieldKeys.description]
    rw [readOptions, hget]
    rfl
  · exact readOptions_of_get (by simp [changedField, YMap.get_set])

/-! ### What a step keeps -/

/-- **What a writer keeps of the collection it writes** holds of all of them. -/
theorem onItems_keeps {P : YMap CollectionValue → Prop}
    (hall : ∀ other map, collectionMap root other = some map → P map)
    (hset : ∀ map items items', collectionMap root collectionId = some map →
      itemsOf map key = some items → change map items = .ok (some items') → P map →
      P (map.set key (.items items')))
    (h : onItems root collectionId key change = .ok (root', answer)) :
    ∀ other map, collectionMap root' other = some map → P map := by
  intro other map hmap
  rcases onItems_eq_ok h with ⟨-, rfl⟩ | ⟨-, before, items, items', hbefore, hitems, hchange, rfl⟩
  · exact hall other map hmap
  · rw [collectionMap_set] at hmap
    split_ifs at hmap
    · obtain rfl := some.inj hmap
      exact hset before items items' hbefore hitems hchange (hall _ _ hbefore)
    · exact hall other map hmap

theorem onFields_keeps (hall : ∀ other map, collectionMap root other = some map → Inv map)
    (hset : ∀ map items items', change map items = .ok (some items') → AreFields map items →
      AreFields map items')
    (h : onItems root collectionId CollectionKeys.fields change = .ok (root', answer)) :
    ∀ other map, collectionMap root' other = some map → Inv map := by
  refine onItems_keeps hall (fun map items items' _ hitems hchange hinv => hinv.set_fields ?_) h
  obtain ⟨fields, hfields, hare⟩ := hinv.fields
  obtain rfl : fields = items := some.inj (hfields.symm.trans hitems)
  exact hset map fields items' hchange hare

theorem onViews_keeps (hall : ∀ other map, collectionMap root other = some map → Inv map)
    (hset : ∀ map items items', change map items = .ok (some items') → AreViews items →
      AreViews items')
    (h : onItems root collectionId CollectionKeys.views change = .ok (root', answer)) :
    ∀ other map, collectionMap root' other = some map → Inv map := by
  refine onItems_keeps hall (fun map items items' _ hitems hchange hinv => hinv.set_views ?_) h
  obtain ⟨views, hviews, hare⟩ := hinv.views
  obtain rfl : views = items := some.inj (hviews.symm.trans hitems)
  exact hset map views items' hchange hare

theorem onItem_eq_some {make : YMap SharedValue → Option (YMap SharedValue)}
    (h : onItem items id make = some items') : ∃ entry entry', itemAt items id = some entry ∧
      make entry = some entry' ∧ items' = items.set id (.map entry') := by
  obtain ⟨entry, hentry, h⟩ := bind_eq_some_iff.mp h
  obtain ⟨entry', hmake, rfl⟩ := map_eq_some_iff.mp h
  exact ⟨entry, entry', hentry, hmake, rfl⟩

/-- **The step lemma.** -/
theorem inv_write (hall : ∀ other map, collectionMap root other = some map → Inv map)
    (h : write js root op = .ok (root', answer)) :
    ∀ other map, collectionMap root' other = some map → Inv map := by
  cases op with
  | initCollection collectionId titleFieldId titleName =>
    obtain ⟨rfl, -⟩ := Prod.mk.inj (Except.ok.inj h)
    intro other map hmap
    rw [initCollection] at hmap
    split_ifs at hmap
    · exact hall other map hmap
    · rw [collectionMap_set] at hmap
      split_ifs at hmap
      · obtain rfl := some.inj hmap
        exact inv_newCollection _ _
      · exact hall other map hmap
  | addField collectionId field =>
    refine onFields_keeps hall (fun map items items' hmade hare => ?_) h
    obtain ⟨made, hadd, -, hspec⟩ := addItem_spec js hare.ordered
    obtain ⟨hnew, hroom, s, rfl, hvalid, -⟩ := hspec items' (Except.ok.inj (hadd.symm.trans hmade))
    obtain ⟨titleFieldId, htitle, hhas⟩ := hare.title
    exact ⟨hare.ordered.set (get_newField_idx field s) hvalid,
      (length_set_of_not_has hnew).trans_le hroom, titleFieldId, htitle, has_set hhas⟩
  | removeField collectionId fieldId =>
    refine onFields_keeps hall (fun map items items' hmade hare => ?_) h
    split_ifs at hmade with htitle
    · cases hmade
    · cases hmade
    · obtain rfl := some.inj (Except.ok.inj hmade)
      obtain ⟨titleFieldId, hkept, hhas⟩ := hare.title
      refine ⟨hare.ordered.delete, length_delete_le.trans hare.length, titleFieldId, hkept, ?_⟩
      have hne : fieldId ≠ titleFieldId := by
        rintro rfl
        exact htitle hkept
      rw [YMap.has, YMap.get_delete, if_neg hne]
      exact hhas
  | updateField collectionId fieldId changes =>
    refine onFields_keeps hall (fun map items items' hmade hare => ?_) h
    obtain ⟨entry, entry', hentry, hmake, rfl⟩ := onItem_eq_some (Except.ok.inj hmade)
    obtain rfl := some.inj hmake
    exact hare.update hentry (get_changedField changes (by decide))
  | setOptions collectionId fieldId options =>
    refine onFields_keeps hall (fun map items items' hmade hare => ?_) h
    obtain ⟨entry, entry', hentry, hmake, rfl⟩ := onItem_eq_some (Except.ok.inj hmade)
    split_ifs at hmake
    obtain rfl := some.inj hmake
    exact hare.update hentry (by rw [YMap.get_set, if_neg (by decide)])
  | addView collectionId view =>
    refine onViews_keeps hall (fun map items items' hmade hare => ?_) h
    obtain ⟨made, hadd, -, hspec⟩ := addItem_spec js hare.ordered
    obtain ⟨hnew, hroom, s, rfl, hvalid, -⟩ := hspec items' (Except.ok.inj (hadd.symm.trans hmade))
    exact ⟨hare.ordered.set (get_newView_idx view s) hvalid,
      (length_set_of_not_has hnew).trans_le hroom⟩
  | updateView collectionId viewId changes =>
    refine onViews_keeps hall (fun map items items' hmade hare => ?_) h
    obtain ⟨entry, entry', hentry, hmake, rfl⟩ := onItem_eq_some (Except.ok.inj hmade)
    obtain rfl := some.inj hmake
    exact ⟨hare.ordered.update hentry (get_changedView_idx changes),
      (length_set_of_has (has_of_itemAt hentry)).trans_le hare.length⟩

theorem optionsOf_set
    (h : ∀ id entry, itemAt items id = some entry → OptionsKept (readOptions entry)) :
    OptionsOf (map.set CollectionKeys.fields (.items items)) := by
  intro fields id entry hfields hentry
  rw [itemsOf_set, if_pos rfl] at hfields
  obtain rfl := some.inj hfields
  exact h id entry hentry

theorem optionsOf_newCollection (titleFieldId titleName : String) :
    OptionsOf (newCollection titleFieldId titleName) := by
  intro fields id entry hfields hentry
  obtain rfl := some.inj (hfields.symm.trans (rfl :
    itemsOf (newCollection titleFieldId titleName) CollectionKeys.fields = some _))
  rw [itemAt_set] at hentry
  split_ifs at hentry
  · rw [← some.inj hentry]
    refine optionsKept_of_get_none ?_
    simp [YMap.get_set, FieldKeys.config, FieldKeys.name, FieldKeys.fieldType, FieldKeys.idx,
      FieldKeys.schemaVersion]
  · cases hentry

theorem optionsKept_set (hall : ∀ id entry, itemAt items id = some entry →
      OptionsKept (readOptions entry)) (hnew : OptionsKept (readOptions entry')) :
    ∀ other entry, itemAt (items.set id (.map entry')) other = some entry →
      OptionsKept (readOptions entry) := by
  intro other entry hentry
  rw [itemAt_set] at hentry
  split_ifs at hentry
  · exact some.inj hentry ▸ hnew
  · exact hall other entry hentry

theorem onViews_optionsOf (hall : ∀ other map, collectionMap root other = some map → OptionsOf map)
    (h : onItems root collectionId CollectionKeys.views change = .ok (root', answer)) :
    ∀ other map, collectionMap root' other = some map → OptionsOf map := by
  refine onItems_keeps hall (fun map items items' _ _ _ hold fields id entry hfields => ?_) h
  rw [itemsOf_set, if_neg (by decide)] at hfields
  exact hold fields id entry hfields

/-- **The step lemma of the options**: they stay as there may be unless a config spoils them. -/
theorem optionsOf_write (hinv : ∀ other map, collectionMap root other = some map → Inv map)
    (hall : ∀ other map, collectionMap root other = some map → OptionsOf map)
    (hok : ¬SpoilsOptions root op) (h : write js root op = .ok (root', answer)) :
    ∀ other map, collectionMap root' other = some map → OptionsOf map := by
  cases op with
  | initCollection collectionId titleFieldId titleName =>
    obtain ⟨rfl, -⟩ := Prod.mk.inj (Except.ok.inj h)
    intro other map hmap
    rw [initCollection] at hmap
    split_ifs at hmap
    · exact hall other map hmap
    · rw [collectionMap_set] at hmap
      split_ifs at hmap
      · obtain rfl := some.inj hmap
        exact optionsOf_newCollection _ _
      · exact hall other map hmap
  | addField collectionId field =>
    refine onItems_keeps hall (fun map items items' hmap hitems hmade hold => ?_) h
    obtain ⟨fields, hfields, hare⟩ := (hinv _ _ hmap).fields
    obtain rfl : fields = items := some.inj (hfields.symm.trans hitems)
    obtain ⟨made, hadd, -, hspec⟩ := addItem_spec js hare.ordered
    obtain ⟨hnew, hroom, s, rfl, -, -⟩ := hspec items' (Except.ok.inj (hadd.symm.trans hmade))
    refine optionsOf_set (optionsKept_set (fun id entry => hold fields id entry hitems) ?_)
    rw [readOptions_newField]
    rcases hconfig : field.config with _ | config
    · exact ⟨Nat.zero_le _, nodup_nil⟩
    · by_contra hnot
      exact hok ⟨config, map, fields, hconfig, hnot, hmap, hitems, hnew, hroom⟩
  | removeField collectionId fieldId =>
    refine onItems_keeps hall (fun map items items' _ hitems hmade hold => ?_) h
    split_ifs at hmade
    · cases hmade
    · cases hmade
    · obtain rfl := some.inj (Except.ok.inj hmade)
      refine optionsOf_set fun id entry hentry => ?_
      rw [itemAt_delete] at hentry
      split_ifs at hentry
      exact hold items id entry hitems hentry
  | updateField collectionId fieldId changes =>
    refine onItems_keeps hall (fun map items items' hmap hitems hmade hold => ?_) h
    obtain ⟨entry, entry', hentry, hmake, rfl⟩ := onItem_eq_some (Except.ok.inj hmade)
    obtain rfl := some.inj hmake
    refine optionsOf_set (optionsKept_set (fun id entry => hold items id entry hitems) ?_)
    rw [readOptions_changedField]
    rcases hconfig : changes.config with _ | config
    · exact hold items _ entry hitems hentry
    · by_contra hnot
      exact hok ⟨config, map, items, entry, hconfig, hnot, hmap, hitems, hentry⟩
  | setOptions collectionId fieldId options =>
    refine onItems_keeps hall (fun map items items' _ hitems hmade hold => ?_) h
    obtain ⟨entry, entry', hentry, hmake, rfl⟩ := onItem_eq_some (Except.ok.inj hmade)
    split_ifs at hmake with _ hlength hclash
    obtain rfl := some.inj hmake
    refine optionsOf_set (optionsKept_set (fun id entry => hold items id entry hitems) ?_)
    rw [readOptions_of_get (by rw [YMap.get_set, if_pos rfl])]
    exact optionsKept_of_set hlength hclash
  | addView collectionId view => exact onViews_optionsOf hall h
  | updateView collectionId viewId changes => exact onViews_optionsOf hall h

/-! ### Runs -/

theorem isCollection_of_inv (hinv : Inv map) (hoptions : OptionsOf map) : IsCollection map := by
  obtain ⟨fields, hfields, hare⟩ := hinv.fields
  obtain ⟨views, hviews, hthese⟩ := hinv.views
  refine ⟨?_, fun others hothers => ?_, fun others hothers => ?_⟩
  · obtain ⟨titleFieldId, htitle, hhas⟩ := hare.title
    obtain ⟨value, hvalue⟩ := isSome_iff_exists.mp hhas
    obtain ⟨entries, s, rfl, -⟩ := hare.ordered _ _ hvalue
    exact ⟨fields, titleFieldId, hfields, htitle, by simp [itemAt, hvalue]⟩
  · obtain rfl : fields = others := some.inj (hfields.symm.trans hothers)
    exact ⟨hare.length, fields.nodup, fun id entry => hoptions fields id entry hfields⟩
  · obtain rfl : views = others := some.inj (hviews.symm.trans hothers)
    exact ⟨hthese.length, views.nodup⟩

theorem sortsLast_of_addItem {limit : ℕ} {place : String} {created : String → YMap SharedValue}
    (hcreated : ∀ s, (created s).get key = some (text s))
    (hordered : ∀ map items, collectionMap root collectionId = some map →
      itemsOf map place = some items → IsOrdered key items)
    (h : onItems root collectionId place (fun _ => addItem js limit key id created) =
      .ok (root', true)) : SortsLast js root' collectionId place key id := by
  rcases onItems_eq_ok h with ⟨hnot, -⟩ | ⟨-, map, items, items', hmap, hitems, hmade, rfl⟩
  · cases hnot
  · obtain ⟨made, hadd, -, hspec⟩ := addItem_spec js (hordered map items hmap hitems)
    obtain ⟨-, -, s, rfl, -, habove⟩ := hspec items' (Except.ok.inj (hadd.symm.trans hmade))
    refine ⟨_, _, .map (created s), by rw [collectionMap_set, if_pos rfl],
      by rw [itemsOf_set, if_pos rfl], by rw [YMap.get_set, if_pos rfl], ?_⟩
    intro other value hvalue hne
    rw [YMap.get_set, if_neg (Ne.symm hne)] at hvalue
    rw [indexText_of_get (hcreated s)]
    exact habove other value hvalue

theorem exists_write (hinv : ∀ other map, collectionMap root other = some map → Inv map)
    (op : WriterOp) : ∃ result, write js root op = .ok result := by
  cases op with
  | initCollection collectionId titleFieldId titleName => exact ⟨_, rfl⟩
  | addField collectionId field =>
    refine exists_onItems fun map items hmap hitems => ?_
    obtain ⟨fields, hfields, hare⟩ := (hinv _ _ hmap).fields
    obtain rfl : fields = items := some.inj (hfields.symm.trans hitems)
    obtain ⟨made, hadd, -⟩ := addItem_spec js hare.ordered
    exact ⟨made, hadd⟩
  | removeField collectionId fieldId =>
    refine exists_onItems fun map items _ _ => ?_
    split_ifs
    · exact ⟨_, rfl⟩
    · exact ⟨_, rfl⟩
    · exact ⟨_, rfl⟩
  | updateField collectionId fieldId changes => exact exists_onItems fun _ _ _ _ => ⟨_, rfl⟩
  | setOptions collectionId fieldId options => exact exists_onItems fun _ _ _ _ => ⟨_, rfl⟩
  | addView collectionId view =>
    refine exists_onItems fun map items hmap hitems => ?_
    obtain ⟨views, hviews, hare⟩ := (hinv _ _ hmap).views
    obtain rfl : views = items := some.inj (hviews.symm.trans hitems)
    obtain ⟨made, hadd, -⟩ := addItem_spec js hare.ordered
    exact ⟨made, hadd⟩
  | updateView collectionId viewId changes => exact exists_onItems fun _ _ _ _ => ⟨_, rfl⟩

theorem eq_of_refused (h : write js root op = .ok (root', false)) : root' = root := by
  cases op
  case initCollection => cases h
  all_goals
    rcases onItems_eq_ok h with ⟨-, hsame⟩ | ⟨htrue, -⟩
    · exact hsame
    · cases htrue

theorem step_writers (hinv : ∀ other map, collectionMap root other = some map → Inv map)
    (h : (writers js).step root op = some root') :
    ∃ answer, write js root op = .ok (root', answer) := by
  obtain ⟨⟨made, answer⟩, hwrite⟩ := @exists_write js root hinv op
  have hstep : (writers js).step root op = some made := by simp [writers, hwrite]
  obtain rfl := some.inj (hstep.symm.trans h)
  exact ⟨answer, hwrite⟩

theorem inv_of_reaches (h : (writers js).Reaches root) :
    ∀ other map, collectionMap root other = some map → Inv map := by
  refine h.invariant (I := fun root => ∀ other map, collectionMap root other = some map →
    Inv map) ?_ ?_
  · rintro _ rfl
    exact fun _ _ hmap => nomatch hmap
  · intro root op root' hinv hstep
    obtain ⟨answer, hwrite⟩ := step_writers hinv hstep
    exact inv_write hinv hwrite

/-- **The collections of a page** stay as they should be in every run in which no config spoils the
options of a field. -/
theorem keeps_of_reachesWhen
    (h : (writers js).ReachesWhen (fun root op => ¬SpoilsOptions root op) root) :
    Keeps js root := by
  have hall : (∀ other map, collectionMap root other = some map → Inv map) ∧
      ∀ other map, collectionMap root other = some map → OptionsOf map := by
    refine h.invariant (I := fun root => (∀ other map, collectionMap root other = some map →
      Inv map) ∧ ∀ other map, collectionMap root other = some map → OptionsOf map) ?_ ?_
    · rintro _ rfl
      exact ⟨fun _ _ hmap => (nomatch hmap), fun _ _ hmap => (nomatch hmap)⟩
    · rintro root op root' ⟨hinv, hoptions⟩ hok hstep
      obtain ⟨answer, hwrite⟩ := step_writers hinv hstep
      exact ⟨inv_write hinv hwrite, optionsOf_write hinv hoptions hok hwrite⟩
  obtain ⟨hinv, hoptions⟩ := hall
  refine ⟨fun other map hmap => isCollection_of_inv (hinv other map hmap) (hoptions other map hmap),
    exists_write hinv, fun op root' => eq_of_refused, fun collectionId field root' hadd => ?_,
    fun collectionId view root' hadd => ?_⟩
  · refine sortsLast_of_addItem (get_newField_idx field) (fun map items hmap hitems => ?_) hadd
    obtain ⟨fields, hfields, hare⟩ := (hinv _ _ hmap).fields
    exact some.inj (hfields.symm.trans hitems) ▸ hare.ordered
  · refine sortsLast_of_addItem (get_newView_idx view) (fun map items hmap hitems => ?_) hadd
    obtain ⟨views, hviews, hare⟩ := (hinv _ _ hmap).views
    exact some.inj (hviews.symm.trans hitems) ▸ hare.ordered

/-! ### Options of one id -/

theorem exists_addField (js : Js) (field : NewField) (hinv : Inv map)
    (hmap : collectionMap root collectionId = some map)
    (hfields : itemsOf map CollectionKeys.fields = some items) (hnew : items.has field.id = false)
    (hroom : items.rows.length < maxFields) :
    ∃ s, addField js root collectionId field = .ok (root.set collectionId (.map (map.set
      CollectionKeys.fields (.items (items.set field.id (.map (newField field s)))))), true) := by
  obtain ⟨others, hothers, hare⟩ := hinv.fields
  obtain rfl : others = items := some.inj (hothers.symm.trans hfields)
  obtain ⟨made, hadd, hsome, hspec⟩ := addItem_spec js hare.ordered
  obtain ⟨items', rfl⟩ := isSome_iff_exists.mp (hsome hnew hroom)
  obtain ⟨-, -, s, rfl, -, -⟩ := hspec items' rfl
  exact ⟨s, onItems_of_some hmap hfields hadd⟩

theorem not_keeps_of_field (hmap : collectionMap root collectionId = some map)
    (hfields : itemsOf map CollectionKeys.fields = some items)
    (hentry : itemAt items id = some entry)
    (hnot : ¬OptionsKept (readOptions entry)) : ¬Keeps js root :=
  fun h => hnot (((h.collection _ _ hmap).fields _ hfields).2.2 _ _ hentry)

/-- **A config that spoils the options** is stored. -/
theorem not_keeps_of_spoilsOptions
    (hinv : ∀ other map, collectionMap root other = some map → Inv map)
    (hspoils : SpoilsOptions root op) :
    ∃ root', write js root op = .ok (root', true) ∧ ¬Keeps js root' := by
  cases op with
  | addField collectionId field =>
    obtain ⟨config, map, fields, hconfig, hnot, hmap, hfields, hnew, hroom⟩ := hspoils
    obtain ⟨s, hadd⟩ := exists_addField js field (hinv _ _ hmap) hmap hfields hnew hroom
    refine ⟨_, hadd, not_keeps_of_field
      (by rw [collectionMap_set, if_pos rfl]) (by rw [itemsOf_set, if_pos rfl])
      (by rw [itemAt_set, if_pos rfl]) ?_⟩
    rw [readOptions_newField, hconfig]
    exact hnot
  | updateField collectionId fieldId changes =>
    obtain ⟨config, map, fields, entry, hconfig, hnot, hmap, hfields, hentry⟩ := hspoils
    have hmade : onItem fields fieldId (fun entry => some (changedField entry changes)) =
        some (fields.set fieldId (.map (changedField entry changes))) := by
      rw [onItem, hentry, bind_some, map_some]
    refine ⟨_, onItems_of_some hmap hfields (congrArg Except.ok hmade), not_keeps_of_field
      (by rw [collectionMap_set, if_pos rfl]) (by rw [itemsOf_set, if_pos rfl])
      (by rw [itemAt_set, if_pos rfl]) ?_⟩
    rw [readOptions_changedField, hconfig]
    exact hnot
  | _ => exact hspoils.elim

def selectField (ids : List String) : NewField where
  id := "f1"
  name := "State"
  fieldType := .select
  config := some [("options", .array (ids.map fun id => .object [("id", .string id)]))]

/-- A collection to which no field was added. -/
def onlyTitle : Root := initCollection YMap.empty "c1" "f0" none

theorem reaches_onlyTitle {ok : Root → WriterOp → Prop}
    (hok : ok YMap.empty (.initCollection "c1" "f0" none)) :
    (writers js).ReachesWhen ok onlyTitle :=
  .next (e := .initCollection "c1" "f0" none) (.start rfl) hok rfl

/-- **Two options of one id** are stored with the field. -/
theorem not_keeps : ¬∀ (js : Js) (root : Root), (writers js).Reaches root → Keeps js root := by
  intro h
  have hstart : (writers Js.ascii).Reaches onlyTitle := reaches_onlyTitle trivial
  have hspoils : SpoilsOptions onlyTitle (.addField "c1" (selectField ["a", "a"])) :=
    ⟨_, _, _, rfl, fun hkept => absurd hkept.2 (by decide), rfl, rfl, rfl, by decide⟩
  obtain ⟨root', hwrite, hnot⟩ := not_keeps_of_spoilsOptions (inv_of_reaches hstart) hspoils
  refine hnot (h Js.ascii root'
    (hstart.next (e := .addField "c1" (selectField ["a", "a"])) trivial ?_))
  simp [writers, hwrite]

/-- The same collection with one option of the field. -/
theorem keeps_of_reachesWhen_oneOption : ∃ root root' : Root,
    (writers Js.ascii).ReachesWhen (fun root op => ¬SpoilsOptions root op) root' ∧
      write Js.ascii root (.addField "c1" (selectField ["a"])) = .ok (root', true) ∧
      Keeps Js.ascii root' := by
  have hstart : (writers Js.ascii).ReachesWhen (fun root op => ¬SpoilsOptions root op) onlyTitle :=
    reaches_onlyTitle fun hspoils => hspoils
  obtain ⟨root', hwrite⟩ : ∃ root',
      write Js.ascii onlyTitle (.addField "c1" (selectField ["a"])) = .ok (root', true) := by
    have hmap : collectionMap onlyTitle "c1" = some (newCollection "f0" "Name") := rfl
    obtain ⟨s, hadd⟩ := exists_addField Js.ascii (selectField ["a"]) (inv_newCollection "f0" "Name")
      hmap rfl rfl (by decide)
    exact ⟨_, hadd⟩
  have hnot : ¬SpoilsOptions onlyTitle (.addField "c1" (selectField ["a"])) := by
    rintro ⟨config, -, -, hconfig, hnot, -⟩
    obtain rfl := some.inj hconfig
    exact hnot (by rw [OptionsKept]; decide)
  have hreach := hstart.next (e := .addField "c1" (selectField ["a"])) hnot
    (by simp [writers, hwrite] : _ = some root')
  exact ⟨onlyTitle, root', hreach, hwrite, keeps_of_reachesWhen hreach⟩

end Collection

end Sone
