import Sone.Doc.Places
import Sone.Wire.Parsed

/-!
# Changing the properties of a block

`findBlockElement` looks for the element with an id, at any depth, and `setBlockProps` writes to
its attributes. A property is an attribute or in the JSON of the attribute `props`, which wins, so
a key that is written is taken from the JSON, and the JSON is then written again.

`UpdatesBlock` is what is wanted of it: of the blocks that `readBlockTree` lists only that of the
element is another, by its properties, and these are those before with the patch applied. A text
that is written as an attribute is read as a value where it is spelled as one, and what the JSON
has is not always kept when it is written again (`KeepsProps`).
-/

namespace Sone

open List Option

namespace BlockTree

/-! ### Looking for a block -/

structure FoundElement where
  above : List Frame
  frame : Frame
  children : List XmlNode

def FoundElement.fragment (found : FoundElement) (attributes : YMap JsValue) : List XmlNode :=
  fill found.above ({ found.frame with attributes := attributes }.around found.children)

mutual

/-- `search`, at one child of a container. -/
def searchNode (blockId : String) (depth : ℕ) (before after : List XmlNode) :
    XmlNode → Option FoundElement
  | .text _ | .other => none
  | .element nodeName attributes children =>
    if (attributes.get BlockAttrs.id).bind JsValue.string? = some blockId then
      some ⟨[], ⟨before, nodeName, attributes, after⟩, children⟩
    else if maxBlockDepth < depth + 1 then none
    else (searchNodes blockId (depth + 1) [] children).map fun found =>
      { found with above := ⟨before, nodeName, attributes, after⟩ :: found.above }

/-- `search`, of the children of a container from one on. -/
def searchNodes (blockId : String) (depth : ℕ) (before : List XmlNode) :
    List XmlNode → Option FoundElement
  | [] => none
  | node :: nodes =>
    (searchNode blockId depth before nodes node).or
      (searchNodes blockId depth (before ++ [node]) nodes)

end

def findBlockElement (content : List XmlNode) (blockId : String) : Option FoundElement :=
  searchNodes blockId 0 [] content

/-! ### Writing -/

/-- The keys that every object has from `Object.prototype`. -/
def inheritedKeys : List String :=
  ["constructor", "__defineGetter__", "__defineSetter__", "hasOwnProperty", "__lookupGetter__",
    "__lookupSetter__", "isPrototypeOf", "propertyIsEnumerable", "toString", "valueOf",
    "__proto__", "toLocaleString"]

/-- `key in fields` -/
def isIn (fields : List (String × JsValue)) (key : String) : Bool :=
  key ∈ fields.map (·.1) || key ∈ inheritedKeys

/-- `serialiseProps`. What is assigned to `__proto__` is not kept. -/
def serialiseProps (js : Js) (props : List (String × JsValue)) : Option String :=
  let ordered := props.mergeSort fun a b => JsString.le a.1 b.1
  if ordered.isEmpty then none
  else some (String.ofList
    (Json.stringify js (.object (ordered.filter fun field => field.1 ≠ "__proto__"))))

def patchAttributes (attributes : YMap JsValue) (entries : List (String × JsValue)) :
    YMap JsValue :=
  entries.foldl
    (fun attributes entry => match entry.2 with
      | .undefined => attributes.delete entry.1
      | value => attributes.set entry.1 value) attributes

/-- The attributes that `setBlockProps` leaves an element. -/
def setProps (js : Js) (attributes patch : YMap JsValue) : YMap JsValue :=
  let existingJson := parseProps js (attributes.get BlockAttrs.props)
  let shadowed := patch.keys.filter (isIn existingJson)
  let patched := patchAttributes attributes patch.rows
  if shadowed.isEmpty then patched
  else match serialiseProps js (existingJson.filter fun field => field.1 ∉ shadowed) with
    | none => patched.delete BlockAttrs.props
    | some serialised => patched.set BlockAttrs.props (.string serialised)

/-- `setBlockProps`, with the fragment after it. -/
def setBlockProps (js : Js) (content : List XmlNode) (blockId : String) (patch : YMap JsValue) :
    List XmlNode × Bool :=
  match findBlockElement content blockId with
  | none => (content, false)
  | some found => (found.fragment (setProps js found.frame.attributes patch), true)

/-! ### What is wanted -/

/-- `Object.hasOwn(props, key)`, with the value. -/
def ownProp (props : JsValue) (key : String) : Option JsValue :=
  match props with
  | .object fields => (fields.find? fun field => field.1 = key).map (·.2)
  | _ => none

/-- What a key has after a patch, given what the patch has for it and what it had before. -/
def patchedBy : Option JsValue → Option JsValue → Option JsValue
  | none, before => before
  | some .undefined, _ => none
  | some value, _ => some value

/-- **The properties after a patch** are those before with the patch applied. -/
def IsPatched (patch : YMap JsValue) (before after : JsValue) : Prop :=
  ∀ key, ownProp after key = patchedBy (patch.get key) (ownProp before key)

def FoundElement.IsBlock (js : Js) (blockId : String) (found : FoundElement) (block : TreeBlock) :
    Prop :=
  ∃ parentId baseDepth stack, block = blockOf js blockId found.frame.nodeName
    found.frame.attributes found.children parentId baseDepth stack

/-- **The block is updated** and no other: where the walk comes to the element, the list of blocks
is that before but for the properties of one, the block of the element. -/
def UpdatesBlock (js : Js) (content : List XmlNode) (blockId : String) (patch : YMap JsValue)
    (found : FoundElement) : Prop :=
  let after := readBlockTree js (setBlockProps js content blockId patch).1
  (Reached js 0 found.above → ∃ (k : ℕ) (block : TreeBlock) (props : JsValue),
    (readBlockTree js content)[k]? = some block ∧ found.IsBlock js blockId block ∧
      IsPatched patch block.props props ∧
      after = (readBlockTree js content).set k { block with props := props }) ∧
  (¬ Reached js 0 found.above → after = readBlockTree js content)

/-- A text that stays one when it is read as an attribute: it is not spelled as another value. -/
def StaysText (js : Js) (s : String) : Prop :=
  s ∉ ["true", "false", "null"] ∧
    (s ≠ "" → ∀ n, js.toNumber (.string s) = .finite n → js.toText (.number (.finite n)) ≠ s)

/-- The JSON is written again: a key of the patch is in it, or is one that every object has. -/
def Rewrites (js : Js) (attributes patch : YMap JsValue) : Prop :=
  ∃ key ∈ patch.keys, isIn (parseProps js (attributes.get BlockAttrs.props)) key = true

/-- **A patch keeps the properties**: its texts stay texts, it does not set `__proto__`, and where
the JSON is written again, all in it that is not patched can be written. -/
structure KeepsProps (js : Js) (attributes patch : YMap JsValue) : Prop where
  texts : ∀ key s, patch.get key = some (.string s) → StaysText js s
  proto : ∀ value, patch.get "__proto__" = some value → value = .undefined
  json : Rewrites js attributes patch →
    ∀ field ∈ parseProps js (attributes.get BlockAttrs.props), field.1 ∉ patch.keys →
      field.1 ≠ "__proto__" ∧ Json.reading field.2 = field.2

variable {js : Js} {content : List XmlNode} {blockId : String} {attributes patch : YMap JsValue}
  {found : FoundElement} {key : String}

/-! ### What is found -/

mutual

theorem spec_searchNode (depth : ℕ) (before after : List XmlNode) :
    ∀ (node : XmlNode) (found : FoundElement),
      searchNode blockId depth before after node = some found →
        before ++ node :: after = found.fragment found.frame.attributes ∧
          (found.frame.attributes.get BlockAttrs.id).bind JsValue.string? = some blockId
  | .text _ => fun _ h => by simp [searchNode] at h
  | .other => fun _ h => by simp [searchNode] at h
  | .element nodeName attributes children => by
    intro found h
    rw [searchNode] at h
    split at h
    · rename_i hid
      cases h
      exact ⟨rfl, hid⟩
    · split at h
      · cases h
      · obtain ⟨inner, hinner, rfl⟩ := map_eq_some_iff.mp h
        obtain ⟨hchildren, hid⟩ := spec_searchNodes (depth + 1) [] children inner hinner
        rw [nil_append] at hchildren
        exact ⟨congrArg (Frame.around ⟨before, nodeName, attributes, after⟩) hchildren, hid⟩

theorem spec_searchNodes (depth : ℕ) (before : List XmlNode) :
    ∀ (nodes : List XmlNode) (found : FoundElement),
      searchNodes blockId depth before nodes = some found →
        before ++ nodes = found.fragment found.frame.attributes ∧
          (found.frame.attributes.get BlockAttrs.id).bind JsValue.string? = some blockId
  | [] => fun _ h => by simp [searchNodes] at h
  | node :: nodes => by
    intro found h
    rw [searchNodes, or_eq_some_iff] at h
    rcases h with h | ⟨-, h⟩
    · exact spec_searchNode depth before nodes node found h
    · obtain ⟨hnodes, hid⟩ := spec_searchNodes depth (before ++ [node]) nodes found h
      rw [append_assoc, singleton_append] at hnodes
      exact ⟨hnodes, hid⟩

end

theorem spec_findBlockElement (h : findBlockElement content blockId = some found) :
    content = found.fragment found.frame.attributes ∧
      (found.frame.attributes.get BlockAttrs.id).bind JsValue.string? = some blockId :=
  spec_searchNodes 0 [] content found h

/-! ### The attributes after a patch -/

theorem patchedBy_some (value : JsValue) (before before' : Option JsValue) :
    patchedBy (some value) before = patchedBy (some value) before' := by
  cases value <;> rfl

theorem patchedBy_of_ne {value : JsValue} (h : value ≠ .undefined) (before : Option JsValue) :
    patchedBy (some value) before = some value := by
  cases value with
  | undefined => exact absurd rfl h
  | _ => rfl

theorem get_patchAttributes_entries {entries : List (String × JsValue)}
    (hnodup : (entries.map (·.1)).Nodup) :
    (patchAttributes attributes entries).get key =
      patchedBy ((entries.find? fun entry => entry.1 = key).map (·.2)) (attributes.get key) := by
  induction entries generalizing attributes with
  | nil => rfl
  | cons entry entries ih =>
    obtain ⟨hnew, hnodup⟩ := nodup_cons.mp hnodup
    obtain ⟨next, hnext⟩ : ∃ next : YMap JsValue, next = patchAttributes attributes [entry] :=
      ⟨_, rfl⟩
    have hstep : patchAttributes attributes (entry :: entries) = patchAttributes next entries := by
      rw [hnext]
      rfl
    have hget : next.get key =
        if entry.1 = key then patchedBy (some entry.2) none else attributes.get key := by
      rw [hnext, patchAttributes, foldl_cons, foldl_nil]
      cases entry.2 <;> first | exact YMap.get_set | exact YMap.get_delete
    rw [hstep, ih hnodup, hget]
    by_cases hkey : entry.1 = key
    · -- a later entry cannot have the key again
      have hnone : entries.find? (fun other => other.1 = key) = none := by
        rw [List.find?_eq_none]
        intro other hother heq
        exact hnew (List.mem_map.mpr ⟨other, hother, (of_decide_eq_true heq).trans hkey.symm⟩)
      rw [hnone, if_pos hkey, List.find?_cons_of_pos (by simpa using hkey)]
      exact patchedBy_some entry.2 _ _
    · rw [if_neg hkey, List.find?_cons_of_neg (by simpa using hkey)]

theorem get_patchAttributes :
    (patchAttributes attributes patch.rows).get key =
      patchedBy (patch.get key) (attributes.get key) :=
  get_patchAttributes_entries patch.nodup

theorem get_setProps (hkey : key ≠ BlockAttrs.props) :
    (setProps js attributes patch).get key = patchedBy (patch.get key) (attributes.get key) := by
  rw [setProps]
  split
  · exact get_patchAttributes
  · split
    · rw [YMap.get_delete, if_neg (Ne.symm hkey), get_patchAttributes]
    · rw [YMap.get_set, if_neg (Ne.symm hkey), get_patchAttributes]

/-! ### The JSON after a patch -/

section Json

variable {fields : List (String × JsValue)} {value : JsValue}

theorem ownProp_eq_some_iff (hnodup : (fields.map (·.1)).Nodup) :
    ownProp (.object fields) key = some value ↔ (key, value) ∈ fields := by
  have hmem : (key, value) ∈ fields ↔
      (⟨fields, hnodup⟩ : YMap JsValue).find key = some (key, value) :=
    @Keyed.mem_rows_iff _ _ _ _ (⟨fields, hnodup⟩ : YMap JsValue) (key, value)
  rw [hmem, ownProp, map_eq_some_iff]
  constructor
  · rintro ⟨entry, hentry, rfl⟩
    obtain rfl : entry.1 = key := by simpa using List.find?_some hentry
    exact hentry
  · exact fun h => ⟨_, h, rfl⟩

theorem ownProp_filter (hnodup : (fields.map (·.1)).Nodup) (p : String → Bool) :
    ownProp (.object (fields.filter fun field => p field.1)) key =
      if p key then ownProp (.object fields) key else none := by
  have hsub : ((fields.filter fun field => p field.1).map (·.1)).Nodup :=
    hnodup.sublist (filter_sublist.map _)
  refine Option.ext fun value => ?_
  rw [ownProp_eq_some_iff hsub, mem_filter]
  split
  · rename_i hp
    rw [ownProp_eq_some_iff hnodup]
    exact and_iff_left hp
  · rename_i hp
    exact iff_of_false (fun h => hp h.2) (by simp)

variable (hparse : ∀ s, js.parseJson s = Json.parse js s.toList)

include hparse

/-- **What is written is read again** but for `__proto__`, and what cannot be written is `null`. -/
theorem ownProp_serialiseProps (h : Json.IsJson js (.object fields)) :
    ownProp (.object (parseProps js ((serialiseProps js fields).map JsValue.string))) key =
      if key = "__proto__" then none else (ownProp (.object fields) key).map Json.reading := by
  obtain ⟨ordered, hordered⟩ : ∃ ordered, ordered =
      fields.mergeSort fun a b => JsString.le a.1 b.1 := ⟨_, rfl⟩
  have hperm : ordered.Perm fields := hordered ▸ mergeSort_perm _ _
  have hkeys : (ordered.map (·.1)).Nodup := (hperm.map _).nodup_iff.mpr h.nodup
  have hsame : ∀ value, ownProp (.object ordered) key = some value ↔
      ownProp (.object fields) key = some value := fun value => by
    rw [ownProp_eq_some_iff hkeys, ownProp_eq_some_iff h.nodup, hperm.mem_iff]
  -- the order in which the fields are written is not seen when one is looked up
  rw [← Option.ext hsame]
  by_cases hempty : ordered.isEmpty = true
  · have hnone : serialiseProps js fields = none := by
      rw [serialiseProps, ← hordered, if_pos hempty]
    rw [hnone, List.isEmpty_iff.mp hempty]
    exact (ite_self none).symm
  · obtain ⟨kept, hkept⟩ : ∃ kept, kept = ordered.filter fun field => field.1 ≠ "__proto__" :=
      ⟨_, rfl⟩
    have hdata : ∀ field ∈ kept, Json.IsJson js field.2 := fun field hfield =>
      h.of_mem (hperm.mem_iff.mp (mem_filter.mp (hkept ▸ hfield)).1)
    have hnodup : (kept.map (·.1)).Nodup :=
      hkeys.sublist (hkept ▸ filter_sublist.map _)
    have hread : Json.parse js (Json.stringify js (.object kept)) =
        some (.object (kept.map fun field => (field.1, Json.reading field.2))) := by
      rw [(Json.IsJson.object hnodup hdata).isData.parse, Json.reading,
        Json.readingMembers_eq_map fun field hfield => (hdata field hfield).ne_undefined]
    have hsome : serialiseProps js fields =
        some (String.ofList (Json.stringify js (.object kept))) := by
      rw [serialiseProps, ← hordered, if_neg hempty, hkept]
    rw [hsome, map_some, parseProps, hparse, String.toList_ofList, hread]
    have hmap : ownProp (.object (kept.map fun field => (field.1, Json.reading field.2))) key =
        (ownProp (.object kept) key).map Json.reading := by
      rw [ownProp, ownProp, List.find?_map, Option.map_map, Option.map_map]
      rfl
    have hfilter := @ownProp_filter key ordered hkeys fun key => key ≠ "__proto__"
    rw [← hkept] at hfilter
    rw [hmap, hfilter]
    by_cases hproto : key = "__proto__"
    · simp [hproto]
    · simp [hproto]

variable (hnumbers : ∀ s q, js.toNumber (.string s) = .finite q → Json.Writes js q)

include hnumbers

theorem isJson_parseProps (raw : Option JsValue) :
    Json.IsJson js (.object (parseProps js raw)) := by
  have hnone : Json.IsJson js (.object []) := .object (by simp) (by simp)
  rw [parseProps.eq_def]
  split
  · split
    · rename_i fields hfields
      rw [hparse] at hfields
      exact Json.isJson_of_parse hnumbers hfields
    · exact hnone
  · exact hnone

/-- **The JSON after a patch** has none of the keys that are patched. -/
theorem ownProp_setProps (hprops : BlockAttrs.props ∉ patch.keys) :
    (¬ Rewrites js attributes patch →
      parseProps js ((setProps js attributes patch).get BlockAttrs.props) =
        parseProps js (attributes.get BlockAttrs.props)) ∧
    (Rewrites js attributes patch →
      ownProp (.object (parseProps js ((setProps js attributes patch).get BlockAttrs.props))) key =
        if key ∈ patch.keys ∨ key = "__proto__" then none
        else (ownProp (.object (parseProps js (attributes.get BlockAttrs.props))) key).map
          Json.reading) := by
  obtain ⟨fields, hfields⟩ : ∃ fields, fields = parseProps js (attributes.get BlockAttrs.props) :=
    ⟨_, rfl⟩
  have hjson : Json.IsJson js (.object fields) :=
    hfields ▸ isJson_parseProps hparse hnumbers (attributes.get BlockAttrs.props)
  have hnone : patch.get BlockAttrs.props = none := YMap.get_eq_none_iff.mpr hprops
  -- no block has a key `props` to patch, so only the shadowed keys change the JSON
  have hget : (patchAttributes attributes patch.rows).get BlockAttrs.props =
      attributes.get BlockAttrs.props := by
    rw [get_patchAttributes, hnone]
    rfl
  constructor
  · intro h
    have hshadowed : (patch.keys.filter (isIn fields)).isEmpty = true := by
      rw [List.isEmpty_iff, filter_eq_nil_iff]
      exact fun key hkey hin => h ⟨key, hkey, hfields ▸ hin⟩
    rw [setProps, ← hfields, if_pos hshadowed, hget, hfields]
  · rintro ⟨shadow, hpatched, hin⟩
    obtain ⟨shadowed, hshadowed⟩ : ∃ shadowed, shadowed = patch.keys.filter (isIn fields) :=
      ⟨_, rfl⟩
    have hmem : shadow ∈ shadowed := by
      rw [hshadowed, mem_filter]
      exact ⟨hpatched, hfields ▸ hin⟩
    obtain ⟨remaining, hremaining⟩ : ∃ remaining, remaining =
      fields.filter fun field => field.1 ∉ shadowed := ⟨_, rfl⟩
    have hwritten : (setProps js attributes patch).get BlockAttrs.props =
        (serialiseProps js remaining).map JsValue.string := by
      rw [setProps, ← hfields, ← hshadowed, if_neg (by simpa using ne_nil_of_mem hmem),
        ← hremaining]
      cases serialiseProps js remaining with
      | none => exact YMap.get_delete.trans (if_pos rfl)
      | some serialised => exact YMap.get_set.trans (if_pos rfl)
    have hrest : Json.IsJson js (.object remaining) := by
      rw [hremaining]
      exact .object (hjson.nodup.sublist (filter_sublist.map _))
        fun field hfield => hjson.of_mem (mem_filter.mp hfield).1
    have hleft := @ownProp_filter key fields hjson.nodup fun key => key ∉ shadowed
    rw [← hremaining] at hleft
    rw [hwritten, ownProp_serialiseProps hparse hrest, hleft, ← hfields]
    by_cases hproto : key = "__proto__"
    · rw [if_pos hproto, if_pos (.inr hproto)]
    · rw [if_neg hproto]
      by_cases hkey : key ∈ patch.keys
      · -- a key that is patched is taken from the JSON, or was not in it
        rw [if_pos (Or.inl hkey)]
        by_cases hin : isIn fields key = true
        · have hshadow : key ∈ shadowed := hshadowed ▸ mem_filter.mpr ⟨hkey, hin⟩
          rw [if_neg (by simpa using hshadow)]
          rfl
        · have hmissing : ownProp (.object fields) key = none := by
            refine eq_none_iff_forall_ne_some.mpr fun value hvalue => hin ?_
            have hfield := (ownProp_eq_some_iff hjson.nodup).mp hvalue
            rw [isIn, Bool.or_eq_true, decide_eq_true_eq]
            exact Or.inl (List.mem_map_of_mem hfield)
          rw [hmissing, ite_self]
          rfl
      · have hshadow : key ∉ shadowed := fun h => hkey (mem_filter.mp (hshadowed ▸ h)).1
        rw [if_pos (by simpa using hshadow), if_neg (by simp [hkey, hproto])]

end Json

/-! ### The properties after a patch -/

theorem ownProp_readAllProps
    (hnodup : ((parseProps js (attributes.get BlockAttrs.props)).map (·.1)).Nodup) :
    ownProp (readAllProps js attributes) key =
      (ownProp (.object (parseProps js (attributes.get BlockAttrs.props))) key).or
        ((attributes.get key).bind (derivedProp js key)) := by
  have hget := @YMap.get_assign_entries JsValue JsValue key
    (YMap.empty.assign attributes.rows (derivedProp js)) (fun _ value => some value) _ hnodup
  rw [YMap.get_assign, YMap.get_empty, or_none, bind_fun_some] at hget
  exact hget

theorem coerceAttribute_eq_string_iff {s : String} :
    coerceAttribute js s = .string s ↔ StaysText js s := by
  rw [StaysText]
  rw [coerceAttribute.eq_def]
  split
  · simp
  · simp
  · simp
  · simp
  · rename_i htrue hfalse hnull hempty
    have hplain : s ∉ ["true", "false", "null"] := by
      simp only [mem_cons, not_mem_nil, or_false, not_or]
      exact ⟨htrue, hfalse, hnull⟩
    rw [and_iff_right hplain, imp_iff_right hempty]
    cases hnumber : js.toNumber (.string s) with
    | finite n =>
      by_cases hback : js.toText (.number (.finite n)) = s
      · simp [hback]
      · simp [hback]
    | nan => simp
    | infinity negative => simp

theorem bind_derivedProp_of_mem
    (h : key ∈ [BlockAttrs.id, BlockAttrs.props, BlockAttrs.indent, "__proto__"])
    (value : Option JsValue) : value.bind (derivedProp js key) = none := by
  cases value with
  | none => rfl
  | some value => exact if_pos h

theorem derivedProp_eq_some_iff {value : JsValue} :
    derivedProp js key value = some value ↔
      key ∉ [BlockAttrs.id, BlockAttrs.props, BlockAttrs.indent, "__proto__"] ∧
        ∀ s, value = .string s → StaysText js s := by
  rw [derivedProp.eq_def]
  by_cases hkey : key ∈ [BlockAttrs.id, BlockAttrs.props, BlockAttrs.indent, "__proto__"]
  · rw [if_pos hkey]
    exact iff_of_false (by simp) fun h => h.1 hkey
  · rw [if_neg hkey, and_iff_right hkey]
    cases value with
    | string s => simp [coerceAttribute_eq_string_iff]
    | _ => simp

section Patched

variable (hparse : ∀ s, js.parseJson s = Json.parse js s.toList)
  (hnumbers : ∀ s q, js.toNumber (.string s) = .finite q → Json.Writes js q)
  (hkeys : ∀ key ∈ patch.keys, key ∉ [BlockAttrs.id, BlockAttrs.props, BlockAttrs.indent])

include hparse hnumbers hkeys

/-- **A key that is patched** is read of its attribute alone. -/
theorem ownProp_of_mem (hkey : key ∈ patch.keys) :
    ownProp (readAllProps js (setProps js attributes patch)) key =
      (patchedBy (patch.get key) none).bind (derivedProp js key) := by
  have hprops : BlockAttrs.props ∉ patch.keys := fun h => hkeys _ h (by simp)
  have hne : key ≠ BlockAttrs.props := fun h => hprops (h ▸ hkey)
  obtain ⟨value, hvalue⟩ := isSome_iff_exists.mp (YMap.mem_keys_iff.mp hkey)
  obtain ⟨hsame, hwritten⟩ := @ownProp_setProps js attributes patch key hparse hnumbers hprops
  have hjson : ownProp (.object (parseProps js
      ((setProps js attributes patch).get BlockAttrs.props))) key = none := by
    by_cases h : Rewrites js attributes patch
    · rw [hwritten h, if_pos (.inl hkey)]
    · rw [hsame h]
      refine eq_none_iff_forall_ne_some.mpr fun value hvalue => h ⟨key, hkey, ?_⟩
      have hfield := (ownProp_eq_some_iff
        (isJson_parseProps hparse hnumbers (attributes.get BlockAttrs.props)).nodup).mp hvalue
      rw [isIn, Bool.or_eq_true, decide_eq_true_eq]
      exact .inl (List.mem_map_of_mem hfield)
  rw [ownProp_readAllProps (isJson_parseProps hparse hnumbers _).nodup, hjson, none_or,
    get_setProps hne, hvalue, patchedBy_some value _ none]

/-- **Any other key** has what it had, as JSON has it where that is written again. -/
theorem ownProp_of_notMem (hkey : key ∉ patch.keys) :
    ownProp (readAllProps js (setProps js attributes patch)) key =
        ownProp (readAllProps js attributes) key ↔
      (Rewrites js attributes patch →
        ∀ value, (key, value) ∈ parseProps js (attributes.get BlockAttrs.props) →
          key ≠ "__proto__" ∧ Json.reading value = value) := by
  have hprops : BlockAttrs.props ∉ patch.keys := fun h => hkeys _ h (by simp)
  have hnone : patch.get key = none := YMap.get_eq_none_iff.mpr hkey
  have hjson := isJson_parseProps hparse hnumbers (attributes.get BlockAttrs.props)
  have hderived : ((setProps js attributes patch).get key).bind (derivedProp js key) =
      (attributes.get key).bind (derivedProp js key) := by
    by_cases heq : key = BlockAttrs.props
    · rw [bind_derivedProp_of_mem (by simp [heq]), bind_derivedProp_of_mem (by simp [heq])]
    · rw [get_setProps heq, hnone]
      rfl
  obtain ⟨hsame, hwritten⟩ := @ownProp_setProps js attributes patch key hparse hnumbers hprops
  rw [ownProp_readAllProps (isJson_parseProps hparse hnumbers _).nodup,
    ownProp_readAllProps hjson.nodup, hderived]
  by_cases h : Rewrites js attributes patch
  · rw [hwritten h, imp_iff_right h]
    cases hold : ownProp (.object (parseProps js (attributes.get BlockAttrs.props))) key with
    | none =>
      refine iff_of_true ?_ fun value hvalue => ?_
      · rw [map_none, ite_self]
      · rw [(ownProp_eq_some_iff hjson.nodup).mpr hvalue] at hold
        cases hold
    | some old =>
      have hmem : ∀ value, (key, value) ∈ parseProps js (attributes.get BlockAttrs.props) ↔
          value = old := fun value => by
        rw [← ownProp_eq_some_iff hjson.nodup, hold, Option.some.injEq, eq_comm]
      simp only [hmem, forall_eq]
      by_cases hproto : key = "__proto__"
      · -- what the JSON had is lost, and an attribute of this key is no property
        rw [if_pos (.inr hproto), bind_derivedProp_of_mem (by simp [hproto])]
        exact iff_of_false (by simp) fun hne => hne.1 hproto
      · rw [if_neg (by simp [hkey, hproto]), map_some, some_or, some_or,
          Option.some.injEq, and_iff_right hproto]
  · rw [hsame h]
    exact iff_of_true rfl fun hrewrites => absurd hrewrites h

/-- **The properties after a patch** are those wanted exactly where the patch keeps them. -/
theorem isPatched_iff_keepsProps :
    IsPatched patch (readAllProps js attributes)
        (readAllProps js (setProps js attributes patch)) ↔ KeepsProps js attributes patch := by
  have hmem : ∀ {key value}, patch.get key = some value → key ∈ patch.keys := fun h =>
    YMap.mem_keys_iff.mpr (by rw [h, isSome_some])
  -- a key that is set
  have hset : ∀ {key value}, patch.get key = some value → value ≠ .undefined →
      (ownProp (readAllProps js (setProps js attributes patch)) key =
        patchedBy (patch.get key) (ownProp (readAllProps js attributes) key) ↔
          key ∉ [BlockAttrs.id, BlockAttrs.props, BlockAttrs.indent, "__proto__"] ∧
            ∀ s, value = .string s → StaysText js s) := by
    intro key value hvalue hne
    rw [ownProp_of_mem hparse hnumbers hkeys (hmem hvalue), hvalue, patchedBy_of_ne hne,
      patchedBy_of_ne hne, bind_some, derivedProp_eq_some_iff]
  constructor
  · intro h
    refine ⟨fun key s hs => ?_, fun value hvalue => ?_, fun hrewrites field hfield hkey => ?_⟩
    · exact ((hset hs (by simp)).mp (h key)).2 s rfl
    · by_contra hne
      exact ((hset hvalue hne).mp (h "__proto__")).1 (by simp)
    · have hnone : patch.get field.1 = none := YMap.get_eq_none_iff.mpr hkey
      have hsame := h field.1
      rw [hnone] at hsame
      exact (ownProp_of_notMem hparse hnumbers hkeys hkey).mp hsame hrewrites _ hfield
  · intro h key
    cases hvalue : patch.get key with
    | none =>
      have hkey : key ∉ patch.keys := YMap.get_eq_none_iff.mp hvalue
      exact (ownProp_of_notMem hparse hnumbers hkeys hkey).mpr fun hrewrites value hfield =>
        h.json hrewrites _ hfield hkey
    | some value =>
      by_cases hundefined : value = .undefined
      · subst hundefined
        rw [ownProp_of_mem hparse hnumbers hkeys (hmem hvalue), hvalue]
        rfl
      · rw [← hvalue]
        refine (hset hvalue hundefined).mpr ⟨fun hreserved => ?_, fun s hs => ?_⟩
        · have hproto : key ≠ "__proto__" := by
            rintro rfl
            exact hundefined (h.proto value hvalue)
          exact hkeys key (hmem hvalue) (by simpa [hproto] using hreserved)
        · exact h.texts key s (hs ▸ hvalue)

end Patched

/-! ### The blocks after a patch -/

section Updates

variable (hfound : findBlockElement content blockId = some found) (hid : blockId ≠ "")
  (hkeys : ∀ key ∈ patch.keys, key ∉ [BlockAttrs.id, BlockAttrs.props, BlockAttrs.indent])

include hkeys

theorem get_setProps_of_reserved (hkey : key ∈ [BlockAttrs.id, BlockAttrs.indent]) :
    (setProps js attributes patch).get key = attributes.get key := by
  have hne : key ≠ BlockAttrs.props := by
    rintro rfl
    exact absurd hkey (by decide)
  have hreserved : key ∈ [BlockAttrs.id, BlockAttrs.props, BlockAttrs.indent] := by
    rcases mem_pair.mp hkey with rfl | rfl <;> decide
  have hnone : patch.get key = none :=
    YMap.get_eq_none_iff.mpr fun hkey => hkeys key hkey hreserved
  rw [get_setProps hne, hnone]
  rfl

theorem blockId_setProps :
    BlockTree.blockId js (setProps js attributes patch) = BlockTree.blockId js attributes := by
  rw [BlockTree.blockId, get_setProps_of_reserved hkeys (by simp), ← BlockTree.blockId]

theorem readIndent_setProps :
    readIndent js (setProps js attributes patch) = readIndent js attributes := by
  rw [readIndent, get_setProps_of_reserved hkeys (by simp), ← readIndent]

include hfound hid

omit hkeys in
theorem blockId_of_found : BlockTree.blockId js found.frame.attributes = some blockId := by
  obtain ⟨value, hget, hvalue⟩ :=
    bind_eq_some_iff.mp (spec_findBlockElement hfound).2
  cases value with
  | string s =>
    obtain rfl : s = blockId := some.inj hvalue
    rw [BlockTree.blockId, hget, filter_some, if_pos (by simpa [JsValue.truthy] using hid)]
    rfl
  | _ => cases hvalue

/-- **Where the walk comes to the element**, its block has the properties of its attributes, and
all the rest is the same. -/
theorem exists_readBlockTree_setBlockProps (hreached : Reached js 0 found.above) :
    ∃ pre block rest, found.IsBlock js blockId block ∧
      readBlockTree js content = pre ++ block :: rest ∧
      readBlockTree js (setBlockProps js content blockId patch).1 =
        pre ++ { block with
          props := readAllProps js (setProps js found.frame.attributes patch) } :: rest := by
  obtain ⟨pre, post, parentId, baseDepth, stack, hfill⟩ := @visitNodes_fill js none 0 found.above
    found.frame.nodeName blockId (readIndent js found.frame.attributes) found.frame.before
    found.frame.after hreached
  have hblock : BlockTree.blockId js found.frame.attributes = some blockId :=
    blockId_of_found hfound hid
  have hafter := (blockId_setProps hkeys).trans hblock
  have hread := hfill _ found.children hblock rfl
  have hread' := hfill _ found.children hafter (readIndent_setProps hkeys)
  rw [visitNode_element hblock, cons_append] at hread
  rw [visitNode_element hafter, stackAbove, readIndent_setProps hkeys, ← stackAbove,
    cons_append] at hread'
  have hcontent : readBlockTree js content =
      readBlockTree js (found.fragment found.frame.attributes) :=
    congrArg _ (spec_findBlockElement hfound).1
  refine ⟨pre, _, _, ⟨parentId, baseDepth, stackAbove js stack found.frame.attributes, rfl⟩,
    hcontent.trans hread, ?_⟩
  rw [setBlockProps, hfound]
  exact hread'

/-- **Where it does not**, nothing changes. -/
theorem readBlockTree_setBlockProps_of_not_reached (hreached : ¬ Reached js 0 found.above) :
    readBlockTree js (setBlockProps js content blockId patch).1 = readBlockTree js content := by
  obtain ⟨blocks, hblocks⟩ := @visitNodes_fill_of_not_reached js none 0 found.above
    found.frame.nodeName blockId found.frame.before found.frame.after hreached
  have hblock : BlockTree.blockId js found.frame.attributes = some blockId :=
    blockId_of_found hfound hid
  have hcontent : readBlockTree js content =
      readBlockTree js (found.fragment found.frame.attributes) :=
    congrArg _ (spec_findBlockElement hfound).1
  rw [setBlockProps, hfound]
  exact (hblocks _ found.children ((blockId_setProps hkeys).trans hblock)).trans
    (hcontent.trans (hblocks _ found.children hblock)).symm

/-- **The block is updated** exactly where its properties are those wanted. -/
theorem updatesBlock_iff_isPatched :
    UpdatesBlock js content blockId patch found ↔
      (Reached js 0 found.above →
        IsPatched patch (readAllProps js found.frame.attributes)
          (readAllProps js (setProps js found.frame.attributes patch))) := by
  constructor
  · rintro ⟨hupdates, -⟩ hreached
    obtain ⟨pre, block, rest, ⟨_, _, _, rfl⟩, hbefore, hafter⟩ :=
      exists_readBlockTree_setBlockProps hfound hid hkeys hreached
    obtain ⟨k, block', props, hblock', ⟨_, _, _, rfl⟩, hpatched, hset⟩ := hupdates hreached
    rw [hafter, hbefore] at hset
    rw [hbefore] at hblock'
    obtain ⟨hlt, -⟩ := List.getElem?_eq_some_iff.mp hblock'
    have hat := congrArg (·[k]?) hset
    simp only [List.getElem?_set_self hlt] at hat
    have hprops : readAllProps js (setProps js found.frame.attributes patch) = props := by
      by_cases hk : k = pre.length
      · subst hk
        rw [List.getElem?_append_right le_rfl, Nat.sub_self, List.getElem?_cons_zero] at hat
        exact congrArg TreeBlock.props (some.inj hat)
      · -- an update of another place leaves the block as it was, and the place too
        have hown := congrArg (·[pre.length]?) hset
        simp only [List.getElem?_set_ne hk, List.getElem?_append_right le_rfl, Nat.sub_self,
          List.getElem?_cons_zero] at hown
        rw [getElem?_middle_of_ne hk, hblock'] at hat
        exact (congrArg TreeBlock.props (some.inj hown)).trans
          (congrArg TreeBlock.props (some.inj hat))
    rw [hprops]
    exact hpatched
  · intro h
    refine ⟨fun hreached => ?_,
      readBlockTree_setBlockProps_of_not_reached hfound hid hkeys⟩
    obtain ⟨pre, block, rest, hblock, hbefore, hafter⟩ :=
      exists_readBlockTree_setBlockProps hfound hid hkeys hreached
    have hprops : block.props = readAllProps js found.frame.attributes := by
      obtain ⟨_, _, _, rfl⟩ := hblock
      rfl
    refine ⟨pre.length, block, _, ?_, hblock, hprops ▸ h hreached, ?_⟩
    · rw [hbefore, List.getElem?_append_right le_rfl, Nat.sub_self, List.getElem?_cons_zero]
    · rw [hafter, hbefore, set_append_right _ _ le_rfl, Nat.sub_self, set_cons_zero]

/-- **Changing the properties of a block** changes what is wanted exactly where the block is not
listed or the patch keeps its properties. The language reads the JSON and the numbers it writes. -/
theorem updatesBlock_iff_keepsProps (hparse : ∀ s, js.parseJson s = Json.parse js s.toList)
    (hnumbers : ∀ s q, js.toNumber (.string s) = .finite q → Json.Writes js q) :
    UpdatesBlock js content blockId patch found ↔
      (Reached js 0 found.above → KeepsProps js found.frame.attributes patch) := by
  rw [updatesBlock_iff_isPatched hfound hid hkeys, isPatched_iff_keepsProps hparse hnumbers hkeys]

end Updates

/-! ### A task -/

def readsJson : Js := { Js.ascii with parseJson := fun s => Json.parse .ascii s.toList }

theorem parseJson_readsJson (s : String) :
    readsJson.parseJson s = Json.parse readsJson s.toList := by
  have hsame : Json.parse .ascii = Json.parse readsJson := Json.parse_congr rfl
  exact congrFun hsame s.toList

theorem toNumber_readsJson (s : String) (q : ℚ)
    (h : readsJson.toNumber (.string s) = .finite q) : Json.Writes readsJson q := by
  cases h

def taskFields : List (String × JsValue) :=
  [("checked", .boolean false), ("note", .string "keep")]

def task : YMap JsValue :=
  (YMap.empty.set BlockAttrs.id (.string "a")).set BlockAttrs.props
    (.string (String.ofList (Json.stringify readsJson (.object taskFields))))

def foundTask : FoundElement := ⟨[], ⟨[], "todo", task, []⟩, []⟩

theorem parseProps_task : parseProps readsJson (task.get BlockAttrs.props) = taskFields := by
  have hplain : Json.IsPlain (.object taskFields) :=
    .object (by decide) (by simp [taskFields, Json.IsPlain.boolean, Json.IsPlain.string])
  have hget : task.get BlockAttrs.props =
      some (.string (String.ofList (Json.stringify readsJson (.object taskFields)))) := rfl
  rw [hget, parseProps, parseJson_readsJson, String.toList_ofList, Json.parse_stringify _ hplain]

/-- The task is ticked and given a colour. -/
def tick : YMap JsValue := (YMap.empty.set "checked" (.boolean true)).set "colour" (.string "red")

theorem keepsProps_tick : KeepsProps readsJson task tick := by
  have hrows : ∀ {key value}, tick.get key = some value →
      (key, value) ∈ [("checked", JsValue.boolean true), ("colour", .string "red")] := by
    intro key value h
    obtain ⟨entry, hentry, rfl⟩ := map_eq_some_iff.mp h
    obtain rfl := Keyed.key_eq hentry
    exact Keyed.mem_rows hentry
  refine ⟨fun key s hs => ?_, fun value hvalue => ?_, fun _ field hfield _ => ?_⟩
  · obtain ⟨-, rfl⟩ : key = "colour" ∧ s = "red" := by simpa using hrows hs
    exact ⟨by decide, fun _ n h => by cases h⟩
  · simpa using hrows hvalue
  · rw [parseProps_task] at hfield
    simp only [taskFields, mem_cons, not_mem_nil, or_false] at hfield
    rcases hfield with rfl | rfl
    · exact ⟨by decide, by rw [Json.reading]⟩
    · exact ⟨by decide, by rw [Json.reading]⟩

theorem updatesBlock_iff_keepsProps_tick :
    UpdatesBlock readsJson [.element "todo" task []] "a" tick foundTask :=
  (@updatesBlock_iff_keepsProps readsJson [.element "todo" task []] "a" tick foundTask rfl
    (by decide) (by decide) parseJson_readsJson toNumber_readsJson).mpr fun _ => keepsProps_tick

def titled : YMap JsValue := YMap.empty.set BlockAttrs.id (.string "a")

/-- **Not every patch is what is read**: a title that is `null` is read as no text. -/
theorem not_updatesBlock :
    ¬ ∀ (content : List XmlNode) (blockId : String) (patch : YMap JsValue)
        (found : FoundElement), findBlockElement content blockId = some found → blockId ≠ "" →
      (∀ key ∈ patch.keys, key ∉ [BlockAttrs.id, BlockAttrs.props, BlockAttrs.indent]) →
        UpdatesBlock readsJson content blockId patch found := by
  intro hall
  have hkeys : ∀ key ∈ ((YMap.empty : YMap JsValue).set "title" (.string "null")).keys,
      key ∉ [BlockAttrs.id, BlockAttrs.props, BlockAttrs.indent] := by decide
  have hupdates := hall [.element "paragraph" titled []] "a" (YMap.empty.set "title"
    (.string "null")) ⟨[], ⟨[], "paragraph", titled, []⟩, []⟩ rfl (by decide) hkeys
  have hpatched := (updatesBlock_iff_isPatched rfl (by decide) hkeys).mp hupdates
    ⟨by simp, trivial⟩
  have hkeeps := (isPatched_iff_keepsProps parseJson_readsJson toNumber_readsJson hkeys).mp hpatched
  exact (hkeeps.texts "title" "null" rfl).1 (by decide)

end BlockTree

end Sone
