import Sone.Doc.Canvas
import Sone.Sync.Structural

/-!
# Restoring a version

`doc/versions.ts`: `restoreInto` makes a page read as it did by writing the old state forward.
The body is cloned node by node, the page's properties are set again but for those that say
where the page lives, and the canvas is copied item by item. Comments are left alone.

Three rules copy three parts, and each skips something: a clone drops attributes that are null
and fails on what is neither element nor text, a property that is a shared type is left as it
is, and of the canvas only the items are copied. `restoreInto_restores_iff` says for which
versions the page reads as it did nevertheless. Tags are a shared type and the board's
background is not an item, so both are among what a restore does not bring back; and
`archivedAt` is not among the keys it leaves alone.
-/

set_option linter.unusedSectionVars false

namespace Sone

open Option

universe u

/-- **A page's document**, with whatever is beside its body, its page and its canvas. -/
structure PageDoc (C : Type u) where
  content : List XmlNode
  page : YMap SharedValue
  canvas : Canvas
  comments : C

namespace Versions

/-- `STRUCTURAL_KEYS`, of `versions.ts`. -/
def structuralKeys : List String :=
  [PageKeys.kind, PageKeys.idx, PageKeys.parentPageId, PageKeys.collectionId]

/-! ### The body -/

/-- The attributes `build` sets. -/
def keptAttribute (_key : String) (value : JsValue) : Option JsValue :=
  if value.isNullish then none else some value

mutual

/-- `build`, which throws where there is no `getAttributes`. -/
def build : XmlNode → Option XmlNode
  | .text t => some (.text (YText.applyDelta t.toDelta))
  | .element nodeName attributes children =>
    (buildAll children).map fun copies =>
      .element nodeName (YMap.empty.assign attributes.rows keptAttribute) copies
  | .other => none

/-- `children.map((child) => build(child))` -/
def buildAll : List XmlNode → Option (List XmlNode)
  | [] => some []
  | node :: nodes => (build node).bind fun copy => (buildAll nodes).map fun copies => copy :: copies

end

/-- `cloneInto`, into a fragment whose content it deletes first. -/
def cloneInto (source _target : List XmlNode) : Option (List XmlNode) := buildAll source

/-! ### The page's properties -/

def restoredProperty (key : String) (value : SharedValue) : Option SharedValue :=
  if key ∈ structuralKeys then none else if value.isAbstractType then none else some value

/-- The two loops over the page's properties. -/
def restorePage (livePage pastPage : YMap SharedValue) : YMap SharedValue :=
  (YMap.deleteWhere livePage livePage.keys
    fun key => key ∉ structuralKeys ∧ !pastPage.has key).assign pastPage.rows restoredProperty

/-! ### The canvas -/

def copiedValue (_key : String) : SharedValue → Option SharedValue
  | .text t => some (.text (YText.insert t.toString))
  | .plain value => some (.plain value)
  | .array _ | .shared _ => none

def copiedEntry (_id : String) : CanvasEntry → Option CanvasEntry
  | .map item => some (.map (YMap.empty.assign item.rows copiedValue))
  | .value _ => none

/-- The two loops over the canvas. -/
def restoreCanvas (liveCanvas pastCanvas : Canvas) : Canvas :=
  (YMap.deleteWhere liveCanvas liveCanvas.keys fun _ => true).assign pastCanvas.rows copiedEntry

variable {C : Type u} {live past live' : PageDoc C}

def restoreInto (live past : PageDoc C) : Option (PageDoc C) :=
  (cloneInto past.content live.content).map fun content =>
    { live with
      content := content
      page := restorePage live.page past.page
      canvas := restoreCanvas live.canvas past.canvas }

/-! ### What is to be restored -/

def pageProperties : List String :=
  [PageKeys.title, PageKeys.icon, PageKeys.cover, PageKeys.width, PageKeys.template,
    PageKeys.locked, PageKeys.tags]

/-- **A restore**: the body, the properties and the canvas read as in the version, and where the
page lives and what is said about it are as they were. -/
structure Restores (live past live' : PageDoc C) : Prop where
  content : live'.content = past.content
  properties : ∀ key ∈ pageProperties, live'.page.get key = past.page.get key
  items : ∀ id, Canvas.item live'.canvas id = Canvas.item past.canvas id
  background : Canvas.readBackground live'.canvas = Canvas.readBackground past.canvas
  structural : ∀ key ∈ GuardedRoom.structuralKeys, live'.page.get key = live.page.get key
  comments : live'.comments = live.comments

mutual

/-- Whether a node is copied whole: elements and text all through, and no attribute that is
null. -/
def IsCopied : XmlNode → Prop
  | .text _ => True
  | .element _ attributes children =>
    (∀ entry ∈ attributes.rows, entry.2.isNullish = false) ∧ AreCopied children
  | .other => False

def AreCopied : List XmlNode → Prop
  | [] => True
  | node :: nodes => IsCopied node ∧ AreCopied nodes

end

/-- Whether the version's value of a property is a shared type. -/
def IsSharedIn (past : PageDoc C) (key : String) : Prop :=
  (past.page.get key).any SharedValue.isAbstractType = true

/-- **What a version has to be** for a restore to bring it back. -/
structure Restorable (live past : PageDoc C) : Prop where
  content : AreCopied past.content
  properties : ∀ key ∈ pageProperties, IsSharedIn past key →
    live.page.get key = past.page.get key
  background : Canvas.readBackground past.canvas = .dots
  archivedAt : IsSharedIn past PageKeys.archivedAt ∨
    past.page.get PageKeys.archivedAt = live.page.get PageKeys.archivedAt

/-! ### The body is copied where every node is -/

theorem assign_keptAttribute_eq_iff {attributes : YMap JsValue} :
    YMap.empty.assign attributes.rows keptAttribute = attributes ↔
      ∀ entry ∈ attributes.rows, entry.2.isNullish = false := by
  have hrows : (YMap.empty.assign attributes.rows keptAttribute).rows =
      attributes.rows.filter fun entry => !entry.2.isNullish := by
    rw [YMap.rows_assign_empty, ← List.filterMap_eq_filter]
    refine List.filterMap_congr fun entry _ => ?_
    rw [keptAttribute, Option.guard]
    cases entry.2.isNullish <;> rfl
  constructor
  · intro heq entry hentry
    rw [heq] at hrows
    rw [hrows] at hentry
    simpa using (List.mem_filter.mp hentry).2
  · intro hall
    refine Keyed.ext ?_
    rw [hrows, List.filter_eq_self]
    exact fun entry hentry => by simp [hall entry hentry]

mutual

theorem build_eq_self_iff : ∀ node : XmlNode, build node = some node ↔ IsCopied node
  | .text t => by simp [build, IsCopied, YText.applyDelta, YText.toDelta]
  | .other => by simp [build, IsCopied]
  | .element nodeName attributes children => by
    rw [build, IsCopied, ← buildAll_eq_self_iff children, ← assign_keptAttribute_eq_iff,
      map_eq_some_iff]
    constructor
    · rintro ⟨copies, hcopies, heq⟩
      obtain ⟨-, hattributes, rfl⟩ := XmlNode.element.inj heq
      exact ⟨hattributes, hcopies⟩
    · rintro ⟨hattributes, hcopies⟩
      exact ⟨children, hcopies, by rw [hattributes]⟩

theorem buildAll_eq_self_iff : ∀ nodes : List XmlNode, buildAll nodes = some nodes ↔ AreCopied nodes
  | [] => by simp [buildAll, AreCopied]
  | node :: nodes => by
    rw [buildAll, AreCopied, ← build_eq_self_iff node, ← buildAll_eq_self_iff nodes]
    cases build node <;> cases buildAll nodes <;> simp

end

/-! ### What each loop leaves -/

variable {key : String}

/-- **A property after a restore**: what it was where it is about the place, and what the
version has otherwise, unless that is a shared type. -/
theorem get_restorePage {livePage pastPage : YMap SharedValue} :
    (restorePage livePage pastPage).get key =
      if key ∈ structuralKeys then livePage.get key
      else if (pastPage.get key).any SharedValue.isAbstractType then livePage.get key
      else pastPage.get key := by
  rw [restorePage, YMap.get_assign, YMap.get_deleteWhere]
  by_cases hkey : key ∈ structuralKeys
  · cases hpast : pastPage.get key <;> simp [restoredProperty, hkey]
  · cases hpast : pastPage.get key with
    | none =>
      by_cases hmem : key ∈ livePage.keys
      · simp [hkey, hmem, YMap.has, hpast]
      · have hnone : livePage.get key = none := YMap.get_eq_none_iff.mpr hmem
        simp [hkey, hnone]
    | some value =>
      cases hshared : value.isAbstractType <;>
        simp [restoredProperty, hkey, hshared, YMap.has, hpast]

theorem get_restoreCanvas {liveCanvas pastCanvas : Canvas} {id : String} :
    (restoreCanvas liveCanvas pastCanvas).get id =
      (pastCanvas.get id).bind (copiedEntry id) := by
  rw [restoreCanvas, YMap.get_assign, YMap.get_deleteWhere]
  by_cases hmem : id ∈ liveCanvas.keys
  · simp [hmem]
  · have hnone : liveCanvas.get id = none := YMap.get_eq_none_iff.mpr hmem
    simp [hnone]

theorem readItem_assign_copiedValue {id : String} {item : YMap SharedValue} :
    Canvas.readItem id (YMap.empty.assign item.rows copiedValue) = Canvas.readItem id item := by
  refine Canvas.readItem_congr (funext fun key => ?_) (funext fun key => ?_)
  · rw [Canvas.plainAt, Canvas.plainAt, YMap.get_assign, YMap.get_empty, or_none]
    cases item.get key with
    | none => rfl
    | some value => cases value <;> rfl
  · rw [Canvas.wordsAt, Canvas.wordsAt, YMap.get_assign, YMap.get_empty, or_none]
    cases item.get key with
    | none => rfl
    | some value =>
      cases value with
      | text t => exact congrArg some (YText.toString_insert t.toString)
      | plain value => rfl
      | array items => rfl
      | shared content => rfl

theorem item_restoreCanvas {liveCanvas pastCanvas : Canvas} {id : String} :
    Canvas.item (restoreCanvas liveCanvas pastCanvas) id = Canvas.item pastCanvas id := by
  rw [Canvas.item, Canvas.item, get_restoreCanvas]
  cases pastCanvas.get id with
  | none => rfl
  | some entry =>
    cases entry with
    | map item => exact readItem_assign_copiedValue
    | value v => rfl

theorem readBackground_restoreCanvas {liveCanvas pastCanvas : Canvas} :
    Canvas.readBackground (restoreCanvas liveCanvas pastCanvas) = .dots := by
  rw [Canvas.readBackground, get_restoreCanvas]
  cases pastCanvas.get CanvasKeys.background with
  | none => rfl
  | some entry => cases entry <;> rfl

theorem notMem_structuralKeys_of_mem_pageProperties (h : key ∈ pageProperties) :
    key ∉ structuralKeys := by
  revert key
  decide

/-- **A version is restored** exactly where every node of its body can be copied, none of its
properties is a shared type that the page does not have already, its board is ruled with dots
and it was archived just as the page is. -/
theorem restoreInto_restores_iff (live past : PageDoc C) :
    (∃ live', restoreInto live past = some live' ∧ Restores live past live') ↔
      Restorable live past := by
  have hproperty : ∀ key ∈ pageProperties,
      ((restorePage live.page past.page).get key = past.page.get key ↔
        (IsSharedIn past key → live.page.get key = past.page.get key)) := by
    intro key hkey
    rw [get_restorePage, if_neg (notMem_structuralKeys_of_mem_pageProperties hkey), IsSharedIn]
    by_cases hshared : (past.page.get key).any SharedValue.isAbstractType = true <;> simp [hshared]
  have harchived : (restorePage live.page past.page).get PageKeys.archivedAt =
        live.page.get PageKeys.archivedAt ↔
      (IsSharedIn past PageKeys.archivedAt ∨
        past.page.get PageKeys.archivedAt = live.page.get PageKeys.archivedAt) := by
    rw [get_restorePage, if_neg (by decide), IsSharedIn]
    by_cases hshared : (past.page.get PageKeys.archivedAt).any SharedValue.isAbstractType = true <;>
      simp [hshared]
  constructor
  · rintro ⟨live', hrestore, h⟩
    obtain ⟨content, hcontent, rfl⟩ := map_eq_some_iff.mp hrestore
    refine ⟨?_, fun key hkey => (hproperty key hkey).mp (h.properties key hkey), ?_,
      harchived.mp (h.structural _ (by decide))⟩
    · have hsame : content = past.content := h.content
      rw [hsame] at hcontent
      exact (buildAll_eq_self_iff past.content).mp hcontent
    · rw [← h.background]
      exact readBackground_restoreCanvas
  · intro h
    refine ⟨_, map_eq_some_iff.mpr ⟨past.content,
      (buildAll_eq_self_iff past.content).mpr h.content, rfl⟩, rfl,
      fun key hkey => (hproperty key hkey).mpr (h.properties key hkey),
      fun id => item_restoreCanvas, readBackground_restoreCanvas.trans h.background.symm,
      fun key hkey => ?_, rfl⟩
    by_cases harchivedAt : key = PageKeys.archivedAt
    · rw [harchivedAt]
      exact harchived.mpr h.archivedAt
    · have hplace : key ∈ structuralKeys := by
        revert key
        decide
      exact get_restorePage.trans (if_pos hplace)

/-! ### A version with a tag -/

/-- A version tagged as a meeting. `writeTags` keeps tags as a `Y.Array`. -/
def taggedVersion : PageDoc Unit where
  content := []
  page := YMap.empty.set PageKeys.tags (.array [.string "meeting"])
  canvas := YMap.empty
  comments := ()

/-- The page after its tag was taken off. -/
def untaggedPage : PageDoc Unit := { taggedVersion with page := YMap.empty }

/-- **Tags do not come back**, since the loop over the properties skips shared types. -/
theorem not_restores : ¬ ∀ live past : PageDoc Unit, ∃ live',
    restoreInto live past = some live' ∧ Restores live past live' := by
  intro h
  obtain ⟨live', hrestore, hrestores⟩ := h untaggedPage taggedVersion
  obtain rfl := some.inj hrestore
  have htags := hrestores.properties PageKeys.tags (by decide)
  have hleft : (restorePage untaggedPage.page taggedVersion.page).get PageKeys.tags = none := rfl
  have hright : taggedVersion.page.get PageKeys.tags = some (.array [.string "meeting"]) := rfl
  exact some_ne_none _ (hright.symm.trans (htags.symm.trans hleft))

end Versions

end Sone
