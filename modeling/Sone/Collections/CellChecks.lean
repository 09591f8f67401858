import Sone.Collections.Cells

/-!
# What the cells of a pasted row name

The single-cell route takes a value exactly where what it names is there (`checkValue_iff`):
the ids of a relation are those of live rows of the column's collection and of the workspace,
those of a files value are files of the workspace, the options are the column's. The route that
pastes rows asks none of that.

`pasteRows_agrees_iff`: all that a paste stored would be taken by the single-cell route exactly
where each of its values names what is there. `IsPasted` is what the loop leaves behind for each
row it made, and stays so when further rows are made (`pasteFrom_spec`).
-/

namespace Sone

open List Option

open CellDb

/-! ### What a value names -/

section Values

variable (cast : String → Option Uuid)

/-- **A list of ids in a value**, of a kind and under a key, no more than a limit. -/
def IdsWithin (kind key : String) (limit : ℕ) (value : JsValue) (ids : List String) : Prop :=
  (value.get "kind").string? = some kind ∧
    (∃ items, (value.get key).array? = some items ∧ ids = items.filterMap JsValue.string?) ∧
    ids.length ≤ limit

/-- **A relation value names rows** of the collection its column points at. -/
def NamesRows (isRow : Uuid → Uuid → Prop) (config value : JsValue) : Prop :=
  ∃ ids, IdsWithin "relation" "pageIds" maxCellRelations value ids ∧
    ∃ target, (config.get "collectionId").string? = some target ∧ target ≠ "" ∧
      (ids ≠ [] → ∃ collectionId, cast target = some collectionId ∧
        Keyed.Names cast (isRow collectionId) ids)

/-- **A files value names files**. -/
def NamesFiles (isFile : Uuid → Prop) (value : JsValue) : Prop :=
  ∃ ids, IdsWithin "files" "fileIds" maxCellFiles value ids ∧ Keyed.Names cast isFile ids

def IsOption (options : List JsValue) (id : JsValue) : Prop :=
  ∃ option ∈ options, (option.get "id").sameValueZero id = true

/-- **A select value names options** of its column, none of which is nothing. -/
structure NamesOptions (config value : JsValue) : Prop where
  config_ne : config.isNullish = false
  option_ne : ∀ option ∈ ((config.get "options").array?).getD [], option.isNullish = false
  one : (value.get "kind").string? = some "select" →
    IsOption (((config.get "options").array?).getD []) (value.get "optionId")
  many : (value.get "kind").string? = some "multiSelect" →
    ∃ ids, (value.get "optionIds").array? = some ids ∧
      ∀ id ∈ ids, IsOption (((config.get "options").array?).getD []) id

/-- **A value names what is there**, by the type of its field. -/
structure NamesWhatIsThere (isRow : Uuid → Uuid → Prop) (isFile : Uuid → Prop) (field : CellField)
    (value : JsValue) : Prop where
  rows : field.fieldType = "relation" → NamesRows cast isRow field.config value
  files : field.fieldType = "files" → NamesFiles cast isFile value
  options : hasOptions field.fieldType = true → NamesOptions field.config value

end Values

/-- The rows of a collection a relation may name. -/
def CellDb.IsLiveRow (db : CellDb) (workspaceId target id : Uuid) : Prop :=
  Keyed.HasRow db.tree.rows (isTarget workspaceId target) id

def CellDb.IsFile (db : CellDb) (workspaceId id : Uuid) : Prop :=
  Keyed.HasRow db.files (fun file => file.workspaceId = workspaceId) id

section Checks

variable {env : CellEnv} {db : CellDb} {workspaceId : Uuid} {config value : JsValue}

theorem idsOf_eq_some_iff {kind key : String} {ids : List String} :
    idsOf kind key value = some ids ↔ (value.get "kind").string? = some kind ∧
      ∃ items, (value.get key).array? = some items ∧ ids = items.filterMap JsValue.string? := by
  rw [idsOf]
  split
  · rename_i hkind
    simp only [hkind, true_and, map_eq_some_iff]
    exact exists_congr fun items => and_congr_right fun _ => eq_comm
  · rename_i hkind
    simp [hkind]

theorem checkKnown_iff {ρ : Type} {key : ρ → Uuid} {t : Keyed key} {p : ρ → Bool} {code : String}
    {cast : String → Option Uuid} {ids : List String} :
    checkKnown code ids (t.named cast p ids) = .ok () ↔ Keyed.Names cast (t.HasRow p) ids := by
  rw [← Keyed.length_named_iff]
  unfold checkKnown
  by_cases hids : ids = []
  · subst hids
    simp [Keyed.named]
  · rw [if_neg hids]
    cases hfound : t.named cast p ids with
    | none => simp
    | some rows =>
      by_cases hlength : rows.length = ids.dedup.length <;> simp [hlength]

theorem exists_idsWithin_iff {kind key : String} {limit : ℕ} {P : List String → Prop} :
    (∃ ids, IdsWithin kind key limit value ids ∧ P ids) ↔
      ∃ ids, idsOf kind key value = some ids ∧ ids.length ≤ limit ∧ P ids := by
  refine exists_congr fun ids => ?_
  rw [idsOf_eq_some_iff, IdsWithin, and_assoc, and_assoc, and_assoc]

theorem checkRelation_iff : db.checkRelation env workspaceId config value = .ok () ↔
    NamesRows env.pg.uuid (db.IsLiveRow workspaceId) config value := by
  rw [NamesRows, exists_idsWithin_iff, checkRelation]
  cases idsOf "relation" "pageIds" value with
  | none => simp
  | some ids =>
    by_cases hlength : ids.length > maxCellRelations
    · simp [hlength]
    · simp only [Option.some.injEq, exists_eq_left', if_neg hlength,
        show ids.length ≤ maxCellRelations from Nat.le_of_not_lt hlength, true_and]
      cases htarget : (config.get "collectionId").string?.filter (· ≠ "") with
      | none =>
        refine ⟨fun h => by simp at h, ?_⟩
        rintro ⟨target, htext, hne, -⟩
        simp [htext, Option.filter, hne] at htarget
      | some target =>
        obtain ⟨htext, hne⟩ := filter_eq_some_iff.mp htarget
        simp only [htext, Option.some.injEq, exists_eq_left', show target ≠ "" by simpa using hne,
          ne_eq, not_false_eq_true, true_and]
        by_cases hempty : ids = []
        · simp [hempty, checkKnown]
        · cases hcast : env.pg.uuid target with
          | none => simp [checkKnown, hempty]
          | some collectionId =>
            rw [bind_some, checkKnown_iff]
            constructor
            · exact fun hnames _ => ⟨collectionId, rfl, hnames⟩
            · intro hnames
              obtain ⟨_, heq, hnames⟩ := hnames hempty
              exact some.inj heq ▸ hnames

theorem checkFiles_iff : db.checkFiles env workspaceId value = .ok () ↔
    NamesFiles env.pg.uuid (db.IsFile workspaceId) value := by
  rw [NamesFiles, exists_idsWithin_iff, checkFiles]
  cases idsOf "files" "fileIds" value with
  | none => simp
  | some ids =>
    by_cases hlength : ids.length > maxCellFiles
    · simp [hlength]
    · simp only [Option.some.injEq, exists_eq_left', if_neg hlength,
        show ids.length ≤ maxCellFiles from Nat.le_of_not_lt hlength, true_and]
      exact checkKnown_iff

theorem selectValueIsKnown_eq_true_iff {options : List JsValue} :
    selectValueIsKnown value options = some true ↔
      (∀ option ∈ options, option.isNullish = false) ∧
      ((value.get "kind").string? = some "select" → IsOption options (value.get "optionId")) ∧
      ((value.get "kind").string? = some "multiSelect" →
        ∃ ids, (value.get "optionIds").array? = some ids ∧ ∀ id ∈ ids, IsOption options id) := by
  rw [selectValueIsKnown]
  by_cases hnull : options.any (·.isNullish) = true
  · rw [if_pos hnull]
    obtain ⟨option, hmem, hoption⟩ := List.any_eq_true.mp hnull
    refine ⟨fun h => by simp at h, fun h => ?_⟩
    simp [h.1 option hmem] at hoption
  · have hne : ∀ option ∈ options, option.isNullish = false := fun option hmem => by
      rw [← Bool.not_eq_true]
      exact fun h => hnull (List.any_eq_true.mpr ⟨option, hmem, h⟩)
    have hhas : ∀ id, (options.any fun option => (option.get "id").sameValueZero id) = true ↔
        IsOption options id := fun id => List.any_eq_true
    rw [if_neg hnull, and_iff_right hne]
    split
    · rename_i hkind
      simp [hkind, hhas]
    · rename_i hkind
      simp [hkind, hhas, map_eq_some_iff]
    · rename_i hselect hmany
      exact ⟨fun _ => ⟨fun h => (hselect h).elim, fun h => (hmany h).elim⟩, fun _ => rfl⟩

theorem checkOptions_iff : checkOptions config value = .ok () ↔ NamesOptions config value := by
  rw [checkOptions]
  by_cases hconfig : config.isNullish = true
  · rw [if_pos hconfig]
    exact ⟨fun h => by simp at h, fun h => by simp [h.config_ne] at hconfig⟩
  · have hknown := @selectValueIsKnown_eq_true_iff value (((config.get "options").array?).getD [])
    rw [if_neg hconfig]
    constructor
    · intro h
      split at h
      · simp at h
      · simp at h
      · rename_i heq
        obtain ⟨hne, hone, hmany⟩ := hknown.mp heq
        exact ⟨by simpa using hconfig, hne, hone, hmany⟩
    · intro h
      rw [hknown.mpr ⟨h.option_ne, h.one, h.many⟩]

theorem ite_bind_eq_ok_iff {c : Prop} [Decidable c] {check rest : Except CellFailure Unit} :
    ((if c then do check; rest else rest) = .ok ()) ↔ (c → check = .ok ()) ∧ rest = .ok () := by
  by_cases hc : c
  · cases check with
    | error failure => simp [hc, bind, Except.bind]
    | ok => simp [hc, bind, Except.bind]
  · simp [hc]

/-- **A value is taken** where it is nothing, or names what is there. -/
theorem checkValue_iff {field : CellField} : db.checkValue env workspaceId field value = .ok () ↔
    (value.isNullish = false → NamesWhatIsThere env.pg.uuid (db.IsLiveRow workspaceId)
      (db.IsFile workspaceId) field value) := by
  rw [checkValue]
  by_cases hnull : value.isNullish = true
  · simp only [hnull, Bool.true_eq_false, false_implies, iff_true]
    rfl
  · have hnull' : value.isNullish = false := by simpa using hnull
    simp only [hnull', Bool.false_eq_true, if_false, true_implies]
    rw [ite_bind_eq_ok_iff, ite_bind_eq_ok_iff, checkRelation_iff, checkFiles_iff]
    have hlast : (if hasOptions field.fieldType = true then checkOptions field.config value
        else pure ()) = .ok () ↔
          (hasOptions field.fieldType = true → NamesOptions field.config value) := by
      rw [← checkOptions_iff]
      by_cases hoptions : hasOptions field.fieldType = true
      · simp [hoptions]
      · rw [if_neg hoptions]
        exact ⟨fun _ h => absurd h hoptions, fun _ => rfl⟩
    rw [hlast]
    exact ⟨fun ⟨hrows, hfiles, hoptions⟩ => ⟨hrows, hfiles, hoptions⟩,
      fun h => ⟨h.rows, h.files, h.options⟩⟩

end Checks

/-! ### What a paste leaves -/

section Paste

variable {env : CellEnv} {db db' : CellDb} {workspaceId collectionId rowId : Uuid}
  {collection : CollectionPlace} {row : IncomingRow} {rows : List IncomingRow} {place : ℕ}
  {created : List Uuid}

/-- The value a key of a row that comes in leaves in its document. -/
def CellDb.storedValue (env : CellEnv) (db : CellDb) (collectionId : Uuid) (row : IncomingRow)
    (key : String) : Option JsValue :=
  (db.fieldOf env collectionId key).bind fun field =>
    if isDerived field.fieldType || (row.value key).isNullish then none else some (row.value key)

/-- **One value that is stored**, in a document that has what its keys leave, or nothing. -/
theorem get_pasteValue {properties : YMap JsValue} {key k : String}
    (h : properties.get k = none ∨ properties.get k = db.storedValue env collectionId row k) :
    (db.pasteValue env collectionId row properties key).get k =
      if key = k then db.storedValue env collectionId row k else properties.get k := by
  have hnone (hstored : db.storedValue env collectionId row key = none) : properties.get k =
      if key = k then db.storedValue env collectionId row k else properties.get k := by
    split
    · rename_i heq
      subst heq
      rw [hstored] at h ⊢
      exact h.elim id id
    · rfl
  rw [pasteValue]
  cases hfield : db.fieldOf env collectionId key with
  | none =>
    exact hnone (by rw [storedValue, hfield, bind_none])
  | some field =>
    have hstored : db.storedValue env collectionId row key =
        if isDerived field.fieldType || (row.value key).isNullish then none
        else some (row.value key) := by
      rw [storedValue, hfield, bind_some]
    rw [bind_some, setPropertyValue]
    by_cases hderived : isDerived field.fieldType = true
    · rw [if_pos hderived, getD_none]
      exact hnone (by rw [hstored, hderived, Bool.true_or, if_pos rfl])
    · rw [if_neg hderived]
      rw [Bool.not_eq_true] at hderived
      rw [hderived, Bool.false_or] at hstored
      split
      · rename_i hnull
        rw [if_pos hnull] at hstored
        rw [getD_some, YMap.get_delete]
        split
        · rename_i heq
          rw [← heq, hstored]
        · rfl
      · rename_i hnull
        rw [if_neg hnull] at hstored
        rw [getD_some, YMap.get_set]
        split
        · rename_i heq
          rw [← heq, hstored]
        · rfl

theorem get_pastedProperties {key : String} :
    (db.pastedProperties env collectionId row YMap.empty).get key =
      if key ∈ row.keys then db.storedValue env collectionId row key else none := by
  have hfold : ∀ (keys : List String) (properties : YMap JsValue),
      (∀ k, properties.get k = none ∨ properties.get k = db.storedValue env collectionId row k) →
      (keys.foldl (db.pasteValue env collectionId row) properties).get key =
        if key ∈ keys then db.storedValue env collectionId row key else properties.get key := by
    intro keys
    induction keys with
    | nil => intro properties _; rfl
    | cons first keys ih =>
      intro properties hproperties
      have hnext : ∀ k, (db.pasteValue env collectionId row properties first).get k = none ∨
          (db.pasteValue env collectionId row properties first).get k =
            db.storedValue env collectionId row k := fun k => by
        rw [get_pasteValue (hproperties k)]
        split
        · exact .inr rfl
        · exact hproperties k
      rw [foldl_cons, ih _ hnext, get_pasteValue (hproperties key)]
      by_cases hkey : key = first
      · simp [hkey]
      · simp [hkey, Ne.symm hkey]
  exact hfold row.keys YMap.empty fun k => .inl rfl

def CellEnv.drawnIds (env : CellEnv) (place count : ℕ) : List Uuid :=
  (List.range' place count).map env.randomUUID

/-- **Ids are new**: no page and no document has one, and no two are the same. -/
structure CellDb.AreNew (db : CellDb) (ids : List Uuid) : Prop where
  page : ∀ id ∈ ids, Keyed.find db.tree.rows id = none
  doc : ∀ id ∈ ids, Keyed.find db.tree.docs id = none
  document : ∀ id ∈ ids, Keyed.find db.documents id = none
  nodup : ids.Nodup

/-- **A row was pasted**: it is a live row of the collection and the workspace, and its document
has what came in. -/
structure IsPasted (env : CellEnv) (db : CellDb) (workspaceId collectionId rowId : Uuid)
    (row : IncomingRow) : Prop where
  exists_row : ∃ page, Keyed.find db.tree.rows rowId = some page ∧ page.workspaceId = workspaceId ∧
    page.IsLiveRowOf collectionId
  find_document : Keyed.find db.documents rowId =
    some ⟨rowId, row.title, db.pastedProperties env collectionId row YMap.empty⟩
  projects : env.projects db.fields.rows row.title
    (db.pastedProperties env collectionId row YMap.empty) = true

/-- **What a paste leaves alone**: fields and files, and whatever has none of the new ids. -/
structure LeavesOthers (db db' : CellDb) (created : List Uuid) : Prop where
  fields : db'.fields = db.fields
  files : db'.files = db.files
  page : ∀ id ∉ created, Keyed.find db'.tree.rows id = Keyed.find db.tree.rows id
  doc : ∀ id ∉ created, Keyed.find db'.tree.docs id = Keyed.find db.tree.docs id
  document : ∀ id ∉ created, Keyed.find db'.documents id = Keyed.find db.documents id

theorem LeavesOthers.trans {db'' : CellDb} {more : List Uuid} (h : LeavesOthers db db' created)
    (h' : LeavesOthers db' db'' more) : LeavesOthers db db'' (created ++ more) where
  fields := h'.fields.trans h.fields
  files := h'.files.trans h.files
  page id hid :=
    (h'.page id fun hmem => hid (mem_append_right _ hmem)).trans
      (h.page id fun hmem => hid (mem_append_left _ hmem))
  doc id hid :=
    (h'.doc id fun hmem => hid (mem_append_right _ hmem)).trans
      (h.doc id fun hmem => hid (mem_append_left _ hmem))
  document id hid :=
    (h'.document id fun hmem => hid (mem_append_right _ hmem)).trans
      (h.document id fun hmem => hid (mem_append_left _ hmem))

theorem CellDb.AreNew.of_leavesOthers {ids : List Uuid} (hnew : db.AreNew ids)
    (h : LeavesOthers db db' created) (hids : ∀ id ∈ ids, id ∉ created) : db'.AreNew ids where
  page id hid := (h.page id (hids id hid)).trans (hnew.page id hid)
  doc id hid := (h.doc id (hids id hid)).trans (hnew.doc id hid)
  document id hid := (h.document id (hids id hid)).trans (hnew.document id hid)
  nodup := hnew.nodup

theorem pasteValue_congr (h : db'.fields = db.fields) :
    db'.pasteValue env collectionId row = db.pasteValue env collectionId row := by
  funext properties key
  rw [pasteValue, pasteValue, fieldOf, fieldOf, h]

theorem pastedProperties_congr (h : db'.fields = db.fields) (properties : YMap JsValue) :
    db'.pastedProperties env collectionId row properties =
      db.pastedProperties env collectionId row properties := by
  rw [pastedProperties, pastedProperties, pasteValue_congr h]

theorem IsPasted.of_leavesOthers (hpasted : IsPasted env db workspaceId collectionId rowId row)
    (h : LeavesOthers db db' created) (hid : rowId ∉ created) :
    IsPasted env db' workspaceId collectionId rowId row where
  exists_row := by
    rw [h.page rowId hid]
    exact hpasted.exists_row
  find_document := by
    rw [h.document rowId hid, pastedProperties_congr h.fields]
    exact hpasted.find_document
  projects := by
    rw [pastedProperties_congr h.fields, h.fields]
    exact hpasted.projects

theorem find_materializeDocument_of_new {t : PageTable} {doc : ReadPage}
    (hnew : Keyed.find t doc.id = none) (id : Uuid) :
    Keyed.find (materializeDocument t doc workspaceId).1 id =
      if doc.id = id then some (projectedRow none doc workspaceId (t.placeFor doc workspaceId))
      else Keyed.find t id := by
  rw [materializeDocument, hnew]
  exact Keyed.find_upsert

/-- **One row**: the document is written and projected. -/
theorem writeRow_spec {idx : String} (hpage : Keyed.find db.tree.rows rowId = none)
    (hdoc : Keyed.find db.tree.docs rowId = none)
    (hdocument : Keyed.find db.documents rowId = none)
    (h : (db.writeRow env collection rowId idx row).rematerializeRow env rowId workspaceId =
      .ok db') :
    LeavesOthers db db' [rowId] ∧ IsPasted env db' workspaceId collection.id rowId row := by
  obtain ⟨doc, hdoceq⟩ : ∃ doc : ReadPage,
      doc = ⟨rowId, .row, some collection.pageId, some collection.id, idx, none⟩ := ⟨_, rfl⟩
  obtain ⟨document, hdocumenteq⟩ : ∃ document : RowDocument, document =
      ⟨rowId, row.title, db.pastedProperties env collection.id row YMap.empty⟩ := ⟨_, rfl⟩
  have hwritten : db.writeRow env collection rowId idx row = { db with
      tree := { db.tree with docs := Keyed.upsert db.tree.docs doc }
      documents := Keyed.upsert db.documents document } := by
    rw [writeRow, PageDocuments.load, hdoc, CellDb.document, hdocument, hdoceq, hdocumenteq]
    rfl
  have hdocid : doc.id = rowId := by rw [hdoceq]
  have hdocumentid : document.id = rowId := by rw [hdocumenteq]
  have hload : PageDocuments.load (Keyed.upsert db.tree.docs doc) rowId = doc := by
    rw [PageDocuments.load, Keyed.find_upsert, if_pos hdocid, getD_some]
  have hfound : Keyed.find (Keyed.upsert db.documents document) rowId = some document := by
    rw [Keyed.find_upsert, if_pos hdocumentid]
  rw [hwritten, rematerializeRow] at h
  simp only [CellDb.document, hfound, getD_some, PageTree.rematerialize, hload] at h
  split at h
  · rename_i hprojects
    obtain rfl := Except.ok.inj h
    have hrows : ∀ id, Keyed.find (materializeDocument db.tree.rows doc workspaceId).1 id =
        if rowId = id then some (projectedRow none doc workspaceId
          (db.tree.rows.placeFor doc workspaceId)) else Keyed.find db.tree.rows id := fun id => by
      rw [find_materializeDocument_of_new (by rw [hdocid, hpage]), hdocid]
    refine ⟨⟨rfl, rfl, fun id hid => ?_, fun id hid => ?_, fun id hid => ?_⟩, ⟨?_, ?_, ?_⟩⟩
    · rw [hrows, if_neg (Ne.symm (by simpa using hid))]
    · rw [Keyed.find_upsert, hdocid, if_neg (Ne.symm (by simpa using hid))]
    · rw [Keyed.find_upsert, hdocumentid, if_neg (Ne.symm (by simpa using hid))]
    · refine ⟨_, (hrows rowId).trans (if_pos rfl), rfl, ?_, ?_, ?_⟩
      · rw [projectedRow, hdoceq]
        rfl
      · rw [projectedRow, hdoceq]
      · rw [projectedRow, hdoceq]
    · rw [hfound, hdocumenteq]
      rfl
    · rw [hdocumenteq] at hprojects
      exact hprojects
  · cases h

/-- **A paste** makes a row of each that came in, and leaves everything else alone. -/
theorem pasteFrom_spec {previous : Option String}
    (hnew : db.AreNew (env.drawnIds place rows.length))
    (h : pasteFrom env workspaceId collection db place previous rows = (db', .ok created)) :
    created = env.drawnIds place rows.length ∧ LeavesOthers db db' created ∧
      List.Forall₂ (IsPasted env db' workspaceId collection.id) created rows := by
  induction rows generalizing db place previous created with
  | nil =>
    obtain ⟨rfl, rfl⟩ : db = db' ∧ [] = created := by simpa [pasteFrom] using h
    exact ⟨rfl, ⟨rfl, rfl, fun _ _ => rfl, fun _ _ => rfl, fun _ _ => rfl⟩, .nil⟩
  | cons row rows ih =>
    have hdrawn : env.drawnIds place (row :: rows).length =
        env.randomUUID place :: env.drawnIds (place + 1) rows.length := by
      rw [CellEnv.drawnIds, length_cons, range'_succ, map_cons, CellEnv.drawnIds]
    rw [hdrawn] at hnew ⊢
    rw [pasteFrom] at h
    cases hidx : keyAfter previous with
    | none => simp [hidx] at h
    | some idx =>
      simp only [hidx] at h
      cases hrow : (db.writeRow env collection (env.randomUUID place) idx row).rematerializeRow env
          (env.randomUUID place) workspaceId with
      | error failure => simp [hrow] at h
      | ok projected =>
        simp only [hrow] at h
        obtain ⟨hothers, hpasted⟩ := writeRow_spec (hnew.page _ mem_cons_self)
          (hnew.doc _ mem_cons_self) (hnew.document _ mem_cons_self) hrow
        obtain ⟨hfirst, hnodup⟩ := nodup_cons.mp hnew.nodup
        have hrest : projected.AreNew (env.drawnIds (place + 1) rows.length) :=
          CellDb.AreNew.of_leavesOthers
            ⟨fun id hid => hnew.page id (mem_cons_of_mem _ hid),
              fun id hid => hnew.doc id (mem_cons_of_mem _ hid),
              fun id hid => hnew.document id (mem_cons_of_mem _ hid), hnodup⟩ hothers
            fun id hid hmem => hfirst (mem_singleton.mp hmem ▸ hid)
        obtain ⟨hdb, hcreated⟩ := Prod.mk.inj h
        cases hout :
            (pasteFrom env workspaceId collection projected (place + 1) (some idx) rows).2 with
        | error failure => simp [hout, Except.map] at hcreated
        | ok more =>
          rw [hout] at hcreated
          obtain rfl : env.randomUUID place :: more = created := Except.ok.inj hcreated
          obtain ⟨rfl, hothers', hmade⟩ := ih hrest (Prod.ext hdb hout)
          refine ⟨rfl, hothers.trans hothers', .cons ?_ hmade⟩
          exact hpasted.of_leavesOthers hothers' hfirst

end Paste

/-! ### The two routes -/

section Agreement

variable {env : CellEnv} {db db' : CellDb} {workspaceId collectionId rowId : Uuid}
  {row : IncomingRow} {key : String} {value : JsValue} {field : CellField}

/-- **What the paste stored would be taken** by the route that writes one cell, of the same
caller. -/
def TakenByOneCell (env : CellEnv) (db' : CellDb) (workspaceId : Uuid) (created : List Uuid) :
    Prop :=
  ∀ rowId ∈ created, ∀ key value, (db'.document rowId).properties.get key = some value →
    (db'.putProperty env workspaceId rowId key value).2 = .ok ()

/-- **Every value that comes in names what is there**, or is not stored. Rows of the same
request are there too. -/
def AllNamed (env : CellEnv) (db : CellDb) (workspaceId collectionId : Uuid) (body : JsValue) :
    Prop :=
  ∀ row ∈ incomingRows body, ∀ key ∈ row.keys, ∀ field,
    db.fieldOf env collectionId key = some field → isDerived field.fieldType = false →
      (row.value key).isNullish = false →
        NamesWhatIsThere env.pg.uuid
          (fun target id => db.IsLiveRow workspaceId target id ∨
            (target = collectionId ∧ id ∈ env.drawnIds 0 (incomingRows body).length))
          (db.IsFile workspaceId) field (row.value key)

theorem storedValue_eq_some_iff : db.storedValue env collectionId row key = some value ↔
    ∃ field, db.fieldOf env collectionId key = some field ∧ isDerived field.fieldType = false ∧
      (row.value key).isNullish = false ∧ row.value key = value := by
  rw [storedValue, bind_eq_some_iff]
  refine exists_congr fun field => and_congr_right fun _ => ?_
  by_cases hderived : isDerived field.fieldType = true
  · simp [hderived]
  · by_cases hnull : (row.value key).isNullish = true
    · simp [hnull]
    · simp [hderived, hnull]

theorem YMap.set_of_get {m : YMap JsValue} (h : m.get key = some value) : m.set key value = m := by
  obtain ⟨entry, hentry, hvalue⟩ := map_eq_some_iff.mp h
  obtain rfl : entry = (key, value) := Prod.ext (Keyed.key_eq hentry) hvalue
  exact Keyed.upsert_of_find hentry

/-- **What is there is written as it is**: the route takes a value a row has where its check
does. -/
theorem putProperty_of_stored (hpasted : IsPasted env db' workspaceId collectionId rowId row)
    (hfield : db'.fieldOf env collectionId key = some field)
    (hderived : isDerived field.fieldType = false) (hnull : value.isNullish = false)
    (hstored : (db'.document rowId).properties.get key = some value) :
    (db'.putProperty env workspaceId rowId key value).2 = .ok () ↔
      db'.checkValue env workspaceId field value = .ok () := by
  obtain ⟨hnamed, hcollection⟩ := filter_eq_some_iff.mp hfield
  obtain ⟨id, hid, hfind⟩ := bind_eq_some_iff.mp hnamed
  have huuid : env.pg.uuid key = some id := by
    rw [Postgres.named] at hid
    split at hid
    · exact hid
    · cases hid
  obtain ⟨page, hpage, -, hlive⟩ := hpasted.exists_row
  have hrow : db'.fieldOfRow rowId id = some field := by
    rw [fieldOfRow, hfind]
    simp [Option.filter, hpage, hlive.2.1, hlive.1, of_decide_eq_true hcollection]
  have hdocument : (Keyed.find db'.documents rowId) = some (db'.document rowId) := by
    rw [CellDb.document, hpasted.find_document, getD_some]
  have hset : setPropertyValue (db'.document rowId).properties key field.fieldType value =
      some (db'.document rowId).properties := by
    rw [setPropertyValue, hderived, hnull, YMap.set_of_get hstored]
    rfl
  have hproperties : db'.setProperties rowId (db'.document rowId).properties = db' := by
    rw [setProperties, Keyed.upsert_of_find]
    have hkey : (db'.document rowId).id = rowId := Keyed.key_eq hdocument
    change Keyed.find db'.documents (db'.document rowId).id = some (db'.document rowId)
    rw [hkey, hdocument]
  have hprojects : db'.rematerializeRow env rowId workspaceId =
      .ok { db' with tree := db'.tree.rematerialize rowId workspaceId } := by
    rw [rematerializeRow, if_pos]
    rw [CellDb.document, hpasted.find_document, getD_some]
    exact hpasted.projects
  rw [putProperty, huuid]
  simp only [hrow]
  cases hcheck : db'.checkValue env workspaceId field value with
  | error failure => simp
  | ok => simp [hset, hproperties, hnull, hprojects]

theorem exists_of_forall₂ {α β : Type*} {R : α → β → Prop} {as : List α} {bs : List β} {a : α}
    (h : List.Forall₂ R as bs) (ha : a ∈ as) : ∃ b ∈ bs, R a b := by
  induction h with
  | nil => cases ha
  | cons hab _ ih =>
    rcases mem_cons.mp ha with rfl | ha
    · exact ⟨_, mem_cons_self, hab⟩
    · obtain ⟨b, hb, hab⟩ := ih ha
      exact ⟨b, mem_cons_of_mem _ hb, hab⟩

theorem isLiveRow_iff {created : List Uuid} {rows : List IncomingRow} {target id : Uuid}
    (hnew : db.AreNew created) (hothers : LeavesOthers db db' created)
    (hmade : List.Forall₂ (IsPasted env db' workspaceId collectionId) created rows) :
    db'.IsLiveRow workspaceId target id ↔
      db.IsLiveRow workspaceId target id ∨ (target = collectionId ∧ id ∈ created) := by
  rw [CellDb.IsLiveRow, CellDb.IsLiveRow, Keyed.HasRow, Keyed.HasRow]
  by_cases hid : id ∈ created
  · obtain ⟨row, -, hpasted⟩ := exists_of_forall₂ hmade hid
    obtain ⟨page, hpage, hworkspace, hcollection, hkind, harchived⟩ := hpasted.exists_row
    have htarget : isTarget workspaceId target page = true ↔ target = collectionId := by
      simp [isTarget, hworkspace, PageTreeRow.IsLiveRowOf, hcollection, hkind, harchived, eq_comm]
    simp [hnew.page id hid, hpage, htarget, hid]
  · rw [hothers.page id hid]
    simp [hid]

theorem IsPasted.get_eq_some_iff (h : IsPasted env db workspaceId collectionId rowId row) :
    (db.document rowId).properties.get key = some value ↔
      key ∈ row.keys ∧ db.storedValue env collectionId row key = some value := by
  rw [CellDb.document, h.find_document, getD_some, get_pastedProperties]
  by_cases hkey : key ∈ row.keys <;> simp [hkey]

theorem namesWhatIsThere_iff {created : List Uuid} {rows : List IncomingRow}
    (hnew : db.AreNew created) (hothers : LeavesOthers db db' created)
    (hmade : List.Forall₂ (IsPasted env db' workspaceId collectionId) created rows) :
    NamesWhatIsThere env.pg.uuid (db'.IsLiveRow workspaceId) (db'.IsFile workspaceId) field value ↔
      NamesWhatIsThere env.pg.uuid
        (fun target id => db.IsLiveRow workspaceId target id ∨
          (target = collectionId ∧ id ∈ created)) (db.IsFile workspaceId) field value := by
  have hrows : db'.IsLiveRow workspaceId = fun target id =>
      db.IsLiveRow workspaceId target id ∨ (target = collectionId ∧ id ∈ created) := by
    funext target id
    exact propext (isLiveRow_iff hnew hothers hmade)
  have hfiles : db'.IsFile workspaceId = db.IsFile workspaceId := by
    funext id
    rw [CellDb.IsFile, CellDb.IsFile, hothers.files]
  rw [hrows, hfiles]

theorem exists_pasteFrom {body : JsValue} {created : List Uuid}
    (h : (db.pasteRows env workspaceId collectionId body).2 = .ok created) :
    ∃ collection previous, collection.id = collectionId ∧
      db.pasteRows env workspaceId collectionId body =
        pasteFrom env workspaceId collection db 0 previous (incomingRows body) := by
  rw [pasteRows] at h ⊢
  cases hfind : Keyed.find db.collections collectionId with
  | none => simp [hfind] at h
  | some collection =>
    simp only [hfind] at h ⊢
    refine ⟨collection, db.lastRowIdx collectionId, Keyed.key_eq hfind, ?_⟩
    split at h
    · cases h
    split at h
    · cases h
    split at h
    · cases h
    split at h
    · cases h
    split at h
    · cases h
    rename_i hnull hempty hmany huuids hfields
    rw [if_neg hnull, if_neg hempty, if_neg hmany, if_neg huuids, if_neg hfields]

/-- **The two routes agree** on what a paste stored exactly where all that came in names what
is there: rows of the column's collection and of the workspace, files of the workspace, options
of the column. -/
theorem pasteRows_agrees_iff (env : CellEnv) (db : CellDb) (workspaceId collectionId : Uuid)
    (body : JsValue)
    (created : List Uuid) (hnew : db.AreNew (env.drawnIds 0 (incomingRows body).length))
    (h : (db.pasteRows env workspaceId collectionId body).2 = .ok created) :
    TakenByOneCell env (db.pasteRows env workspaceId collectionId body).1 workspaceId created ↔
      AllNamed env db workspaceId collectionId body := by
  obtain ⟨collection, previous, rfl, hpaste⟩ := exists_pasteFrom h
  rw [hpaste] at h ⊢
  obtain ⟨db', hdb'⟩ : ∃ db', db' =
      (pasteFrom env workspaceId collection db 0 previous (incomingRows body)).1 := ⟨_, rfl⟩
  rw [← hdb']
  obtain ⟨hcreated, hothers, hmade⟩ := pasteFrom_spec hnew (Prod.ext hdb'.symm h)
  have hnew' : db.AreNew created := hcreated ▸ hnew
  have hfieldOf : ∀ key, db'.fieldOf env collection.id key = db.fieldOf env collection.id key :=
    fun key => by rw [fieldOf, fieldOf, hothers.fields]
  have htaken : ∀ {rowId row key field}, IsPasted env db' workspaceId collection.id rowId row →
      key ∈ row.keys → db.fieldOf env collection.id key = some field →
      isDerived field.fieldType = false → (row.value key).isNullish = false →
      ((db'.putProperty env workspaceId rowId key (row.value key)).2 = .ok () ↔
        NamesWhatIsThere env.pg.uuid
          (fun target id => db.IsLiveRow workspaceId target id ∨
            (target = collection.id ∧ id ∈ env.drawnIds 0 (incomingRows body).length))
          (db.IsFile workspaceId) field (row.value key)) := by
    intro rowId row key field hpasted hkey hfield hderived hnull
    have hfield' : db'.fieldOf env collection.id key = some field := (hfieldOf key).trans hfield
    have hstored := hpasted.get_eq_some_iff.mpr
      ⟨hkey, storedValue_eq_some_iff.mpr ⟨field, hfield', hderived, hnull, rfl⟩⟩
    rw [putProperty_of_stored hpasted hfield' hderived hnull hstored, checkValue_iff,
      namesWhatIsThere_iff hnew' hothers hmade, hcreated]
    exact ⟨fun h => h hnull, fun h _ => h⟩
  constructor
  · intro hall row hrow key hkey field hfield hderived hnull
    obtain ⟨rowId, hrowId, hpasted⟩ := exists_of_forall₂ hmade.flip hrow
    refine (htaken hpasted hkey hfield hderived hnull).mp (hall rowId hrowId key _ ?_)
    exact hpasted.get_eq_some_iff.mpr ⟨hkey, storedValue_eq_some_iff.mpr
      ⟨field, (hfieldOf key).trans hfield, hderived, hnull, rfl⟩⟩
  · intro hall rowId hrowId key value hvalue
    obtain ⟨row, hrow, hpasted⟩ := exists_of_forall₂ hmade hrowId
    obtain ⟨hkey, hstored⟩ := hpasted.get_eq_some_iff.mp hvalue
    obtain ⟨field, hfield, hderived, hnull, rfl⟩ := storedValue_eq_some_iff.mp hstored
    rw [hfieldOf key] at hfield
    exact (htaken hpasted hkey hfield hderived hnull).mpr
      (hall row hrow key hkey field hfield hderived hnull)

end Agreement

/-! ### A paste into another workspace -/

/-- The number a text in hexadecimal digits and dashes writes. -/
def uuidOfText (s : String) : Option Uuid :=
  if isUuidText s then
    some ((s.toList.filter isHexDigit).foldl (fun n c => n * 16 + hexValue c) 0)
  else none

/-- A database that reads ids in either case and writes them in lower case. -/
def samplePostgres : Postgres where
  uuid := uuidOfText
  writes s := isUuidText s && s.toList.all fun c => c = '-' || hexDigit (hexValue c) = c
  timestamptz _ := none
  ofDate := some
  ofMillis _ := none
  integer _ := none
  double _ := none
  jsonb := some
  uuids ids := ids.all fun id => id.string?.any isUuidText
  indexes _ := true
  vectors _ _ _ := true
  uuid_of_text s h := by rw [uuidOfText, if_pos h, isSome_some]

/-- Ids from a hundred on, and a projection that takes every row. -/
def sampleCellEnv : CellEnv where
  pg := samplePostgres
  randomUUID i := 100 + i
  projects _ _ _ := true

def sampleCellRow (id workspaceId collectionId : Uuid) : PageTreeRow where
  id
  workspaceId
  parentPageId := none
  ancestorIds := []
  restricted := false
  idx := "a0"
  kind := .row
  collectionId := some collectionId
  archivedAt := none

/-- A collection with a column that points at its own rows, and a row of another workspace. -/
def sampleCellDb : CellDb where
  tree := ⟨Keyed.empty, Keyed.upsert Keyed.empty (sampleCellRow 9 2 50)⟩
  documents := Keyed.empty
  collections := Keyed.upsert Keyed.empty ⟨5, 4⟩
  fields := Keyed.upsert Keyed.empty ⟨6, 5, "relation",
    .object [("collectionId", .string "00000000-0000-0000-0000-000000000005")]⟩
  files := Keyed.empty

/-- A paste of one row, whose relation names these rows. -/
def samplePaste (pageIds : List String) : JsValue :=
  .object [("rows", .array [.object [("title", .string "Acme"), ("values", .object
    [("00000000-0000-0000-0000-000000000006", .object [("kind", .string "relation"),
      ("pageIds", .array (pageIds.map .string))])])]])]

/-- **A row of another workspace is stored**: the paste takes it, the single-cell route does
not. -/
theorem pasteRows_stores_foreign_row :
    sampleCellDb.AreNew (sampleCellEnv.drawnIds 0
      (incomingRows (samplePaste ["00000000-0000-0000-0000-000000000009"])).length) ∧
    (sampleCellDb.pasteRows sampleCellEnv 1 5
      (samplePaste ["00000000-0000-0000-0000-000000000009"])).2 = .ok [100] ∧
    ¬ TakenByOneCell sampleCellEnv (sampleCellDb.pasteRows sampleCellEnv 1 5
      (samplePaste ["00000000-0000-0000-0000-000000000009"])).1 1 [100] := by
  refine ⟨⟨by decide, by decide, by decide, by decide⟩, by rfl, fun h => ?_⟩
  have htaken := h 100 (by decide) "00000000-0000-0000-0000-000000000006" _ rfl
  revert htaken
  decide +kernel

/-- A paste whose relation names nothing. -/
theorem pasteRows_agrees_iff_empty :
    sampleCellDb.AreNew (sampleCellEnv.drawnIds 0 (incomingRows (samplePaste [])).length) ∧
    (sampleCellDb.pasteRows sampleCellEnv 1 5 (samplePaste [])).2 = .ok [100] ∧
    (TakenByOneCell sampleCellEnv (sampleCellDb.pasteRows sampleCellEnv 1 5 (samplePaste [])).1 1
        [100] ↔ AllNamed sampleCellEnv sampleCellDb 1 5 (samplePaste [])) := by
  have hnew : sampleCellDb.AreNew
      (sampleCellEnv.drawnIds 0 (incomingRows (samplePaste [])).length) :=
    ⟨by decide, by decide, by decide, by decide⟩
  have h : (sampleCellDb.pasteRows sampleCellEnv 1 5 (samplePaste [])).2 = .ok [100] := by rfl
  exact ⟨hnew, h, pasteRows_agrees_iff sampleCellEnv sampleCellDb 1 5 (samplePaste []) [100] hnew h⟩

end Sone
