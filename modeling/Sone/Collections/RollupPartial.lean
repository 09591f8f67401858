import Sone.Collections.RollupHidden

/-!
# Whether a rollup says that something was left out

A rollup is worked out of the live rows that point at a row: of all of them, or of those that have
something in a field (`contributions`). What of it the reader does not get is what they may not see
and what is past the listing limit (`LeavesOut`), and `DerivedValue.partial` is there to say so.

The listing and the count say it. The lookup and the totals ask for the reader's visibility where
they select, so a hidden row is not among what they find: a total never says that it is partial,
and a lookup only where it is longer than the limit.
-/

namespace Sone

open List Option

namespace RollupDb

variable (env : RollupEnv) (db : RollupDb) (reader : Option Uuid)

/-! ### What a rollup is of -/

/-- The live rows that point at a row through a column. -/
def linked (via rowId : Uuid) : List SourcePage :=
  (db.relations.filter fun relation => relation.toPageId = rowId ∧ relation.fieldId = via).filterMap
    db.source

/-- The linked rows, each as often as it has something that counts in a field. -/
def havingValue (counts : PropertyRow → Bool) (fieldId : Uuid) (pages : List SourcePage) :
    List SourcePage :=
  pages.flatMap fun page =>
    ((db.properties.filter fun v => v.pageId = page.id ∧ v.fieldId = fieldId).filter counts).map
      fun _ => page

def shownText (v : PropertyRow) : Option String := (shown env v).filter (· ≠ "")

/-- **The live linked rows that contribute** to a rollup of a row: all of them to the listing and
the count, those with a text to a lookup, and those with a number to a total. -/
def contributions (config : RollupConfig) (rowId : Uuid) : List SourcePage :=
  match env.uuid config.viaFieldId with
  | none => []
  | some via =>
    match config.aggregate, config.fieldId.bind env.uuid with
    | .rows, _ | .count, _ => db.linked via rowId
    | _, none => []
    | .lookup, some fieldId =>
      db.havingValue (fun v => (shownText env v).isSome) fieldId (db.linked via rowId)
    | _, some fieldId =>
      db.havingValue (fun v => v.numberValue.isSome) fieldId (db.linked via rowId)

/-- Whether an aggregate names no more than so many. -/
def Aggregate.isListing (aggregate : Aggregate) : Bool :=
  aggregate = .rows ∨ aggregate = .lookup

/-- **Something is left out** of what a reader is given: a row that they may not see, or what is
past the limit of a listing. -/
def LeavesOut (config : RollupConfig) (rowId : Uuid) : Prop :=
  (∃ page ∈ db.contributions env config rowId, db.mayRead reader page = false) ∨
    (Aggregate.isListing config.aggregate = true ∧
      maxBacklinkRows < ((db.contributions env config rowId).filter (db.mayRead reader)).length)

end RollupDb

namespace RollupDb

variable {env : RollupEnv} {db : RollupDb} {reader : Option Uuid} {rowIds : List Uuid}
  {rowId via fieldId : Uuid}

/-! ### The edges of a row -/

theorem edges_of_row (hrow : rowId ∈ rowIds) :
    ((db.edges reader rowIds via).filter fun edge => edge.toPageId = rowId) =
      (db.linked via rowId).map fun page => ⟨rowId, page, db.mayRead reader page⟩ := by
  rw [edges, linked, filter_filterMap, map_filterMap, filterMap_filter,
    filterMap_filter]
  refine filterMap_congr fun relation _ => ?_
  by_cases hto : relation.toPageId = rowId
  · obtain rfl := hto
    by_cases hfield : relation.fieldId = via
    · cases db.source relation <;> simp [isVia, hrow, hfield, Option.filter]
    · simp [isVia, hfield]
  · cases db.source relation <;> simp [Option.filter, hto]

theorem filter_flatMap_of_const {α β : Type*} {p : β → Bool} {q : α → Bool} {g : α → List β}
    (h : ∀ a, ∀ b ∈ g a, p b = q a) (l : List α) :
    (l.flatMap g).filter p = (l.filter q).flatMap g := by
  induction l with
  | nil => rfl
  | cons a l ih =>
    rw [flatMap_cons, filter_append, ih]
    cases hq : q a with
    | true =>
      rw [filter_cons_of_pos hq, flatMap_cons,
        List.filter_eq_self.mpr fun b hb => (h a b hb).trans hq]
    | false =>
      rw [filter_cons_of_neg (by simp [hq]),
        filter_eq_nil_iff.mpr fun b hb => by simp [h a b hb, hq]]
      rfl

/-- **The readable values of one of the rows** are those of its linked rows that may be read. -/
theorem length_values_of_row (hrow : rowId ∈ rowIds) {β : Type*} (f : PropertyRow → Option β) :
    (((db.values reader rowIds via fieldId).filter fun row => row.1.toPageId = rowId).filterMap
        fun row => f row.2).length =
      ((db.havingValue (fun v => (f v).isSome) fieldId (db.linked via rowId)).filter
        (db.mayRead reader)).length := by
  have hvalues : ((db.values reader rowIds via fieldId).filter
      fun row => row.1.toPageId = rowId) =
        ((db.linked via rowId).filter (db.mayRead reader)).flatMap fun page =>
          (db.properties.filter fun v => v.pageId = page.id ∧ v.fieldId = fieldId).map fun v =>
            (⟨rowId, page, db.mayRead reader page⟩, v) := by
    rw [values, filter_flatMap_of_const (q := fun edge : Edge => edge.toPageId = rowId),
      filter_comm, edges_of_row hrow, List.filter_map, flatMap_map]
    · rfl
    · intro edge row hmem
      obtain ⟨v, -, rfl⟩ := List.mem_map.mp hmem
      rfl
  have hcontributing : (db.havingValue (fun v => (f v).isSome) fieldId
      (db.linked via rowId)).filter (db.mayRead reader) =
        db.havingValue (fun v => (f v).isSome) fieldId
          ((db.linked via rowId).filter (db.mayRead reader)) := by
    rw [havingValue, filter_flatMap_of_const (q := db.mayRead reader)]
    · rfl
    · intro page other hmem
      obtain ⟨v, -, rfl⟩ := List.mem_map.mp hmem
      rfl
  rw [hvalues, hcontributing, havingValue, filterMap_flatMap, length_flatMap,
    length_flatMap]
  refine congrArg List.sum (map_congr_left fun page _ => ?_)
  rw [filterMap_map, length_map, length_filterMap_eq_countP,
    countP_eq_length_filter]
  rfl

/-! ### What each aggregate says -/

/-- **The listing and the count** say that a row is hidden, and the listing that there are more
than it names. -/
theorem isPartial_listed (aggregate : Aggregate) (hrow : rowId ∈ rowIds) :
    (listed aggregate (byTitle (db.edges reader rowIds via)) rowId).isPartial = true ↔
      (∃ page ∈ db.linked via rowId, db.mayRead reader page = false) ∨
        (aggregate ≠ .count ∧
          maxBacklinkRows < ((db.linked via rowId).filter (db.mayRead reader)).length) := by
  obtain ⟨mine, hmine⟩ : ∃ mine, (byTitle (db.edges reader rowIds via)).filter
      (fun edge => edge.toPageId = rowId) = mine := ⟨_, rfl⟩
  have hperm : mine.Perm ((db.linked via rowId).map fun page =>
      ⟨rowId, page, db.mayRead reader page⟩) := by
    rw [← hmine, ← edges_of_row hrow]
    exact (perm_insertionSort _ _).filter _
  have hreadable : (mine.filter (·.mayRead)).length =
      ((db.linked via rowId).filter (db.mayRead reader)).length := by
    rw [(hperm.filter _).length_eq, List.filter_map, length_map]
    rfl
  have hall : mine.length = (db.linked via rowId).length := by
    rw [hperm.length_eq, length_map]
  have hleft : (mine.filter (·.mayRead)).length ≠ mine.length ↔
      ∃ page ∈ db.linked via rowId, db.mayRead reader page = false := by
    rw [hreadable, hall, Ne, length_filter_eq_length_iff]
    simp
  rw [← hleft, ← hreadable, listed, hmine]
  by_cases hcount : aggregate = .count
  · simp [hcount]
  · simp [hcount]

theorem isPartial_lookedUp (hrow : rowId ∈ rowIds) {found : List (Edge × PropertyRow)}
    (hfound : found.Perm (db.values reader rowIds via fieldId)) :
    (lookedUp env found rowId).isPartial = true ↔
      maxBacklinkRows < ((db.havingValue (fun v => (shownText env v).isSome) fieldId
        (db.linked via rowId)).filter (db.mayRead reader)).length := by
  rw [lookedUp, decide_eq_true_eq, filter_filterMap,
    ← length_values_of_row hrow (shownText env), ((hfound.filter _).filterMap _).length_eq]
  rfl

/-- **What a rollup says of having left something out**, by its aggregate. -/
theorem isPartial_of_mem {config : RollupConfig} {computed : List (Uuid × DerivedValue)}
    (h : db.computeRollup env reader rowIds config = some computed) {value : DerivedValue}
    (hentry : (rowId, value) ∈ computed) :
    value.isPartial = true ↔
      match config.aggregate with
      | .rows | .count => db.LeavesOut env reader config rowId
      | .lookup => maxBacklinkRows <
          ((db.contributions env config rowId).filter (db.mayRead reader)).length
      | _ => False := by
  have hne : rowIds ≠ [] := by
    rintro rfl
    obtain rfl : [] = computed := by simpa [computeRollup] using h
    cases hentry
  rw [computeRollup, if_neg hne] at h
  have hmem : ∀ {f : Uuid → DerivedValue}, (rowId, value) ∈ rowIds.map (fun id => (id, f id)) →
      rowId ∈ rowIds ∧ value = f rowId := by
    intro f hin
    obtain ⟨id, hid, heq⟩ := List.mem_map.mp hin
    obtain ⟨rfl, rfl⟩ := Prod.mk.inj heq
    exact ⟨hid, rfl⟩
  cases haggregate : config.aggregate with
  | rows | count =>
    simp only [haggregate, bind_eq_bind, bind_eq_some_iff] at h
    obtain ⟨via, hvia, h⟩ := h
    obtain rfl := some.inj h
    obtain ⟨hrow, rfl⟩ := hmem hentry
    rw [isPartial_listed _ hrow, LeavesOut, contributions, hvia, haggregate]
    simp [Aggregate.isListing]
  | lookup =>
    simp only [haggregate] at h
    cases hfield : config.fieldId with
    | none =>
      simp only [hfield] at h
      obtain rfl := some.inj h
      obtain ⟨-, rfl⟩ := hmem hentry
      rw [contributions, hfield, haggregate]
      cases env.uuid config.viaFieldId <;> simp
    | some fieldId =>
      simp only [hfield, bind_eq_bind, bind_eq_some_iff] at h
      obtain ⟨via, hvia, field, hfieldId, h⟩ := h
      obtain rfl := some.inj h
      obtain ⟨hrow, rfl⟩ := hmem hentry
      rw [isPartial_lookedUp hrow (perm_insertionSort _ _), contributions, hvia, haggregate,
        hfield, bind_some, hfieldId]
  | sum | min | max =>
    simp only [haggregate] at h
    cases hfield : config.fieldId with
    | none =>
      simp only [hfield] at h
      obtain rfl := some.inj h
      obtain ⟨-, rfl⟩ := hmem hentry
      simp
    | some fieldId =>
      simp only [hfield, bind_eq_bind, bind_eq_some_iff] at h
      obtain ⟨via, -, field, -, h⟩ := h
      obtain rfl := some.inj h
      obtain ⟨-, rfl⟩ := hmem hentry
      simp [totalled]

/-- **When a rollup says what it leaves out**: a listing and a count always, and the others where
no hidden row contributes; a lookup also where it is longer than the limit anyway. -/
theorem isPartial_iff_leavesOut_iff (env : RollupEnv) (db : RollupDb) (reader : Option Uuid)
    (rowIds : List Uuid) (config : RollupConfig) (computed : List (Uuid × DerivedValue))
    (h : db.computeRollup env reader rowIds config = some computed) (rowId : Uuid)
    (value : DerivedValue) (hentry : (rowId, value) ∈ computed) :
    (value.isPartial = true ↔ db.LeavesOut env reader config rowId) ↔
      config.aggregate = .rows ∨ config.aggregate = .count ∨
        (∀ page ∈ db.contributions env config rowId, db.mayRead reader page = true) ∨
        (config.aggregate = .lookup ∧ maxBacklinkRows <
          ((db.contributions env config rowId).filter (db.mayRead reader)).length) := by
  have hgiven := isPartial_of_mem h hentry
  obtain ⟨hidden, hhidden⟩ : ∃ hidden : Prop,
      (∃ page ∈ db.contributions env config rowId, db.mayRead reader page = false) ↔ hidden :=
    ⟨_, Iff.rfl⟩
  obtain ⟨more, hmore⟩ : ∃ more : Prop, maxBacklinkRows <
      ((db.contributions env config rowId).filter (db.mayRead reader)).length ↔ more :=
    ⟨_, Iff.rfl⟩
  have hshown : (∀ page ∈ db.contributions env config rowId, db.mayRead reader page = true) ↔
      ¬hidden := by
    rw [← hhidden]
    simp
  -- a total is silent, so it is right where it leaves nothing out
  have htotal : (value.isPartial = true ↔ False) → Aggregate.isListing config.aggregate = false →
      ((value.isPartial = true ↔ db.LeavesOut env reader config rowId) ↔ ¬hidden) := by
    intro hsilent hlisting
    rw [hsilent, LeavesOut, hlisting, hhidden]
    simp
  cases haggregate : config.aggregate with
  | rows | count =>
    rw [haggregate] at hgiven
    exact iff_of_true hgiven (by simp)
  | lookup =>
    rw [haggregate] at hgiven
    rw [hgiven, LeavesOut, haggregate, hhidden, hmore, hshown]
    simp only [Aggregate.isListing, reduceCtorEq, false_or, or_true, decide_true, true_and]
    tauto
  | sum | min | max =>
    rw [haggregate] at hgiven
    rw [htotal hgiven (by rw [haggregate]; rfl), hshown]
    simp

/-! ### A total of a hidden row -/

/-- Numbers that are added up, of two columns. -/
def addingEnv : RollupEnv :=
  { rollupSampleEnv with
    uuid := fun s => if s = "20" then some 20 else if s = "40" then some 40 else none
    sum := fun numbers => some (numbers.foldl (JsNumber.add .finite) (.finite 0)) }

/-- The restricted page and the one that anybody may read both have a number. -/
def paidSample : RollupDb :=
  { rollupSample "Salaries" [⟨11, 10, 20⟩, ⟨12, 10, 20⟩] with
    properties := [⟨11, 40, .undefined, none, some (.finite 5)⟩,
      ⟨12, 40, .undefined, none, some (.finite 1)⟩] }

/-- The sum of the numbers of what points at a row. -/
def paidConfig : RollupConfig := ⟨"20", .sum, some "40"⟩

theorem computeRollup_paid :
    ∃ value, paidSample.computeRollup addingEnv (some 7) [10] paidConfig = some [(10, value)] ∧
      value.isPartial = false := by
  have hmap : (paidSample.computeRollup addingEnv (some 7) [10] paidConfig).map
      (fun computed => computed.map fun entry => (entry.1, entry.2.isPartial)) =
        some [(10, false)] := by
    decide +kernel
  obtain ⟨computed, hcomputed, hentries⟩ := map_eq_some_iff.mp hmap
  obtain ⟨entry, rfl, hentry⟩ := map_eq_singleton_iff.mp hentries
  obtain ⟨hid, hpartial⟩ := Prod.mk.inj hentry
  exact ⟨entry.2, by rw [hcomputed, ← hid], hpartial⟩

/-- **A sum without the number of the restricted page** does not say that it is partial. -/
theorem not_isPartial_iff_leavesOut :
    ¬∀ computed, paidSample.computeRollup addingEnv (some 7) [10] paidConfig = some computed →
      ∀ rowId value, (rowId, value) ∈ computed →
        (value.isPartial = true ↔ paidSample.LeavesOut addingEnv (some 7) paidConfig rowId) := by
  intro h
  obtain ⟨value, hcomputed, hsilent⟩ := computeRollup_paid
  have hgiven := h _ hcomputed 10 value (mem_singleton.mpr rfl)
  have hhidden : ((paidSample.contributions addingEnv paidConfig 10).any fun page =>
      !paidSample.mayRead (some 7) page) = true := by
    decide +kernel
  obtain ⟨page, hpage, hnot⟩ := List.any_eq_true.mp hhidden
  have hpartial := hgiven.mpr (.inl ⟨page, hpage, by simpa using hnot⟩)
  rw [hsilent] at hpartial
  cases hpartial

/-- The same sum, which leaves out a row that contributes. -/
theorem isPartial_iff_leavesOut_iff_paid :
    ∃ value, paidSample.computeRollup addingEnv (some 7) [10] paidConfig = some [(10, value)] ∧
      ((value.isPartial = true ↔ paidSample.LeavesOut addingEnv (some 7) paidConfig 10) ↔
        paidConfig.aggregate = .rows ∨ paidConfig.aggregate = .count ∨
          (∀ page ∈ paidSample.contributions addingEnv paidConfig 10,
            paidSample.mayRead (some 7) page = true) ∨
          (paidConfig.aggregate = .lookup ∧ maxBacklinkRows <
            ((paidSample.contributions addingEnv paidConfig 10).filter
              (paidSample.mayRead (some 7))).length)) := by
  obtain ⟨value, hcomputed, -⟩ := computeRollup_paid
  exact ⟨value, hcomputed, isPartial_iff_leavesOut_iff addingEnv paidSample (some 7) [10] paidConfig
    _ hcomputed 10 value (mem_singleton.mpr rfl)⟩

end RollupDb

end Sone
