import Sone.Collections.DerivedSort
import Sone.Collections.Listing

/-!
# The order a view declares

The sorts of a view are a list, of columns that are stored and of columns that are derived. A
person who made it means the first that tells two rows apart (`declaredBefore`). The database
sorts by the stored ones (`orderKeys`), and what is left of the list sorts the rows again
afterwards (`derivedSorts`), so all derived sorts come before all stored ones.

The two orders differ in the rows that a stored sort puts one way and the derived sorts declared
after it the other (`overruled`). With the rows that are compared consistently this is all there
is to it (`isSortedAsDeclared_iff`).
-/

namespace Sone

open List

/-! ### What is declared -/

/-- A sort that orders rows: by a column that is stored, or by one that is derived. -/
inductive Criterion where
  | stored (key : OrderKey)
  | derived (sort : ViewSort)

/-- What a sort of a view orders rows by, if it does. -/
def criterionOf (fieldTypes : String → Option String) (sort : ViewSort) : Option Criterion :=
  (sortedType fieldTypes sort).bind fun fieldType =>
    if isDerived fieldType then some (.derived sort)
    else (columnFor fieldType).map fun column =>
      .stored { fieldId := sort.fieldId, column, desc := sort.desc }

def storedOnes (criteria : List Criterion) : List OrderKey :=
  criteria.filterMap fun
    | .stored key => some key
    | .derived _ => none

def derivedOnes (criteria : List Criterion) : List ViewSort :=
  criteria.filterMap fun
    | .stored _ => none
    | .derived sort => some sort

@[simp]
theorem storedOnes_stored (key : OrderKey) (criteria : List Criterion) :
    storedOnes (.stored key :: criteria) = key :: storedOnes criteria := rfl

@[simp]
theorem storedOnes_derived (sort : ViewSort) (criteria : List Criterion) :
    storedOnes (.derived sort :: criteria) = storedOnes criteria := rfl

@[simp]
theorem derivedOnes_stored (key : OrderKey) (criteria : List Criterion) :
    derivedOnes (.stored key :: criteria) = derivedOnes criteria := rfl

@[simp]
theorem derivedOnes_derived (sort : ViewSort) (criteria : List Criterion) :
    derivedOnes (.derived sort :: criteria) = sort :: derivedOnes criteria := rfl

namespace Criterion

variable (js : Js) (bags : String → Bag)

/-- Whether one row comes first: what is missing comes last. -/
def first (a b : RowPage) : Criterion → Bool
  | stored key =>
    KeyPair.first ⟨key.desc, a.property key.fieldId key.column, b.property key.fieldId key.column⟩
  | derived sort =>
    firstKey js sort.desc (keyOf bags a.id sort.fieldId) (keyOf bags b.id sort.fieldId)

/-- Whether two rows are not told apart. -/
def same (a b : RowPage) : Criterion → Bool
  | stored key => a.property key.fieldId key.column = b.property key.fieldId key.column
  | derived sort => sameKey (keyOf bags a.id sort.fieldId) (keyOf bags b.id sort.fieldId)

end Criterion

section Declared

variable (js : Js) (bags : String → Bag)

/-- **One row comes before another** as the view declares it: by the first sort that tells them
apart, and else by their places and their ids. -/
def declaredBefore : List Criterion → RowPage → RowPage → Bool
  | [], a, b => RowPage.tieBefore a b
  | criterion :: criteria, a, b =>
    criterion.first js bags a b ||
      (criterion.same bags a b && declaredBefore criteria a b)

/-- **A row that comes first by a stored sort is put last** by the derived sorts declared after
it, where no sort before tells the two rows apart. -/
def overruled : List Criterion → RowPage → RowPage → Bool
  | [], _, _ => false
  | .derived sort :: criteria, a, b =>
    Criterion.same bags a b (.derived sort) && overruled criteria a b
  | .stored key :: criteria, a, b =>
    if Criterion.same bags a b (.stored key) then overruled criteria a b
    else Criterion.first js bags a b (.stored key) &&
      0 < compareRows js bags (derivedOnes criteria) a b

end Declared

/-! ### What the route returns -/

section Route

variable (js : Js) (backend : Backend) (arraySort : ArraySort RowPage) (bags : String → Bag)
  (request : RowsRequest)

/-- `rows.sort`, where something is derived of a row at all. -/
def sortRows (sorts : List ViewSort) (rows : List RowPage) : List RowPage :=
  if !sorts.isEmpty && rows.any fun row => !(bags row.id).rows.isEmpty then
    arraySort.sort (compareRows js bags sorts) rows
  else rows

/-- **The rows the route returns**, where the database takes the cursor. -/
def RowsRequest.returned (table : List RowPage) (after : Option (List Char)) :
    Option (List RowPage) :=
  (getRows js backend request table after).map fun page =>
    sortRows js arraySort bags (request.built js backend).derivedSorts page.rows

/-- What the sorts of the view order the rows by. -/
def RowsRequest.criteria : List Criterion :=
  request.sorts.filterMap (criterionOf request.fieldTypes)

/-- **The rows are returned as the view declares**, and compared consistently. -/
structure RowsRequest.IsSortedAsDeclared (table : Keyed fun row : RowPage => row.id)
    (after : Option (List Char)) : Prop where
  consistent : ConsistentOn (compareRows js bags (request.built js backend).derivedSorts)
    (request.allRows js backend table.rows)
  sorted : ∀ rows ∈ request.returned js backend arraySort bags table.rows after,
    rows.Pairwise fun a b => declaredBefore js bags request.criteria a b = true

end Route

/-! ### The two orders -/

theorem KeyPair.first_asymm {desc : Bool} {v w : Option SortValue}
    (h : KeyPair.first ⟨desc, v, w⟩ = true) : KeyPair.first ⟨desc, w, v⟩ = false := by
  rw [Bool.eq_false_iff]
  intro h'
  have hself := KeyPair.first_trans h h'
  rw [KeyPair.first_irrefl] at hself
  cases hself

section Orders

variable {js : Js} {bags : String → Bag} {criteria : List Criterion} {rows : List RowPage}
  {a b : RowPage}

/-- The order the rows are returned in: by the derived sorts, and then as the database has it. -/
def returnedBefore (js : Js) (bags : String → Bag) (criteria : List Criterion) (a b : RowPage) :
    Prop :=
  compareRows js bags (derivedOnes criteria) a b < 0 ∨
    (compareRows js bags (derivedOnes criteria) a b = 0 ∧
      RowPage.before (storedOnes criteria) a b = true)

theorem pos_of_overruled (h : overruled js bags criteria a b = true) :
    0 < compareRows js bags (derivedOnes criteria) a b := by
  induction criteria with
  | nil => cases h
  | cons criterion criteria ih =>
    cases criterion with
    | stored key =>
      rw [overruled] at h
      rw [derivedOnes_stored]
      split at h
      · exact ih h
      · exact of_decide_eq_true ((Bool.and_eq_true_iff.mp h).2)
    | derived sort =>
      rw [overruled, Criterion.same, Bool.and_eq_true] at h
      rw [derivedOnes_derived, compareRows, if_pos h.1]
      exact ih h.2

/-- **Of two rows one of which is returned first**, it is declared to be exactly where the other is
not overruled. -/
theorem declaredBefore_iff
    (hrows : SortsInOrder js bags (derivedOnes criteria) rows) (ha : a ∈ rows)
    (hb : b ∈ rows) (hab : returnedBefore js bags criteria a b) :
    declaredBefore js bags criteria a b = true ↔ overruled js bags criteria b a = false := by
  induction criteria generalizing rows with
  | nil =>
    rcases hab with hab | ⟨-, hab⟩
    · exact absurd hab (lt_irrefl 0)
    · exact iff_of_true hab rfl
  | cons criterion criteria ih =>
    cases criterion with
    | derived sort =>
      rw [derivedOnes_derived, SortsInOrder] at hrows
      obtain ⟨hkeys, hrest⟩ := hrows
      rw [returnedBefore, derivedOnes_derived, storedOnes_derived, compareRows] at hab
      rw [declaredBefore, overruled, Criterion.same, Criterion.same, Criterion.first]
      have hkeyA :=
        List.mem_map_of_mem (f := fun row : RowPage => keyOf bags row.id sort.fieldId) ha
      have hkeyB :=
        List.mem_map_of_mem (f := fun row : RowPage => keyOf bags row.id sort.fieldId) hb
      cases hsame : sameKey (keyOf bags a.id sort.fieldId) (keyOf bags b.id sort.fieldId) with
      | true =>
        -- the sort does not tell the rows apart, so the others decide among those it does not
        rw [hsame, if_pos rfl] at hab
        have hself := hkeys.sameKey_self hkeyA
        rw [← eq_of_sameKey hsame, firstKey_irrefl, hself]
        simp only [Bool.false_or, Bool.true_and]
        exact ih (hrest a ha) (mem_filter.mpr ⟨ha, hself⟩)
          (mem_filter.mpr ⟨hb, hsame⟩) hab
      | false =>
        have hne : compareKeys js sort.desc (keyOf bags a.id sort.fieldId)
            (keyOf bags b.id sort.fieldId) ≠ 0 := fun hzero => by
          rw [sameKey_of_compareKeys hzero] at hsame
          cases hsame
        rw [hsame, if_neg Bool.false_ne_true] at hab
        have hfirst := (hkeys.compareKeys_neg_iff hkeyA hkeyB).mp
          (hab.resolve_right fun hzero => hne hzero.1)
        have hsame' : sameKey (keyOf bags b.id sort.fieldId) (keyOf bags a.id sort.fieldId) =
            false := by
          rw [Bool.eq_false_iff]
          intro hsame'
          rw [eq_of_sameKey hsame', firstKey_irrefl] at hfirst
          cases hfirst
        rw [hfirst, hsame']
        exact iff_of_true rfl rfl
    | stored key =>
      rw [derivedOnes_stored] at hrows
      rw [returnedBefore, derivedOnes_stored, storedOnes_stored, before_cons] at hab
      rw [declaredBefore, overruled, Criterion.same, Criterion.same, Criterion.first,
        Criterion.first]
      by_cases heq : a.property key.fieldId key.column = b.property key.fieldId key.column
      · rw [if_pos (by simpa using heq.symm), heq, KeyPair.first_irrefl]
        rw [heq, KeyPair.first_irrefl] at hab
        simp only [decide_true, Bool.false_or, Bool.true_and] at hab ⊢
        exact ih hrows ha hb hab
      · rw [if_neg (by simpa using Ne.symm heq)]
        rcases KeyPair.first_total key.desc heq with hfirst | hfirst
        · have hfirst' := KeyPair.first_asymm hfirst
          rw [hfirst, hfirst']
          exact iff_of_true rfl rfl
        · -- the other row comes first by the stored sort, and is put last by the derived ones
          have hfirst' := KeyPair.first_asymm hfirst
          rw [hfirst'] at hab
          simp only [heq, decide_false, Bool.false_and, Bool.or_false, Bool.false_eq_true,
            and_false, or_false] at hab
          have hpos := ((consistentOn_compareRows_iff.mpr hrows).swap a ha b hb).mp hab
          rw [hfirst, hfirst']
          simp [heq, hpos]

theorem compareRows_eq_zero {sorts : List ViewSort} (ha : (bags a.id).rows = [])
    (hb : (bags b.id).rows = []) : compareRows js bags sorts a b = 0 := by
  have hnone : ∀ {row : RowPage} fieldId, (bags row.id).rows = [] →
      keyOf bags row.id fieldId = none := by
    intro row fieldId hempty
    rw [keyOf, YMap.get, Keyed.find, hempty]
    rfl
  induction sorts with
  | nil => rfl
  | cons sort sorts ih => rw [compareRows, hnone _ ha, hnone _ hb, sameKey, if_pos rfl, ih]

end Orders

section Returned

variable {js : Js} {backend : Backend} {arraySort : ArraySort RowPage} {bags : String → Bag}
  {request : RowsRequest} {table : List RowPage} {after : Option (List Char)}

theorem orderKeys_eq : (request.built js backend).orderKeys = storedOnes request.criteria := by
  rw [RowsRequest.built, buildViewQuery, storedOnes, RowsRequest.criteria, filterMap_filterMap]
  refine filterMap_congr fun sort _ => ?_
  rw [criterionOf]
  cases sortedType request.fieldTypes sort with
  | none => rfl
  | some fieldType =>
    cases hderived : isDerived fieldType <;> cases hcolumn : columnFor fieldType <;>
      simp [hderived, hcolumn, Option.filter]

theorem derivedSorts_eq :
    (request.built js backend).derivedSorts = derivedOnes request.criteria := by
  rw [RowsRequest.built, buildViewQuery, derivedOnes, RowsRequest.criteria,
    filterMap_filterMap, ← filterMap_eq_filter]
  refine filterMap_congr fun sort _ => ?_
  rw [criterionOf, Option.guard]
  cases sortedType request.fieldTypes sort with
  | none => rfl
  | some fieldType =>
    cases hderived : isDerived fieldType <;> cases hcolumn : columnFor fieldType <;>
      simp [hderived, hcolumn]

/-- **Rows in the order of the database** are sorted to that of the derived sorts, and else stay
as they were. -/
theorem pairwise_sortRows {sorts : List ViewSort} {keys : List OrderKey} {rows : List RowPage}
    (hconsistent : ConsistentOn (compareRows js bags sorts) rows)
    (hrows : rows.Pairwise fun a b => RowPage.before keys a b = true) :
    (sortRows js arraySort bags sorts rows).Pairwise fun a b =>
      compareRows js bags sorts a b < 0 ∨
        (compareRows js bags sorts a b = 0 ∧ RowPage.before keys a b = true) := by
  rw [sortRows]
  split
  · refine arraySort.pairwise_sort hconsistent hrows fun a haa => ?_
    rw [before_irrefl] at haa
    cases haa
  · rename_i hnone
    rw [Bool.and_eq_true, not_and_or] at hnone
    refine hrows.imp_of_mem fun {a b} ha hb hab => .inr ⟨?_, hab⟩
    rcases hnone with hnone | hnone
    · obtain rfl : sorts = [] := by simpa using hnone
      rfl
    · simp only [List.any_eq_true, not_exists, not_and, Bool.not_eq_true',
        List.isEmpty_iff, Bool.not_eq_false] at hnone
      exact compareRows_eq_zero (hnone a ha) (hnone b hb)

theorem perm_sortRows {sorts : List ViewSort} {rows : List RowPage} :
    (sortRows js arraySort bags sorts rows).Perm rows := by
  rw [sortRows]
  split
  · exact arraySort.perm _ _
  · exact List.Perm.refl _

theorem pairwise_of_getRows (hids : (table.map (·.id)).Nodup) {page : RowsPage}
    (hpage : getRows js backend request table after = some page) :
    page.rows.Pairwise (fun a b =>
      RowPage.before (request.built js backend).orderKeys a b = true) ∧
      ∀ row ∈ page.rows, row ∈ request.allRows js backend table := by
  have hsorted : ∀ p : RowPage → Bool, (orderedRows (request.built js backend).orderKeys
      (table.filter p)).Pairwise fun a b =>
        RowPage.before (request.built js backend).orderKeys a b = true := fun p =>
    pairwise_orderedRows (hids.sublist (filter_sublist.map _))
  cases hderived : (request.built js backend).derivedSorts.isEmpty with
  | false =>
    rw [getRows, if_neg (by simp [hderived])] at hpage
    obtain rfl := Option.some.inj hpage
    exact ⟨hsorted _, fun row hrow => hrow⟩
  | true =>
    obtain ⟨past, -, hrows⟩ := exists_past_of_getRows hderived hpage
    rw [hrows]
    refine ⟨(hsorted _).sublist (take_sublist _ _), fun row hrow => ?_⟩
    have hmem := mem_orderedRows.mp (mem_of_mem_take hrow)
    rw [mem_filter, Bool.and_eq_true] at hmem
    exact mem_orderedRows.mpr (mem_filter.mpr ⟨hmem.1, hmem.2.1⟩)

/-- **The rows are returned** in the order of the derived sorts, and then as the database has
them. -/
theorem pairwise_of_mem_returned (hids : (table.map (·.id)).Nodup)
    (hconsistent : ConsistentOn (compareRows js bags (request.built js backend).derivedSorts)
      (request.allRows js backend table))
    {rows : List RowPage} (hrows : rows ∈ request.returned js backend arraySort bags table after) :
    rows.Pairwise (returnedBefore js bags request.criteria) ∧
      ∀ row ∈ rows, row ∈ request.allRows js backend table := by
  obtain ⟨page, hpage, rfl⟩ := Option.map_eq_some_iff.mp hrows
  obtain ⟨hpairwise, hmem⟩ := pairwise_of_getRows hids hpage
  constructor
  · have hsorted := @pairwise_sortRows js arraySort bags _ _ _ (hconsistent.mono hmem) hpairwise
    rw [orderKeys_eq, derivedSorts_eq] at hsorted
    rwa [derivedSorts_eq]
  · exact fun row hrow => hmem row (perm_sortRows.mem_iff.mp hrow)

theorem returned_eq (hderived : (request.built js backend).derivedSorts.isEmpty = false) :
    request.returned js backend arraySort bags table after =
      some (sortRows js arraySort bags (request.built js backend).derivedSorts
        (request.allRows js backend table)) := by
  rw [RowsRequest.returned, getRows, if_neg (by simp [hderived])]
  rfl

end Returned

/-- **When the rows are returned as the view declares**: the keys of the derived sorts can be put
in an order, and no row that comes first by a stored sort is put last by the derived sorts declared
after it. -/
theorem isSortedAsDeclared_iff (js : Js) (backend : Backend) (arraySort : ArraySort RowPage)
    (bags : String → Bag) (request : RowsRequest) (table : Keyed fun row : RowPage => row.id)
    (after : Option (List Char)) :
    request.IsSortedAsDeclared js backend arraySort bags table after ↔
      SortsInOrder js bags (request.built js backend).derivedSorts
          (request.allRows js backend table.rows) ∧
        ∀ a ∈ request.allRows js backend table.rows, ∀ b ∈ request.allRows js backend table.rows,
          overruled js bags request.criteria a b = false := by
  constructor
  · rintro ⟨hconsistent, hsorted⟩
    have hkeys := consistentOn_compareRows_iff.mp hconsistent
    refine ⟨hkeys, fun a ha b hb => ?_⟩
    rw [Bool.eq_false_iff]
    intro hover
    have hpos := pos_of_overruled hover
    have hderivedSorts : (request.built js backend).derivedSorts = derivedOnes request.criteria :=
      derivedSorts_eq
    rw [← hderivedSorts] at hpos
    have hneg := (hconsistent.swap b hb a ha).mpr hpos
    have hne : a ≠ b := by
      rintro rfl
      rw [hconsistent.self ha] at hpos
      exact absurd hpos (lt_irrefl 0)
    have hderived : (request.built js backend).derivedSorts.isEmpty = false := by
      rw [Bool.eq_false_iff, Ne, List.isEmpty_iff]
      intro hnil
      rw [hnil] at hpos
      exact absurd hpos (lt_irrefl 0)
    -- the other row is returned first, and is not declared to be
    have hreturned := @returned_eq js backend arraySort bags request table.rows after hderived
    obtain ⟨hpairwise, -⟩ := pairwise_of_mem_returned table.nodup hconsistent hreturned
    have hperm := @perm_sortRows js arraySort bags (request.built js backend).derivedSorts
      (request.allRows js backend table.rows)
    rw [pairwise_iff_forall_sublist] at hpairwise
    have hba : returnedBefore js bags request.criteria b a := by
      rw [returnedBefore, ← hderivedSorts]
      exact .inl hneg
    rcases pair_sublist_or (hperm.mem_iff.mpr hb) (hperm.mem_iff.mpr ha) (Ne.symm hne)
      with hin | hin
    · have hdeclared := pairwise_iff_forall_sublist.mp (hsorted _ hreturned) hin
      rw [derivedSorts_eq] at hkeys
      rw [declaredBefore_iff hkeys hb ha hba, hover] at hdeclared
      cases hdeclared
    · have hab := hpairwise hin
      rw [returnedBefore, ← hderivedSorts] at hab
      omega
  · rintro ⟨hkeys, hover⟩
    have hconsistent := consistentOn_compareRows_iff.mpr hkeys
    refine ⟨hconsistent, fun rows hrows => ?_⟩
    obtain ⟨hpairwise, hmem⟩ := pairwise_of_mem_returned table.nodup hconsistent hrows
    rw [derivedSorts_eq] at hkeys
    refine hpairwise.imp_of_mem fun {a b} ha hb hab => ?_
    exact (declaredBefore_iff hkeys (hmem a ha) (hmem b hb) hab).mpr
      (hover b (hmem b hb) a (hmem a ha))

/-- A number and a text that reads as none each come after the other. -/
example : ∀ desc, compareKeys Js.ascii desc (some (.number (.finite 1))) (some (.text "x")) =
    compareKeys Js.ascii desc (some (.text "x")) (some (.number (.finite 1))) := by
  decide +kernel

/-! ### A stored sort that is overruled -/

/-- A view that is sorted by a number and then by a rollup. -/
def mixedRequest : RowsRequest where
  collectionId := "c"
  filters := []
  sorts := [{ fieldId := "f", desc := false }, { fieldId := "r", desc := false }]
  fieldTypes := fun fieldId => some (if fieldId = "f" then "number" else "rollup")
  query := ""
  limit := none

/-- Two rows with different numbers. -/
def mixedTable : Keyed fun row : RowPage => row.id where
  rows := [sampleRow "a" "a0" (some 1), sampleRow "b" "a1" (some 2)]
  nodup := by decide

/-- The rollup of the row with the lower number is the higher. -/
def mixedBags (rowId : String) : Bag :=
  YMap.empty.set "r" { number := some (some (.finite (if rowId = "a" then 2 else 1))) }

/-- **The row with the higher number is returned first.** -/
theorem not_isSortedAsDeclared :
    ¬mixedRequest.IsSortedAsDeclared Js.ascii sampleBackend (ArraySort.insertion RowPage) mixedBags
      mixedTable none := by
  intro h
  have hall : ((mixedRequest.returned Js.ascii sampleBackend (ArraySort.insertion RowPage)
      mixedBags mixedTable.rows none).all fun rows => decide (rows.Pairwise fun a b =>
        declaredBefore Js.ascii mixedBags mixedRequest.criteria a b = true)) = false := by
    decide +kernel
  rw [Option.all_eq_false] at hall
  obtain ⟨rows, hrows, hnot⟩ := hall
  exact absurd (h.sorted rows hrows) (by simpa using hnot)

end Sone
