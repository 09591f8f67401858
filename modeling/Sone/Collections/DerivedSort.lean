import Sone.Collections.Rollup
import Sone.Collections.ViewQuery
import Sone.Order.Comparator

/-!
# Sorting by what is derived

`GET /api/collections/:collectionId` (`http/collections.ts`) sorts by rollups and formulas after
the rows were read and their values worked out. What a row is sorted by is a number, a text or
nothing (`keyOf`), and `<` compares a number with a text by the number that the text reads as.

So the comparison of rows (`compareRows`) is a total preorder exactly where the keys of each sort
can be put in an order (`KeysInOrder`), among the rows that the sorts before it do not tell apart
(`consistentOn_compareRows_iff`): no key is `NaN`, each text beside a number reads as another
number, and no number is between two texts that come the other way round.
-/

namespace Sone

open List Bool

/-! ### Units -/

/-- **The units of a character** are known from where they are followed by others. -/
theorem Char.units_append_inj {c d : Char} {xs ys : List ℕ}
    (h : Char.units c ++ xs = Char.units d ++ ys) : c = d ∧ xs = ys := by
  have hc : c.toNat.isValidChar := c.valid
  have hd : d.toNat.isValidChar := d.valid
  rw [Nat.isValidChar] at hc hd
  rw [Char.units, Char.units] at h
  by_cases hcs : c.toNat < 0x10000 <;> by_cases hds : d.toNat < 0x10000
  · simp only [hcs, hds, if_true, cons_append, nil_append, List.cons.injEq] at h
    exact ⟨Char.toNat_inj.mp h.1, h.2⟩
  · simp only [hcs, hds, if_true, if_false, cons_append, nil_append,
      List.cons.injEq] at h
    omega
  · simp only [hcs, hds, if_true, if_false, cons_append, nil_append,
      List.cons.injEq] at h
    omega
  · simp only [hcs, hds, if_false, cons_append, nil_append, List.cons.injEq] at h
    exact ⟨Char.toNat_inj.mp (by omega), h.2.2⟩

/-- **A text is known from its units.** -/
theorem JsString.units_injective : Function.Injective JsString.units := by
  intro a b h
  suffices ∀ cs ds : List Char, cs.flatMap Char.units = ds.flatMap Char.units → cs = ds from
    String.toList_inj.mp (this a.toList b.toList h)
  intro cs
  have hne : ∀ c, Char.units c ≠ [] := fun c => by
    rw [Char.units]
    split <;> simp
  induction cs with
  | nil =>
    intro ds h
    cases ds with
    | nil => rfl
    | cons d ds =>
      rw [flatMap_nil, flatMap_cons] at h
      exact absurd (append_eq_nil_iff.mp h.symm).1 (hne d)
  | cons c cs ih =>
    intro ds h
    cases ds with
    | nil =>
      rw [flatMap_nil, flatMap_cons] at h
      exact absurd (append_eq_nil_iff.mp h).1 (hne c)
    | cons d ds =>
      rw [flatMap_cons, flatMap_cons] at h
      obtain ⟨rfl, hrest⟩ := Char.units_append_inj h
      rw [ih ds hrest]

/-! ### Keys -/

/-- What a row is sorted by in a derived column, where it has something. -/
inductive DerivedKey where
  | number (n : JsNumber)
  | text (s : String)
  deriving DecidableEq

/-- The key of a derived value: an empty text is none, and a list of rows is how many there are. -/
def DerivedValue.sortKey (value : DerivedValue) : Option DerivedKey :=
  match value.number, value.texts with
  | some (some n), _ => some (.number n)
  | _, some texts =>
    let joined := JsString.join ", " texts
    if joined = "" then none else some (.text joined)
  | _, none => value.rows.map fun rows => .number (.finite rows.length)

def keyOf (derived : String → Bag) (rowId fieldId : String) : Option DerivedKey :=
  ((derived rowId).get fieldId).bind DerivedValue.sortKey

/-- `a < b`, of numbers. -/
def JsNumber.less (a b : JsNumber) : Bool := a ≠ nan && b ≠ nan && a.below b

namespace DerivedKey

/-- `a === b` -/
def same : DerivedKey → DerivedKey → Bool
  | number a, number b => a ≠ .nan && a = b
  | text a, text b => a = b
  | _, _ => false

variable (js : Js)

/-- `Number(a)` -/
def toNumber : DerivedKey → JsNumber
  | number n => n
  | text s => js.toNumber (.string s)

/-- `a < b`: two texts by their units, and else two numbers. -/
def less : DerivedKey → DerivedKey → Bool
  | text a, text b => JsString.units a < JsString.units b
  | a, b => (a.toNumber js).less (b.toNumber js)

/-- Whether a key comes before another, in the direction of a sort. -/
def first (desc : Bool) (a b : DerivedKey) : Bool := if desc then b.less js a else a.less js b

end DerivedKey

/-- Whether what one row has comes before what another has: what is missing comes last. -/
def firstKey (js : Js) (desc : Bool) : Option DerivedKey → Option DerivedKey → Bool
  | none, _ => false
  | some _, none => true
  | some a, some b => a.first js desc b

/-- `a === b`, of what is there and what is `null`. -/
def sameKey : Option DerivedKey → Option DerivedKey → Bool
  | none, none => true
  | some a, some b => a.same b
  | _, _ => false

section Compare

variable (js : Js) (derived : String → Bag)

/-- One sort of the comparison, of the keys of two rows: what is missing comes last. -/
def compareKeys (desc : Bool) (a b : Option DerivedKey) : ℤ :=
  if sameKey a b then 0
  else match a, b with
    | none, _ => 1
    | _, none => -1
    | some a, some b =>
      let order := if a.less js b then -1 else 1
      if desc then -order else order

/-- The comparison that `rows.sort` is given. -/
def compareRows : List ViewSort → RowPage → RowPage → ℤ
  | [], _, _ => 0
  | sort :: sorts, left, right =>
    let a := keyOf derived left.id sort.fieldId
    let b := keyOf derived right.id sort.fieldId
    if sameKey a b then compareRows sorts left right else compareKeys js sort.desc a b

end Compare

/-! ### Keys in an order -/

/-- **The keys of a column can be put in an order**: none is `NaN`, each text beside a number reads
as another number, and no number is between two texts that come the other way round. -/
structure KeysInOrder (js : Js) (keys : List (Option DerivedKey)) : Prop where
  isNumber : ∀ n, some (.number n) ∈ keys → n ≠ .nan
  reads : ∀ n s, some (.number n) ∈ keys → some (.text s) ∈ keys →
    js.toNumber (.string s) ≠ .nan ∧ js.toNumber (.string s) ≠ n
  between : ∀ n s t, some (.number n) ∈ keys → some (.text s) ∈ keys → some (.text t) ∈ keys →
    (js.toNumber (.string s)).less n = true → n.less (js.toNumber (.string t)) = true →
      JsString.units s < JsString.units t

namespace JsNumber

variable {a b c : JsNumber}

theorem less_irrefl : a.less a = false := by
  cases a <;> simp [less, below]

theorem less_trans (hab : a.less b = true) (hbc : b.less c = true) : a.less c = true := by
  cases a <;> cases b <;> cases c <;> simp_all [less, below]
  exact lt_trans hab hbc

theorem less_asymm (hab : a.less b = true) : b.less a = false := by
  rw [eq_false_iff]
  intro hba
  have haa := less_trans hab hba
  rw [less_irrefl] at haa
  cases haa

theorem less_total (ha : a ≠ nan) (hb : b ≠ nan) (hne : a ≠ b) :
    a.less b = true ∨ b.less a = true := by
  cases a with
  | nan => exact absurd rfl ha
  | finite x =>
    cases b with
    | nan => exact absurd rfl hb
    | finite y => simpa [less, below] using lt_or_gt_of_ne fun heq : x = y => hne (heq ▸ rfl)
    | infinity negative => cases negative <;> simp [less, below]
  | infinity negative =>
    cases b with
    | nan => exact absurd rfl hb
    | finite y => cases negative <;> simp [less, below]
    | infinity other => cases negative <;> cases other <;> simp_all [less, below]

end JsNumber

section Keys

variable {js : Js} {keys : List (Option DerivedKey)} {a b c : DerivedKey} {desc : Bool}

theorem DerivedKey.eq_of_same (h : a.same b = true) : a = b := by
  cases a <;> cases b <;> simp_all [DerivedKey.same]

theorem eq_of_sameKey {u v : Option DerivedKey} (h : sameKey u v = true) : u = v := by
  cases u <;> cases v <;> simp_all [sameKey]
  exact DerivedKey.eq_of_same h

theorem sameKey_of_compareKeys {u v : Option DerivedKey} (h : compareKeys js desc u v = 0) :
    sameKey u v = true := by
  by_contra hne
  cases u <;> cases v
  · exact hne rfl
  · simp [compareKeys, hne] at h
  · simp [compareKeys, hne] at h
  · simp only [compareKeys, hne] at h
    grind

theorem eq_of_compareKeys (u v : Option DerivedKey) (h : compareKeys js desc u v = 0) : u = v :=
  eq_of_sameKey (sameKey_of_compareKeys h)

theorem compareKeys_of_same {u v : Option DerivedKey} (h : sameKey u v = true) :
    compareKeys js desc u v = 0 := by
  cases u <;> cases v <;> simp [compareKeys, h]

theorem compareKeys_of_not_same (h : a.same b = false) :
    compareKeys js desc (some a) (some b) = if (a.less js b) = desc then 1 else -1 := by
  rw [compareKeys, if_neg (by simp [sameKey, h])]
  cases a.less js b <;> cases desc <;> rfl

theorem DerivedKey.less_asymm (hab : a.less js b = true) : b.less js a = false := by
  cases a <;> cases b
  · exact JsNumber.less_asymm hab
  · exact JsNumber.less_asymm hab
  · exact JsNumber.less_asymm hab
  · simp only [DerivedKey.less, decide_eq_true_eq, decide_eq_false_iff_not] at hab ⊢
    exact not_lt_of_gt hab

theorem DerivedKey.first_irrefl : a.first js desc a = false := by
  have hirrefl : a.less js a = false := by
    rw [eq_false_iff]
    intro haa
    exact absurd haa (by rw [DerivedKey.less_asymm haa]; exact Bool.false_ne_true)
  rw [DerivedKey.first, hirrefl, ite_self]

theorem DerivedKey.first_asymm (h : a.first js desc b = true) : b.first js desc a = false := by
  cases desc
  · exact DerivedKey.less_asymm h
  · exact DerivedKey.less_asymm h

theorem firstKey_irrefl (u : Option DerivedKey) : firstKey js desc u u = false := by
  cases u with
  | none => rfl
  | some a => exact DerivedKey.first_irrefl

namespace KeysInOrder

variable (h : KeysInOrder js keys)

include h

theorem same_iff (ha : some a ∈ keys) : a.same b = true ↔ a = b := by
  refine ⟨DerivedKey.eq_of_same, ?_⟩
  rintro rfl
  cases a with
  | number n => simp [DerivedKey.same, h.isNumber n ha]
  | text s => simp [DerivedKey.same]

theorem less_total (ha : some a ∈ keys) (hb : some b ∈ keys) (hne : a ≠ b) :
    a.less js b = true ∨ b.less js a = true := by
  cases a with
  | number m =>
    have hm := h.isNumber m ha
    cases b with
    | number n => exact JsNumber.less_total hm (h.isNumber n hb) (fun heq => hne (congrArg _ heq))
    | text t =>
      obtain ⟨hreads, hdiffers⟩ := h.reads m t ha hb
      exact JsNumber.less_total hm hreads (Ne.symm hdiffers)
  | text s =>
    cases b with
    | number n =>
      obtain ⟨hreads, hdiffers⟩ := h.reads n s hb ha
      exact JsNumber.less_total hreads (h.isNumber n hb) hdiffers
    | text t =>
      have hunits : JsString.units s ≠ JsString.units t := fun heq =>
        hne (congrArg _ (JsString.units_injective heq))
      simpa only [DerivedKey.less, decide_eq_true_eq] using lt_or_gt_of_ne hunits

theorem less_of_not (ha : some a ∈ keys) (hb : some b ∈ keys) (hne : a ≠ b)
    (hab : ¬a.less js b = true) : b.less js a = true :=
  (h.less_total ha hb hne).resolve_left hab

theorem less_trans (ha : some a ∈ keys) (hb : some b ∈ keys) (hc : some c ∈ keys)
    (hab : a.less js b = true) (hbc : b.less js c = true) : a.less js c = true := by
  cases a with
  | number l =>
    cases b with
    | number m => cases c <;> exact JsNumber.less_trans hab hbc
    | text s =>
      cases c with
      | number n => exact JsNumber.less_trans hab hbc
      | text t =>
        -- else the text in the middle would come after the other
        by_contra hac
        have hca := h.less_of_not ha hc (by simp) hac
        have hts := h.between l t s ha hc hb hca hab
        simp only [DerivedKey.less, decide_eq_true_eq] at hbc
        exact lt_asymm hbc hts
  | text s =>
    cases b with
    | number m =>
      cases c with
      | number n => exact JsNumber.less_trans hab hbc
      | text t =>
        simpa only [DerivedKey.less, decide_eq_true_eq] using h.between m s t hb ha hc hab hbc
    | text t =>
      cases c with
      | number n =>
        by_contra hac
        have hca := h.less_of_not ha hc (by simp) hac
        have hts := h.between n t s hc hb ha hbc hca
        simp only [DerivedKey.less, decide_eq_true_eq] at hab
        exact lt_asymm hab hts
      | text u =>
        simp only [DerivedKey.less, decide_eq_true_eq] at hab hbc ⊢
        exact lt_trans hab hbc

/-- **What two keys are told to be.** -/
theorem compareKeys_eq (ha : some a ∈ keys) (hb : some b ∈ keys) :
    compareKeys js desc (some a) (some b) =
      if a.first js desc b then -1 else if b.first js desc a then 1 else 0 := by
  by_cases heq : a = b
  · obtain rfl := heq
    have hsame : sameKey (some a) (some a) = true := (h.same_iff ha).mpr rfl
    rw [compareKeys_of_same hsame, DerivedKey.first_irrefl]
    rfl
  · have hnot : a.same b = false := by
      rw [eq_false_iff]
      exact fun hsame => heq (DerivedKey.eq_of_same hsame)
    rw [compareKeys_of_not_same hnot]
    cases hab : a.less js b with
    | true => cases desc <;> simp [DerivedKey.first, hab, DerivedKey.less_asymm hab]
    | false =>
      have hba := h.less_of_not ha hb heq (by rw [hab]; exact Bool.false_ne_true)
      cases desc <;> simp [DerivedKey.first, hab, hba]

theorem compareKeys_neg_iff {u v : Option DerivedKey} (hu : u ∈ keys) (hv : v ∈ keys) :
    compareKeys js desc u v < 0 ↔ firstKey js desc u v = true := by
  cases u with
  | none => cases v <;> simp [compareKeys, sameKey, firstKey]
  | some a =>
    cases v with
    | none => simp [compareKeys, sameKey, firstKey]
    | some b =>
      rw [h.compareKeys_eq hu hv, firstKey]
      cases a.first js desc b <;> cases b.first js desc a <;> simp

theorem compareKeys_pos_iff {u v : Option DerivedKey} (hu : u ∈ keys) (hv : v ∈ keys) :
    0 < compareKeys js desc u v ↔ firstKey js desc v u = true := by
  cases u with
  | none => cases v <;> simp [compareKeys, sameKey, firstKey]
  | some a =>
    cases v with
    | none => simp [compareKeys, sameKey, firstKey]
    | some b =>
      rw [h.compareKeys_eq hu hv, firstKey]
      cases hab : a.first js desc b with
      | true => simp [DerivedKey.first_asymm hab]
      | false => cases b.first js desc a <;> simp

theorem firstKey_trans {u v w : Option DerivedKey} (hu : u ∈ keys) (hv : v ∈ keys)
    (hw : w ∈ keys) (huv : firstKey js desc u v = true) (hvw : firstKey js desc v w = true) :
    firstKey js desc u w = true := by
  cases u with
  | none => cases huv
  | some a =>
    cases v with
    | none => cases hvw
    | some b =>
      cases w with
      | none => rfl
      | some c =>
        cases desc
        · exact h.less_trans hu hv hw huv hvw
        · exact h.less_trans hw hv hu hvw huv

theorem sameKey_self {u : Option DerivedKey} (hu : u ∈ keys) : sameKey u u = true := by
  cases u with
  | none => rfl
  | some a => exact (h.same_iff hu).mpr rfl

theorem consistentOn_compareKeys : ConsistentOn (compareKeys js desc) keys where
  swap u hu v hv := by rw [h.compareKeys_neg_iff hu hv, h.compareKeys_pos_iff hv hu]
  trans u hu v hv w hw huv hvw := by
    rcases huv.lt_or_eq with huv | huv
    · rcases hvw.lt_or_eq with hvw | hvw
      · rw [h.compareKeys_neg_iff hu hv] at huv
        rw [h.compareKeys_neg_iff hv hw] at hvw
        exact ((h.compareKeys_neg_iff hu hw).mpr (h.firstKey_trans hu hv hw huv hvw)).le
      · rw [← eq_of_compareKeys _ _ hvw]
        exact huv.le
    · rwa [eq_of_compareKeys _ _ huv]

end KeysInOrder

theorem compareKeys_comm (hne : a.same b = false) (hne' : b.same a = false)
    (hab : a.less js b = false) (hba : b.less js a = false) :
    compareKeys js desc (some a) (some b) = compareKeys js desc (some b) (some a) := by
  rw [compareKeys_of_not_same hne, compareKeys_of_not_same hne', hab, hba]

/-- **Keys are compared consistently** exactly where they can be put in an order. -/
theorem consistentOn_compareKeys_iff :
    ConsistentOn (compareKeys js desc) keys ↔ KeysInOrder js keys := by
  refine ⟨fun h => ?_, KeysInOrder.consistentOn_compareKeys⟩
  -- two keys that differ are told apart one way or the other
  have htold : ∀ {a b}, some a ∈ keys → some b ∈ keys → a.same b = false → b.same a = false →
      a.less js b = true ∨ b.less js a = true := by
    intro a b ha hb hne hne'
    by_contra hnot
    obtain ⟨hab, hba⟩ := not_or.mp hnot
    have hcomm := @compareKeys_comm js a b desc hne hne' (eq_false_iff.mpr hab)
      (eq_false_iff.mpr hba)
    have hswap := h.swap _ ha _ hb
    rw [hcomm] at hswap
    have hzero : compareKeys js desc (some b) (some a) = 0 := by omega
    exact absurd (sameKey_of_compareKeys hzero) (by simp [sameKey, hne'])
  constructor
  · rintro n hn rfl
    have hzero := h.self hn
    exact absurd (sameKey_of_compareKeys hzero) (by simp [sameKey, DerivedKey.same])
  · intro n s hn hs
    have hless := htold hn hs rfl rfl
    constructor
    · intro hnan
      simp [DerivedKey.less, DerivedKey.toNumber, JsNumber.less, hnan] at hless
    · intro heq
      simp [DerivedKey.less, DerivedKey.toNumber, heq, JsNumber.less_irrefl] at hless
  · intro n s t hn hs ht hsn hnt
    have hsn' : DerivedKey.less js (.text s) (.number n) = true := hsn
    have hnt' : DerivedKey.less js (.number n) (.text t) = true := hnt
    have hst : (DerivedKey.text s).same (.text t) = false := by
      rw [eq_false_iff]
      intro hsame
      obtain rfl : s = t := DerivedKey.text.inj (DerivedKey.eq_of_same hsame)
      exact absurd hnt (by rw [JsNumber.less_asymm hsn]; exact Bool.false_ne_true)
    have hts : (DerivedKey.text t).same (.text s) = false := by
      simpa [DerivedKey.same, eq_comm] using hst
    -- the comparison is transitive over the number between the two texts
    cases desc with
    | false =>
      have hle := h.trans _ hs _ hn _ ht
        (by rw [compareKeys_of_not_same rfl, hsn']; decide)
        (by rw [compareKeys_of_not_same rfl, hnt']; decide)
      rw [compareKeys_of_not_same hst] at hle
      by_contra hnot
      simp [DerivedKey.less, hnot] at hle
    | true =>
      have hle := h.trans _ ht _ hn _ hs
        (by rw [compareKeys_of_not_same rfl, DerivedKey.less_asymm hnt']; decide)
        (by rw [compareKeys_of_not_same rfl, DerivedKey.less_asymm hsn']; decide)
      rw [compareKeys_of_not_same hts] at hle
      have hunits : JsString.units t ≠ JsString.units s := fun heq => by
        simp [DerivedKey.same, JsString.units_injective heq] at hts
      refine (lt_or_gt_of_ne hunits).resolve_left fun hlt => ?_
      simp [DerivedKey.less, hlt] at hle

end Keys

/-! ### The comparison of rows -/

section Rows

variable (js : Js) (derived : String → Bag)

/-- **The keys of all sorts can be put in an order**: those of the first, and those of the others
among the rows that it does not tell apart. -/
def SortsInOrder : List ViewSort → List RowPage → Prop
  | [], _ => True
  | sort :: sorts, rows =>
    KeysInOrder js (rows.map fun row => keyOf derived row.id sort.fieldId) ∧
      ∀ row ∈ rows, SortsInOrder sorts (rows.filter fun other =>
        sameKey (keyOf derived row.id sort.fieldId) (keyOf derived other.id sort.fieldId))

variable {js derived}

theorem compareRows_cons (sort : ViewSort) (sorts : List ViewSort) :
    compareRows js derived (sort :: sorts) =
      thenBy (fun left right => compareKeys js sort.desc (keyOf derived left.id sort.fieldId)
        (keyOf derived right.id sort.fieldId)) (compareRows js derived sorts) := by
  funext left right
  rw [compareRows, thenBy]
  cases hsame : sameKey (keyOf derived left.id sort.fieldId)
      (keyOf derived right.id sort.fieldId) with
  | true => rw [if_pos rfl, if_pos (compareKeys_of_same hsame)]
  | false =>
    have hne : compareKeys js sort.desc (keyOf derived left.id sort.fieldId)
        (keyOf derived right.id sort.fieldId) ≠ 0 := fun hzero => by
      rw [sameKey_of_compareKeys hzero] at hsame
      cases hsame
    rw [if_neg Bool.false_ne_true, if_neg hne]

/-- **When rows are compared consistently.** -/
theorem consistentOn_compareRows_iff {sorts : List ViewSort} {rows : List RowPage} :
    ConsistentOn (compareRows js derived sorts) rows ↔ SortsInOrder js derived sorts rows := by
  induction sorts generalizing rows with
  | nil => exact ⟨fun _ => trivial, fun _ => ConsistentOn.zero⟩
  | cons sort sorts ih =>
    have htied : ∀ row, tiedWith (compareKeys js sort.desc)
        (fun row : RowPage => keyOf derived row.id sort.fieldId) row rows =
        rows.filter fun other => sameKey (keyOf derived row.id sort.fieldId)
          (keyOf derived other.id sort.fieldId) := fun row =>
      filter_congr fun other _ => by
        rw [Bool.eq_iff_iff, decide_eq_true_eq]
        exact ⟨sameKey_of_compareKeys, compareKeys_of_same⟩
    have hboth := @consistentOn_thenBy_iff _ _ (compareKeys js sort.desc)
      (fun row : RowPage => keyOf derived row.id sort.fieldId) (compareRows js derived sorts) rows
      eq_of_compareKeys
    rw [compareRows_cons, hboth, consistentOn_compareKeys_iff, SortsInOrder]
    refine and_congr_right fun _ => forall₂_congr fun row _ => ?_
    rw [htied, ih]

end Rows

end Sone
