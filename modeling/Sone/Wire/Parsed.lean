import Sone.Wire.Json

/-!
# What a JSON text is read as

Not every value is read of a JSON text: nothing in one that is read is `undefined`, no object has
a key twice, and its numbers are what the language reads of their digits (`IsJson`). So it is data
that can be written again, and all that may change then are numbers that are too large: these are
read as infinite and written as `null`.

`isJson_of_parse` takes the language to read back the numbers it has read.
-/

namespace Sone

open Option

namespace Json

/-- **A value that is read** of a text. -/
inductive IsJson (js : Js) : JsValue → Prop
  | null : IsJson js .null
  | boolean (b : Bool) : IsJson js (.boolean b)
  | number {n : JsNumber} (h : ∀ q, n = .finite q → Writes js q) : IsJson js (.number n)
  | string (s : String) : IsJson js (.string s)
  | array {items : List JsValue} (h : ∀ item ∈ items, IsJson js item) : IsJson js (.array items)
  | object {fields : List (String × JsValue)} (hkeys : (fields.map (·.1)).Nodup)
      (h : ∀ field ∈ fields, IsJson js field.2) : IsJson js (.object fields)

variable {js : Js} {value : JsValue}

theorem IsJson.isData (h : IsJson js value) : IsData js value := by
  induction h with
  | null => exact .null
  | boolean b => exact .boolean b
  | number h => exact .number h
  | string s => exact .string s
  | array _ ih => exact .array ih
  | object hkeys _ ih => exact .object hkeys ih

theorem IsJson.ne_undefined (h : IsJson js value) : value ≠ .undefined := by
  rintro rfl
  cases h

theorem IsJson.nodup {fields : List (String × JsValue)} (h : IsJson js (.object fields)) :
    (fields.map (·.1)).Nodup := by
  cases h with
  | object hkeys _ => exact hkeys

theorem IsJson.of_mem {fields : List (String × JsValue)} (h : IsJson js (.object fields))
    {field : String × JsValue} (hfield : field ∈ fields) : IsJson js field.2 := by
  cases h with
  | object _ hfields => exact hfields field hfield

/-! ### Lists and objects -/

section Parts

variable {P : JsValue → Prop} {read : List Char → Option (JsValue × List Char)}

theorem of_parseItems (hread : ∀ cs value rest, read cs = some (value, rest) → P value) {n : ℕ}
    {cs rest : List Char} {items : List JsValue} (h : parseItems read n cs = some (items, rest)) :
    ∀ item ∈ items, P item := by
  induction n generalizing cs items with
  | zero => cases h
  | succ n ih =>
    rw [parseItems] at h
    obtain ⟨⟨item, cs'⟩, hitem, h⟩ := bind_eq_some_iff.mp h
    have hfirst : P item := hread _ _ _ hitem
    simp only at h
    split at h
    · cases h
      simpa using hfirst
    · obtain ⟨⟨items', rest'⟩, hitems, h⟩ := bind_eq_some_iff.mp h
      cases h
      exact List.forall_mem_cons.mpr ⟨hfirst, ih hitems⟩
    · cases h

theorem of_parseMembers (hread : ∀ cs value rest, read cs = some (value, rest) → P value) {n : ℕ}
    {cs rest : List Char} {fields : List (String × JsValue)}
    (h : parseMembers read n cs = some (fields, rest)) : ∀ field ∈ fields, P field.2 := by
  induction n generalizing cs fields with
  | zero => cases h
  | succ n ih =>
    rw [parseMembers] at h
    split at h
    · obtain ⟨⟨key, cs'⟩, -, h⟩ := bind_eq_some_iff.mp h
      simp only at h
      split at h
      · obtain ⟨⟨item, cs''⟩, hitem, h⟩ := bind_eq_some_iff.mp h
        have hfirst : P item := hread _ _ _ hitem
        simp only at h
        split at h
        · cases h
          simpa using hfirst
        · obtain ⟨⟨fields', rest'⟩, hfields, h⟩ := bind_eq_some_iff.mp h
          cases h
          exact List.forall_mem_cons.mpr ⟨hfirst, ih hfields⟩
        · cases h
      · cases h
    · cases h

end Parts

theorem isJson_ofMembers {fields : List (String × JsValue)}
    (h : ∀ field ∈ fields, IsJson js field.2) : IsJson js (ofMembers fields) := by
  have hall : ∀ target : YMap JsValue, (∀ row ∈ target.rows, IsJson js row.2) →
      ∀ row ∈ (target.assign fields fun _ value => some value).rows, IsJson js row.2 := by
    induction fields with
    | nil => exact fun target htarget => htarget
    | cons field fields ih =>
      obtain ⟨hfield, hfields⟩ := List.forall_mem_cons.mp h
      refine fun target htarget => ih hfields (target.set field.1 field.2) fun row hrow => ?_
      have hget : (target.set field.1 field.2).find row.1 = some row := Keyed.mem_rows_iff.mp hrow
      rw [YMap.set, Keyed.find_upsert] at hget
      split at hget
      · cases hget
        exact hfield
      · exact htarget row (Keyed.mem_rows hget)
  exact .object (Keyed.nodup _) (hall .empty (by simp [YMap.empty, Keyed.empty]))

/-! ### A text -/

section Text

variable (hnumbers : ∀ s q, js.toNumber (.string s) = .finite q → Writes js q)

include hnumbers

theorem isJson_readNumber (token : List Char) : IsJson js (readNumber js token) := by
  rw [readNumber]
  split
  · rename_i h
    refine .number fun q hq => ?_
    cases hq
    exact writes_natural h.2
  · exact .number fun q hq => hnumbers _ q hq

theorem isJson_of_parseNumber {cs rest : List Char} (h : parseNumber js cs = some (value, rest)) :
    IsJson js value := by
  rw [parseNumber.eq_def] at h
  split at h
  obtain ⟨whole, -, h⟩ := bind_eq_some_iff.mp h
  obtain ⟨fraction, -, h⟩ := bind_eq_some_iff.mp h
  obtain ⟨exponent, -, h⟩ := bind_eq_some_iff.mp h
  cases h
  exact isJson_readNumber hnumbers _

/-- **A value is read** with all that is in it. -/
theorem isJson_of_parseValue {n : ℕ} {cs rest : List Char}
    (h : parseValue js n cs = some (value, rest)) : IsJson js value := by
  induction n generalizing cs value rest with
  | zero => cases h
  | succ n ih =>
    have hread : ∀ cs value rest, parseValue js n cs = some (value, rest) → IsJson js value :=
      fun cs value rest h => ih h
    rw [parseValue] at h
    split at h
    · cases h
      exact .null
    · cases h
      exact .boolean true
    · cases h
      exact .boolean false
    · obtain ⟨read, -, hvalue⟩ := map_eq_some_iff.mp h
      cases hvalue
      exact .string _
    · split at h
      · cases h
        exact .array (by simp)
      · obtain ⟨⟨items, cs'⟩, hitems, hvalue⟩ := map_eq_some_iff.mp h
        cases hvalue
        exact .array (of_parseItems hread hitems)
    · split at h
      · cases h
        exact .object (by simp) (by simp)
      · obtain ⟨⟨fields, cs'⟩, hfields, hvalue⟩ := map_eq_some_iff.mp h
        cases hvalue
        exact isJson_ofMembers (of_parseMembers hread hfields)
    · exact isJson_of_parseNumber hnumbers h

theorem isJson_of_parse {text : List Char} (h : parse js text = some value) : IsJson js value := by
  rw [parse] at h
  split at h
  · rename_i hread
    split at h
    · cases h
      exact isJson_of_parseValue hnumbers hread
    · cases h
  · cases h

end Text

end Json

end Sone
