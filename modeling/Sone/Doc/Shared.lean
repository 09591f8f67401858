import Sone.Table.Keyed
import Mathlib.Data.Rat.Defs

/-!
# Shared types and what is in them

The values a document holds: plain ones, as JavaScript has them, and shared types. A `YMap`
keeps its keys in the order they were first set. A `YText` is known by its delta, and a
fragment by its elements, their attributes and their text.

A map is copied by walking another's entries and setting what is to be kept of each.
`YMap.assign` is that loop, `get_assign` says what the copy has and `rows_assign_empty` that a
copy into an empty map has it in the same order.
-/

namespace Sone

open List

universe u v

/-! ### Plain values -/

/-- A number: a finite double is a rational. -/
inductive JsNumber where
  | finite (n : ℚ)
  | nan
  | infinity (negative : Bool)
  deriving DecidableEq

inductive JsValue where
  | undefined
  | null
  | boolean (b : Bool)
  | number (n : JsNumber)
  | string (s : String)
  | array (items : List JsValue)
  | object (fields : List (String × JsValue))

namespace JsValue

/-- `value === undefined || value === null` -/
def isNullish : JsValue → Bool
  | undefined | null => true
  | _ => false

/-- The value, where `typeof value === 'string'`. -/
def string? : JsValue → Option String
  | string s => some s
  | _ => none

/-- The value, where `typeof value === 'number'`. -/
def number? : JsValue → Option JsNumber
  | number n => some n
  | _ => none

/-- The value, where `Array.isArray(value)`. -/
def array? : JsValue → Option (List JsValue)
  | array items => some items
  | _ => none

/-- `value === true` -/
def isTrue : JsValue → Bool
  | boolean true => true
  | _ => false

end JsValue

/-! ### Maps -/

/-- **A map** from strings, its entries in the order their keys were first set. -/
abbrev YMap (V : Type u) := Keyed fun entry : String × V => entry.1

namespace YMap

variable {V : Type u} {W : Type v} {m : YMap V} {k key : String} {v : V}

/-- `new Y.Map()` -/
def empty : YMap V := Keyed.empty

/-- `map.get(key)` -/
def get (m : YMap V) (key : String) : Option V := (m.find key).map (·.2)

/-- `map.set(key, value)` -/
def set (m : YMap V) (key : String) (value : V) : YMap V := m.upsert (key, value)

/-- `map.delete(key)` -/
def delete (m : YMap V) (key : String) : YMap V := m.filter fun entry => entry.1 ≠ key

/-- `map.has(key)` -/
def has (m : YMap V) (key : String) : Bool := (m.get key).isSome

def keys (m : YMap V) : List String := m.rows.map (·.1)

@[simp]
theorem get_empty : (empty : YMap V).get k = none := rfl

theorem get_set : (m.set key v).get k = if key = k then some v else m.get k := by
  rw [get, set, Keyed.find_upsert]
  split <;> rfl

theorem get_delete : (m.delete key).get k = if key = k then none else m.get k := by
  rw [get, get, delete, Keyed.find_filter]
  cases hfind : m.find k with
  | none => simp
  | some entry =>
    obtain rfl := Keyed.key_eq hfind
    by_cases heq : key = entry.1
    · simp [Option.filter, heq]
    · simp [Option.filter, heq, Ne.symm heq]

theorem mem_keys_iff : k ∈ m.keys ↔ (m.get k).isSome = true := by
  rw [keys, List.mem_map, get, Option.isSome_map, Option.isSome_iff_exists]
  constructor
  · rintro ⟨entry, hentry, rfl⟩
    exact ⟨entry, Keyed.mem_rows_iff.mp hentry⟩
  · rintro ⟨entry, hentry⟩
    exact ⟨entry, Keyed.mem_rows hentry, Keyed.key_eq hentry⟩

theorem get_eq_none_iff : m.get k = none ↔ k ∉ m.keys := by
  rw [mem_keys_iff, Option.not_isSome_iff_eq_none]

/-- `for (const key of keys) if (…) map.delete(key)` -/
def deleteWhere (m : YMap V) (keys : List String) (p : String → Bool) : YMap V :=
  keys.foldl (fun m key => if p key then m.delete key else m) m

/-- **Deleting keys** takes the chosen ones of them and no others. -/
theorem get_deleteWhere {keys : List String} {p : String → Bool} :
    (m.deleteWhere keys p).get k = if k ∈ keys ∧ p k = true then none else m.get k := by
  induction keys generalizing m with
  | nil => simp [deleteWhere]
  | cons key keys ih =>
    have hstep : m.deleteWhere (key :: keys) p =
        (if p key then m.delete key else m).deleteWhere keys p := rfl
    have hget : (if p key then m.delete key else m).get k =
        if key = k ∧ p k = true then none else m.get k := by
      by_cases hp : p key
      · rw [if_pos hp, get_delete]
        by_cases heq : key = k
        · subst heq
          simp [hp]
        · simp [heq]
      · rw [if_neg hp]
        by_cases heq : key = k
        · subst heq
          simp [hp]
        · simp [heq]
    rw [hstep, ih, hget]
    by_cases hp : p k
    · by_cases hmem : k ∈ keys
      · simp [hp, hmem]
      · simp [hp, hmem, eq_comm]
    · simp [hp]

/-- `source.forEach((value, key) => …)` with a `set` of what `f` keeps of each entry. -/
def assign (m : YMap W) (entries : List (String × V)) (f : String → V → Option W) : YMap W :=
  entries.foldl
    (fun m entry => match f entry.1 entry.2 with
      | some value => m.set entry.1 value
      | none => m) m

variable {target : YMap W} {f : String → V → Option W}

theorem get_assign_entries {entries : List (String × V)}
    (hnodup : (entries.map (·.1)).Nodup) :
    (target.assign entries f).get k =
      (((entries.find? fun entry => entry.1 = k).map (·.2)).bind (f k)).or (target.get k) := by
  induction entries generalizing target with
  | nil => rfl
  | cons entry entries ih =>
    obtain ⟨hnew, hnodup⟩ := nodup_cons.mp hnodup
    obtain ⟨target', htarget'⟩ : ∃ target' : YMap W, target' =
        (match f entry.1 entry.2 with
          | some value => target.set entry.1 value
          | none => target) := ⟨_, rfl⟩
    have hstep : target.assign (entry :: entries) f = target'.assign entries f := by
      rw [htarget']
      rfl
    rw [hstep, ih hnodup]
    by_cases hk : entry.1 = k
    · -- a later entry cannot have the key again
      have hnone : entries.find? (fun other => other.1 = k) = none := by
        rw [List.find?_eq_none]
        intro other hother heq
        exact hnew (List.mem_map.mpr ⟨other, hother, (of_decide_eq_true heq).trans hk.symm⟩)
      rw [hnone, List.find?_cons_of_pos (by simpa using hk), htarget', ← hk]
      cases hf : f entry.1 entry.2 with
      | some value => simp [hf, get_set]
      | none => simp [hf]
    · rw [List.find?_cons_of_neg (by simpa using hk), htarget']
      cases hf : f entry.1 entry.2 with
      | some value => simp [get_set, hk]
      | none => rfl

theorem get_assign : (target.assign m.rows f).get k =
    ((m.get k).bind (f k)).or (target.get k) :=
  get_assign_entries m.nodup

theorem rows_set_of_notMem {value : W} (h : key ∉ target.keys) :
    (target.set key value).rows = target.rows ++ [(key, value)] := by
  have hnew : (key, value).1 ∉ target.rows.map (·.1) := h
  rw [set, Keyed.upsert, dif_neg hnew]

theorem rows_assign {entries : List (String × V)} (hnodup : (entries.map (·.1)).Nodup)
    (hnew : ∀ key ∈ entries.map (·.1), key ∉ target.keys) :
    (target.assign entries f).rows =
      target.rows ++ entries.filterMap fun entry => (f entry.1 entry.2).map fun value =>
        (entry.1, value) := by
  induction entries generalizing target with
  | nil => simp [assign]
  | cons entry entries ih =>
    obtain ⟨hfresh, hnodup⟩ := nodup_cons.mp hnodup
    have hhead : entry.1 ∉ target.keys := hnew entry.1 (by simp)
    have htail : ∀ key ∈ entries.map (·.1), key ∉ target.keys :=
      fun key hkey => hnew key (mem_cons_of_mem _ hkey)
    cases hf : f entry.1 entry.2 with
    | none =>
      have hstep : target.assign (entry :: entries) f = target.assign entries f := by
        simp [assign, hf]
      rw [hstep, ih hnodup htail]
      simp [hf]
    | some value =>
      have hstep : target.assign (entry :: entries) f =
          (target.set entry.1 value).assign entries f := by
        simp [assign, hf]
      have hkeys : (target.set entry.1 value).keys = target.keys ++ [entry.1] := by
        rw [keys, rows_set_of_notMem hhead, map_append]
        rfl
      rw [hstep, ih hnodup, rows_set_of_notMem hhead]
      · simp [hf]
      · intro key hkey hmem
        rw [hkeys, mem_append, mem_singleton] at hmem
        rcases hmem with hmem | rfl
        · exact htail key hkey hmem
        · exact hfresh hkey

theorem rows_assign_empty : ((empty : YMap W).assign m.rows f).rows =
    m.rows.filterMap fun entry => (f entry.1 entry.2).map fun value => (entry.1, value) := by
  have hnew : ∀ key ∈ m.rows.map (·.1), key ∉ (empty : YMap W).keys := by
    simp [keys, empty, Keyed.empty]
  exact rows_assign m.nodup hnew

end YMap

/-! ### Text -/

inductive Insert where
  | text (s : String)
  | embed (value : JsValue)

structure DeltaOp where
  insert : Insert
  attributes : YMap JsValue := YMap.empty

/-- **A text**, known by its delta. -/
structure YText where
  delta : List DeltaOp := []

namespace YText

def toDelta (t : YText) : List DeltaOp := t.delta

/-- `text.applyDelta(delta)`, of a text that is empty. -/
def applyDelta (delta : List DeltaOp) : YText := ⟨delta⟩

/-- `text.toString()`: the words without marks and embeds. -/
def toString (t : YText) : String :=
  String.join (t.delta.map fun op => match op.insert with
    | .text s => s
    | .embed _ => "")

/-- `text.insert(0, s)`, of a text that is empty. -/
def insert (s : String) : YText := if s = "" then {} else { delta := [{ insert := .text s }] }

theorem toString_insert (s : String) : (insert s).toString = s := by
  rw [insert]
  split
  · rename_i h
    rw [h]
    rfl
  · simp [toString]

end YText

/-! ### What maps and fragments hold -/

inductive SharedValue where
  | plain (value : JsValue)
  | text (t : YText)
  /-- A `Y.Array` of plain values. -/
  | array (items : List JsValue)
  /-- Any other shared type, by what it reads as. -/
  | shared (content : JsValue)

namespace SharedValue

/-- `value instanceof Y.AbstractType` -/
def isAbstractType : SharedValue → Bool
  | plain _ => false
  | text _ | array _ | shared _ => true

def plain? : SharedValue → Option JsValue
  | plain value => some value
  | _ => none

/-- The value, where it is a `Y.Text`. -/
def text? : SharedValue → Option YText
  | text t => some t
  | _ => none

end SharedValue

/-- **A node** of a fragment. -/
inductive XmlNode where
  | element (nodeName : String) (attributes : YMap JsValue) (children : List XmlNode)
  | text (t : YText)
  /-- A `Y.XmlHook`, or whatever else an update put there. -/
  | other

end Sone
