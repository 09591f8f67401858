import Sone.Collections.RollupHidden
import Sone.Formula.Throws
import Sone.Transition.Outcome

/-!
# Whether a formula can be used

`formulaIsUsable` (`http/collections.ts`) is asked of a formula when its column is created and when
it is edited: it parses, and each column it names is one of the collection and not a formula. The
names are bound to ids, and with these the formula is worked out in each row.

How many arguments a call has is not asked. A formula that was accepted has an outcome in a row
exactly where the evaluation gets to no short call there (`formulaOf_isSome_iff`).
-/

namespace Sone

/-! ### The check -/

structure NamedColumn where
  id : String
  name : String
  fieldType : String

/-- The answer to a formula that is not usable: a code, and what it is about. -/
structure FormulaRefusal where
  status : ℕ := 422
  code : String
  parse : Option ParseError := none
  field : Option String := none

mutual

def fieldNames : Expr → List String
  | .number _ | .text _ | .boolean _ | .blank => []
  | .field name => [name]
  | .unary _ operand => fieldNames operand
  | .binary _ left right => fieldNames left ++ fieldNames right
  | .call _ args => fieldNamesAll args

def fieldNamesAll : List Expr → List String
  | [] => []
  | arg :: args => fieldNames arg ++ fieldNamesAll args

end

def fieldsUsed (e : Expr) : List String := (fieldNames e).eraseDups

def bindName (js : Js) (columns : List NamedColumn) (name : String) :
    Except FormulaRefusal (String × JsValue) :=
  match columns.find? fun column => js.lowerCase column.name = js.lowerCase name with
  | none => .error { code := "formula_unknown_field", field := some name }
  | some column =>
    if column.fieldType = "formula" then
      .error { code := "formula_reads_formula", field := some name }
    else .ok (name, .string column.id)

/-- `raw['bindings'] = bindings`. What is assigned to `__proto__` is not kept. -/
def withBindings (bindings : List (String × JsValue)) : JsValue → JsValue
  | .object fields => .object ((fields.filter fun field => field.1 ≠ "bindings") ++
      [("bindings", .object (bindings.filter fun binding => binding.1 ≠ "__proto__"))])
  | raw => raw

/-- `formulaIsUsable`: the config that is stored, or the answer. There is nothing where the fuel is
not enough. -/
def formulaIsUsable (js : Js) (u : Unicode) (fuel : ℕ) (columns : List NamedColumn)
    (raw : JsValue) :
    Option (Except FormulaRefusal JsValue) :=
  match (raw.get "formula").string? with
  | none => some (.error { code := "formula_missing" })
  | some text =>
    if JsString.trim text = "" then some (.error { code := "formula_missing" })
    else (parseFormula js u fuel text.toList).map fun
      | .error error => .error { code := "formula_invalid", parse := some error }
      | .ok expr => ((fieldsUsed expr).mapM (bindName js columns)).map fun bindings =>
          withBindings bindings raw

/-! ### A formula that was accepted -/

section Accepted

variable {js : Js} {u : Unicode} {fuel : ℕ} {columns : List NamedColumn} {raw config : JsValue}

theorem get_withBindings (bindings : List (String × JsValue)) :
    (withBindings bindings raw).get "formula" = raw.get "formula" := by
  cases raw with
  | object fields =>
    rw [withBindings, JsValue.get, JsValue.get, List.find?_append, List.find?_filter]
    have hkept : (fun field : String × JsValue => decide (decide (field.1 ≠ "bindings") = true ∧
        decide (field.1 = "formula") = true)) = fun field => decide (field.1 = "formula") := by
      funext field
      by_cases hname : field.1 = "formula" <;> simp [hname]
    rw [hkept]
    cases fields.find? fun field => decide (field.1 = "formula") <;> simp
  | _ => rfl

/-- **What is stored of an accepted formula** is a text that parses. -/
theorem parses_of_formulaIsUsable
    (h : formulaIsUsable js u fuel columns raw = some (.ok config)) :
    ∃ text expr, (raw.get "formula").string? = some text ∧
      (config.get "formula").string? = some text ∧
        parseFormula js u fuel text.toList = some (.ok expr) := by
  rw [formulaIsUsable] at h
  cases htext : (raw.get "formula").string? with
  | none => simp [htext] at h
  | some text =>
    simp only [htext] at h
    split at h
    · simp at h
    · obtain ⟨parsed, hparsed, h⟩ := Option.map_eq_some_iff.mp h
      cases parsed with
      | error error => cases h
      | ok expr =>
        obtain ⟨bindings, -, rfl⟩ := map_eq_ok_iff.mp h
        exact ⟨text, expr, rfl, by rw [get_withBindings, htext], hparsed⟩

end Accepted

/-- **When an accepted formula has an outcome in a row**, a value or an error: where the evaluation
gets to no short call. -/
theorem formulaOf_isSome_iff (env : RollupEnv) (fuel : ℕ) (columns : List NamedColumn)
    (raw config : JsValue)
    (h : formulaIsUsable env.formula.js env.unicode fuel columns raw = some (.ok config)) :
    ∃ text expr, (config.get "formula").string? = some text ∧
      parseFormula env.formula.js env.unicode fuel text.toList = some (.ok expr) ∧
      ∀ (cells : String → JsValue) (bag : Bag),
        (formulaOf env config expr cells bag).isSome = true ↔
          ¬∃ name args,
            Evaluates env.formula (boundId config)
              (fun fieldId => formulaValueOf (cells fieldId) (bag.get fieldId)) expr
              (.call name args) ∧
            IsShort env.formula (boundId config)
              (fun fieldId => formulaValueOf (cells fieldId) (bag.get fieldId)) name args := by
  obtain ⟨text, expr, -, htext, hparse⟩ := parses_of_formulaIsUsable h
  refine ⟨text, expr, htext, hparse, fun cells bag => ?_⟩
  rw [← evaluate_throws_iff, formulaOf, Option.isSome_map, Evaluated.Throws,
    Option.isSome_iff_ne_none]

/-! ### A call without arguments -/

/-- `isblank()` -/
def emptyCall : JsValue := .object [("formula", .string "isblank()")]

theorem formulaIsUsable_emptyCall :
    ∃ config, formulaIsUsable Js.ascii .asciiOnly 20 [] emptyCall = some (.ok config) := by
  have haccepted : ((formulaIsUsable Js.ascii .asciiOnly 20 [] emptyCall).any
      fun answer => answer.toOption.isSome) = true := by
    decide +kernel
  rw [Option.any_eq_true] at haccepted
  obtain ⟨answer, hanswer, hok⟩ := haccepted
  cases answer with
  | error refusal => cases hok
  | ok config => exact ⟨config, hanswer⟩

def isEmptyCall : Expr → Bool
  | .call name [] => name = "isblank"
  | _ => false

theorem parseFormula_emptyCall :
    parseFormula Js.ascii .asciiOnly 20 "isblank()".toList = some (.ok (.call "isblank" [])) := by
  have hparsed : ((parseFormula Js.ascii .asciiOnly 20 "isblank()".toList).any fun r =>
      r.toOption.any isEmptyCall) = true := by
    decide +kernel
  rw [Option.any_eq_true] at hparsed
  obtain ⟨r, hr, hcall⟩ := hparsed
  cases r with
  | error error => cases hcall
  | ok expr =>
    rw [hr]
    cases expr with
    | call name args =>
      cases args with
      | nil =>
        obtain rfl : name = "isblank" := of_decide_eq_true hcall
        rfl
      | cons arg args => cases hcall
    | _ => cases hcall

/-- **An accepted formula throws in every row.** -/
theorem not_formulaOf_isSome :
    ¬∀ config, formulaIsUsable Js.ascii .asciiOnly 20 [] emptyCall = some (.ok config) →
      ∀ text expr, (config.get "formula").string? = some text →
        parseFormula Js.ascii .asciiOnly 20 text.toList = some (.ok expr) →
        ∀ (cells : String → JsValue) (bag : Bag),
          (formulaOf RollupDb.rollupSampleEnv config expr cells bag).isSome = true := by
  intro h
  obtain ⟨config, haccepted⟩ := formulaIsUsable_emptyCall
  obtain ⟨text, expr, hraw, htext, hparse⟩ := parses_of_formulaIsUsable haccepted
  obtain rfl : "isblank()" = text := Option.some.inj hraw
  have hsome := h config haccepted _ expr htext hparse (fun _ => .undefined) YMap.empty
  rw [parseFormula_emptyCall] at hparse
  obtain rfl := Except.ok.inj (Option.some.inj hparse)
  cases hsome

theorem formulaOf_isSome_iff_emptyCall :
    ∃ config, formulaIsUsable Js.ascii .asciiOnly 20 [] emptyCall = some (.ok config) ∧
      ∃ text expr, (config.get "formula").string? = some text ∧
        parseFormula Js.ascii .asciiOnly 20 text.toList = some (.ok expr) ∧
        ∀ (cells : String → JsValue) (bag : Bag),
          (formulaOf RollupDb.rollupSampleEnv config expr cells bag).isSome = true ↔
            ¬∃ name args,
              Evaluates RollupDb.rollupSampleEnv.formula (boundId config)
                (fun fieldId => formulaValueOf (cells fieldId) (bag.get fieldId)) expr
                (.call name args) ∧
              IsShort RollupDb.rollupSampleEnv.formula (boundId config)
                (fun fieldId => formulaValueOf (cells fieldId) (bag.get fieldId)) name args := by
  obtain ⟨config, haccepted⟩ := formulaIsUsable_emptyCall
  exact ⟨config, haccepted,
    formulaOf_isSome_iff RollupDb.rollupSampleEnv 20 [] emptyCall config haccepted⟩

end Sone
