import Sone.Formula.Parse
import Mathlib.Data.List.Infix
import Mathlib.Data.Rat.Floor

/-!
# Working out a formula

`evaluate` (`formula/evaluate.ts`) gives a value or one error for a row, whose cells it reads
by the ids the names of columns are bound to (`bindFormula`). An empty cell is empty and not
zero, and what is empty makes empty what it is part of. A function that is called with fewer
arguments than it looks at throws.

Numbers are doubles. A sum, a product or a quotient is that of the numbers themselves, rounded
(`FormulaEnv.rounded`).
-/

namespace Sone

/-! ### Numbers -/

namespace JsNumber

variable (rounded : ℚ → JsNumber)

/-- `-a` -/
def neg : JsNumber → JsNumber
  | finite a => finite (-a)
  | nan => nan
  | infinity negative => infinity !negative

/-- `a + b` -/
def add : JsNumber → JsNumber → JsNumber
  | finite a, finite b => rounded (a + b)
  | nan, _ | _, nan => nan
  | infinity a, infinity b => if a = b then infinity a else nan
  | infinity a, finite _ | finite _, infinity a => infinity a

/-- `a - b` -/
def sub (a b : JsNumber) : JsNumber := add rounded a b.neg

/-- `a * b` -/
def mul : JsNumber → JsNumber → JsNumber
  | finite a, finite b => rounded (a * b)
  | nan, _ | _, nan => nan
  | infinity a, infinity b => infinity (a != b)
  | infinity a, finite b | finite b, infinity a =>
    if b = 0 then nan else infinity (a != decide (b < 0))

/-- `a / b` -/
def div : JsNumber → JsNumber → JsNumber
  | finite a, finite b =>
    if b ≠ 0 then rounded (a / b) else if a = 0 then nan else infinity (a < 0)
  | nan, _ | _, nan | infinity _, infinity _ => nan
  | infinity a, finite b => infinity (a != decide (b < 0))
  | finite _, infinity _ => finite 0

/-- `a === 0` -/
def isZero (a : JsNumber) : Bool := a = finite 0

/-- `a < 0` -/
def isNegative (a : JsNumber) : Bool := a.neg.isPositive

/-- `Math.abs(a)` -/
def abs (a : JsNumber) : JsNumber := if a.isNegative then a.neg else a

/-- `Math.trunc(a)` -/
def trunc : JsNumber → JsNumber
  | finite a => finite (if a < 0 then ⌈a⌉ else ⌊a⌋)
  | a => a

/-- `Math.round(a)` -/
def round : JsNumber → JsNumber
  | finite a => finite ⌊a + 1 / 2⌋
  | a => a

/-- Whether a number is below another, neither being `NaN`. -/
def below : JsNumber → JsNumber → Bool
  | finite a, finite b => a < b
  | infinity negative, b => negative && b ≠ infinity true
  | a, infinity negative => !negative && a ≠ infinity false
  | _, _ => false

/-- `Math.min(a, b)` -/
def min (a b : JsNumber) : JsNumber :=
  if a = nan ∨ b = nan then nan else if b.below a then b else a

/-- `Math.max(a, b)` -/
def max (a b : JsNumber) : JsNumber :=
  if a = nan ∨ b = nan then nan else if a.below b then b else a

/-- `10 ** Math.max(0, Math.min(10, Math.trunc(places)))` -/
def factor (places : JsNumber) : JsNumber :=
  match (finite 0).max ((finite 10).min places.trunc) with
  | finite k => finite (10 ^ k.num.toNat)
  | k => k

end JsNumber

/-! ### Values -/

inductive Value where
  | number (value : JsNumber)
  | text (value : String)
  | boolean (value : Bool)
  | date (value : String)
  | blank
  deriving DecidableEq

/-- The codes of an `EvalError`. -/
inductive EvalErrorCode where
  | unknownField
  | typeMismatch
  | unknownFunction
  | wrongArity
  | divideByZero
  | notADate
  deriving DecidableEq, Repr

structure EvalError where
  code : EvalErrorCode
  detail : Option String
  deriving DecidableEq, Repr

namespace Value

def kind : Value → String
  | number _ => "number"
  | text _ => "text"
  | boolean _ => "boolean"
  | date _ => "date"
  | blank => "blank"

def isBlank : Value → Bool
  | blank | text "" => true
  | _ => false

end Value

structure FormulaEnv where
  js : Js
  /-- `s.toUpperCase()` -/
  upperCase : String → String
  /-- The double nearest to a number. -/
  rounded : ℚ → JsNumber
  /-- `now().toISOString().slice(0, 10)` -/
  today : String

/-- **What an evaluation gives**: a value or an error, and nothing where it throws. -/
abbrev Evaluated (α : Type) := ExceptT EvalError Option α

namespace Evaluated

/-- An `EvalError` is returned. -/
def error {α : Type} (code : EvalErrorCode) (detail : Option String) : Evaluated α :=
  throw ⟨code, detail⟩

/-- A `type_mismatch`. -/
def mismatch {α : Type} (detail : String) : Evaluated α := error .typeMismatch (some detail)

/-- `values[0]!`, which throws when it is looked at and is not there. -/
def first (values : List Value) : Evaluated Value :=
  match values with
  | value :: _ => pure value
  | [] => (none : Option (Except EvalError Value))

end Evaluated

open Evaluated

def asNumber : Value → Evaluated JsNumber
  | .number value => pure value
  | value => mismatch value.kind

/-- `` `${left.kind}/${right.kind}` `` -/
def kinds (left right : Value) : String := left.kind ++ "/" ++ right.kind

section Evaluate

variable (env : FormulaEnv)

/-- `compare` -/
def compareValues : Value → Value → Evaluated JsNumber
  | .number a, .number b => pure (a.sub env.rounded b)
  | .text a, .text b => pure (.finite (if JsString.units a < JsString.units b then -1
      else if JsString.units b < JsString.units a then 1 else 0))
  | .date a, .date b => pure (match env.js.parseDate a, env.js.parseDate b with
      | some a, some b => env.rounded (a - b)
      | _, _ => .nan)
  | left, right => mismatch (kinds left right)

/-- Whether a comparison holds, by what `compare` gave. -/
def BinaryOp.holds (order : JsNumber) : BinaryOp → Bool
  | .eq => order.isZero
  | .ne => !order.isZero
  | .lt => order.isNegative
  | .le => order.isNegative || order.isZero
  | .gt => order.isPositive
  | .ge => order.isPositive || order.isZero
  | _ => false

def applyUnary : UnaryOp → Value → Evaluated Value
  | _, .blank => pure .blank
  | .not, .boolean b => pure (.boolean !b)
  | .not, value => mismatch value.kind
  | .neg, value => do return .number (← asNumber value).neg

/-- A binary operator that is not `and` or `or`, of two values. -/
def applyBinary (op : BinaryOp) (left right : Value) : Evaluated Value :=
  if left.isBlank || right.isBlank then
    match op with
    | .eq => pure (.boolean (left.isBlank && right.isBlank))
    | .ne => pure (.boolean (left.isBlank != right.isBlank))
    | _ => pure .blank
  else match op, left, right with
    | .add, .text a, .text b => pure (.text (a ++ b))
    | .add, _, _ => do return .number ((← asNumber left).add env.rounded (← asNumber right))
    | .sub, _, _ => do return .number ((← asNumber left).sub env.rounded (← asNumber right))
    | .mul, _, _ => do return .number ((← asNumber left).mul env.rounded (← asNumber right))
    | .div, _, _ => do
      let a ← asNumber left
      let b ← asNumber right
      if b.isZero then error .divideByZero none
      return .number (a.div env.rounded b)
    | _, _, _ => do return .boolean (op.holds (← compareValues env left right))

/-- What `concat` writes of a value. -/
def Value.written (value : Value) : String :=
  match value with
  | .blank => ""
  | .number n => env.js.toText (.number n)
  | .boolean b => if b then "true" else "false"
  | .date s | .text s => s

/-- A text function: of what is blank it gives `nothing`, and it takes nothing but a text. -/
def ofText (value nothing : Value) (f : String → Value) : Evaluated Value :=
  if value.isBlank then pure nothing
  else match value with
    | .text s => pure (f s)
    | _ => mismatch value.kind

/-- The functions that take the values of their arguments. -/
def callFunction (name : String) (values : List Value) : Evaluated Value :=
  match name with
  | "today" => pure (.date env.today)
  | "isblank" => do return .boolean (← first values).isBlank
  | "length" => do ofText (← first values) (.number (.finite 0)) fun s => .number (.finite s.length)
  | "lower" => do ofText (← first values) .blank fun s => .text (env.js.lowerCase s)
  | "upper" => do ofText (← first values) .blank fun s => .text (env.upperCase s)
  | "contains" => do
    let haystack ← first values
    if haystack.isBlank then return .boolean false
    let needle ← first values.tail
    if needle.isBlank then return .boolean false
    match haystack, needle with
    | .text s, .text part => return .boolean (decide (part.toList <:+: s.toList))
    | _, _ => mismatch (kinds haystack needle)
  | "concat" => pure (.text (String.join (values.map (Value.written env))))
  | "abs" => do
    if (← first values).isBlank then return .blank
    let numbers ← values.mapM asNumber
    return .number (numbers.headD .nan).abs
  | "round" => do
    if (← first values).isBlank then return .blank
    let numbers ← values.mapM asNumber
    let factor := (numbers.tail.headD (.finite 0)).factor
    return .number ((((numbers.headD .nan).mul env.rounded factor).round).div env.rounded factor)
  | "min" | "max" => do
    match ← (values.filter fun value => !value.isBlank).mapM asNumber with
    | [] => return .blank
    | n :: numbers => return .number (numbers.foldl (if name = "min" then .min else .max) n)
  | "days" => do
    let start ← first values
    if start.isBlank then return .blank
    let finish ← first values.tail
    if finish.isBlank then return .blank
    match start, finish with
    | .date a, .date b =>
      match env.js.parseDate a, env.js.parseDate b with
      | some a, some b =>
        return .number ((env.rounded (b - a)).div env.rounded (.finite 86400000)).trunc
      | _, _ => error .notADate none
    | _, _ => error .notADate (some (kinds start finish))
  | _ => error .unknownFunction (some name)

variable (idOf : String → Option String) (row : String → Value)

mutual

/-- `evaluate`, of an expression whose names are bound by `idOf` to the ids of columns. -/
def evaluate : Expr → Evaluated Value
  | .number value => pure (.number value)
  | .text value => pure (.text value)
  | .boolean value => pure (.boolean value)
  | .blank => pure .blank
  | .field name =>
    match (idOf name).filter (· ≠ "") with
    | none => error .unknownField (some name)
    | some fieldId => pure (row fieldId)
  | .unary op operand => do applyUnary op (← evaluate operand)
  | .binary op left right => do
    let value ← evaluate left
    match op, value with
    | .and, .blank | .or, .blank => return .blank
    -- the far side is left alone where the near one settles it
    | .and, .boolean false => return .boolean false
    | .or, .boolean true => return .boolean true
    | .and, .boolean true | .or, .boolean false =>
      match ← evaluate right with
      | .blank => return .blank
      | .boolean b => return .boolean b
      | other => mismatch other.kind
    | .and, other | .or, other => mismatch other.kind
    | op, value => do applyBinary env op value (← evaluate right)
  | .call name args =>
    if name = "if" then evaluateIf args
    else if name = "coalesce" then evaluateFirst args
    else do callFunction env name (← evaluateAll args)

/-- `if`, which evaluates one of its branches. -/
def evaluateIf : List Expr → Evaluated Value
  | [test, yes, no] => do
    match ← evaluate test with
    | .blank => return .blank
    | .boolean b => if b then evaluate yes else evaluate no
    | other => mismatch other.kind
  | _ => error .wrongArity (some "if")

/-- `coalesce`: the first that is not blank. -/
def evaluateFirst : List Expr → Evaluated Value
  | [] => pure .blank
  | arg :: args => do
    let value ← evaluate arg
    if value.isBlank then evaluateFirst args else pure value

def evaluateAll : List Expr → Evaluated (List Value)
  | [] => pure []
  | arg :: args => do
    let value ← evaluate arg
    return value :: (← evaluateAll args)

end

end Evaluate

end Sone
