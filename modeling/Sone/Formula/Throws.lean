import Sone.Formula.Evaluate

/-!
# When a formula throws

`evaluate` promises a value or one error. It throws nevertheless, at a function that looks at an
argument that is not there: the parser takes a call with whatever arguments it has, and nobody asks
`FUNCTIONS` how many there should be.

Nothing else throws. So a formula throws for a row exactly where the evaluation gets to such a call
(`Evaluates`, `IsShort`): not where the call is on a side that is left alone, in a branch that is
not taken, or behind an error (`evaluate_throws_iff`).
-/

namespace Sone

open List

namespace Evaluated

variable {α β : Type} {x : Evaluated α} {f : α → Evaluated β}

def Throws (x : Evaluated α) : Prop := x.run = none

theorem not_throws_pure (a : α) : ¬Throws (pure a : Evaluated α) := by
  intro h
  cases h

theorem not_throws_error (code : EvalErrorCode) (detail : Option String) :
    ¬Throws (error code detail : Evaluated α) := by
  intro h
  cases h

theorem not_throws_mismatch (detail : String) : ¬Throws (mismatch detail : Evaluated α) :=
  not_throws_error _ _

theorem throws_bind_iff :
    Throws (x >>= f) ↔ Throws x ∨ ∃ a, x.run = some (.ok a) ∧ Throws (f a) := by
  rw [Throws, Throws, ExceptT.run_bind]
  cases h : x.run with
  | none => simp
  | some outcome =>
    cases outcome with
    | error e => simp
    | ok a => simp [Throws]

theorem not_throws_bind (hx : ¬Throws x) (hf : ∀ a, ¬Throws (f a)) : ¬Throws (x >>= f) := by
  rw [throws_bind_iff]
  rintro (h | ⟨a, -, h⟩)
  · exact hx h
  · exact hf a h

theorem throws_bind_iff_left (hf : ∀ a, ¬Throws (f a)) : Throws (x >>= f) ↔ Throws x := by
  rw [throws_bind_iff]
  refine ⟨fun h => h.resolve_right ?_, .inl⟩
  rintro ⟨a, -, h⟩
  exact hf a h

theorem run_bind_eq_ok_iff {b : β} :
    (x >>= f).run = some (.ok b) ↔ ∃ a, x.run = some (.ok a) ∧ (f a).run = some (.ok b) := by
  rw [ExceptT.run_bind]
  cases h : x.run with
  | none => simp
  | some outcome =>
    cases outcome with
    | error e => simp
    | ok a => simp

end Evaluated

open Evaluated

/-! ### The functions -/

theorem not_throws_asNumber (value : Value) : ¬Throws (asNumber value) := by
  cases value with
  | number n => exact not_throws_pure n
  | _ => exact not_throws_mismatch _

theorem not_throws_mapM_asNumber (values : List Value) : ¬Throws (values.mapM asNumber) := by
  induction values with
  | nil => exact not_throws_pure _
  | cons value values ih =>
    rw [mapM_cons]
    exact not_throws_bind (not_throws_asNumber value) fun n =>
      not_throws_bind ih fun ns => not_throws_pure _

section Functions

variable {env : FormulaEnv}

theorem not_throws_compareValues (a b : Value) : ¬Throws (compareValues env a b) := by
  rw [compareValues.eq_def]
  split
  · exact not_throws_pure _
  · exact not_throws_pure _
  · exact not_throws_pure _
  · exact not_throws_mismatch _

theorem not_throws_applyUnary (op : UnaryOp) (value : Value) : ¬Throws (applyUnary op value) := by
  rw [applyUnary.eq_def]
  split
  · exact not_throws_pure _
  · exact not_throws_pure _
  · exact not_throws_mismatch _
  · exact not_throws_bind (not_throws_asNumber _) fun n => not_throws_pure _

theorem not_throws_applyBinary (op : BinaryOp) (a b : Value) :
    ¬Throws (applyBinary env op a b) := by
  have hnumbers : ∀ f : JsNumber → JsNumber → JsNumber, ¬Throws (do
      return Value.number (f (← asNumber a) (← asNumber b))) := fun f =>
    not_throws_bind (not_throws_asNumber a) fun n =>
      not_throws_bind (not_throws_asNumber b) fun m => not_throws_pure _
  rw [applyBinary.eq_def]
  split
  · split
    · exact not_throws_pure _
    · exact not_throws_pure _
    · exact not_throws_pure _
  · split
    · exact not_throws_pure _
    · exact hnumbers _
    · exact hnumbers _
    · exact hnumbers _
    · refine not_throws_bind (not_throws_asNumber a) fun n =>
        not_throws_bind (not_throws_asNumber b) fun m => ?_
      split
      · exact not_throws_bind (not_throws_error _ _) fun _ => not_throws_pure _
      · exact not_throws_pure _
    · exact not_throws_bind (not_throws_compareValues a b) fun order => not_throws_pure _

theorem not_throws_ofText (value nothing : Value) (f : String → Value) :
    ¬Throws (ofText value nothing f) := by
  rw [ofText.eq_def]
  split
  · exact not_throws_pure _
  · cases value with
    | text s => exact not_throws_pure _
    | _ => exact not_throws_mismatch _

/-- Functions that look at their first argument. -/
def looksAtOne : List String := ["isblank", "length", "lower", "upper", "abs", "round"]

/-- Functions that look at two, at the second only if the first is not blank. -/
def looksAtTwo : List String := ["contains", "days"]

/-- **A function looks at an argument that is not there.** -/
def looksPast (name : String) (values : List Value) : Bool :=
  match values with
  | [] => name ∈ looksAtOne ∨ name ∈ looksAtTwo
  | [value] => name ∈ looksAtTwo && !value.isBlank
  | _ => false

theorem looksPast_one {name : String} (h : name ∈ looksAtOne) (values : List Value) :
    looksPast name values = true ↔ values = [] := by
  have hnot : name ∉ looksAtTwo := by
    rintro htwo
    simp only [looksAtOne, looksAtTwo, mem_cons, not_mem_nil, or_false] at h htwo
    rcases htwo with rfl | rfl <;> simp at h
  rcases values with _ | ⟨value, _ | ⟨_, _⟩⟩ <;> simp [looksPast, h, hnot]

theorem looksPast_two {name : String} (h : name ∈ looksAtTwo) (values : List Value) :
    looksPast name values = true ↔
      values = [] ∨ ∃ value, values = [value] ∧ value.isBlank = false := by
  rcases values with _ | ⟨value, _ | ⟨_, _⟩⟩ <;> simp [looksPast, h]

theorem looksPast_none {name : String} (hone : name ∉ looksAtOne) (htwo : name ∉ looksAtTwo)
    (values : List Value) : looksPast name values = false := by
  rcases values with _ | ⟨value, _ | ⟨_, _⟩⟩ <;> simp [looksPast, hone, htwo]

theorem throws_first_iff {α : Type} {f : Value → Evaluated α} (hf : ∀ value, ¬Throws (f value))
    (values : List Value) : Throws (first values >>= f) ↔ values = [] := by
  rw [throws_bind_iff]
  cases values with
  | nil => exact iff_of_true (.inl rfl) rfl
  | cons value values =>
    refine iff_of_false ?_ (cons_ne_nil _ _)
    rintro (h | ⟨_, -, h⟩)
    · cases h
    · exact hf _ h

theorem throws_second_iff {α : Type} {nothing : Evaluated α} {g : Value → Value → Evaluated α}
    {values : List Value} (hnothing : ¬Throws nothing)
    (hg : ∀ value other, ¬Throws (g value other)) :
    Throws (first values >>= fun value =>
        if value.isBlank then nothing else first values.tail >>= g value) ↔
      values = [] ∨ ∃ value, values = [value] ∧ value.isBlank = false := by
  rw [throws_bind_iff]
  cases values with
  | nil => exact iff_of_true (.inl rfl) (.inl rfl)
  | cons value values =>
    have hrun : (first (value :: values)).run = some (.ok value) := rfl
    have hhere : ¬Throws (first (value :: values)) := fun h => by cases h
    rw [hrun]
    simp only [hhere, reduceCtorEq, false_or, Option.some.injEq, Except.ok.injEq,
      exists_eq_left', List.cons.injEq]
    cases hisBlank : value.isBlank with
    | true =>
      refine iff_of_false hnothing ?_
      rintro ⟨_, ⟨rfl, -⟩, hnot⟩
      rw [hisBlank] at hnot
      cases hnot
    | false =>
      refine (throws_first_iff (hg value) values).trans
        ⟨fun hnil => ⟨value, ⟨rfl, hnil⟩, hisBlank⟩, ?_⟩
      rintro ⟨_, ⟨-, hnil⟩, -⟩
      exact hnil

/-- **A function throws** exactly where it looks past its arguments. -/
theorem throws_callFunction_iff (name : String) (values : List Value) :
    Throws (callFunction env name values) ↔ looksPast name values = true := by
  -- the functions of neither list take all their arguments together
  have hnever : ∀ {name : String} {x : Evaluated Value}, name ∉ looksAtOne → name ∉ looksAtTwo →
      ¬Throws x → (Throws x ↔ looksPast name values = true) := by
    intro name x hone htwo hx
    rw [looksPast_none hone htwo]
    exact iff_of_false hx Bool.false_ne_true
  rw [callFunction.eq_def]
  split
  · exact hnever (by decide) (by decide) (not_throws_pure _)
  · -- isblank
    rw [looksPast_one (by decide)]
    exact throws_first_iff (fun value => not_throws_pure _) values
  · -- length
    rw [looksPast_one (by decide)]
    exact throws_first_iff (fun value => not_throws_ofText value _ _) values
  · -- lower
    rw [looksPast_one (by decide)]
    exact throws_first_iff (fun value => not_throws_ofText value _ _) values
  · -- upper
    rw [looksPast_one (by decide)]
    exact throws_first_iff (fun value => not_throws_ofText value _ _) values
  · -- contains
    rw [looksPast_two (by decide)]
    refine throws_second_iff (not_throws_pure _) fun haystack needle => ?_
    split
    · exact not_throws_pure _
    · split
      · exact not_throws_pure _
      · exact not_throws_mismatch _
  · exact hnever (by decide) (by decide) (not_throws_pure _)
  · -- abs
    rw [looksPast_one (by decide)]
    refine throws_first_iff (fun value => ?_) values
    split
    · exact not_throws_pure _
    · exact not_throws_bind (not_throws_mapM_asNumber values) fun ns => not_throws_pure _
  · -- round
    rw [looksPast_one (by decide)]
    refine throws_first_iff (fun value => ?_) values
    split
    · exact not_throws_pure _
    · exact not_throws_bind (not_throws_mapM_asNumber values) fun ns => not_throws_pure _
  · refine hnever (by decide) (by decide)
      (not_throws_bind (not_throws_mapM_asNumber _) fun ns => ?_)
    split <;> exact not_throws_pure _
  · refine hnever (by decide) (by decide)
      (not_throws_bind (not_throws_mapM_asNumber _) fun ns => ?_)
    split <;> exact not_throws_pure _
  · -- days
    rw [looksPast_two (by decide)]
    refine throws_second_iff (not_throws_pure _) fun start finish => ?_
    split
    · exact not_throws_pure _
    · split
      · split
        · exact not_throws_pure _
        · exact not_throws_error _ _
      · exact not_throws_error _ _
  · refine hnever ?_ ?_ (not_throws_error _ _)
    · simp only [looksAtOne, mem_cons, not_mem_nil, or_false, not_or]
      exact ⟨‹_›, ‹_›, ‹_›, ‹_›, ‹_›, ‹_›⟩
    · simp only [looksAtTwo, mem_cons, not_mem_nil, or_false, not_or]
      exact ⟨‹_›, ‹_›⟩

end Functions

/-! ### What is evaluated -/

section Evaluation

variable (env : FormulaEnv) (idOf : String → Option String) (row : String → Value)

def HasValue (e : Expr) (value : Value) : Prop := (evaluate env idOf row e).run = some (.ok value)

/-- Whether the far side of an operator is evaluated, by the value of the near one. -/
def evaluatesFar : BinaryOp → Value → Bool
  | .and, .boolean b => b
  | .or, .boolean b => !b
  | .and, _ | .or, _ => false
  | _, _ => true

/-- **The evaluation of an expression gets to a part of it**: where the near side of `and` or `or`
settles nothing, in the branch that is taken, at the first argument of `coalesce` that is not blank
and before, and where nothing before is an error. -/
inductive Evaluates : Expr → Expr → Prop
  | self (e : Expr) : Evaluates e e
  | operand {op : UnaryOp} {operand e : Expr} (h : Evaluates operand e) :
      Evaluates (.unary op operand) e
  | left {op : BinaryOp} {left right e : Expr} (h : Evaluates left e) :
      Evaluates (.binary op left right) e
  | right {op : BinaryOp} {left right e : Expr} {value : Value}
      (hleft : HasValue env idOf row left value) (hgoes : evaluatesFar op value = true)
      (h : Evaluates right e) : Evaluates (.binary op left right) e
  | test {test yes no e : Expr} (h : Evaluates test e) : Evaluates (.call "if" [test, yes, no]) e
  | branch {test yes no e : Expr} {b : Bool} (htest : HasValue env idOf row test (.boolean b))
      (h : Evaluates (if b then yes else no) e) : Evaluates (.call "if" [test, yes, no]) e
  | candidate {front rest : List Expr} {arg e : Expr}
      (hfront : ∀ a ∈ front, ∃ value, HasValue env idOf row a value ∧ value.isBlank = true)
      (h : Evaluates arg e) : Evaluates (.call "coalesce" (front ++ arg :: rest)) e
  | argument {name : String} {front rest : List Expr} {arg e : Expr} (hif : name ≠ "if")
      (hcoalesce : name ≠ "coalesce")
      (hfront : ∀ a ∈ front, ∃ value, HasValue env idOf row a value) (h : Evaluates arg e) :
      Evaluates (.call name (front ++ arg :: rest)) e

/-- **A call is short**: it has no argument where the function looks at one, or one that is not
blank where it looks at two. -/
def IsShort (name : String) (args : List Expr) : Prop :=
  ∃ values, List.Forall₂ (HasValue env idOf row) args values ∧ looksPast name values = true

end Evaluation

section Throwing

variable {env : FormulaEnv} {idOf : String → Option String} {row : String → Value}

theorem run_evaluateAll_iff {args : List Expr} {values : List Value} :
    (evaluateAll env idOf row args).run = some (.ok values) ↔
      List.Forall₂ (HasValue env idOf row) args values := by
  induction args generalizing values with
  | nil =>
    rw [forall₂_nil_left_iff]
    constructor
    · intro h
      exact (Except.ok.inj (Option.some.inj h)).symm
    · rintro rfl
      rfl
  | cons arg args ih =>
    rw [evaluateAll, run_bind_eq_ok_iff, forall₂_cons_left_iff]
    refine exists_congr fun value => ?_
    rw [run_bind_eq_ok_iff]
    constructor
    · rintro ⟨hvalue, rest, hrest, h⟩
      exact ⟨rest, hvalue, ih.mp hrest, (Except.ok.inj (Option.some.inj h)).symm⟩
    · rintro ⟨rest, hvalue, hrest, rfl⟩
      exact ⟨hvalue, rest, ih.mpr hrest, rfl⟩

/-- A walk over arguments throws at one that throws, past those that let it go on. -/
theorem throws_walk_iff {α : Type} {walk : List Expr → Evaluated α} {GoesOn : Value → Prop}
    (hnil : ¬ Throws (walk []))
    (hcons : ∀ arg args, Throws (walk (arg :: args)) ↔ Throws (evaluate env idOf row arg) ∨
      ∃ value, (HasValue env idOf row arg value ∧ GoesOn value) ∧ Throws (walk args))
    {args : List Expr} : Throws (walk args) ↔ ∃ front arg rest, args = front ++ arg :: rest ∧
      (∀ a ∈ front, ∃ value, HasValue env idOf row a value ∧ GoesOn value) ∧
        Throws (evaluate env idOf row arg) := by
  induction args with
  | nil => exact iff_of_false hnil (by simp)
  | cons first args ih =>
    rw [hcons]
    constructor
    · rintro (h | ⟨value, hvalue, h⟩)
      · exact ⟨[], first, args, rfl, by simp, h⟩
      · obtain ⟨front, arg, rest, rfl, hfront, harg⟩ := ih.mp h
        exact ⟨first :: front, arg, rest, rfl, forall_mem_cons.mpr ⟨⟨value, hvalue⟩, hfront⟩, harg⟩
    · rintro ⟨_ | ⟨a, front⟩, arg, rest, hargs, hfront, harg⟩ <;>
        obtain ⟨rfl, rfl⟩ := List.cons.inj hargs
      · exact .inl harg
      · obtain ⟨⟨value, hvalue⟩, hfront⟩ := forall_mem_cons.mp hfront
        exact .inr ⟨value, hvalue, ih.mpr ⟨front, arg, rest, rfl, hfront, harg⟩⟩

theorem throws_evaluateAll_iff {args : List Expr} :
    Throws (evaluateAll env idOf row args) ↔ ∃ front arg rest, args = front ++ arg :: rest ∧
      (∀ a ∈ front, ∃ value, HasValue env idOf row a value) ∧
        Throws (evaluate env idOf row arg) := by
  have hcons : ∀ arg args, Throws (evaluateAll env idOf row (arg :: args)) ↔
      Throws (evaluate env idOf row arg) ∨ ∃ value, (HasValue env idOf row arg value ∧ True) ∧
        Throws (evaluateAll env idOf row args) := fun arg args => by
    rw [evaluateAll, throws_bind_iff]
    simp only [and_true]
    exact or_congr_right (exists_congr fun value => and_congr_right fun _ =>
      throws_bind_iff_left fun _ => not_throws_pure _)
  have hwalk := @throws_walk_iff env idOf row _ (evaluateAll env idOf row) (fun _ => True)
    (fun h => by cases h) hcons args
  simpa only [and_true] using hwalk

theorem throws_evaluateFirst_iff {args : List Expr} :
    Throws (evaluateFirst env idOf row args) ↔ ∃ front arg rest, args = front ++ arg :: rest ∧
      (∀ a ∈ front, ∃ value, HasValue env idOf row a value ∧ value.isBlank = true) ∧
        Throws (evaluate env idOf row arg) := by
  refine throws_walk_iff (fun h => by cases h) fun arg args => ?_
  rw [evaluateFirst, throws_bind_iff]
  refine or_congr_right (exists_congr fun value => ?_)
  split
  · rename_i hblank
    rw [and_iff_left hblank]
    rfl
  · rename_i hblank
    exact iff_of_false (fun h => by cases h.2) fun h => hblank h.1.2

theorem throws_unary_iff {op : UnaryOp} {operand : Expr} :
    Throws (evaluate env idOf row (.unary op operand)) ↔
      Throws (evaluate env idOf row operand) := by
  rw [evaluate]
  exact throws_bind_iff_left (not_throws_applyUnary op)

theorem throws_binary_iff {op : BinaryOp} {left right : Expr} :
    Throws (evaluate env idOf row (.binary op left right)) ↔
      Throws (evaluate env idOf row left) ∨ ∃ value, HasValue env idOf row left value ∧
        evaluatesFar op value = true ∧ Throws (evaluate env idOf row right) := by
  rw [evaluate, throws_bind_iff]
  refine or_congr_right (exists_congr fun value => and_congr_right fun _ => ?_)
  cases op with
  | and =>
    cases value with
    | boolean b =>
      cases b with
      | false => simp [evaluatesFar, not_throws_pure]
      | true =>
        simp only [evaluatesFar, true_and]
        refine throws_bind_iff_left fun other => ?_
        cases other <;> first | exact not_throws_pure _ | exact not_throws_mismatch _
    | blank => simp [evaluatesFar, not_throws_pure]
    | _ => simp [evaluatesFar, not_throws_mismatch]
  | or =>
    cases value with
    | boolean b =>
      cases b with
      | true => simp [evaluatesFar, not_throws_pure]
      | false =>
        simp only [evaluatesFar, Bool.not_false, true_and]
        refine throws_bind_iff_left fun other => ?_
        cases other <;> first | exact not_throws_pure _ | exact not_throws_mismatch _
    | blank => simp [evaluatesFar, not_throws_pure]
    | _ => simp [evaluatesFar, not_throws_mismatch]
  | _ =>
    simp only [evaluatesFar, true_and]
    exact throws_bind_iff_left (not_throws_applyBinary _ _)

theorem throws_if_iff {test yes no : Expr} :
    Throws (evaluate env idOf row (.call "if" [test, yes, no])) ↔
      Throws (evaluate env idOf row test) ∨ ∃ b, HasValue env idOf row test (.boolean b) ∧
        Throws (evaluate env idOf row (if b then yes else no)) := by
  rw [evaluate, if_pos rfl, evaluateIf, throws_bind_iff]
  refine or_congr_right ⟨?_, ?_⟩
  · rintro ⟨value, hvalue, h⟩
    cases value with
    | boolean b => exact ⟨b, hvalue, by cases b <;> exact h⟩
    | blank => exact absurd h (not_throws_pure _)
    | _ => exact absurd h (not_throws_mismatch _)
  · rintro ⟨b, hvalue, h⟩
    exact ⟨.boolean b, hvalue, by cases b <;> exact h⟩

theorem throws_call_iff {name : String} {args : List Expr} (hif : name ≠ "if")
    (hcoalesce : name ≠ "coalesce") :
    Throws (evaluate env idOf row (.call name args)) ↔
      Throws (evaluateAll env idOf row args) ∨ IsShort env idOf row name args := by
  rw [evaluate, if_neg hif, if_neg hcoalesce, throws_bind_iff]
  refine or_congr_right (exists_congr fun values => ?_)
  rw [run_evaluateAll_iff, throws_callFunction_iff]

theorem ne_of_looksPast {name : String} {values : List Value} (h : looksPast name values = true) :
    name ≠ "if" ∧ name ≠ "coalesce" := by
  constructor
  · rintro rfl
    rw [looksPast_none (by decide) (by decide)] at h
    cases h
  · rintro rfl
    rw [looksPast_none (by decide) (by decide)] at h
    cases h

/-- **What is evaluated and throws** makes the whole throw. -/
theorem throws_of_evaluates {e part : Expr} (h : Evaluates env idOf row e part)
    (hthrows : Throws (evaluate env idOf row part)) : Throws (evaluate env idOf row e) := by
  induction h with
  | self e => exact hthrows
  | operand _ ih => exact throws_unary_iff.mpr (ih hthrows)
  | left _ ih => exact throws_binary_iff.mpr (.inl (ih hthrows))
  | right hleft hgoes _ ih => exact throws_binary_iff.mpr (.inr ⟨_, hleft, hgoes, ih hthrows⟩)
  | test _ ih => exact throws_if_iff.mpr (.inl (ih hthrows))
  | branch htest _ ih => exact throws_if_iff.mpr (.inr ⟨_, htest, ih hthrows⟩)
  | candidate hfront _ ih =>
    rw [evaluate, if_neg (by decide), if_pos rfl, throws_evaluateFirst_iff]
    exact ⟨_, _, _, rfl, hfront, ih hthrows⟩
  | argument hif hcoalesce hfront _ ih =>
    rw [throws_call_iff hif hcoalesce, throws_evaluateAll_iff]
    exact .inl ⟨_, _, _, rfl, hfront, ih hthrows⟩

/-- **When an evaluation throws**: where it gets to a call that is short. -/
theorem evaluate_throws_iff (e : Expr) :
    Throws (evaluate env idOf row e) ↔ ∃ name args, Evaluates env idOf row e (.call name args) ∧
      IsShort env idOf row name args := by
  constructor
  · intro h
    induction hsize : sizeOf e using Nat.strong_induction_on generalizing e with
    | _ size ih =>
      -- an expression that throws has a part that does, or is a short call
      have hpart : ∀ part, sizeOf part < sizeOf e → Throws (evaluate env idOf row part) →
          (∀ e', Evaluates env idOf row part e' → Evaluates env idOf row e e') →
          ∃ name args, Evaluates env idOf row e (.call name args) ∧
            IsShort env idOf row name args := by
        intro part hlt hthrows hevaluates
        obtain ⟨name, args, hcall, hshort⟩ := ih _ (hsize ▸ hlt) part hthrows rfl
        exact ⟨name, args, hevaluates _ hcall, hshort⟩
      have harg : ∀ {name args arg}, arg ∈ args → sizeOf arg < sizeOf (Expr.call name args) := by
        intro name args arg hmem
        have hlt := sizeOf_lt_of_mem hmem
        simp only [Expr.call.sizeOf_spec]
        omega
      cases e with
      | number | text | boolean | blank => cases h
      | field name =>
        rw [evaluate] at h
        split at h <;> cases h
      | unary op operand =>
        exact hpart operand (by simp) (throws_unary_iff.mp h) fun _ => .operand
      | binary op left right =>
        rcases throws_binary_iff.mp h with h | ⟨value, hleft, hgoes, h⟩
        · exact hpart left (by simp; omega) h fun _ => .left
        · exact hpart right (by simp) h fun _ => .right hleft hgoes
      | call name args =>
        by_cases hif : name = "if"
        · obtain rfl := hif
          rcases args with _ | ⟨test, _ | ⟨yes, _ | ⟨no, _ | ⟨_, _⟩⟩⟩⟩
          · cases h
          · cases h
          · cases h
          · rcases throws_if_iff.mp h with h | ⟨b, htest, h⟩
            · exact hpart test (harg (by simp)) h fun _ => .test
            · exact hpart _ (harg (by cases b <;> simp)) h fun _ => .branch htest
          · cases h
        · by_cases hcoalesce : name = "coalesce"
          · obtain rfl := hcoalesce
            rw [evaluate, if_neg (by decide), if_pos rfl, throws_evaluateFirst_iff] at h
            obtain ⟨front, arg, rest, rfl, hfront, h⟩ := h
            exact hpart arg (harg (by simp)) h fun _ => .candidate hfront
          · rw [throws_call_iff hif hcoalesce, throws_evaluateAll_iff] at h
            rcases h with ⟨front, arg, rest, rfl, hfront, h⟩ | hshort
            · exact hpart arg (harg (by simp)) h fun _ => .argument hif hcoalesce hfront
            · exact ⟨name, args, .self _, hshort⟩
  · rintro ⟨name, args, hcall, values, hvalues, hpast⟩
    obtain ⟨hif, hcoalesce⟩ := ne_of_looksPast hpast
    exact throws_of_evaluates hcall
      ((throws_call_iff hif hcoalesce).mpr (.inr ⟨values, hvalues, hpast⟩))

end Throwing

end Sone
