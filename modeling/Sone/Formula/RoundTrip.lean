import Sone.Formula.Ends
import Sone.Formula.Lexemes

/-!
# Formulas and their trees

A tree is written with every operator in brackets (`Renders`), and `parseFormula_spec` puts the
parts together: parsing ends on every text, within the limit it gives exactly what the tokens
derive, and a tree that was written is given back.

A text that was written stands before a bracket, a comma, a blank or the end, where no number
and no name goes on (`Closed`); so its tokens come out by themselves (`Renders.spec`), whatever
stands after it.
-/

namespace Sone

open List

variable {js : Js} {u : Unicode}

/-! ### Writing a tree -/

/-- `/^[0-9]*\.?[0-9]+$/`: a text that is a number as a whole. -/
inductive IsNumberText : List Char → Prop where
  | whole {ds} (one : ds ≠ []) (digits : ∀ c ∈ ds, c.isDigit = true) : IsNumberText ds
  | fraction {ds es} (digits : ∀ c ∈ ds, c.isDigit = true) (one : es ≠ [])
      (decimals : ∀ c ∈ es, c.isDigit = true) : IsNumberText (ds ++ '.' :: es)

/-- A name that may be called: not one of the words that mean something else. -/
structure IsCallName (js : Js) (u : Unicode) (name : String) : Prop where
  start : name.toList.head?.any (startsName u) = true
  letters : ∀ c ∈ name.toList, inName u c = true
  lower : js.lowerCase name = name
  word : name ∉ ["true", "false", "not"]

def BinaryOp.text : BinaryOp → String
  | .add => "+"
  | .sub => "-"
  | .mul => "*"
  | .div => "/"
  | .eq => "="
  | .ne => "<>"
  | .lt => "<"
  | .le => "<="
  | .gt => ">"
  | .ge => ">="
  | .and => "and"
  | .or => "or"

mutual

/-- **A tree in full brackets**, over literals that can be written. -/
inductive Renders (js : Js) (u : Unicode) : Expr → List Char → Prop where
  | number {literal} (h : IsNumberText literal) :
      Renders js u (.number (js.toNumber (.string (String.ofList literal)))) literal
  | text {value} (h : '"' ∉ value.toList) :
      Renders js u (.text value) ('"' :: (value.toList ++ ['"']))
  | field {name} (h : ']' ∉ name.toList) (trimmed : JsString.trim name = name) :
      Renders js u (.field name) ('[' :: (name.toList ++ [']']))
  | boolean (b : Bool) :
      Renders js u (.boolean b) (if b then String.toList "true" else String.toList "false")
  | neg {e s} (h : Renders js u e s) : Renders js u (.unary .neg e) ('(' :: '-' :: (s ++ [')']))
  | not {e s} (h : Renders js u e s) :
      Renders js u (.unary .not e) ('(' :: (String.toList "not" ++ ' ' :: (s ++ [')'])))
  | binary {left right s t} (op : BinaryOp) (hleft : Renders js u left s)
      (hright : Renders js u right t) :
      Renders js u (.binary op left right)
        ('(' :: (s ++ ' ' :: (op.text.toList ++ ' ' :: (t ++ [')']))))
  | callNone {name} (h : IsCallName js u name) :
      Renders js u (.call name []) (name.toList ++ ['(', ')'])
  | call {name args s} (h : IsCallName js u name) (hargs : RendersSome js u args s) :
      Renders js u (.call name args) (name.toList ++ '(' :: (s ++ [')']))

/-- Arguments with commas between them. -/
inductive RendersSome (js : Js) (u : Unicode) : List Expr → List Char → Prop where
  | one {e s} (h : Renders js u e s) : RendersSome js u [e] s
  | more {e es s t} (h : Renders js u e s) (hmore : RendersSome js u es t) :
      RendersSome js u (e :: es) (s ++ ',' :: t)

end

mutual

/-- How deep a tree nests when it is written. -/
def Expr.nest : Expr → ℕ
  | .number _ | .text _ | .boolean _ | .blank | .field _ => 1
  | .unary _ e => e.nest + 2
  | .binary _ left right => max left.nest right.nest + 1
  | .call _ args => nestAll args + 1

def Expr.nestAll : List Expr → ℕ
  | [] => 0
  | e :: es => max e.nest (nestAll es)

end

/-! ### The tokens of a text -/

/-- **A text has tokens** of these kinds, wherever it stands. -/
def HasKinds (js : Js) (u : Unicode) (cs : List Char) (kinds : List TokenKind) : Prop :=
  ∀ place, ∃ fuel ts, tokenise js u fuel place cs = some (.ok ts) ∧ ts.map (·.kind) = kinds

theorem hasKinds_nil : HasKinds js u [] [.finish] := fun _ => ⟨1, _, rfl, rfl⟩

theorem hasKinds_iff {cs : List Char} {kinds : List TokenKind} :
    HasKinds js u cs kinds ↔ ∀ place, ∃ ts, Lexes js u place cs ts ∧ ts.map (·.kind) = kinds := by
  refine forall_congr' fun place => ?_
  simp only [lexes_iff]
  constructor
  · rintro ⟨fuel, ts, hts, hkinds⟩
    exact ⟨ts, ⟨fuel, hts⟩, hkinds⟩
  · rintro ⟨ts, ⟨fuel, hts⟩, hkinds⟩
    exact ⟨fuel, ts, hts, hkinds⟩

theorem hasKinds_token {kind : TokenKind} {part rest : List Char} {kinds : List TokenKind}
    (hpart : Lexeme js u kind part rest) (h : HasKinds js u rest kinds) :
    HasKinds js u (part ++ rest) (kind :: kinds) := by
  rw [hasKinds_iff] at h ⊢
  intro place
  obtain ⟨ts, hts, rfl⟩ := h (place + textWidth part)
  exact ⟨_, .token hpart hts, rfl⟩

theorem hasKinds_space {c : Char} {cs : List Char} {kinds : List TokenKind}
    (hc : JsString.isSpace c = true) (h : HasKinds js u cs kinds) :
    HasKinds js u (c :: cs) kinds := by
  rw [hasKinds_iff] at h ⊢
  intro place
  obtain ⟨ts, hts, hkinds⟩ := h (place + 1)
  exact ⟨ts, .space hc hts, hkinds⟩

/-- **What a written text stands before**: the end, or one of these characters. -/
def Closed (rest : List Char) : Prop := ∀ c ∈ rest.head?, c ∈ [' ', '(', ')', ',']

theorem closed_cons {c : Char} (rest : List Char) (h : c ∈ [' ', '(', ')', ',']) :
    Closed (c :: rest) := by
  intro d hd
  rw [List.head?_cons, Option.mem_some_iff] at hd
  exact hd ▸ h

theorem Closed.ascii {rest : List Char} (h : Closed rest) {c : Char} (hc : c ∈ rest.head?) :
    c.toNat < 128 ∧ c.isAlpha = false ∧ c.isDigit = false ∧ c ≠ '_' ∧ c ≠ '.' := by
  have hmem := h c hc
  simp only [mem_cons, not_mem_nil, or_false] at hmem
  rcases hmem with rfl | rfl | rfl | rfl <;> decide

theorem Closed.inName_eq_false {rest : List Char} (h : Closed rest) {c : Char}
    (hc : c ∈ rest.head?) : inName u c = false := by
  obtain ⟨hlt, halpha, hdigit, hunder, -⟩ := h.ascii hc
  exact inName_ascii hlt halpha hdigit hunder

theorem hasKinds_name {name rest : List Char} {kinds : List TokenKind}
    (hstart : name.head?.any (startsName u) = true) (hname : ∀ c ∈ name, inName u c = true)
    (hrest : Closed rest) (h : HasKinds js u rest kinds) :
    HasKinds js u (name ++ rest) (.name (String.ofList name) :: kinds) :=
  hasKinds_token (.name hstart hname fun _ hc => hrest.inName_eq_false hc) h

theorem IsNumberText.spec {literal : List Char} (h : IsNumberText literal) :
    startsNumber literal = true ∧ numberText literal = literal := by
  have hspan : ∀ {ds : List Char}, (∀ c ∈ ds, c.isDigit = true) →
      ds.takeWhile Char.isDigit = ds ∧ ds.dropWhile Char.isDigit = [] :=
    fun hds => ⟨takeWhile_eq_self_iff.mpr hds, dropWhile_eq_nil_iff.mpr hds⟩
  rw [numberText_eq]
  cases h with
  | whole one digits =>
    obtain ⟨c, cs, rfl⟩ := exists_cons_of_ne_nil one
    refine ⟨by simp [startsNumber, digits c mem_cons_self], ?_⟩
    rw [(hspan digits).1, (hspan digits).2]
    exact append_nil _
  | @fraction ds es digits one decimals =>
    obtain ⟨e, es, rfl⟩ := exists_cons_of_ne_nil one
    have he := decimals e mem_cons_self
    obtain ⟨htake, hdrop⟩ := @span_append Char.isDigit ds ('.' :: e :: es) digits
      (by simp only [List.head?_cons, Option.mem_some_iff, forall_eq']; decide)
    refine ⟨?_, ?_⟩
    · cases ds with
      | nil => simp [startsNumber, he]
      | cons c cs => simp [startsNumber, digits c mem_cons_self]
    · rw [htake, hdrop, fractionText, if_pos he, (hspan decimals).1]

theorem hasKinds_number {literal rest : List Char} {kinds : List TokenKind}
    (hliteral : IsNumberText literal) (hrest : Closed rest) (h : HasKinds js u rest kinds) :
    HasKinds js u (literal ++ rest)
      (.number (js.toNumber (.string (String.ofList literal))) :: kinds) := by
  obtain ⟨hstart, htext⟩ := hliteral.spec
  have hne : literal ≠ [] := by
    rintro rfl
    simp [startsNumber] at hstart
  refine hasKinds_token (.number ?_ ?_) h
  · rwa [startsNumber_append_of_head (fun c hc => (hrest.ascii hc).2.2.1) hne]
  · rwa [numberText_append_of_head fun c hc =>
      ⟨(hrest.ascii hc).2.2.1, (hrest.ascii hc).2.2.2.2⟩]

theorem hasKinds_text {value : String} {rest : List Char} {kinds : List TokenKind}
    (hvalue : '"' ∉ value.toList) (h : HasKinds js u rest kinds) :
    HasKinds js u ('"' :: (value.toList ++ '"' :: rest)) (.string value :: kinds) := by
  simpa using hasKinds_token (.string hvalue) h

theorem hasKinds_field {name : String} {rest : List Char} {kinds : List TokenKind}
    (hname : ']' ∉ name.toList) (htrim : JsString.trim name = name)
    (h : HasKinds js u rest kinds) :
    HasKinds js u ('[' :: (name.toList ++ ']' :: rest)) (.field name :: kinds) := by
  simpa [htrim] using hasKinds_token (.field hname) h

theorem hasKinds_op {cs op : List Char} {kinds : List TokenKind}
    (hop : operatorOf cs = some op) (h : HasKinds js u (cs.drop op.length) kinds) :
    HasKinds js u cs (.op (String.ofList op) :: kinds) := by
  obtain ⟨rest, rfl⟩ := (operatorOf_spec hop).2
  rw [drop_left] at h
  exact hasKinds_token (.op hop) h

theorem hasKinds_bracket {c : Char} {rest : List Char} {kinds : List TokenKind}
    (hc : c ∈ ['(', ')', ',', '-']) (h : HasKinds js u rest kinds) :
    HasKinds js u (c :: rest) (.op (String.ofList [c]) :: kinds) := by
  simp only [mem_cons, not_mem_nil, or_false] at hc
  rcases hc with rfl | rfl | rfl | rfl
  · exact @hasKinds_op js u _ ['('] _ rfl h
  · exact @hasKinds_op js u _ [')'] _ rfl h
  · exact @hasKinds_op js u _ [','] _ rfl h
  · exact @hasKinds_op js u _ ['-'] _ rfl h

theorem hasKinds_word {word : String} {rest : List Char} {kinds : List TokenKind}
    (hword : word ∈ ["true", "false", "not", "and", "or"]) (hrest : Closed rest)
    (h : HasKinds js u rest kinds) :
    HasKinds js u (word.toList ++ rest) (.name word :: kinds) := by
  have hletter : ∀ c : Char, c.toNat < 128 → c.isAlpha = true → u.letter c = true :=
    fun c hlt halpha => (u.ascii c hlt).1.trans halpha
  have hletters : (word.toList.all fun c => decide (c.toNat < 128) && c.isAlpha) = true := by
    simp only [mem_cons, not_mem_nil, or_false] at hword
    rcases hword with rfl | rfl | rfl | rfl | rfl <;> rfl
  have hall : ∀ c ∈ word.toList, c.toNat < 128 ∧ c.isAlpha = true := fun c hc => by
    simpa using List.all_eq_true.mp hletters c hc
  have hsome : word.toList ≠ [] := by
    simp only [mem_cons, not_mem_nil, or_false] at hword
    rcases hword with rfl | rfl | rfl | rfl | rfl <;> decide
  have hname := @hasKinds_name js u word.toList rest kinds ?_ (fun c hc => ?_) hrest h
  · rwa [String.ofList_toList] at hname
  · obtain ⟨c, cs, hcs⟩ := exists_cons_of_ne_nil hsome
    obtain ⟨hlt, halpha⟩ := hall c (hcs ▸ mem_cons_self)
    rw [hcs, List.head?_cons, Option.any_some, startsName, hletter c hlt halpha]
    simp only [Bool.true_and, Bool.or_eq_true, decide_eq_true_eq]
    exact .inl (by omega)
  · obtain ⟨hlt, halpha⟩ := hall c hc
    rw [inName, hletter c hlt halpha]
    rfl

/-! ### A tree that was written -/

/-- What a parser takes the words of the language for. -/
def PlainWords (js : Js) : Prop :=
  ∀ word ∈ ["true", "false", "not", "and", "or"], js.lowerCase word = word

def BinaryOp.kind (op : BinaryOp) : TokenKind :=
  match op with
  | .and | .or => .name op.text
  | _ => .op op.text

def BinaryOp.level : BinaryOp → Precedence
  | .or => .or
  | .and => .and
  | .eq | .ne | .lt | .le | .gt | .ge => .comparison
  | .add | .sub => .sum
  | .mul | .div => .product

theorem operator_kind (hwords : PlainWords js) (op : BinaryOp) :
    op.level.operator js op.kind = some op := by
  cases op
  case and =>
    rw [BinaryOp.level, BinaryOp.kind, Precedence.operator]
    exact if_pos (hwords "and" (by decide))
  case or =>
    rw [BinaryOp.level, BinaryOp.kind, Precedence.operator]
    exact if_pos (hwords "or" (by decide))
  all_goals rfl

theorem hasKinds_operator (op : BinaryOp) {rest : List Char} {kinds : List TokenKind}
    (h : HasKinds js u (' ' :: rest) kinds) :
    HasKinds js u (op.text.toList ++ ' ' :: rest) (op.kind :: kinds) := by
  have hclosed : Closed (' ' :: rest) := closed_cons rest (by decide)
  cases op
  case and => exact hasKinds_word (by decide) hclosed h
  case or => exact hasKinds_word (by decide) hclosed h
  case add => exact @hasKinds_op js u _ ['+'] _ rfl h
  case sub => exact @hasKinds_op js u _ ['-'] _ rfl h
  case mul => exact @hasKinds_op js u _ ['*'] _ rfl h
  case div => exact @hasKinds_op js u _ ['/'] _ rfl h
  case eq => exact @hasKinds_op js u _ ['='] _ rfl h
  case ne => exact @hasKinds_op js u _ ['<', '>'] _ rfl h
  case lt => exact @hasKinds_op js u _ ['<'] _ rfl h
  case le => exact @hasKinds_op js u _ ['<', '='] _ rfl h
  case gt => exact @hasKinds_op js u _ ['>'] _ rfl h
  case ge => exact @hasKinds_op js u _ ['>', '='] _ rfl h

theorem Derives.atLevel {d : ℕ} {ts : List Token} {e : Expr} (h : Derives js .primary d ts e)
    (l : Precedence) : Derives js l d ts e := by
  have hproduct : Derives js .product d ts e := .operand (by decide) h
  have hsum : Derives js .sum d ts e := .operand (by decide) hproduct
  have hcomparison : Derives js .comparison d ts e := .operand (by decide) hsum
  have hand : Derives js .and d ts e := .operand (by decide) hcomparison
  cases l
  · exact .operand (by decide) hand
  · exact hand
  · exact hcomparison
  · exact hsum
  · exact hproduct
  · exact h

theorem Derives.whole {l : Precedence} {d : ℕ} {ts : List Token} {e : Expr}
    (h : Derives js l d ts e) : Derives js .or d ts e := by
  have hand : Derives js .and d ts e → Derives js .or d ts e := fun h => .operand (by decide) h
  have hcomparison : Derives js .comparison d ts e → Derives js .or d ts e :=
    fun h => hand (.operand (by decide) h)
  have hsum : Derives js .sum d ts e → Derives js .or d ts e :=
    fun h => hcomparison (.operand (by decide) h)
  cases l
  · exact h
  · exact hand h
  · exact hcomparison h
  · exact hsum h
  · exact hsum (.operand (by decide) h)
  · exact h.atLevel .or

/-- **A text is written for an expression**: it has tokens, whatever stands after it, and they
derive the expression. -/
def IsWritten (js : Js) (u : Unicode) (e : Expr) (s : List Char) : Prop :=
  ∃ kinds, (∀ rest ks, Closed rest → HasKinds js u rest ks →
      HasKinds js u (s ++ rest) (kinds ++ ks)) ∧
    ∀ (ts : List Token) (d : ℕ), ts.map (·.kind) = kinds → e.nest ≤ d → Derives js .primary d ts e

def AllWritten (js : Js) (u : Unicode) (es : List Expr) (s : List Char) : Prop :=
  ∃ kinds, (∀ rest ks, Closed rest → HasKinds js u rest ks →
      HasKinds js u (s ++ rest) (kinds ++ ks)) ∧
    ∀ (ts : List Token) (d : ℕ), ts.map (·.kind) = kinds → Expr.nestAll es ≤ d →
      DerivesSome js d ts es

section Written

variable {e left right : Expr} {es : List Expr} {s t : List Char} {name : String}

theorem isWritten_token {kind : TokenKind} (hnest : e.nest = 1)
    (hkinds : ∀ rest ks, Closed rest → HasKinds js u rest ks →
      HasKinds js u (s ++ rest) (kind :: ks))
    (hder : ∀ (t : Token) (d : ℕ), t.kind = kind → Derives js .primary (d + 1) [t] e) :
    IsWritten js u e s := by
  refine ⟨[kind], hkinds, fun ts d hts hd => ?_⟩
  obtain ⟨t, rest, rfl, ht, hrest⟩ := map_eq_cons_iff.mp hts
  obtain rfl := map_eq_nil_iff.mp hrest
  obtain ⟨d, rfl⟩ := Nat.exists_eq_succ_of_ne_zero (by omega : d ≠ 0)
  exact hder t d ht

theorem isWritten_brackets {n : ℕ} {kinds : List TokenKind} (hnest : e.nest = n + 1)
    (hkinds : ∀ rest ks, Closed rest → HasKinds js u rest ks →
      HasKinds js u (s ++ rest) (kinds ++ ks))
    (hder : ∀ (ts : List Token) (d : ℕ), ts.map (·.kind) = kinds → n ≤ d →
      Derives js .or d ts e) : IsWritten js u e ('(' :: (s ++ [')'])) := by
  refine ⟨.op "(" :: (kinds ++ [.op ")"]), fun rest ks hrest h => ?_, fun ts d hts hd => ?_⟩
  · have hclose := hkinds (')' :: rest) _ (closed_cons rest (by decide))
      (hasKinds_bracket (by decide) h)
    have hopen := @hasKinds_bracket js u '(' _ _ (by decide) hclose
    simpa using hopen
  · obtain ⟨o, us, rfl, ho, hus⟩ := map_eq_cons_iff.mp hts
    obtain ⟨inner, close, rfl, hinner, hclose⟩ := map_eq_append_iff.mp hus
    obtain ⟨c, rest, rfl, hc, hrest⟩ := map_eq_cons_iff.mp hclose
    obtain rfl := map_eq_nil_iff.mp hrest
    obtain ⟨d, rfl⟩ := Nat.exists_eq_succ_of_ne_zero (by omega : d ≠ 0)
    exact .brackets o c ho hc (hder inner d hinner (by omega))

theorem isWritten_neg (h : IsWritten js u e s) :
    IsWritten js u (.unary .neg e) ('(' :: ('-' :: s ++ [')'])) := by
  obtain ⟨kinds, hkinds, hder⟩ := h
  refine @isWritten_brackets js u _ _ (e.nest + 1) (.op "-" :: kinds) rfl
    (fun rest ks hrest h => hasKinds_bracket (by decide) (hkinds rest ks hrest h))
    fun ts d hts hd => ?_
  obtain ⟨o, us, rfl, ho, hus⟩ := map_eq_cons_iff.mp hts
  obtain ⟨d, rfl⟩ := Nat.exists_eq_succ_of_ne_zero (by omega : d ≠ 0)
  exact (Derives.neg o ho (hder us d hus (by omega))).whole

theorem isWritten_not (hwords : PlainWords js) (h : IsWritten js u e s) :
    IsWritten js u (.unary .not e) ('(' :: ((String.toList "not" ++ ' ' :: s) ++ [')'])) := by
  obtain ⟨kinds, hkinds, hder⟩ := h
  refine @isWritten_brackets js u _ _ (e.nest + 1) (.name "not" :: kinds) rfl
    (fun rest ks hrest h => ?_) fun ts d hts hd => ?_
  · rw [append_assoc]
    exact hasKinds_word (by decide) (closed_cons _ (by decide))
      (hasKinds_space (by decide) (hkinds rest ks hrest h))
  · obtain ⟨o, us, rfl, ho, hus⟩ := map_eq_cons_iff.mp hts
    obtain ⟨d, rfl⟩ := Nat.exists_eq_succ_of_ne_zero (by omega : d ≠ 0)
    exact (Derives.not o ho (hwords "not" (by decide)) (hder us d hus (by omega))).whole

theorem isWritten_binary (hwords : PlainWords js) (op : BinaryOp) (hleft : IsWritten js u left s)
    (hright : IsWritten js u right t) :
    IsWritten js u (.binary op left right)
      ('(' :: ((s ++ ' ' :: (op.text.toList ++ ' ' :: t)) ++ [')'])) := by
  obtain ⟨kinds, hkinds, hder⟩ := hleft
  obtain ⟨kinds', hkinds', hder'⟩ := hright
  refine @isWritten_brackets js u _ _ (max left.nest right.nest) (kinds ++ op.kind :: kinds')
    rfl (fun rest ks hrest h => ?_) fun ts d hts hd => ?_
  · have hafter := hasKinds_operator op (hasKinds_space (by decide) (hkinds' rest ks hrest h))
    have hbefore := hkinds _ _ (closed_cons _ (by decide)) (hasKinds_space (c := ' ') (by decide)
      hafter)
    simpa using hbefore
  · obtain ⟨us, vs, rfl, hus, hvs⟩ := map_eq_append_iff.mp hts
    obtain ⟨o, vs, rfl, ho, hvs⟩ := map_eq_cons_iff.mp hvs
    obtain ⟨hle, hle'⟩ := Nat.max_le.mp hd
    refine (Derives.binary o (ho ▸ operator_kind hwords op) ?_ ?_).whole
    · exact (hder us d hus hle).atLevel _
    · exact (hder' vs d hvs hle').atLevel _

theorem derives_call {d : ℕ} {args : List Expr} {o c m : Token} {ts : List Token}
    (h : IsCallName js u name) (hm : m.kind = .name name) (ho : o.kind = .op "(")
    (hc : c.kind = .op ")") (hargs : DerivesAll js d ts args) :
    Derives js .primary (d + 1) (m :: o :: (ts ++ [c])) (.call name args) := by
  have hne : ∀ word ∈ ["true", "false", "not"], js.lowerCase name ≠ word := by
    rintro word hword heq
    exact h.word (h.lower.symm.trans heq ▸ hword)
  have hcall := Derives.call m o c hm (hne _ (by decide)) (hne _ (by decide)) (hne _ (by decide))
    ho hc hargs
  rwa [h.lower] at hcall

theorem isWritten_callNone (h : IsCallName js u name) :
    IsWritten js u (.call name []) (name.toList ++ ['(', ')']) := by
  refine ⟨[.name name, .op "(", .op ")"], fun rest ks hrest hks => ?_, fun ts d hts hd => ?_⟩
  · have hbrackets := @hasKinds_bracket js u '(' _ _ (by decide)
      (@hasKinds_bracket js u ')' _ _ (by decide) hks)
    have hname := hasKinds_name h.start h.letters (closed_cons _ (by decide)) hbrackets
    rw [String.ofList_toList] at hname
    simpa using hname
  · obtain ⟨m, us, rfl, hm, hus⟩ := map_eq_cons_iff.mp hts
    obtain ⟨o, us, rfl, ho, hus⟩ := map_eq_cons_iff.mp hus
    obtain ⟨c, rest, rfl, hc, hrest⟩ := map_eq_cons_iff.mp hus
    obtain rfl := map_eq_nil_iff.mp hrest
    rw [Expr.nest] at hd
    obtain ⟨d, rfl⟩ := Nat.exists_eq_succ_of_ne_zero (by omega : d ≠ 0)
    exact derives_call h hm ho hc .none

theorem isWritten_call (h : IsCallName js u name) (hsome : es ≠ [])
    (hargs : AllWritten js u es s) :
    IsWritten js u (.call name es) (name.toList ++ '(' :: (s ++ [')'])) := by
  obtain ⟨kinds, hkinds, hder⟩ := hargs
  refine ⟨.name name :: .op "(" :: (kinds ++ [.op ")"]), fun rest ks hrest hks => ?_,
    fun ts d hts hd => ?_⟩
  · have hclose := hkinds (')' :: rest) _ (closed_cons rest (by decide))
      (hasKinds_bracket (by decide) hks)
    have hname := hasKinds_name h.start h.letters (closed_cons _ (by decide))
      (@hasKinds_bracket js u '(' _ _ (by decide) hclose)
    rw [String.ofList_toList] at hname
    simpa using hname
  · obtain ⟨m, us, rfl, hm, hus⟩ := map_eq_cons_iff.mp hts
    obtain ⟨o, us, rfl, ho, hus⟩ := map_eq_cons_iff.mp hus
    obtain ⟨inner, close, rfl, hinner, hclose⟩ := map_eq_append_iff.mp hus
    obtain ⟨c, rest, rfl, hc, hrest⟩ := map_eq_cons_iff.mp hclose
    obtain rfl := map_eq_nil_iff.mp hrest
    rw [Expr.nest] at hd
    obtain ⟨d, rfl⟩ := Nat.exists_eq_succ_of_ne_zero (by omega : d ≠ 0)
    obtain ⟨e, es, rfl⟩ := exists_cons_of_ne_nil hsome
    exact derives_call h hm ho hc (.some (hder inner d hinner (by omega)))

theorem allWritten_one (h : IsWritten js u e s) : AllWritten js u [e] s := by
  obtain ⟨kinds, hkinds, hder⟩ := h
  refine ⟨kinds, hkinds, fun ts d hts hd => .one ?_⟩
  rw [Expr.nestAll, Expr.nestAll, Nat.max_zero] at hd
  exact (hder ts d hts hd).whole

theorem allWritten_more (h : IsWritten js u e s) (hmore : AllWritten js u es t) :
    AllWritten js u (e :: es) (s ++ ',' :: t) := by
  obtain ⟨kinds, hkinds, hder⟩ := h
  obtain ⟨kinds', hkinds', hder'⟩ := hmore
  refine ⟨kinds ++ .op "," :: kinds', fun rest ks hrest hks => ?_, fun ts d hts hd => ?_⟩
  · have hcomma := @hasKinds_bracket js u ',' _ _ (by decide) (hkinds' rest ks hrest hks)
    have hfirst := hkinds _ _ (closed_cons _ (by decide)) hcomma
    simpa using hfirst
  · obtain ⟨us, vs, rfl, hus, hvs⟩ := map_eq_append_iff.mp hts
    obtain ⟨c, vs, rfl, hc, hvs⟩ := map_eq_cons_iff.mp hvs
    rw [Expr.nestAll] at hd
    obtain ⟨hle, hle'⟩ := Nat.max_le.mp hd
    exact .more c hc (hder us d hus hle).whole (hder' vs d hvs hle')

end Written

theorem RendersSome.ne_nil {es : List Expr} {s : List Char} (h : RendersSome js u es s) :
    es ≠ [] := by
  cases h <;> simp

mutual

/-- **What is rendered is written.** -/
theorem Renders.isWritten (hwords : PlainWords js) {e : Expr} {s : List Char} :
    Renders js u e s → IsWritten js u e s
  | .number h => isWritten_token (by rfl) (fun _ _ hrest hks => hasKinds_number h hrest hks)
      fun t _ ht => .number t ht
  | .text h => isWritten_token (by rfl) (fun _ _ _ hks => by
      simpa using hasKinds_text h hks) fun t _ ht => .text t ht
  | .field h htrim => isWritten_token (by rfl) (fun _ _ _ hks => by
      simpa using hasKinds_field h htrim hks) fun t _ ht => .field t ht
  | .boolean true => isWritten_token (by rfl)
      (fun _ _ hrest hks => hasKinds_word (by decide) hrest hks)
      fun t _ ht => by
        have h := hwords "true" (by decide)
        simpa [h] using Derives.boolean t ht (.inl h)
  | .boolean false => isWritten_token (by rfl)
      (fun _ _ hrest hks => hasKinds_word (by decide) hrest hks)
      fun t _ ht => by
        have h := hwords "false" (by decide)
        simpa [h] using Derives.boolean t ht (.inr h)
  | .neg h => isWritten_neg (h.isWritten hwords)
  | .not h => by simpa using isWritten_not hwords (h.isWritten hwords)
  | .binary op hleft hright => by
    simpa using isWritten_binary hwords op (hleft.isWritten hwords) (hright.isWritten hwords)
  | .callNone h => isWritten_callNone h
  | .call h hargs => isWritten_call h hargs.ne_nil (hargs.allWritten hwords)

theorem RendersSome.allWritten (hwords : PlainWords js) {es : List Expr} {s : List Char} :
    RendersSome js u es s → AllWritten js u es s
  | .one h => allWritten_one (h.isWritten hwords)
  | .more h hmore => allWritten_more (h.isWritten hwords) (hmore.allWritten hwords)

end

/-! ### Texts and their trees -/

def TokensOf (js : Js) (u : Unicode) (text : List Char) (ts : List Token) : Prop :=
  ∃ fuel stop, tokenise js u fuel 0 text = some (.ok (ts ++ [⟨.finish, stop⟩]))

theorem tokensOf_iff {text : List Char} {ts : List Token} :
    TokensOf js u text ts ↔ ∃ stop, Lexes js u 0 text (ts ++ [⟨.finish, stop⟩]) := by
  simp only [TokensOf, lexes_iff]
  exact exists_comm

theorem TokensOf.unique {text : List Char} {ts us : List Token} (h : TokensOf js u text ts)
    (h' : TokensOf js u text us) : ts = us := by
  obtain ⟨stop, h⟩ := tokensOf_iff.mp h
  obtain ⟨stop', h'⟩ := tokensOf_iff.mp h'
  exact (append_inj' (h.unique h') rfl).1

def ParsesTo (js : Js) (u : Unicode) (text : List Char) (r : Except ParseError Expr) : Prop :=
  ∃ fuel, parseFormula js u fuel text = some r

theorem kind_ne_finish_of_operator {l : Precedence} {kind : TokenKind} {op : BinaryOp}
    (h : l.operator js kind = some op) : kind ≠ .finish := by
  rintro rfl
  rw [operator_finish] at h
  cases h

mutual

theorem Derives.ne_finish {l : Precedence} {d : ℕ} {ts : List Token} {e : Expr} :
    Derives js l d ts e → ∀ t ∈ ts, t.kind ≠ .finish
  | .operand _ h => h.ne_finish
  | .binary _ ht hleft hright => by
    simp only [mem_append, mem_cons, or_imp, forall_and, forall_eq]
    exact ⟨hleft.ne_finish, kind_ne_finish_of_operator ht, hright.ne_finish⟩
  | .number _ ht | .text _ ht | .field _ ht | .boolean _ ht _ | .column _ ht _ _ _ => by
    simp [ht]
  | .not _ ht _ h | .neg _ ht h => by
    simp only [mem_cons, or_imp, forall_and, forall_eq]
    exact ⟨by simp [ht], h.ne_finish⟩
  | .brackets _ _ ht hu h => by
    simp only [mem_cons, mem_append, not_mem_nil, or_false, or_imp, forall_and,
      forall_eq]
    exact ⟨by simp [ht], h.ne_finish, by simp [hu]⟩
  | .call _ _ _ ht _ _ _ ho hu .none => by simp [ht, ho, hu]
  | .call _ _ _ ht _ _ _ ho hu (.some h) => by
    simp only [mem_cons, mem_append, not_mem_nil, or_false, or_imp, forall_and,
      forall_eq]
    exact ⟨by simp [ht], by simp [ho], h.ne_finish, by simp [hu]⟩

theorem DerivesSome.ne_finish {d : ℕ} {ts : List Token} {es : List Expr} :
    DerivesSome js d ts es → ∀ t ∈ ts, t.kind ≠ .finish
  | .one h => h.ne_finish
  | .more _ ht h hall => by
    simp only [mem_append, mem_cons, or_imp, forall_and, forall_eq]
    exact ⟨h.ne_finish, by simp [ht], hall.ne_finish⟩

end

theorem eq_of_append_finish {ts us rest : List Token} {stop : ℕ}
    (h : ts ++ [⟨.finish, stop⟩] = us ++ rest) (hts : ∀ t ∈ ts, t.kind ≠ .finish)
    (hus : ∀ t ∈ us, t.kind ≠ .finish) (hrest : headKind rest = .finish) : us = ts := by
  rcases append_eq_append_iff.mp h with ⟨more, rfl, hmore⟩ | ⟨more, rfl, rfl⟩
  · cases more with
    | nil => exact append_nil _
    | cons first more =>
      obtain ⟨rfl, -⟩ := List.cons.inj hmore
      exact absurd rfl (hus _ (mem_append_right _ mem_cons_self))
  · cases more with
    | nil => exact (append_nil _).symm
    | cons first more =>
      exact absurd hrest (hts _ (mem_append_right _ mem_cons_self))

/-- **A text within the limit parses** to what its tokens derive. -/
theorem parsesTo_iff {text : List Char} (hlen : textWidth text ≤ maxFormula) (e : Expr) :
    ParsesTo js u text (.ok e) ↔
      ∃ ts, TokensOf js u text ts ∧ Derives js .or maxFormulaDepth ts e := by
  constructor
  · rintro ⟨fuel, h⟩
    rw [parseFormula, if_neg (Nat.not_lt.mpr hlen)] at h
    split at h
    · cases h
    · cases h
    rename_i tokens htokens
    obtain ⟨⟨e', s'⟩, hparse, hr⟩ := Option.map_eq_some_iff.mp h
    simp only at hr
    split at hr
    · cases hr
    rename_i hok
    split at hr
    · rename_i hfinish
      obtain rfl := Except.ok.inj hr
      obtain ⟨-, us, hrest, hder⟩ := (soundUpTo fuel).parse hparse hok
      obtain ⟨r, hr, hspec⟩ := @tokenise_spec js u (max fuel (text.length + 1)) 0 text
        (Nat.lt_of_succ_le (Nat.le_max_right _ _))
      rw [tokenise_of_le (Nat.le_max_left _ _) htokens] at hr
      obtain ⟨ts, stop, rfl, hts⟩ := hspec tokens (Option.some.inj hr).symm
      have hsame := eq_of_append_finish hrest hts hder.ne_finish
        (s'.kind_peek.symm.trans hfinish)
      exact ⟨ts, ⟨fuel, stop, htokens⟩, hsame ▸ hder⟩
    · cases hr
  · rintro ⟨ts, ⟨fuel, stop, htokens⟩, hder⟩
    have hstops : StopsAbove js .or [⟨.finish, stop⟩] :=
      ⟨by simp [headKind], fun l' _ => operator_finish l'⟩
    obtain ⟨fuel', hparse⟩ := hder.readAs
      ⟨ts ++ [⟨.finish, stop⟩], 0, none, textWidth text⟩ _ _ rfl rfl le_rfl hstops
      (continues_self (operator_finish _))
    refine ⟨max fuel fuel', ?_⟩
    rw [parseFormula, if_neg (Nat.not_lt.mpr hlen), tokenise_of_le (Nat.le_max_left _ _) htokens]
    simp only
    rw [parse_of_le (Nat.le_max_right _ _) hparse]
    rfl

/-- **Parsing ends.** -/
theorem exists_parsesTo (text : List Char) : ∃ r, ParsesTo js u text r := by
  by_cases hlen : maxFormula < textWidth text
  · exact ⟨_, 0, by rw [parseFormula, if_pos hlen]⟩
  obtain ⟨r, hr, -⟩ := @tokenise_spec js u (text.length + 1) 0 text (Nat.lt_succ_self _)
  cases r with
  | error error => exact ⟨_, text.length + 1, by rw [parseFormula, if_neg hlen, hr]⟩
  | ok tokens =>
    obtain ⟨r, hparse, -⟩ := (@endsWith js (8 * tokens.length + 6)).parse (l := .or)
      (s := ⟨tokens, 0, none, textWidth text⟩) le_rfl
    have hends : ∃ result, parseFormula js u (max (text.length + 1) (8 * tokens.length + 6)) text =
        some result := by
      rw [parseFormula, if_neg hlen, tokenise_of_le (Nat.le_max_left _ _) hr]
      simp only
      rw [parse_of_le (Nat.le_max_right _ _) hparse]
      exact ⟨_, rfl⟩
    obtain ⟨result, hresult⟩ := hends
    exact ⟨result, _, hresult⟩

theorem Renders.tokensOf (hwords : PlainWords js) {e : Expr} {text : List Char}
    (h : Renders js u e text) {d : ℕ} (hnest : e.nest ≤ d) :
    ∃ ts, TokensOf js u text ts ∧ Derives js .or d ts e := by
  obtain ⟨kinds, hkinds, hder⟩ := h.isWritten hwords
  obtain ⟨fuel, tokens, htokens, hmap⟩ := hkinds [] _ (by simp [Closed]) hasKinds_nil 0
  obtain ⟨ts, rest, rfl, hts, hrest⟩ := map_eq_append_iff.mp hmap
  obtain ⟨⟨kind, stop⟩, rest, rfl, hkind, hnil⟩ := map_eq_cons_iff.mp hrest
  obtain rfl := map_eq_nil_iff.mp hnil
  obtain rfl : kind = .finish := hkind
  rw [append_nil] at htokens
  exact ⟨ts, ⟨fuel, stop, htokens⟩, (hder ts d hts hnest).whole⟩

/-- **The parser of formulas.** It ends on every text; within the limit it gives a tree exactly
where the tokens of the text derive that tree; and a tree that is written in full brackets,
within the limits, is given back. -/
theorem parseFormula_spec (hwords : PlainWords js) (text : List Char) :
    (∃ r, ParsesTo js u text r) ∧
      (textWidth text ≤ maxFormula →
        (∀ e, ParsesTo js u text (.ok e) ↔
          ∃ ts, TokensOf js u text ts ∧ Derives js .or maxFormulaDepth ts e) ∧
        ∀ e, Renders js u e text → e.nest ≤ maxFormulaDepth → ParsesTo js u text (.ok e)) := by
  refine ⟨exists_parsesTo text, fun hlen => ⟨parsesTo_iff hlen, fun e hrender hnest => ?_⟩⟩
  exact (parsesTo_iff hlen e).mpr (hrender.tokensOf hwords hnest)

def Unicode.asciiOnly : Unicode where
  letter := fun c => c.isAlpha
  number := fun c => c.isDigit
  ascii := fun _ _ => ⟨rfl, rfl⟩
  space := fun c hspace => by
    simp only [JsString.isSpace, mem_cons, not_mem_nil, or_false, Bool.or_eq_true,
      decide_eq_true_eq, Bool.and_eq_true] at hspace
    simp only [isAlpha_eq_ranges, Char.isDigit, Bool.decide_and, Bool.or_eq_false_iff,
      Bool.and_eq_false_iff, decide_eq_false_iff_not, ge_iff_le, UInt32.le_iff_toNat_le]
    simp
    omega

/-- The hypotheses can be met: two columns, one taken from the other. -/
theorem parseFormula_spec_difference :
    ParsesTo .ascii .asciiOnly "([a] - [b])".toList
      (.ok (.binary .sub (.field "a") (.field "b"))) := by
  have hwords : PlainWords .ascii := by
    rw [PlainWords]
    decide +kernel
  have ha : Renders .ascii .asciiOnly (.field "a") "[a]".toList :=
    .field (by decide +kernel) (by decide +kernel)
  have hb : Renders .ascii .asciiOnly (.field "b") "[b]".toList :=
    .field (by decide +kernel) (by decide +kernel)
  exact ((parseFormula_spec hwords "([a] - [b])".toList).2 (by decide +kernel)).2 _
    (.binary .sub ha hb) (by decide)

theorem Derives.unique {l : Precedence} {d : ℕ} {ts : List Token} {e e' : Expr}
    (hd : d ≤ maxFormulaDepth) (h : Derives js l d ts e) (h' : Derives js l d ts e') : e = e' := by
  have hread : ∀ {e}, Derives js l d ts e →
      ∃ fuel, parse js fuel l ⟨ts, 0, none, 0⟩ = some (e, ⟨[], 0, none, 0⟩) := fun h =>
    h.readAs ⟨ts, 0, none, 0⟩ [] _ rfl (append_nil ts).symm hd
      ⟨by simp [headKind], fun _ _ => operator_finish _⟩ (continues_self (operator_finish l))
  obtain ⟨fuel, hfuel⟩ := hread h
  obtain ⟨fuel', hfuel'⟩ := hread h'
  have hsame := (parse_of_le (Nat.le_max_left fuel fuel') hfuel).symm.trans
    (parse_of_le (Nat.le_max_right fuel fuel') hfuel')
  exact (Prod.mk.inj (Option.some.inj hsame)).1

end Sone
