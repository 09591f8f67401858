import Sone.Doc.Text

/-!
# Reading a formula

`tokenise` cuts a formula into tokens and `parse` reads an expression from them by recursive
descent: one level for each precedence, each reading operands of the next and the operators
between them. A formula is read in full even where something was wrong: the first failure is
kept, and from then on a primary is blank and takes no token.

Both are written with fuel, since a primary reads whole expressions again.
-/

namespace Sone

/-! ### Tokens -/

/-- **The letters and digits of Unicode**, `\p{L}` and `\p{N}`. -/
structure Unicode where
  letter : Char → Bool
  number : Char → Bool
  /-- Of ASCII they are the ones everybody knows. -/
  ascii : ∀ c : Char, c.toNat < 128 → letter c = c.isAlpha ∧ number c = c.isDigit
  /-- No space is one of them. -/
  space : ∀ c : Char, JsString.isSpace c = true → letter c = false ∧ number c = false

inductive TokenKind where
  | number (value : JsNumber)
  | string (value : String)
  | name (value : String)
  | field (value : String)
  | op (value : String)
  | finish
deriving DecidableEq

/-- `Token`, with its place in the text. -/
structure Token where
  kind : TokenKind
  place : ℕ
deriving DecidableEq

/-- The codes of a `ParseError`. -/
inductive ParseErrorCode where
  | formulaTooLong
  | formulaTooDeep
  | unexpectedEnd
  | unexpectedToken
  | unclosedBracket
  | unclosedString
deriving DecidableEq, Repr

structure ParseError where
  code : ParseErrorCode
  place : ℕ
  found : Option String
deriving DecidableEq, Repr

/-- `OPERATORS` -/
def operators : List (List Char) :=
  [['<', '='], ['>', '='], ['<', '>'], ['+'], ['-'], ['*'], ['/'], ['('], [')'], [','], ['='],
    ['<'], ['>']]

def textWidth (cs : List Char) : ℕ := (cs.flatMap Char.units).length

/-- `/^[0-9]*\.?[0-9]+/`: the number a text begins with. -/
def numberText (cs : List Char) : List Char :=
  match cs.dropWhile Char.isDigit with
  | '.' :: d :: rest =>
    if d.isDigit then cs.takeWhile Char.isDigit ++ '.' :: (d :: rest).takeWhile Char.isDigit
    else cs.takeWhile Char.isDigit
  | _ => cs.takeWhile Char.isDigit

/-- `/[0-9]/.test(char) || (char === '.' && /[0-9]/.test(text[at + 1] ?? ''))` -/
def startsNumber (cs : List Char) : Bool :=
  match cs with
  | c :: rest => c.isDigit || (c = '.' && rest.head?.any Char.isDigit)
  | [] => false

/-- `/[\p{L}_]/u`, of one unit. -/
def startsName (u : Unicode) (c : Char) : Bool :=
  (u.letter c && decide (c.toNat < 0x10000)) || c = '_'

/-- `/[\p{L}\p{N}_]/u` -/
def inName (u : Unicode) (c : Char) : Bool := u.letter c || u.number c || c = '_'

/-- The unit a text begins with; half of a pair is written as U+FFFD. -/
def firstUnit (c : Char) : String :=
  String.ofList [if c.toNat < 0x10000 then c else '\uFFFD']

def beforeTokens (kind : TokenKind) (place : ℕ) :
    Option (Except ParseError (List Token)) → Option (Except ParseError (List Token)) :=
  Option.map (Except.map (⟨kind, place⟩ :: ·))

/-- `tokenise`, from a place on. -/
def tokenise (js : Js) (u : Unicode) : ℕ → ℕ → List Char →
    Option (Except ParseError (List Token))
  | 0, _, _ => none
  | _ + 1, place, [] => some (.ok [⟨.finish, place⟩])
  | fuel + 1, place, c :: cs =>
    if JsString.isSpace c then tokenise js u fuel (place + 1) cs
    else if startsNumber (c :: cs) then
      let number := numberText (c :: cs)
      beforeTokens (.number (js.toNumber (.string (String.ofList number)))) place
        (tokenise js u fuel (place + textWidth number) ((c :: cs).drop number.length))
    else if c = '"' then
      let value := cs.takeWhile (· ≠ '"')
      match cs.dropWhile (· ≠ '"') with
      | [] => some (.error ⟨.unclosedString, place, none⟩)
      | _ :: rest => beforeTokens (.string (String.ofList value)) place
          (tokenise js u fuel (place + textWidth value + 2) rest)
    else if c = '[' then
      let value := cs.takeWhile (· ≠ ']')
      match cs.dropWhile (· ≠ ']') with
      | [] => some (.error ⟨.unclosedBracket, place, none⟩)
      | _ :: rest => beforeTokens (.field (JsString.trim (String.ofList value))) place
          (tokenise js u fuel (place + textWidth value + 2) rest)
    else if startsName u c then
      let name := (c :: cs).takeWhile (inName u)
      beforeTokens (.name (String.ofList name)) place
        (tokenise js u fuel (place + textWidth name) ((c :: cs).dropWhile (inName u)))
    else
      match operators.find? fun op => op.isPrefixOf (c :: cs) with
      | some op => beforeTokens (.op (String.ofList op)) place
          (tokenise js u fuel (place + op.length) ((c :: cs).drop op.length))
      | none => some (.error ⟨.unexpectedToken, place, some (firstUnit c)⟩)

/-! ### Expressions -/

inductive UnaryOp where
  | neg
  | not
deriving DecidableEq, Repr

inductive BinaryOp where
  | add | sub | mul | div | eq | ne | lt | le | gt | ge | and | or
deriving DecidableEq, Repr

/-- `Expr`, before its fields are bound. -/
inductive Expr where
  | number (value : JsNumber)
  | text (value : String)
  | boolean (value : Bool)
  | blank
  | field (name : String)
  | unary (op : UnaryOp) (operand : Expr)
  | binary (op : BinaryOp) (left right : Expr)
  | call (name : String) (args : List Expr)

/-- The levels of the grammar, lowest precedence first. -/
inductive Precedence where
  | or
  | and
  | comparison
  | sum
  | product
  | primary
deriving DecidableEq, Repr

namespace Precedence

def next : Precedence → Precedence
  | or => and
  | and => comparison
  | comparison => sum
  | sum => product
  | product => primary
  | primary => primary

def operator (js : Js) (l : Precedence) (kind : TokenKind) : Option BinaryOp :=
  match l, kind with
  | or, .name word => if js.lowerCase word = "or" then some .or else none
  | and, .name word => if js.lowerCase word = "and" then some .and else none
  | comparison, .op value =>
    match value with
    | "=" => some .eq
    | "<>" => some .ne
    | "<" => some .lt
    | "<=" => some .le
    | ">" => some .gt
    | ">=" => some .ge
    | _ => none
  | sum, .op value =>
    match value with
    | "+" => some .add
    | "-" => some .sub
    | _ => none
  | product, .op value =>
    match value with
    | "*" => some .mul
    | "/" => some .div
    | _ => none
  | _, _ => none

end Precedence

/-! ### The parser -/

/-- `MAX_FORMULA` -/
def maxFormula : ℕ := 500

/-- `MAX_DEPTH` -/
def maxFormulaDepth : ℕ := 32

/-- What the parser keeps: the tokens from `index` on, and the length of the text. -/
structure FormulaParser where
  rest : List Token
  depth : ℕ
  failure : Option ParseError
  stop : ℕ
deriving DecidableEq

namespace FormulaParser

def peek (s : FormulaParser) : Token := s.rest.headD ⟨.finish, s.stop⟩

def isOp (s : FormulaParser) (value : String) : Bool := s.peek.kind = .op value

/-- `index += 1` -/
def advance (s : FormulaParser) : FormulaParser := { s with rest := s.rest.tail }

/-- `depth += 1` and, once a primary is read, `depth -= 1`. -/
def enter (s : FormulaParser) : FormulaParser := { s with depth := s.depth + 1 }

def leave (s : FormulaParser) : FormulaParser := { s with depth := s.depth - 1 }

/-- `fail`: the first failure is kept. -/
def fail (s : FormulaParser) (code : ParseErrorCode) (place : ℕ) (found : Option String) :
    Expr × FormulaParser :=
  (.blank, { s with failure := s.failure <|> some ⟨code, place, found⟩ })

/-- What has to be closed by a bracket: the expression, or a failure at its opening. -/
def close (s : FormulaParser) (place : ℕ) (e : Expr) : Expr × FormulaParser :=
  if s.isOp ")" then (e, s.advance) else s.fail .unclosedBracket place none

end FormulaParser

mutual

/-- `expression`, `conjunction`, `comparison`, `sum`, `product` and `primary`, by their level. -/
def parse (js : Js) : ℕ → Precedence → FormulaParser → Option (Expr × FormulaParser)
  | 0, _, _ => none
  | fuel + 1, .primary, s =>
    if s.failure.isSome then some (.blank, s)
    else if maxFormulaDepth < s.enter.depth then
      some (s.enter.fail .formulaTooDeep s.peek.place none)
    else
      let s := s.enter
      Option.map (fun r : Expr × FormulaParser => (r.1, r.2.leave)) <|
        match s.peek.kind with
        | .number value => some (.number value, s.advance)
        | .string value => some (.text value, s.advance)
        | .field value => some (.field value, s.advance)
        | .name value =>
          if js.lowerCase value = "true" ∨ js.lowerCase value = "false" then
            some (.boolean (js.lowerCase value = "true"), s.advance)
          else if js.lowerCase value = "not" then
            (parse js fuel .primary s.advance).map fun r => (.unary .not r.1, r.2)
          else if s.advance.isOp "(" then
            -- a name before a bracket is a call, any other is a column
            if s.advance.advance.isOp ")" then
              some (s.advance.advance.close s.peek.place (.call (js.lowerCase value) []))
            else
              (parseArguments js fuel [] s.advance.advance).map fun r =>
                r.2.close s.peek.place (.call (js.lowerCase value) r.1)
          else some (.field value, s.advance)
        | .op value =>
          if value = "(" then
            (parse js fuel .or s.advance).map fun r => r.2.close s.peek.place r.1
          else if value = "-" then
            (parse js fuel .primary s.advance).map fun r => (.unary .neg r.1, r.2)
          else some (s.fail .unexpectedToken s.peek.place (some value))
        | .finish => some (s.fail .unexpectedEnd s.peek.place none)
  | fuel + 1, l, s => (parse js fuel l.next s).bind fun r => parseBinary js fuel l r.1 r.2

/-- The loop of `binary`, with what has been read so far on the left. -/
def parseBinary (js : Js) : ℕ → Precedence → Expr → FormulaParser →
    Option (Expr × FormulaParser)
  | 0, _, _, _ => none
  | fuel + 1, l, left, s =>
    match l.operator js s.peek.kind with
    | none => some (left, s)
    | some op =>
      (parse js fuel l.next s.advance).bind fun r => parseBinary js fuel l (.binary op left r.1) r.2

/-- The arguments of a call, after those there are. -/
def parseArguments (js : Js) : ℕ → List Expr → FormulaParser →
    Option (List Expr × FormulaParser)
  | 0, _, _ => none
  | fuel + 1, args, s =>
    (parse js fuel .or s).bind fun r =>
      if r.2.isOp "," then parseArguments js fuel (args ++ [r.1]) r.2.advance
      else some (args ++ [r.1], r.2)

end

/-- `String(token.value ?? '')` -/
def TokenKind.found (js : Js) : TokenKind → String
  | .number value => js.toText (.number value)
  | .string value | .name value | .field value | .op value => value
  | .finish => ""

/-- `parseFormula`, with as much fuel as `fuel` says. -/
def parseFormula (js : Js) (u : Unicode) (fuel : ℕ) (text : List Char) :
    Option (Except ParseError Expr) :=
  if maxFormula < textWidth text then some (.error ⟨.formulaTooLong, maxFormula, none⟩)
  else
    match tokenise js u fuel 0 text with
    | none => none
    | some (.error error) => some (.error error)
    | some (.ok tokens) =>
      (parse js fuel .or ⟨tokens, 0, none, textWidth text⟩).map fun r =>
        match r.2.failure with
        | some error => .error error
        | none =>
          if r.2.peek.kind = .finish then .ok r.1
          else .error ⟨.unexpectedToken, r.2.peek.place, some (r.2.peek.kind.found js)⟩

end Sone
