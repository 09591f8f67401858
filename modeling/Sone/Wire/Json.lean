import Sone.Doc.Text
import Mathlib.Algebra.Group.Int.Defs
import Mathlib.Algebra.Group.Nat.Defs

/-!
# JSON

`stringify` writes a plain value as `JSON.stringify` does and `parse` reads a text as `JSON.parse`
does. A number that is no natural one is written and read by the language (`Js.toText`,
`Js.toNumber`).

Each kind of value is read back as it was written, with any text after it that cannot be taken for
more of a number (`ReadsBack`); a list and an object are, where what is in them is. So
`parse_stringify`: every value that JSON has a form for (`IsPlain`) is read back.
-/

namespace Sone

open List Option

/-- `Number.MAX_SAFE_INTEGER` -/
def maxSafeInteger : ℕ := 2 ^ 53 - 1

namespace Json

/-! ### Writing -/

def escapeChar (c : Char) : List Char :=
  if c = '"' then ['\\', '"']
  else if c = '\\' then ['\\', '\\']
  else if c = '\x08' then ['\\', 'b']
  else if c = '\x0c' then ['\\', 'f']
  else if c = '\n' then ['\\', 'n']
  else if c = '\r' then ['\\', 'r']
  else if c = '\t' then ['\\', 't']
  else if c.toNat < 0x20 then
    ['\\', 'u', '0', '0', hexDigit (c.toNat / 16), hexDigit (c.toNat % 16)]
  else [c]

/-- The characters of a string, escaped, with the quote that ends it. -/
def quoted (cs : List Char) : List Char := cs.flatMap escapeChar ++ ['"']

/-- A number. What is not finite is written as `null`. -/
def numberText (js : Js) : JsNumber → List Char
  | .finite n =>
    if n.den = 1 ∧ 0 ≤ n.num ∧ n.num < 10 ^ 21 then Nat.toDigits 10 n.num.toNat
    else (js.toText (.number (.finite n))).toList
  | _ => String.toList "null"

mutual

/-- `JSON.stringify(value)` -/
def stringify (js : Js) : JsValue → List Char
  | .undefined | .null => String.toList "null"
  | .boolean b => String.toList (if b then "true" else "false")
  | .number n => numberText js n
  | .string s => '"' :: quoted s.toList
  | .array items => '[' :: itemsText js true items
  | .object fields => '{' :: membersText js true fields

/-- The items of a list, with a comma before each but the first, and the bracket that ends it. -/
def itemsText (js : Js) (first : Bool) : List JsValue → List Char
  | [] => [']']
  | item :: items =>
    (if first then [] else [',']) ++ stringify js item ++ itemsText js false items

/-- The members of an object. One that is `undefined` is left out. -/
def membersText (js : Js) (first : Bool) : List (String × JsValue) → List Char
  | [] => ['}']
  | (_, .undefined) :: fields => membersText js first fields
  | (key, value) :: fields =>
    (if first then [] else [',']) ++ '"' :: (quoted key.toList ++ ':' :: stringify js value) ++
      membersText js false fields

end

/-! ### Reading -/

/-- White space between the parts of a text. -/
def isSpace (c : Char) : Bool := c = ' ' || c = '\t' || c = '\n' || c = '\r'

def skipSpace (cs : List Char) : List Char := cs.dropWhile isSpace

/-- The unit that four hexadecimal digits are. -/
def takeUnit : List Char → Option (ℕ × List Char)
  | a :: b :: c :: d :: cs =>
    if [a, b, c, d].all isHexDigit then
      some ([a, b, c, d].foldl (fun n c => 16 * n + hexValue c) 0, cs)
    else none
  | _ => none

def takeLow : List Char → Option (ℕ × List Char)
  | '\\' :: 'u' :: cs => (takeUnit cs).filter fun read => 0xdc00 ≤ read.1 ∧ read.1 < 0xe000
  | _ => none

/-- The character of a unit, with the one after it where the two are a pair. Half of a pair is
read as U+FFFD. -/
def takeUnits (cs : List Char) : Option (Char × List Char) := do
  let (unit, cs) ← takeUnit cs
  if 0xd800 ≤ unit ∧ unit < 0xdc00 then
    match takeLow cs with
    | some (low, cs) =>
      some (Char.ofNat (0x10000 + (unit - 0xd800) * 0x400 + (low - 0xdc00)), cs)
    | none => some ('\uFFFD', cs)
  else if 0xdc00 ≤ unit ∧ unit < 0xe000 then some ('\uFFFD', cs)
  else some (Char.ofNat unit, cs)

/-- What may stand after a backslash, and what it is. -/
def escapes : List (Char × Char) :=
  [('"', '"'), ('\\', '\\'), ('/', '/'), ('b', '\x08'), ('f', '\x0c'), ('n', '\n'), ('r', '\r'),
    ('t', '\t')]

/-- What stands after a backslash. -/
def takeEscape : List Char → Option (Char × List Char)
  | 'u' :: cs => takeUnits cs
  | c :: cs => (escapes.lookup c).map fun read => (read, cs)
  | [] => none

/-- The characters of a string, to the quote that ends it. -/
def parseChars : ℕ → List Char → Option (List Char × List Char)
  | 0, _ => none
  | _ + 1, [] => none
  | n + 1, c :: cs =>
    if c = '"' then some ([], cs)
    else if c.toNat < 0x20 then none
    else if c = '\\' then do
      let (c, cs) ← takeEscape cs
      let (text, cs) ← parseChars n cs
      some (c :: text, cs)
    else do
      let (text, cs) ← parseChars n cs
      some (c :: text, cs)

def takeDigits (cs : List Char) : Option (List Char × List Char) :=
  if cs.takeWhile Char.isDigit = [] then none
  else some (cs.takeWhile Char.isDigit, cs.dropWhile Char.isDigit)

/-- The whole part of a number: a zero, or digits that do not begin with one. -/
def takeWhole : List Char → Option (List Char × List Char)
  | '0' :: cs => some (['0'], cs)
  | cs => takeDigits cs

def takeFraction : List Char → Option (List Char × List Char)
  | '.' :: cs => (takeDigits cs).map fun read => ('.' :: read.1, read.2)
  | cs => some ([], cs)

def takeSign : List Char → List Char × List Char
  | '-' :: cs => (['-'], cs)
  | '+' :: cs => (['+'], cs)
  | cs => ([], cs)

def takeExponent : List Char → Option (List Char × List Char)
  | 'e' :: cs | 'E' :: cs =>
    (takeDigits (takeSign cs).2).map fun read => ('e' :: ((takeSign cs).1 ++ read.1), read.2)
  | cs => some ([], cs)

def readNumber (js : Js) (token : List Char) : JsValue :=
  if token.all Char.isDigit ∧ Nat.ofDigitChars 10 token 0 ≤ maxSafeInteger then
    .number (.finite (Nat.ofDigitChars 10 token 0))
  else .number (js.toNumber (.string (String.ofList token)))

def parseNumber (js : Js) (cs : List Char) : Option (JsValue × List Char) := do
  let (sign, cs) := match cs with
    | '-' :: cs => (['-'], cs)
    | cs => ([], cs)
  let (whole, cs) ← takeWhole cs
  let (fraction, cs) ← takeFraction cs
  let (exponent, cs) ← takeExponent cs
  some (readNumber js (sign ++ whole ++ fraction ++ exponent), cs)

/-- Values with commas between them, to a bracket. -/
def parseItems (value : List Char → Option (JsValue × List Char)) :
    ℕ → List Char → Option (List JsValue × List Char)
  | 0, _ => none
  | n + 1, cs => do
    let (item, cs) ← value cs
    match skipSpace cs with
    | ']' :: cs => some ([item], cs)
    | ',' :: cs => do
      let (items, cs) ← parseItems value n cs
      some (item :: items, cs)
    | _ => none

/-- Members with commas between them, to a brace. -/
def parseMembers (value : List Char → Option (JsValue × List Char)) :
    ℕ → List Char → Option (List (String × JsValue) × List Char)
  | 0, _ => none
  | n + 1, cs =>
    match skipSpace cs with
    | '"' :: cs => do
      let (key, cs) ← parseChars (n + 1) cs
      match skipSpace cs with
      | ':' :: cs => do
        let (item, cs) ← value cs
        match skipSpace cs with
        | '}' :: cs => some ([(String.ofList key, item)], cs)
        | ',' :: cs => do
          let (fields, cs) ← parseMembers value n cs
          some ((String.ofList key, item) :: fields, cs)
        | _ => none
      | _ => none
    | _ => none

/-- An object of members: of those with one key the last is kept, where the first was. -/
def ofMembers (fields : List (String × JsValue)) : JsValue :=
  .object ((YMap.empty.assign fields fun _ value => some value).rows)

def parseValue (js : Js) : ℕ → List Char → Option (JsValue × List Char)
  | 0, _ => none
  | n + 1, cs =>
    match skipSpace cs with
    | 'n' :: 'u' :: 'l' :: 'l' :: cs => some (.null, cs)
    | 't' :: 'r' :: 'u' :: 'e' :: cs => some (.boolean true, cs)
    | 'f' :: 'a' :: 'l' :: 's' :: 'e' :: cs => some (.boolean false, cs)
    | '"' :: cs => (parseChars n cs).map fun read => (.string (String.ofList read.1), read.2)
    | '[' :: cs =>
      match skipSpace cs with
      | ']' :: cs => some (.array [], cs)
      | _ => (parseItems (parseValue js n) n cs).map fun read => (.array read.1, read.2)
    | '{' :: cs =>
      match skipSpace cs with
      | '}' :: cs => some (.object [], cs)
      | _ => (parseMembers (parseValue js n) n cs).map fun read => (ofMembers read.1, read.2)
    | cs => parseNumber js cs

/-- `JSON.parse(text)`, where it does not throw. -/
def parse (js : Js) (text : List Char) : Option JsValue :=
  match parseValue js text.length text with
  | some (value, rest) => if skipSpace rest = [] then some value else none
  | none => none

theorem parse_congr {js js' : Js} (h : js.toNumber = js'.toNumber) : parse js = parse js' := by
  have hnumber : parseNumber js = parseNumber js' := by
    funext cs
    simp only [parseNumber, readNumber, h]
  have hvalue : ∀ n, parseValue js n = parseValue js' n := by
    intro n
    induction n with
    | zero => rfl
    | succ n ih =>
      funext cs
      rw [parseValue.eq_def, parseValue.eq_def]
      simp only [ih, hnumber]
  funext text
  rw [parse, parse, hvalue]

/-! ### A string -/

theorem skipSpace_cons {c : Char} {cs : List Char} (h : isSpace c = false) :
    skipSpace (c :: cs) = c :: cs :=
  dropWhile_cons_of_neg (by simp [h])

theorem takeUnits_control {n : ℕ} (h : n < 0x20) (rest : List Char) :
    takeUnits ('0' :: '0' :: hexDigit (n / 16) :: hexDigit (n % 16) :: rest) =
      some (Char.ofNat n, rest) := by
  have hdigits : ∀ n < 0x20, isHexDigit (hexDigit (n / 16)) = true ∧
      isHexDigit (hexDigit (n % 16)) = true ∧
      16 * hexValue (hexDigit (n / 16)) + hexValue (hexDigit (n % 16)) = n := by decide
  obtain ⟨hhigh, hlow, hvalue⟩ := hdigits n h
  have hall : ['0', '0', hexDigit (n / 16), hexDigit (n % 16)].all isHexDigit = true := by
    simp only [all_cons, all_nil, hhigh, hlow]
    decide
  have hfold : ['0', '0', hexDigit (n / 16), hexDigit (n % 16)].foldl
      (fun n c => 16 * n + hexValue c) 0 = n := by
    have hzero : hexValue '0' = 0 := by decide
    simpa [hzero] using hvalue
  rw [takeUnits, takeUnit, if_pos hall, hfold]
  simp only [bind_eq_bind, bind_some]
  rw [if_neg (by omega), if_neg (by omega)]

theorem parseChars_escape {n : ℕ} {c d : Char} {cs rest text tail : List Char}
    (h : parseChars n rest = some (text, tail))
    (hescape : takeEscape (d :: (cs ++ rest)) = some (c, rest)) :
    parseChars (n + 1) ('\\' :: d :: cs ++ rest) = some (c :: text, tail) := by
  rw [cons_append, cons_append, parseChars, if_neg (by decide), if_neg (by decide),
    if_pos rfl, hescape]
  simp [h]

/-- **A character** is read back. -/
theorem parseChars_escapeChar (c : Char) {n : ℕ} {rest text tail : List Char}
    (h : parseChars n rest = some (text, tail)) :
    parseChars (n + 1) (escapeChar c ++ rest) = some (c :: text, tail) := by
  rw [escapeChar]
  split_ifs with h₁ h₂ h₃ h₄ h₅ h₆ h₇ hcontrol
  · subst h₁
    exact parseChars_escape h rfl
  · subst h₂
    exact parseChars_escape h rfl
  · subst h₃
    exact parseChars_escape h rfl
  · subst h₄
    exact parseChars_escape h rfl
  · subst h₅
    exact parseChars_escape h rfl
  · subst h₆
    exact parseChars_escape h rfl
  · subst h₇
    exact parseChars_escape h rfl
  · refine parseChars_escape h ?_
    have hunit := takeUnits_control hcontrol rest
    rwa [Char.ofNat_toNat] at hunit
  · rw [singleton_append, parseChars, if_neg h₁, if_neg hcontrol, if_neg h₂]
    simp [h]

theorem length_escapeChar (c : Char) : 0 < (escapeChar c).length := by
  rw [escapeChar]
  split_ifs <;> exact Nat.succ_pos _

theorem parseChars_quoted (cs rest : List Char) {n : ℕ} (hn : (quoted cs).length ≤ n) :
    parseChars n (quoted cs ++ rest) = some (cs, rest) := by
  induction cs generalizing n with
  | nil =>
    obtain ⟨n, rfl⟩ := Nat.exists_eq_succ_of_ne_zero (show n ≠ 0 by rintro rfl; simp [quoted] at hn)
    rfl
  | cons c cs ih =>
    have hquoted : quoted (c :: cs) = escapeChar c ++ quoted cs := by simp [quoted]
    rw [hquoted, length_append] at hn
    have hlength := length_escapeChar c
    obtain ⟨n, rfl⟩ := Nat.exists_eq_succ_of_ne_zero (show n ≠ 0 by omega)
    rw [hquoted, append_assoc]
    exact parseChars_escapeChar c (ih (by omega))

/-! ### A number -/

/-- What comes after a number is no more of it. -/
def Ended (rest : List Char) : Prop :=
  ∀ c ∈ rest.head?, c.isDigit = false ∧ c ≠ '.' ∧ c ≠ 'e' ∧ c ≠ 'E'

theorem ended_cons {c : Char} (rest : List Char) (h : c ∈ [',', ']', '}']) :
    Ended (c :: rest) := by
  rintro d hd
  obtain rfl := some.inj hd
  simp only [mem_cons, not_mem_nil, or_false] at h
  rcases h with rfl | rfl | rfl <;> decide

theorem ended_nil : Ended [] := fun _ hc => absurd hc (by simp)

theorem head_toDigits {n : ℕ} (hn : n ≠ 0) : ∀ c ∈ (Nat.toDigits 10 n).head?, c ≠ '0' := by
  induction n using Nat.strong_induction_on with
  | _ n ih =>
    by_cases hlt : n < 10
    · rw [Nat.toDigits_of_lt_base hlt]
      have hdigit : ∀ n < 10, n ≠ 0 → Nat.digitChar n ≠ '0' := by decide
      rintro c hc
      obtain rfl := some.inj hc
      exact hdigit n hlt hn
    · rw [Nat.toDigits_of_base_le (by omega) (by omega),
        List.head?_append_of_ne_nil _ Nat.toDigits_ne_nil]
      exact ih (n / 10) (by omega) (by omega)

theorem takeDigits_append {digits rest : List Char} (hne : digits ≠ [])
    (hdigits : ∀ c ∈ digits, c.isDigit = true) (hrest : Ended rest) :
    takeDigits (digits ++ rest) = some (digits, rest) := by
  have hnone : rest.takeWhile Char.isDigit = [] ∧ rest.dropWhile Char.isDigit = rest := by
    cases rest with
    | nil => exact ⟨rfl, rfl⟩
    | cons c rest =>
      have hc : c.isDigit = false := (hrest c rfl).1
      exact ⟨takeWhile_cons_of_neg (by simp [hc]), dropWhile_cons_of_neg (by simp [hc])⟩
  rw [takeDigits, takeWhile_append_of_pos hdigits, dropWhile_append_of_pos hdigits,
    hnone.1, hnone.2, append_nil, if_neg hne]

theorem takeWhole_toDigits (n : ℕ) {rest : List Char} (hrest : Ended rest) :
    takeWhole (Nat.toDigits 10 n ++ rest) = some (Nat.toDigits 10 n, rest) := by
  by_cases hn : n = 0
  · subst hn
    rfl
  · have htake := takeDigits_append (Nat.toDigits_ne_nil (n := n) (b := 10))
      (fun c hc => Nat.isDigit_of_mem_toDigits (by omega) (by omega) hc) hrest
    obtain ⟨c, cs, hcs⟩ := exists_cons_of_ne_nil (Nat.toDigits_ne_nil (n := n) (b := 10))
    have hzero : c ≠ '0' := head_toDigits hn c (by rw [hcs]; rfl)
    rw [hcs] at htake ⊢
    rw [cons_append, takeWhole, ← cons_append, htake]
    rintro cs ⟨⟩
    exact hzero rfl

theorem takeFraction_ended {rest : List Char} (h : Ended rest) :
    takeFraction rest = some ([], rest) := by
  rw [takeFraction]
  rintro cs rfl
  exact (h '.' rfl).2.1 rfl

theorem takeExponent_ended {rest : List Char} (h : Ended rest) :
    takeExponent rest = some ([], rest) := by
  rw [takeExponent]
  · rintro cs rfl
    exact (h 'e' rfl).2.2.1 rfl
  · rintro cs rfl
    exact (h 'E' rfl).2.2.2 rfl

/-- **A natural number** is read back. -/
theorem parseNumber_toDigits (js : Js) {n : ℕ} (hn : n ≤ maxSafeInteger) {rest : List Char}
    (hrest : Ended rest) :
    parseNumber js (Nat.toDigits 10 n ++ rest) = some (.number (.finite n), rest) := by
  have hdigits : ∀ c ∈ Nat.toDigits 10 n, c.isDigit = true :=
    fun c hc => Nat.isDigit_of_mem_toDigits (by omega) (by omega) hc
  have hread : readNumber js (Nat.toDigits 10 n) = .number (.finite n) := by
    rw [readNumber, if_pos ⟨List.all_eq_true.mpr hdigits, by rwa [Nat.ofDigitChars_ten_toDigits]⟩,
      Nat.ofDigitChars_ten_toDigits]
  have hsign : ∀ cs, Nat.toDigits 10 n ++ rest ≠ '-' :: cs := by
    obtain ⟨c, cs, hcs⟩ := exists_cons_of_ne_nil (Nat.toDigits_ne_nil (n := n) (b := 10))
    have hc : c.isDigit = true := hdigits c (by rw [hcs]; exact mem_cons_self)
    rw [hcs]
    rintro tail ⟨⟩
    exact absurd hc (by decide)
  rw [parseNumber]
  · simp only [takeWhole_toDigits n hrest, takeFraction_ended hrest, takeExponent_ended hrest,
      bind_eq_bind, bind_some, append_nil, nil_append, hread]
  · exact hsign

/-! ### A value -/

/-- **A value is read back** as it was written, with what comes after it. It does not begin with
white space or with what ends a list or an object. -/
structure ReadsBack (js : Js) (value : JsValue) : Prop where
  head : ∃ c cs, stringify js value = c :: cs ∧ isSpace c = false ∧ c ≠ ']'
  read : ∀ (n : ℕ) (rest : List Char), (stringify js value).length ≤ n → Ended rest →
    parseValue js n (stringify js value ++ rest) = some (value, rest)

section ReadsBack

variable {js : Js} {value : JsValue}

theorem exists_fuel {n : ℕ} {c : Char} {cs : List Char} (h : (c :: cs).length ≤ n) :
    ∃ m, n = m + 1 ∧ cs.length ≤ m := by
  cases n with
  | zero => exact absurd h (by simp)
  | succ n => exact ⟨n, rfl, by simpa using h⟩

theorem readsBack_null : ReadsBack js .null := by
  refine ⟨⟨'n', String.toList "ull", rfl, by decide, by decide⟩, fun n rest hn _ => ?_⟩
  obtain ⟨n, rfl, -⟩ := @exists_fuel n 'n' (String.toList "ull") hn
  rfl

theorem readsBack_boolean (b : Bool) : ReadsBack js (.boolean b) := by
  cases b with
  | false =>
    refine ⟨⟨'f', String.toList "alse", rfl, by decide, by decide⟩, fun n rest hn _ => ?_⟩
    obtain ⟨n, rfl, -⟩ := @exists_fuel n 'f' (String.toList "alse") hn
    rfl
  | true =>
    refine ⟨⟨'t', String.toList "rue", rfl, by decide, by decide⟩, fun n rest hn _ => ?_⟩
    obtain ⟨n, rfl, -⟩ := @exists_fuel n 't' (String.toList "rue") hn
    rfl

theorem readsBack_string (s : String) : ReadsBack js (.string s) := by
  refine ⟨⟨'"', quoted s.toList, by rw [stringify], by decide, by decide⟩, fun n rest hn _ => ?_⟩
  rw [stringify] at hn ⊢
  obtain ⟨n, rfl, hlen⟩ := exists_fuel hn
  rw [cons_append, parseValue, skipSpace_cons (by decide)]
  simp only [parseChars_quoted s.toList rest hlen, map_some, String.ofList_toList]

theorem stringify_natural {n : ℕ} (hn : n ≤ maxSafeInteger) :
    stringify js (.number (.finite n)) = Nat.toDigits 10 n := by
  have hlt : (n : ℤ) < 10 ^ 21 := by
    have hbound : maxSafeInteger < 10 ^ 21 := by decide
    omega
  rw [stringify, numberText, Rat.den_natCast, Rat.num_natCast,
    if_pos ⟨rfl, Int.natCast_nonneg n, hlt⟩, Int.toNat_natCast]

theorem parseValue_digit {n : ℕ} {c : Char} (cs : List Char) (hc : c.isDigit = true) :
    parseValue js (n + 1) (c :: cs) = parseNumber js (c :: cs) := by
  have hspace : isSpace c = false := by
    rw [Bool.eq_false_iff]
    intro h
    simp only [isSpace, Bool.or_eq_true, decide_eq_true_eq] at h
    rcases h with ((rfl | rfl) | rfl) | rfl <;> exact absurd hc (by decide)
  rw [parseValue, skipSpace_cons hspace]
  split <;> first
    | rfl
    | (next h => obtain ⟨rfl, -⟩ := List.cons.inj h; exact absurd hc (by decide))

theorem readsBack_natural {n : ℕ} (hn : n ≤ maxSafeInteger) :
    ReadsBack js (.number (.finite n)) := by
  obtain ⟨c, cs, hcs⟩ := exists_cons_of_ne_nil (Nat.toDigits_ne_nil (n := n) (b := 10))
  have hc : c.isDigit = true :=
    Nat.isDigit_of_mem_toDigits (b := 10) (n := n) (by omega) (by omega)
      (by rw [hcs]; exact mem_cons_self)
  refine ⟨⟨c, cs, (stringify_natural hn).trans hcs, ?_, ?_⟩, fun fuel rest hfuel hrest => ?_⟩
  · rw [Bool.eq_false_iff]
    intro h
    simp only [isSpace, Bool.or_eq_true, decide_eq_true_eq] at h
    rcases h with ((rfl | rfl) | rfl) | rfl <;> exact absurd hc (by decide)
  · rintro rfl
    exact absurd hc (by decide)
  · rw [stringify_natural hn, hcs] at hfuel
    obtain ⟨fuel, rfl, -⟩ := exists_fuel hfuel
    rw [stringify_natural hn, ← parseNumber_toDigits js hn hrest, hcs]
    exact parseValue_digit _ hc

/-! ### A list -/

theorem parseItems_itemsText {items : List JsValue} {item : JsValue} {bound n : ℕ}
    {rest : List Char} (hitem : ReadsBack js item) (hitems : ∀ item ∈ items, ReadsBack js item)
    (hbound : (stringify js item ++ itemsText js false items).length ≤ bound)
    (hn : (stringify js item ++ itemsText js false items).length ≤ n) :
    parseItems (parseValue js bound) n (stringify js item ++ (itemsText js false items ++ rest)) =
      some (item :: items, rest) := by
  induction items generalizing item n with
  | nil =>
    rw [itemsText, length_append, length_singleton] at hbound hn
    obtain ⟨n, rfl⟩ := Nat.exists_eq_succ_of_ne_zero (show n ≠ 0 by omega)
    rw [itemsText, singleton_append, parseItems,
      hitem.read bound _ (by omega) (ended_cons rest (by decide))]
    simp only [bind_eq_bind, bind_some]
    rw [skipSpace_cons (by decide)]
    rfl
  | cons next items ih =>
    have htext : itemsText js false (next :: items) =
        ',' :: (stringify js next ++ itemsText js false items) := by
      rw [itemsText, if_neg (by decide), singleton_append, cons_append]
    rw [htext, length_append, length_cons] at hbound hn
    obtain ⟨n, rfl⟩ := Nat.exists_eq_succ_of_ne_zero (show n ≠ 0 by omega)
    obtain ⟨hnext, hitems⟩ := forall_mem_cons.mp hitems
    rw [htext, cons_append, parseItems,
      hitem.read bound _ (by omega) (ended_cons _ (by decide))]
    simp only [bind_eq_bind, bind_some]
    rw [skipSpace_cons (by decide)]
    simp only [append_assoc]
    rw [ih hnext hitems (by omega) (by omega)]
    rfl

/-- **A list** is read back, where its items are. -/
theorem readsBack_array {items : List JsValue} (h : ∀ item ∈ items, ReadsBack js item) :
    ReadsBack js (.array items) := by
  refine ⟨⟨'[', itemsText js true items, by rw [stringify], by decide, by decide⟩,
    fun n rest hn _ => ?_⟩
  rw [stringify] at hn ⊢
  obtain ⟨n, rfl, hlen⟩ := exists_fuel hn
  rw [cons_append, parseValue, skipSpace_cons (by decide)]
  cases items with
  | nil => rfl
  | cons item items =>
    obtain ⟨hitem, hitems⟩ := forall_mem_cons.mp h
    have htext : itemsText js true (item :: items) =
        stringify js item ++ itemsText js false items := by
      rw [itemsText, if_pos rfl, nil_append]
    rw [htext] at hlen ⊢
    obtain ⟨c, cs, hcs, hspace, hne⟩ := hitem.head
    have hread := @parseItems_itemsText js items item n n rest hitem hitems hlen hlen
    rw [append_assoc]
    rw [hcs, cons_append] at hread ⊢
    simp only [skipSpace_cons hspace]
    split
    · next heq => exact absurd (List.cons.inj heq).1 hne
    · rw [hread]
      rfl

/-! ### An object -/

theorem membersText_of_ne {first : Bool} {key : String} {fields : List (String × JsValue)}
    (h : value ≠ .undefined) :
    membersText js first ((key, value) :: fields) =
      (if first then [] else [',']) ++ '"' :: (quoted key.toList ++ ':' :: stringify js value) ++
        membersText js false fields := by
  rw [membersText]
  exact h

theorem membersText_cons {first : Bool} {key : String} {fields : List (String × JsValue)}
    (h : ReadsBack js value) :
    membersText js first ((key, value) :: fields) =
      (if first then [] else [',']) ++ '"' :: (quoted key.toList ++ ':' :: stringify js value) ++
        membersText js false fields := by
  refine membersText_of_ne ?_
  rintro rfl
  have hread := h.read 4 [] (by rw [stringify]; decide) ended_nil
  rw [append_nil, stringify] at hread
  cases hread

theorem parseMembers_membersText {fields : List (String × JsValue)} {key : String}
    {bound n : ℕ} {rest : List Char} (hvalue : ReadsBack js value)
    (hfields : ∀ field ∈ fields, ReadsBack js field.2)
    (hbound : (quoted key.toList ++ ':' :: (stringify js value ++
      membersText js false fields)).length ≤ bound)
    (hn : (quoted key.toList ++ ':' :: (stringify js value ++
      membersText js false fields)).length ≤ n) :
    parseMembers (parseValue js bound) n
        ('"' :: (quoted key.toList ++ ':' :: (stringify js value ++
          (membersText js false fields ++ rest)))) = some ((key, value) :: fields, rest) := by
  induction fields generalizing key value n with
  | nil =>
    simp only [membersText, length_append, length_cons, length_nil] at hbound hn
    obtain ⟨n, rfl⟩ := Nat.exists_eq_succ_of_ne_zero (show n ≠ 0 by omega)
    rw [parseMembers, skipSpace_cons (by decide)]
    simp only [membersText]
    rw [parseChars_quoted _ _ (by omega)]
    simp only [bind_eq_bind, bind_some]
    rw [skipSpace_cons (by decide)]
    simp only [singleton_append]
    rw [hvalue.read bound _ (by omega) (ended_cons rest (by decide))]
    simp only [bind_some]
    rw [skipSpace_cons (by decide)]
    simp only [String.ofList_toList]
  | cons next fields ih =>
    obtain ⟨hnext, hfields⟩ := forall_mem_cons.mp hfields
    have htext : membersText js false (next :: fields) =
        ',' :: '"' :: (quoted next.1.toList ++ ':' :: (stringify js next.2 ++
          membersText js false fields)) := by
      rw [show next = (next.1, next.2) from rfl, membersText_cons hnext]
      simp
    rw [htext] at hbound hn ⊢
    simp only [length_append, length_cons] at hbound hn ih
    obtain ⟨n, rfl⟩ := Nat.exists_eq_succ_of_ne_zero (show n ≠ 0 by omega)
    rw [parseMembers, skipSpace_cons (by decide)]
    simp only
    rw [parseChars_quoted _ _ (by omega)]
    simp only [bind_eq_bind, bind_some]
    rw [skipSpace_cons (by decide)]
    simp only [cons_append, append_assoc]
    rw [hvalue.read bound _ (by omega) (ended_cons _ (by decide))]
    simp only [bind_some]
    rw [skipSpace_cons (by decide)]
    simp only
    rw [ih hnext hfields (by omega) (by omega)]
    simp only [bind_some, String.ofList_toList]

theorem ofMembers_of_nodup {fields : List (String × JsValue)} (h : (fields.map (·.1)).Nodup) :
    ofMembers fields = .object fields := by
  have hnew : ∀ key ∈ fields.map (·.1), key ∉ (YMap.empty : YMap JsValue).keys :=
    fun key _ hmem => by simp [YMap.keys, YMap.empty, Keyed.empty] at hmem
  rw [ofMembers, YMap.rows_assign h hnew]
  simp [YMap.empty, Keyed.empty]

/-- **An object** is read back, where its members are. -/
theorem readsBack_object {fields : List (String × JsValue)} (hkeys : (fields.map (·.1)).Nodup)
    (h : ∀ field ∈ fields, ReadsBack js field.2) : ReadsBack js (.object fields) := by
  refine ⟨⟨'{', membersText js true fields, by rw [stringify], by decide, by decide⟩,
    fun n rest hn _ => ?_⟩
  rw [stringify] at hn ⊢
  obtain ⟨n, rfl, hlen⟩ := exists_fuel hn
  rw [cons_append, parseValue, skipSpace_cons (by decide)]
  cases fields with
  | nil => rfl
  | cons field fields =>
    obtain ⟨hfield, hfields⟩ := forall_mem_cons.mp h
    have htext : membersText js true (field :: fields) =
        '"' :: (quoted field.1.toList ++ ':' :: (stringify js field.2 ++
          membersText js false fields)) := by
      rw [show field = (field.1, field.2) from rfl, membersText_cons hfield]
      simp
    rw [htext] at hlen ⊢
    have hle := Nat.le_of_succ_le hlen
    have hread := @parseMembers_membersText js field.2 fields field.1 n n rest hfield hfields
      hle hle
    simp only [cons_append, append_assoc]
    rw [skipSpace_cons (by decide)]
    split
    · next heq => exact absurd (List.cons.inj heq).1 (by decide)
    · rw [hread, map_some, ofMembers_of_nodup hkeys]

/-! ### What JSON has a form for -/

/-- **A value is plain**: its numbers are natural ones, and nothing in it is `undefined`. -/
inductive IsPlain : JsValue → Prop
  | null : IsPlain .null
  | boolean (b : Bool) : IsPlain (.boolean b)
  | natural {n : ℕ} (hn : n ≤ maxSafeInteger) : IsPlain (.number (.finite n))
  | string (s : String) : IsPlain (.string s)
  | array {items : List JsValue} (h : ∀ item ∈ items, IsPlain item) : IsPlain (.array items)
  | object {fields : List (String × JsValue)} (hkeys : (fields.map (·.1)).Nodup)
      (h : ∀ field ∈ fields, IsPlain field.2) : IsPlain (.object fields)

theorem IsPlain.readsBack (h : IsPlain value) : ReadsBack js value := by
  induction h with
  | null => exact readsBack_null
  | boolean b => exact readsBack_boolean b
  | natural hn => exact readsBack_natural hn
  | string s => exact readsBack_string s
  | array _ ih => exact readsBack_array ih
  | object hkeys _ ih => exact readsBack_object hkeys ih

end ReadsBack

theorem ReadsBack.parse {js : Js} {value : JsValue} (h : ReadsBack js value) :
    parse js (stringify js value) = some value := by
  have hread := h.read (stringify js value).length [] le_rfl ended_nil
  rw [append_nil] at hread
  rw [Json.parse, hread]
  rfl

theorem parse_stringify (js : Js) {value : JsValue} (h : IsPlain value) :
    parse js (stringify js value) = some value :=
  h.readsBack.parse

/-! ### What is read of any value -/

mutual

/-- **What is read of a value** that is written: a number that is not finite is read as `null`. -/
def reading : JsValue → JsValue
  | .undefined | .null => .null
  | .boolean b => .boolean b
  | .number (.finite n) => .number (.finite n)
  | .number _ => .null
  | .string s => .string s
  | .array items => .array (readingItems items)
  | .object fields => .object (readingMembers fields)

def readingItems : List JsValue → List JsValue
  | [] => []
  | item :: items => reading item :: readingItems items

/-- What is read of the members of an object. One that is `undefined` is not there. -/
def readingMembers : List (String × JsValue) → List (String × JsValue)
  | [] => []
  | (_, .undefined) :: fields => readingMembers fields
  | (key, value) :: fields => (key, reading value) :: readingMembers fields

end

section Reading

variable {js : Js}

theorem readingItems_eq_map (items : List JsValue) : readingItems items = items.map reading := by
  induction items with
  | nil => rfl
  | cons item items ih => rw [readingItems, map_cons, ih]

theorem readingMembers_cons {key : String} {value : JsValue} {fields : List (String × JsValue)}
    (h : value ≠ .undefined) :
    readingMembers ((key, value) :: fields) = (key, reading value) :: readingMembers fields := by
  rw [readingMembers]
  exact h

theorem readingMembers_eq_map {fields : List (String × JsValue)}
    (h : ∀ field ∈ fields, field.2 ≠ .undefined) :
    readingMembers fields = fields.map fun field => (field.1, reading field.2) := by
  induction fields with
  | nil => rfl
  | cons field fields ih =>
    obtain ⟨hfield, hfields⟩ := forall_mem_cons.mp h
    rw [readingMembers_cons hfield, map_cons, ih hfields]

theorem reading_ne_undefined (value : JsValue) : reading value ≠ .undefined := by
  rcases value with _ | _ | b | n | s | items | fields
  case number => cases n <;> simp [reading]
  all_goals simp [reading]

mutual

theorem stringify_reading (js : Js) : ∀ value, stringify js (reading value) = stringify js value
  | .undefined => by simp only [reading, stringify]
  | .null => by simp only [reading]
  | .boolean b => by simp only [reading]
  | .number (.finite n) => by simp only [reading]
  | .number .nan => by simp only [reading, stringify, numberText]
  | .number (.infinity negative) => by simp only [reading, stringify, numberText]
  | .string s => by simp only [reading]
  | .array items => by simp only [reading, stringify, itemsText_reading js true items]
  | .object fields => by simp only [reading, stringify, membersText_reading js true fields]

theorem itemsText_reading (js : Js) (first : Bool) :
    ∀ items, itemsText js first (readingItems items) = itemsText js first items
  | [] => by rw [readingItems]
  | item :: items => by
    rw [readingItems, itemsText, itemsText, stringify_reading js item,
      itemsText_reading js false items]

theorem membersText_reading (js : Js) (first : Bool) :
    ∀ fields, membersText js first (readingMembers fields) = membersText js first fields
  | [] => by rw [readingMembers]
  | (key, value) :: fields => by
    by_cases h : value = .undefined
    · subst h
      rw [readingMembers, membersText, membersText_reading js first fields]
    · rw [readingMembers_cons h, membersText_of_ne (reading_ne_undefined value),
        membersText_of_ne h, stringify_reading js value, membersText_reading js false fields]

end

/-- **The language reads back a number** that it writes, which it does without control
characters. -/
structure Writes (js : Js) (n : ℚ) : Prop where
  readsBack : ReadsBack js (.number (.finite n))
  visible : ∀ c ∈ stringify js (.number (.finite n)), 0x20 ≤ c.toNat

/-- **A value is data**: the language reads back its numbers, and an object has no key twice. -/
inductive IsData (js : Js) : JsValue → Prop
  | undefined : IsData js .undefined
  | null : IsData js .null
  | boolean (b : Bool) : IsData js (.boolean b)
  | number {n : JsNumber} (h : ∀ q, n = .finite q → Writes js q) : IsData js (.number n)
  | string (s : String) : IsData js (.string s)
  | array {items : List JsValue} (h : ∀ item ∈ items, IsData js item) : IsData js (.array items)
  | object {fields : List (String × JsValue)} (hkeys : (fields.map (·.1)).Nodup)
      (h : ∀ field ∈ fields, IsData js field.2) : IsData js (.object fields)

theorem keys_readingMembers (fields : List (String × JsValue)) :
    ((readingMembers fields).map (·.1)).Sublist (fields.map (·.1)) := by
  induction fields with
  | nil => exact List.Sublist.slnil
  | cons field fields ih =>
    by_cases h : field.2 = .undefined
    · rw [show field = (field.1, .undefined) from Prod.ext rfl h, readingMembers]
      exact ih.cons _
    · rw [show field = (field.1, field.2) from rfl, readingMembers_cons h]
      exact ih.cons_cons _

theorem mem_readingMembers {fields : List (String × JsValue)} {field : String × JsValue}
    (h : field ∈ readingMembers fields) : ∃ from' ∈ fields, field.2 = reading from'.2 := by
  induction fields with
  | nil => simp [readingMembers] at h
  | cons first fields ih =>
    by_cases hfirst : first.2 = .undefined
    · rw [show first = (first.1, .undefined) from Prod.ext rfl hfirst, readingMembers] at h
      obtain ⟨from', hmem, heq⟩ := ih h
      exact ⟨from', mem_cons_of_mem _ hmem, heq⟩
    · rw [show first = (first.1, first.2) from rfl, readingMembers_cons hfirst] at h
      rcases mem_cons.mp h with rfl | h
      · exact ⟨first, mem_cons_self, rfl⟩
      · obtain ⟨from', hmem, heq⟩ := ih h
        exact ⟨from', mem_cons_of_mem _ hmem, heq⟩

theorem IsData.readsBack {value : JsValue} (h : IsData js value) :
    ReadsBack js (reading value) := by
  induction h with
  | undefined => exact readsBack_null
  | null => exact readsBack_null
  | boolean b => exact readsBack_boolean b
  | @number n h =>
    rcases n with q | _ | negative
    · exact (h q rfl).readsBack
    · exact readsBack_null
    · exact readsBack_null
  | string s => exact readsBack_string s
  | @array items _ ih =>
    rw [reading, readingItems_eq_map]
    refine readsBack_array fun item hitem => ?_
    obtain ⟨from', hmem, rfl⟩ := List.mem_map.mp hitem
    exact ih from' hmem
  | @object fields hkeys _ ih =>
    refine readsBack_object (hkeys.sublist (keys_readingMembers fields)) fun field hfield => ?_
    obtain ⟨from', hmem, heq⟩ := mem_readingMembers hfield
    rw [heq]
    exact ih from' hmem

theorem IsData.parse {value : JsValue} (h : IsData js value) :
    parse js (stringify js value) = some (reading value) := by
  rw [← stringify_reading]
  exact h.readsBack.parse

/-! ### Members that may be missing -/

def present (fields : List (String × Option JsValue)) : List (String × JsValue) :=
  fields.filterMap fun field => field.2.map fun value => (field.1, value)

section Present

variable {fields : List (String × Option JsValue)} {key : String}

theorem keys_present (fields : List (String × Option JsValue)) :
    ((present fields).map (·.1)).Sublist (fields.map (·.1)) := by
  induction fields with
  | nil => exact List.Sublist.slnil
  | cons field fields ih =>
    rw [present, filterMap_cons]
    cases field.2 with
    | none => exact ih.cons _
    | some value => exact ih.cons_cons _

theorem get_present (h : (fields.map (·.1)).Nodup) : (JsValue.object (present fields)).get key =
    ((fields.find? fun field => field.1 = key).bind (·.2)).getD .undefined := by
  have hfind : ((present fields).find? fun field => field.1 = key).map (·.2) =
      (fields.find? fun field => field.1 = key).bind (·.2) := by
    induction fields with
    | nil => rfl
    | cons field fields ih =>
      obtain ⟨hnew, hnodup⟩ := nodup_cons.mp h
      have hcons : present (field :: fields) =
          (field.2.map fun value => (field.1, value)).toList ++ present fields := by
        rw [present, filterMap_cons, present]
        cases field.2 <;> rfl
      rw [hcons]
      by_cases hkey : field.1 = key
      · rw [List.find?_cons_of_pos (by simpa using hkey)]
        cases hvalue : field.2 with
        | some value => simp [hkey, hvalue]
        | none =>
          have hnone : fields.find? (fun field => field.1 = key) = none := by
            rw [List.find?_eq_none]
            intro other hother heq
            exact hnew (List.mem_map.mpr ⟨other, hother, (of_decide_eq_true heq).trans hkey.symm⟩)
          simp [ih hnodup, hnone, hvalue]
      · rw [List.find?_cons_of_neg (by simpa using hkey), ← ih hnodup]
        cases field.2 <;> simp [hkey]
  rw [JsValue.get, hfind]

/-- What is read of an object is read of its members, of which none is `undefined`. -/
theorem reading_present (h : ∀ field ∈ fields, field.2 ≠ some .undefined) :
    reading (.object (present fields)) =
      .object (present (fields.map fun field => (field.1, field.2.map reading))) := by
  have hdefined : ∀ field ∈ present fields, field.2 ≠ .undefined := by
    intro field hfield heq
    obtain ⟨from', hmem, hfrom⟩ := mem_filterMap.mp hfield
    obtain ⟨value, hvalue, hsame⟩ := map_eq_some_iff.mp hfrom
    have hundefined : value = .undefined := by rwa [← hsame] at heq
    exact h from' hmem (hundefined ▸ hvalue)
  rw [reading, readingMembers_eq_map hdefined, present, present, map_filterMap,
    filterMap_map]
  congr 2
  funext field
  cases hvalue : field.2 <;> simp [hvalue]

end Present

/-! ### No control characters -/

theorem visible_of_all {cs : List Char} (h : (cs.all fun c => 0x20 ≤ c.toNat) = true) :
    ∀ c ∈ cs, 0x20 ≤ c.toNat :=
  fun c hc => of_decide_eq_true (List.all_eq_true.mp h c hc)

theorem visible_escapeChar {c d : Char} (h : c ∈ escapeChar d) : 0x20 ≤ c.toNat := by
  have hdigit : ∀ n < 16, 0x20 ≤ (hexDigit n).toNat := by decide
  rw [escapeChar] at h
  split_ifs at h with h₁ h₂ h₃ h₄ h₅ h₆ h₇ hcontrol
  · exact @visible_of_all ['\\', '"'] (by decide) c h
  · exact @visible_of_all ['\\', '\\'] (by decide) c h
  · exact @visible_of_all ['\\', 'b'] (by decide) c h
  · exact @visible_of_all ['\\', 'f'] (by decide) c h
  · exact @visible_of_all ['\\', 'n'] (by decide) c h
  · exact @visible_of_all ['\\', 'r'] (by decide) c h
  · exact @visible_of_all ['\\', 't'] (by decide) c h
  · rcases mem_append.mp (show c ∈ ['\\', 'u', '0', '0'] ++
      [hexDigit (d.toNat / 16), hexDigit (d.toNat % 16)] from h) with h | h
    · exact @visible_of_all ['\\', 'u', '0', '0'] (by decide) c h
    · rcases mem_cons.mp h with rfl | h
      · exact hdigit _ (by omega)
      · exact mem_singleton.mp h ▸ hdigit _ (by omega)
  · obtain rfl := mem_singleton.mp h
    omega

theorem visible_quoted {c : Char} {cs : List Char} (h : c ∈ quoted cs) : 0x20 ≤ c.toNat := by
  rcases mem_append.mp h with h | h
  · obtain ⟨d, -, hd⟩ := mem_flatMap.mp h
    exact visible_escapeChar hd
  · obtain rfl := mem_singleton.mp h
    decide

theorem visible_itemsText {first : Bool} {items : List JsValue}
    (h : ∀ item ∈ items, ∀ c ∈ stringify js item, 0x20 ≤ c.toNat) :
    ∀ c ∈ itemsText js first items, 0x20 ≤ c.toNat := by
  induction items generalizing first with
  | nil =>
    intro c hc
    rw [itemsText, mem_singleton] at hc
    exact hc ▸ (by decide)
  | cons item items ih =>
    obtain ⟨hitem, hitems⟩ := forall_mem_cons.mp h
    intro c hc
    rw [itemsText, mem_append, mem_append] at hc
    rcases hc with (hc | hc) | hc
    · cases first with
      | true => simp at hc
      | false => exact mem_singleton.mp hc ▸ (by decide)
    · exact hitem c hc
    · exact ih hitems c hc

theorem visible_membersText {first : Bool} {fields : List (String × JsValue)}
    (h : ∀ field ∈ fields, ∀ c ∈ stringify js field.2, 0x20 ≤ c.toNat) :
    ∀ c ∈ membersText js first fields, 0x20 ≤ c.toNat := by
  induction fields generalizing first with
  | nil =>
    intro c hc
    rw [membersText, mem_singleton] at hc
    exact hc ▸ (by decide)
  | cons field fields ih =>
    obtain ⟨hfield, hfields⟩ := forall_mem_cons.mp h
    obtain ⟨key, value⟩ := field
    intro c hc
    by_cases hvalue : value = .undefined
    · rw [hvalue, membersText] at hc
      exact ih hfields c hc
    · rw [membersText_of_ne hvalue] at hc
      simp only [mem_append, mem_cons] at hc
      rcases hc with (hc | rfl | hc | rfl | hc) | hc
      · cases first with
        | true => simp at hc
        | false => exact mem_singleton.mp hc ▸ (by decide)
      · decide
      · exact visible_quoted hc
      · decide
      · exact hfield c hc
      · exact ih hfields c hc

/-- **A text of data** is one line. -/
theorem IsData.visible {value : JsValue} (h : IsData js value) :
    ∀ c ∈ stringify js value, 0x20 ≤ c.toNat := by
  have hnull : ∀ c ∈ String.toList "null", 0x20 ≤ c.toNat := visible_of_all (by decide)
  induction h with
  | undefined => simpa only [stringify] using hnull
  | null => simpa only [stringify] using hnull
  | boolean b =>
    have hall : ∀ c ∈ String.toList (if b then "true" else "false"), 0x20 ≤ c.toNat := by
      cases b <;> exact visible_of_all (by decide)
    simpa only [stringify] using hall
  | @number n h =>
    rcases n with q | _ | negative
    · exact (h q rfl).visible
    · simpa only [stringify, numberText] using hnull
    · simpa only [stringify, numberText] using hnull
  | string s =>
    intro c hc
    rw [stringify] at hc
    rcases mem_cons.mp hc with rfl | hc
    · decide
    · exact visible_quoted hc
  | array _ ih =>
    intro c hc
    rw [stringify] at hc
    rcases mem_cons.mp hc with rfl | hc
    · decide
    · exact visible_itemsText ih c hc
  | object _ _ ih =>
    intro c hc
    rw [stringify] at hc
    rcases mem_cons.mp hc with rfl | hc
    · decide
    · exact visible_membersText ih c hc

theorem writes_natural {n : ℕ} (hn : n ≤ maxSafeInteger) : Writes js n where
  readsBack := readsBack_natural hn
  visible := fun c hc => by
    rw [stringify_natural hn] at hc
    have hdigit := Nat.isDigit_of_mem_toDigits (b := 10) (by omega) (by omega) hc
    rw [Char.isDigit, Bool.and_eq_true, decide_eq_true_eq, decide_eq_true_eq] at hdigit
    have hge : '0'.toNat ≤ c.toNat := hdigit.1
    exact le_trans (by decide) hge

end Reading

end Json

end Sone
