import Sone.Doc.Shared

/-!
# Strings as JavaScript has them

The strings of the source are sequences of UTF-16 units, and are cut and measured in these.
What of the language depends on its tables or on the platform (letter case, the order of a
locale, dates, numbers in words, `JSON.parse`) is a parameter, `Js`.

`normaliseText` and `propsToText` are those of `materialize/plainText.ts`.
-/

namespace Sone

open List Option

theorem mapM_isSome_iff {α β : Type*} {f : α → Option β} {l : List α} :
    (l.mapM f).isSome = true ↔ ∀ a ∈ l, (f a).isSome = true := by
  induction l with
  | nil => simp
  | cons a l ih =>
    rw [mapM_cons, forall_mem_cons, ← ih]
    cases f a with
    | none => simp
    | some b => cases l.mapM f <;> simp

theorem mem_of_mapM {α β : Type*} {f : α → Option β} {l : List α} {l' : List β} {a : α} {b : β}
    (h : l.mapM f = some l') (ha : a ∈ l) (hb : f a = some b) : b ∈ l' := by
  induction l generalizing l' with
  | nil => simp at ha
  | cons first l ih =>
    rw [mapM_cons] at h
    obtain ⟨firstRead, hfirst, h⟩ := bind_eq_some_iff.mp h
    obtain ⟨rest, hrest, h⟩ := bind_eq_some_iff.mp h
    obtain rfl : firstRead :: rest = l' := some.inj h
    rcases mem_cons.mp ha with rfl | ha
    · rw [hb, Option.some.injEq] at hfirst
      exact hfirst ▸ mem_cons_self
    · exact mem_cons_of_mem _ (ih hrest ha)

theorem exists_of_mem_mapM {α β : Type*} {f : α → Option β} {l : List α} {l' : List β} {b : β}
    (h : l.mapM f = some l') (hb : b ∈ l') : ∃ a ∈ l, f a = some b := by
  induction l generalizing l' with
  | nil =>
    obtain rfl := some.inj h
    exact absurd hb not_mem_nil
  | cons first l ih =>
    rw [mapM_cons] at h
    obtain ⟨firstRead, hfirst, h⟩ := bind_eq_some_iff.mp h
    obtain ⟨rest, hrest, h⟩ := bind_eq_some_iff.mp h
    obtain rfl : firstRead :: rest = l' := some.inj h
    rcases mem_cons.mp hb with rfl | hb
    · exact ⟨first, mem_cons_self, hfirst⟩
    · obtain ⟨a, ha, hread⟩ := ih hrest hb
      exact ⟨a, mem_cons_of_mem _ ha, hread⟩

/-! ### Units -/

def Char.units (c : Char) : List ℕ :=
  if c.toNat < 0x10000 then [c.toNat]
  else [0xd800 + (c.toNat - 0x10000) / 0x400, 0xdc00 + (c.toNat - 0x10000) % 0x400]

namespace JsString

def units (s : String) : List ℕ := s.toList.flatMap Char.units

def length (s : String) : ℕ := (units s).length

/-- `a <= b`, by units. -/
def le (a b : String) : Bool := !decide (units b < units a)

/-- The characters of the first units. Half of a pair is written as U+FFFD. -/
def takeUnits : ℕ → List Char → List Char
  | _, [] => []
  | 0, _ => []
  | n + 1, c :: cs =>
    if (Char.units c).length = 1 then c :: takeUnits n cs
    else match n with
      | 0 => ['\uFFFD']
      | n + 1 => c :: takeUnits n cs

/-- `s.slice(0, n)` -/
def slice (n : ℕ) (s : String) : String := String.ofList (takeUnits n s.toList)

/-- `\s` -/
def isSpace (c : Char) : Bool :=
  c.toNat ∈ [0x09, 0x0a, 0x0b, 0x0c, 0x0d, 0x20, 0xa0, 0x1680, 0x2028, 0x2029, 0x202f, 0x205f,
    0x3000, 0xfeff] || (0x2000 ≤ c.toNat && c.toNat ≤ 0x200a)

def trim (s : String) : String :=
  String.ofList (((s.toList.dropWhile isSpace).reverse.dropWhile isSpace).reverse)

/-- The characters with every run of spaces replaced by one blank. -/
def collapse : Bool → List Char → List Char
  | _, [] => []
  | inRun, c :: cs =>
    if isSpace c then (if inRun then collapse true cs else ' ' :: collapse true cs)
    else c :: collapse false cs

/-- `s.replace(/\s+/g, ' ')` -/
def collapseSpaces (s : String) : String := String.ofList (collapse false s.toList)

/-- `parts.join(separator)` -/
def join (separator : String) (parts : List String) : String := separator.intercalate parts

end JsString

/-- **What the language supplies** besides what is modelled. The objects of a document are
plain ones: none has a `toString` or a `valueOf` of its own. -/
structure Js where
  /-- `s.toLowerCase()` -/
  lowerCase : String → String
  /-- `a.localeCompare(b) <= 0` -/
  localeLe : String → String → Bool
  /-- `String(value)` -/
  toText : JsValue → String
  /-- `Number(value)` -/
  toNumber : JsValue → JsNumber
  /-- `Number.parseInt(s, 10)`, where it is not `NaN`. -/
  parseInt : String → Option ℤ
  /-- `new Date(s).getTime()`, where it is not `NaN`. -/
  parseDate : String → Option ℤ
  /-- `JSON.parse(s)`, where it does not throw. -/
  parseJson : String → Option JsValue

/-- The language where texts are ASCII, numbers are whole, lists are written as nothing and no
text is a number or a date. -/
def Js.ascii : Js where
  lowerCase := String.toLower
  localeLe := fun a b => a ≤ b
  toText
    | .string s => s
    | .boolean b => if b then "true" else "false"
    | .undefined => "undefined"
    | .null => "null"
    | .number (.finite n) => toString n.num
    | .number .nan => "NaN"
    | .number (.infinity negative) => if negative then "-Infinity" else "Infinity"
    | .array _ => ""
    | .object _ => "[object Object]"
  toNumber
    | .number n => n
    | _ => .nan
  parseInt := fun _ => none
  parseDate := fun _ => none
  parseJson := fun _ => none

/-! ### Ids -/

/-- `[0-9a-f]`, in either case. -/
def isHexDigit (c : Char) : Bool :=
  ('0' ≤ c && c ≤ '9') || ('a' ≤ c && c ≤ 'f') || ('A' ≤ c && c ≤ 'F')

/-- The value of a hexadecimal digit, of either case. -/
def hexValue (c : Char) : ℕ :=
  if c ≤ '9' then c.toNat - '0'.toNat
  else if c ≤ 'F' then c.toNat - 'A'.toNat + 10
  else c.toNat - 'a'.toNat + 10

def hexDigit (n : ℕ) : Char := (String.toList "0123456789abcdef").getD n '0'

/-- What is left after a number of hexadecimal digits. -/
def takeHex : ℕ → List Char → Option (List Char)
  | 0, cs => some cs
  | n + 1, c :: cs => if isHexDigit c then takeHex n cs else none
  | _ + 1, [] => none

def takeDash : List Char → Option (List Char)
  | '-' :: cs => some cs
  | _ => none

/-- What is left after a uuid: groups of 8, 4, 4, 4 and 12 digits. -/
def takeUuid (cs : List Char) : Option (List Char) := do
  let cs ← takeDash (← takeHex 8 cs)
  let cs ← takeDash (← takeHex 4 cs)
  let cs ← takeDash (← takeHex 4 cs)
  let cs ← takeDash (← takeHex 4 cs)
  takeHex 12 cs

def isUuidText (s : String) : Bool := takeUuid s.toList = some []

theorem mem_of_takeHex {n : ℕ} {cs rest : List Char} (h : takeHex n cs = some rest) :
    ∀ c ∈ cs, isHexDigit c = true ∨ c ∈ rest := by
  induction n generalizing cs with
  | zero =>
    obtain rfl := some.inj h
    exact fun c hc => .inr hc
  | succ n ih =>
    cases cs with
    | nil => simp [takeHex] at h
    | cons first cs =>
      rw [takeHex] at h
      split at h
      · rename_i hfirst
        intro c hc
        rcases mem_cons.mp hc with rfl | hc
        · exact .inl hfirst
        · exact ih h c hc
      · simp at h

theorem mem_of_takeDash {cs rest : List Char} (h : takeDash cs = some rest) :
    ∀ c ∈ cs, c = '-' ∨ c ∈ rest := by
  cases cs with
  | nil => exact fun c hc => absurd hc not_mem_nil
  | cons first cs =>
    by_cases hdash : first = '-'
    · subst hdash
      obtain rfl := some.inj h
      exact fun c hc => mem_cons.mp hc
    · have hnone : takeDash (first :: cs) = none := by
        rw [takeDash]
        rintro rest ⟨⟩
        exact hdash rfl
      rw [hnone] at h
      cases h

/-- **A uuid** is hexadecimal digits and dashes. -/
theorem mem_of_isUuidText {s : String} (h : isUuidText s = true) :
    ∀ c ∈ s.toList, isHexDigit c = true ∨ c = '-' := by
  have htake : takeUuid s.toList = some [] := of_decide_eq_true h
  simp only [takeUuid, bind_eq_bind, bind_eq_some_iff] at htake
  obtain ⟨a, ha, b, hb, c, hc, d, hd, e, he, f, hf, g, hg, i, hi, hj⟩ := htake
  intro x hx
  have hdash : ∀ {l l' : List Char}, takeDash l = some l' → x ∈ l → x = '-' ∨ x ∈ l' :=
    fun h hx => mem_of_takeDash h x hx
  have hhex : ∀ {n : ℕ} {l l' : List Char}, takeHex n l = some l' → x ∈ l →
      isHexDigit x = true ∨ x ∈ l' := fun h hx => mem_of_takeHex h x hx
  rcases hhex ha hx with hx | hx
  · exact .inl hx
  rcases hdash hb hx with hx | hx
  · exact .inr hx
  rcases hhex hc hx with hx | hx
  · exact .inl hx
  rcases hdash hd hx with hx | hx
  · exact .inr hx
  rcases hhex he hx with hx | hx
  · exact .inl hx
  rcases hdash hf hx with hx | hx
  · exact .inr hx
  rcases hhex hg hx with hx | hx
  · exact .inl hx
  rcases hdash hi hx with hx | hx
  · exact .inr hx
  rcases hhex hj hx with hx | hx
  · exact .inl hx
  · simp at hx

/-! ### Values -/

namespace JsValue

/-- `value[key]`, of a value that is not nullish. -/
def get (key : String) : JsValue → JsValue
  | object fields => ((fields.find? fun field => field.1 = key).map (·.2)).getD undefined
  | _ => undefined

/-- `Boolean(value)` -/
def truthy : JsValue → Bool
  | undefined | null => false
  | boolean b => b
  | number (.finite n) => n ≠ 0
  | number .nan => false
  | number (.infinity _) => true
  | string s => s ≠ ""
  | array _ | object _ => true

/-- `typeof value === 'object' && value && !Array.isArray(value)` -/
def isObject : JsValue → Bool
  | object _ => true
  | _ => false

def finite? : JsValue → Option ℚ
  | number (.finite n) => some n
  | _ => none

end JsValue

def JsNumber.isPositive : JsNumber → Bool
  | .finite n => 0 < n
  | .nan => false
  | .infinity negative => !negative

/-! ### `plainText.ts` -/

/-- Whether a character is one `normaliseText` takes for a blank. -/
def isControl (c : Char) : Bool :=
  c.toNat ≤ 0x08 || c.toNat = 0x0b || c.toNat = 0x0c || (0x0e ≤ c.toNat && c.toNat ≤ 0x1f) ||
    c.toNat = 0x7f

/-- `MAX_BLOCK_TEXT` -/
def maxBlockText : ℕ := 64 * 1024

def normaliseText (raw : String) : String :=
  JsString.slice maxBlockText <| JsString.trim <| JsString.collapseSpaces <|
    String.ofList (raw.toList.map fun c => if isControl c then ' ' else c)

/-- `pick`: the properties that are strings. -/
def pickProps (props : JsValue) (keys : List String) : String :=
  JsString.join " " (keys.filterMap fun key => (props.get key).string?)

def propsToText (type : String) (props : JsValue) : String :=
  match type with
  | "code" => pickProps props ["source", "language"]
  | "image" | "file" => pickProps props ["alt", "caption", "filename"]
  | "embed" => pickProps props ["url", "caption"]
  | "callout" => pickProps props ["emoji"]
  | _ => ""

/-- Whether a text column **takes** a string: it has no NUL. -/
def IsText (s : String) : Prop := Char.ofNat 0 ∉ s.toList

instance decidableIsText (s : String) : Decidable (IsText s) := inferInstanceAs (Decidable (_ ∉ _))

theorem mem_takeUnits {n : ℕ} {cs : List Char} {c : Char} (h : c ∈ JsString.takeUnits n cs) :
    c ∈ cs ∨ c = '\uFFFD' := by
  fun_induction JsString.takeUnits n cs with
  | case1 => simp at h
  | case2 => simp at h
  | case3 n c' cs hone ih =>
    rcases mem_cons.mp h with rfl | h
    · exact .inl mem_cons_self
    · exact (ih h).imp_left (mem_cons_of_mem _)
  | case4 c' cs hpair => exact .inr (mem_singleton.mp h)
  | case5 c' cs hpair n ih =>
    rcases mem_cons.mp h with rfl | h
    · exact .inl mem_cons_self
    · exact (ih h).imp_left (mem_cons_of_mem _)

theorem mem_collapse {inRun : Bool} {cs : List Char} {c : Char}
    (h : c ∈ JsString.collapse inRun cs) : c ∈ cs ∧ JsString.isSpace c = false ∨ c = ' ' := by
  have hlater : ∀ {d : Char} {cs : List Char}, c ∈ cs ∧ JsString.isSpace c = false ∨ c = ' ' →
      c ∈ d :: cs ∧ JsString.isSpace c = false ∨ c = ' ' :=
    fun h => h.imp_left fun hmem => ⟨mem_cons_of_mem _ hmem.1, hmem.2⟩
  fun_induction JsString.collapse inRun cs with
  | case1 => simp at h
  | case2 c' cs hspace ih => exact hlater (ih h)
  | case3 inRun c' cs hspace hfirst ih =>
    rcases mem_cons.mp h with rfl | h
    · exact .inr rfl
    · exact hlater (ih h)
  | case4 inRun c' cs hspace ih =>
    rcases mem_cons.mp h with rfl | h
    · exact .inl ⟨mem_cons_self, Bool.eq_false_iff.mpr hspace⟩
    · exact hlater (ih h)

theorem head_dropWhile {p : Char → Bool} {cs : List Char} :
    ∀ c ∈ (cs.dropWhile p).head?, p c = false := by
  intro c hc
  have hnot := List.head?_dropWhile_not p cs
  rw [mem_def.mp hc] at hnot
  simpa using hnot

theorem eq_false_of_dropWhile {p : Char → Bool} {c : Char} {cs rest : List Char}
    (h : cs.dropWhile p = c :: rest) : p c = false :=
  head_dropWhile c (by rw [h]; rfl)

theorem mem_of_mem_trim {s : String} {c : Char} (h : c ∈ (JsString.trim s).toList) :
    c ∈ s.toList := by
  rw [JsString.trim, String.toList_ofList, mem_reverse] at h
  have hmem := mem_reverse.mp ((dropWhile_sublist _).mem h)
  exact (dropWhile_sublist _).mem hmem

end Sone
