import Mathlib.Algebra.GroupWithZero.Nat
import Sone.Formula.RoundTrip

/-!
# Completing a column's name

`applyCompletion` puts a column's name in the place of the word at the caret. It brackets the name
where it has a space, and a name without brackets is read only where it is one word: so the two
agree on fewer names than a collection can have (`refersTo_iff`).

What is around the word is cut as before (`Lexes.append`), since the word is all of a name that
ends there (`breaks_of_partialWord`). What the tokens derive does not depend on which column they
name, or whether in brackets (`Derives.recolumn`); only a reserved word derives something else,
which `Derives.words` counts.
-/

namespace Sone

open List

variable {js : Js} {u : Unicode}

/-! ### The completion -/

/-- `s.slice(n)`: the characters from a unit on. Half of a pair is written as U+FFFD. -/
def JsString.dropUnits : ℕ → List Char → List Char
  | _, [] => []
  | 0, cs => cs
  | n + 1, c :: cs =>
    if (Char.units c).length = 1 then dropUnits n cs
    else match n with
      | 0 => '\uFFFD' :: cs
      | n + 1 => dropUnits n cs

/-- `/[\p{L}_][\p{L}\p{N}_]*$/u`: the word a text ends in. -/
def partialWord (u : Unicode) (before : List Char) : List Char :=
  (before.reverse.takeWhile (inName u)).reverse.dropWhile fun c => !(u.letter c || c = '_')

inductive CompletionKind where
  | column
  | function
deriving DecidableEq, Repr

def inserted (value : String) : CompletionKind → List Char
  | .function => value.toList ++ ['(']
  | .column =>
    if value.toList.any JsString.isSpace then '[' :: (value.toList ++ [']']) else value.toList

/-- `applyCompletion`: the text, and where the caret goes. -/
def applyCompletion (u : Unicode) (text : List Char) (caret : ℕ) (value : String)
    (kind : CompletionKind) : List Char × ℕ :=
  let before := JsString.takeUnits caret text
  let word := partialWord u before
  let start := caret - textWidth word
  (JsString.takeUnits start text ++ inserted value kind ++ JsString.dropUnits caret text,
    start + textWidth (inserted value kind))

theorem takeUnits_append (cs rest : List Char) :
    JsString.takeUnits (textWidth cs) (cs ++ rest) = cs ∧
      JsString.dropUnits (textWidth cs) (cs ++ rest) = rest := by
  induction cs with
  | nil => cases rest <;> simp [textWidth, JsString.takeUnits, JsString.dropUnits]
  | cons c cs ih =>
    rw [textWidth_cons]
    by_cases hc : c.toNat < 0x10000
    · have hone : textWidth [c] + textWidth cs = textWidth cs + 1 := by
        rw [textWidth_one hc]
        exact Nat.add_comm _ _
      have hunits : (Char.units c).length = 1 := by simp [Char.units, hc]
      rw [hone, cons_append, JsString.takeUnits.eq_def, JsString.dropUnits.eq_def]
      simp [hunits, ih.1, ih.2]
    · have htwo : textWidth [c] + textWidth cs = textWidth cs + 1 + 1 := by
        simp only [textWidth, Char.units, hc, flatMap_cons, flatMap_nil, if_false,
          append_nil, length_cons, length_nil]
        omega
      have hunits : (Char.units c).length ≠ 1 := by simp [Char.units, hc]
      rw [htwo, cons_append, JsString.takeUnits.eq_def, JsString.dropUnits.eq_def]
      simp [hunits, ih.1, ih.2]

theorem applyCompletion_eq {head word after : List Char}
    (hword : partialWord u (head ++ word) = word) (value : String) (kind : CompletionKind) :
    applyCompletion u (head ++ word ++ after) (textWidth (head ++ word)) value kind =
      (head ++ inserted value kind ++ after, textWidth head + textWidth (inserted value kind)) := by
  obtain ⟨htake, hdrop⟩ := takeUnits_append (head ++ word) after
  have hstart : textWidth (head ++ word) - textWidth word = textWidth head := by
    rw [textWidth_append]
    omega
  have hbefore := (takeUnits_append head (word ++ after)).1
  rw [← append_assoc] at hbefore
  rw [applyCompletion, htake, hdrop, hword, hstart, hbefore]

/-- `formulaParse.test.ts`: a column with a space has its brackets. -/
example : applyCompletion .asciiOnly "Menge * Pr".toList 10 "Preis netto" .column =
    ("Menge * [Preis netto]".toList, 21) := by decide +kernel

/-! ### What is before the word -/

theorem inName_of_mem_partialWord {before : List Char} :
    ∀ c ∈ partialWord u before, inName u c = true := by
  intro c hc
  have hrun := mem_reverse.mp ((dropWhile_suffix _).subset hc)
  exact mem_takeWhile_imp hrun

theorem length_le_dropWhile {p : Char → Bool} {c : Char} (hc : p c = false)
    (run rest : List Char) : (c :: rest).length ≤ ((run ++ c :: rest).dropWhile p).length := by
  rw [dropWhile_append, dropWhile_cons_of_neg (by simp [hc])]
  split
  · exact le_rfl
  · rw [length_append]
    exact Nat.le_add_left _ _

/-- **No name ends where the word begins**: it would be a part of the word. -/
theorem not_endsInName {head word : List Char} (hword : partialWord u (head ++ word) = word) :
    ¬EndsInName u head := by
  rintro ⟨name, ⟨before, rfl⟩, hstart, hletters⟩
  obtain ⟨c, cs, rfl⟩ : ∃ c cs, name = c :: cs := by
    cases name with
    | nil => simp at hstart
    | cons c cs => exact ⟨c, cs, rfl⟩
  have hrun : ∀ d ∈ (c :: cs ++ word).reverse, inName u d = true := by
    intro d hd
    rcases mem_append.mp (mem_reverse.mp hd) with hd | hd
    · exact hletters d hd
    · exact inName_of_mem_partialWord d (hword ▸ hd)
  have hstop : (!(u.letter c || decide (c = '_'))) = false := by
    simp only [List.head?_cons, Option.any_some, startsName, Bool.or_eq_true,
      Bool.and_eq_true] at hstart
    simp only [Bool.not_eq_false', Bool.or_eq_true]
    exact hstart.imp And.left id
  have hlong := @length_le_dropWhile (fun c => !(u.letter c || decide (c = '_'))) c hstop
    (before.reverse.takeWhile (inName u)).reverse (cs ++ word)
  have hall : partialWord u (before ++ c :: cs ++ word) =
      ((before.reverse.takeWhile (inName u)).reverse ++ c :: (cs ++ word)).dropWhile
        fun c => !(u.letter c || decide (c = '_')) := by
    rw [partialWord, append_assoc, reverse_append, takeWhile_append_of_pos hrun,
      reverse_append, reverse_reverse, cons_append]
  rw [← hall, hword, length_cons, length_append] at hlong
  omega

/-! ### What is inserted -/

/-- **A name that is read back** before a text: in brackets where it has a space, and where it has
none it is one word that goes no further and means nothing else. -/
def ReadsBack (js : Js) (u : Unicode) (value : String) (after : List Char) : Prop :=
  if value.toList.any JsString.isSpace = true then
    ']' ∉ value.toList ∧ JsString.trim value = value
  else
    value.toList.head?.any (startsName u) = true ∧ value.toList.all (inName u) = true ∧
      after.head?.any (inName u) = false ∧ js.lowerCase value ∉ ["true", "false", "not"]

instance decidableReadsBack (js : Js) (u : Unicode) (value : String) (after : List Char) :
    Decidable (ReadsBack js u value after) :=
  inferInstanceAs <| Decidable <|
    if value.toList.any JsString.isSpace = true then
      ']' ∉ value.toList ∧ JsString.trim value = value
    else
      value.toList.head?.any (startsName u) = true ∧ value.toList.all (inName u) = true ∧
        after.head?.any (inName u) = false ∧ js.lowerCase value ∉ ["true", "false", "not"]

/-- How much wider the text gets. -/
def insertedWidth (value : String) : ℕ :=
  textWidth value.toList + if value.toList.any JsString.isSpace then 2 else 0

theorem textWidth_inserted (value : String) :
    textWidth (inserted value .column) = insertedWidth value := by
  rw [inserted, insertedWidth]
  split
  · exact textWidth_delimited (by decide) (by decide) _
  · rfl

theorem any_head_eq_false {p : Char → Bool} {cs : List Char} :
    cs.head?.any p = false ↔ ∀ c ∈ cs.head?, p c = false := by
  cases cs <;> simp

/-- A token of a column: its name in brackets, or as a word that means nothing else. -/
def IsColumn (js : Js) (kind : TokenKind) (name : String) : Prop :=
  kind = .field name ∨ kind = .name name ∧ js.lowerCase name ∉ ["true", "false", "not"]

theorem ReadsBack.lexeme {value : String} {after : List Char} (h : ReadsBack js u value after) :
    ∃ kind, IsColumn js kind value ∧ Lexeme js u kind (inserted value .column) after := by
  rw [ReadsBack] at h
  rw [inserted]
  split at h
  · rename_i hspace
    obtain ⟨hclose, htrim⟩ := h
    rw [if_pos hspace]
    refine ⟨.field value, .inl rfl, ?_⟩
    simpa [htrim] using @Lexeme.field js u value.toList after hclose
  · rename_i hspace
    obtain ⟨hstart, hletters, hafter, hword⟩ := h
    rw [if_neg hspace]
    refine ⟨.name value, .inr ⟨rfl, hword⟩, ?_⟩
    simpa using @Lexeme.name js u value.toList after hstart (List.all_eq_true.mp hletters)
      (any_head_eq_false.mp hafter)

theorem ReadsBack.head {value : String} {after : List Char} (h : ReadsBack js u value after) :
    ∃ c cs, inserted value .column = c :: cs ∧ (c = '[' ∨ startsName u c = true) := by
  rw [ReadsBack] at h
  rw [inserted]
  split at h
  · rename_i hspace
    rw [if_pos hspace]
    exact ⟨_, _, rfl, .inl rfl⟩
  · rename_i hspace
    rw [if_neg hspace]
    cases hvalue : value.toList with
    | nil => simp [hvalue] at h
    | cons c cs =>
      refine ⟨c, cs, rfl, .inr ?_⟩
      simpa [hvalue] using h.1

/-- **What is before the word is cut as before.** -/
theorem breaks_of_partialWord {head word after next : List Char} {value : String}
    (hword : partialWord u (head ++ word) = word) (h : ReadsBack js u value after) :
    Breaks u head (inserted value .column ++ next) := by
  obtain ⟨c, cs, hinserted, hc⟩ := h.head
  refine ⟨fun d hd => ?_, fun _ _ _ => not_endsInName hword⟩
  rw [hinserted, cons_append, List.head?_cons, Option.mem_some_iff] at hd
  subst hd
  rcases hc with rfl | hc
  · exact ⟨by decide, by decide⟩
  · obtain ⟨-, hnumber, -, -⟩ := startsName_spec hc []
    have hdigit : c.isDigit = false := by
      simp only [startsNumber, Bool.or_eq_false_iff] at hnumber
      exact hnumber.1
    refine ⟨hdigit, fun hmem => ?_⟩
    have hplain : c.toNat < 128 ∧ c.isAlpha = false ∧ c ≠ '_' := by
      simp only [mem_cons, not_mem_nil, or_false] at hmem
      rcases hmem with rfl | rfl | rfl <;> decide
    obtain ⟨hlt, halpha, hunder⟩ := hplain
    rw [startsName, (u.ascii c hlt).1, halpha] at hc
    exact hunder (by simpa using hc)

/-! ### What the tokens derive -/

/-- Tokens that are alike but for the column they name. -/
inductive Recolumned (js : Js) (R : String → String → Prop) (t t' : Token) : Prop where
  | same (h : t'.kind = t.kind)
  | column {a b} (ht : t.kind = .field a) (ht' : IsColumn js t'.kind b) (h : R a b)

section Recolumn

variable {R : String → String → Prop} {l : Precedence} {d : ℕ} {ts us vs : List Token}
  {t t' : Token} {e : Expr} {es : List Expr} {name : String}

theorem Recolumned.kind_eq (h : Recolumned js R t t') (ht : ∀ a, t.kind ≠ .field a) :
    t'.kind = t.kind := by
  cases h with
  | same h => exact h
  | column hfield => exact absurd hfield (ht _)

theorem forall₂_append_left {α β : Type} {P : α → β → Prop} {as bs : List α} {cs : List β}
    (h : List.Forall₂ P (as ++ bs) cs) :
    ∃ cs₁ cs₂, cs = cs₁ ++ cs₂ ∧ List.Forall₂ P as cs₁ ∧ List.Forall₂ P bs cs₂ := by
  have htake := forall₂_take as.length h
  have hdrop := forall₂_drop as.length h
  rw [take_left] at htake
  rw [drop_left] at hdrop
  exact ⟨_, _, (take_append_drop _ _).symm, htake, hdrop⟩

theorem IsColumn.derives (h : IsColumn js t.kind name) :
    Derives js .primary (d + 1) [t] (.field name) := by
  rcases h with h | ⟨h, hword⟩
  · exact .field t h
  · simp only [mem_cons, not_mem_nil, or_false, not_or] at hword
    exact .column t h hword.1 hword.2.1 hword.2.2

theorem operator_field (l : Precedence) (name : String) :
    l.operator js (.field name) = none := by
  cases l <;> rfl

mutual

/-- **Tokens that name other columns** derive a tree too, and the same one if the columns are. -/
theorem Derives.recolumn {l : Precedence} {d : ℕ} {ts us : List Token} {e : Expr} :
    Derives js l d ts e → List.Forall₂ (Recolumned js R) ts us →
      ∃ e', Derives js l d us e' ∧ ((∀ a b, R a b → a = b) → e' = e)
  | .operand hl h, hall => by
    obtain ⟨e', he', heq⟩ := h.recolumn hall
    exact ⟨e', .operand hl he', heq⟩
  | .binary t ht hleft hright, hall => by
    obtain ⟨us, vs, rfl, hus, hvs⟩ := forall₂_append_left hall
    obtain ⟨left, hleft', hl⟩ := hleft.recolumn hus
    cases hvs with
    | cons hfirst hvs =>
      obtain ⟨right, hright', hr⟩ := hright.recolumn hvs
      have hkind := hfirst.kind_eq fun a hfield => by
        rw [hfield, operator_field] at ht
        cases ht
      refine ⟨_, .binary _ (hkind ▸ ht) hleft' hright', fun hR => ?_⟩
      rw [hl hR, hr hR]
  | .number t ht, .cons hfirst .nil => by
    have hkind := hfirst.kind_eq (by simp [ht])
    exact ⟨_, .number _ (hkind.trans ht), fun _ => rfl⟩
  | .text t ht, .cons hfirst .nil => by
    have hkind := hfirst.kind_eq (by simp [ht])
    exact ⟨_, .text _ (hkind.trans ht), fun _ => rfl⟩
  | .field t ht, .cons hfirst .nil => by
    cases hfirst with
    | same h => exact ⟨_, .field _ (h.trans ht), fun _ => rfl⟩
    | column hfield hcolumn h =>
      refine ⟨_, hcolumn.derives, fun hR => ?_⟩
      rw [← hR _ _ h, TokenKind.field.inj (ht.symm.trans hfield)]
  | .boolean t ht hword, .cons hfirst .nil => by
    have hkind := hfirst.kind_eq (by simp [ht])
    exact ⟨_, .boolean _ (hkind.trans ht) hword, fun _ => rfl⟩
  | .column t ht htrue hfalse hnot, .cons hfirst .nil => by
    have hkind := hfirst.kind_eq (by simp [ht])
    exact ⟨_, .column _ (hkind.trans ht) htrue hfalse hnot, fun _ => rfl⟩
  | .not t ht hword h, .cons hfirst hall => by
    obtain ⟨e', he', heq⟩ := h.recolumn hall
    have hkind := hfirst.kind_eq (by simp [ht])
    exact ⟨_, .not _ (hkind.trans ht) hword he', fun hR => congrArg _ (heq hR)⟩
  | .neg t ht h, .cons hfirst hall => by
    obtain ⟨e', he', heq⟩ := h.recolumn hall
    have hkind := hfirst.kind_eq (by simp [ht])
    exact ⟨_, .neg _ (hkind.trans ht) he', fun hR => congrArg _ (heq hR)⟩
  | .brackets t u ht hu h, .cons hfirst hall => by
    obtain ⟨us, vs, rfl, hus, hvs⟩ := forall₂_append_left hall
    obtain ⟨e', he', heq⟩ := h.recolumn hus
    cases hvs with
    | cons hlast hnil =>
      cases hnil
      have hkind := hfirst.kind_eq (by simp [ht])
      have hkind' := hlast.kind_eq (by simp [hu])
      exact ⟨e', .brackets _ _ (hkind.trans ht) (hkind'.trans hu) he', heq⟩
  | .call t o u ht htrue hfalse hnot ho hu h, .cons hfirst (.cons hopen hall) => by
    obtain ⟨us, vs, rfl, hus, hvs⟩ := forall₂_append_left hall
    obtain ⟨args, hargs, heq⟩ := h.recolumn hus
    cases hvs with
    | cons hlast hnil =>
      cases hnil
      have hkind := hfirst.kind_eq (by simp [ht])
      have hkind' := hopen.kind_eq (by simp [ho])
      have hkind'' := hlast.kind_eq (by simp [hu])
      exact ⟨_, .call _ _ _ (hkind.trans ht) htrue hfalse hnot (hkind'.trans ho)
        (hkind''.trans hu) hargs, fun hR => congrArg _ (heq hR)⟩

theorem DerivesAll.recolumn {d : ℕ} {ts us : List Token} {es : List Expr} :
    DerivesAll js d ts es → List.Forall₂ (Recolumned js R) ts us →
      ∃ es', DerivesAll js d us es' ∧ ((∀ a b, R a b → a = b) → es' = es)
  | .none, .nil => ⟨[], .none, fun _ => rfl⟩
  | .some h, hall => by
    obtain ⟨es', hes', heq⟩ := h.recolumn hall
    cases es' with
    | nil => cases hes'
    | cons e' es' => exact ⟨_, .some hes', heq⟩

theorem DerivesSome.recolumn {d : ℕ} {ts us : List Token} {es : List Expr} :
    DerivesSome js d ts es → List.Forall₂ (Recolumned js R) ts us →
      ∃ es', DerivesSome js d us es' ∧ ((∀ a b, R a b → a = b) → es' = es)
  | .one h, hall => by
    obtain ⟨e', he', heq⟩ := h.recolumn hall
    exact ⟨_, .one he', fun hR => by rw [heq hR]⟩
  | .more t ht h hmore, hall => by
    obtain ⟨us, vs, rfl, hus, hvs⟩ := forall₂_append_left hall
    obtain ⟨e', he', heq⟩ := h.recolumn hus
    cases hvs with
    | cons hcomma hvs =>
      obtain ⟨es', hes', heqs⟩ := hmore.recolumn hvs
      have hkind := hcomma.kind_eq (by simp [ht])
      exact ⟨_, .more _ (hkind.trans ht) he' hes', fun hR => by rw [heq hR, heqs hR]⟩

end

end Recolumn

/-! ### The words that mean something else -/

def weigh (f : TokenKind → ℕ) (ts : List Token) : ℕ := (ts.map fun t => f t.kind).sum

section Weigh

variable {f : TokenKind → ℕ}

@[simp] theorem weigh_nil : weigh f [] = 0 := rfl

@[simp] theorem weigh_cons (t : Token) (ts : List Token) :
    weigh f (t :: ts) = f t.kind + weigh f ts := rfl

@[simp] theorem weigh_append (ts us : List Token) :
    weigh f (ts ++ us) = weigh f ts + weigh f us := by
  simp [weigh]

theorem weigh_congr {ts us : List Token} (h : ts.map (·.kind) = us.map (·.kind)) :
    weigh f ts = weigh f us := by
  have hmap : ∀ ts : List Token, weigh f ts = ((ts.map (·.kind)).map f).sum := by
    intro ts
    rw [weigh, List.map_map]
    rfl
  rw [hmap, hmap, h]

end Weigh

def TokenKind.words (js : Js) : TokenKind → ℕ
  | .name word => if js.lowerCase word ∈ ["true", "false", "not"] then 1 else 0
  | _ => 0

mutual

/-- How many of a tree's parts are read from one of them. -/
def Expr.words : Expr → ℕ
  | .boolean _ => 1
  | .number _ | .text _ | .blank | .field _ => 0
  | .unary .not e => e.words + 1
  | .unary .neg e => e.words
  | .binary _ left right => left.words + right.words
  | .call _ args => wordsAll args

def Expr.wordsAll : List Expr → ℕ
  | [] => 0
  | e :: es => e.words + wordsAll es

end

theorem words_operator {l : Precedence} {kind : TokenKind} {op : BinaryOp}
    (h : l.operator js kind = some op) : kind.words js = 0 := by
  cases kind with
  | name word =>
    rw [TokenKind.words, if_neg fun hword => ?_]
    simp only [mem_cons, not_mem_nil, or_false] at hword
    cases l <;> rcases hword with hword | hword | hword <;>
      simp [Precedence.operator, hword] at h
  | _ => rfl

@[simp] theorem words_op (value : String) : (TokenKind.op value).words js = 0 := rfl

theorem words_name {word : String} (htrue : js.lowerCase word ≠ "true")
    (hfalse : js.lowerCase word ≠ "false") (hnot : js.lowerCase word ≠ "not") :
    (TokenKind.name word).words js = 0 :=
  if_neg (by simp [htrue, hfalse, hnot])

mutual

/-- **Each such word is a part** of the tree. -/
theorem Derives.words {l : Precedence} {d : ℕ} {ts : List Token} {e : Expr} :
    Derives js l d ts e → e.words = weigh (TokenKind.words js) ts
  | .operand _ h => h.words
  | .binary t ht hleft hright => by
    rw [Expr.words, hleft.words, hright.words, weigh_append, weigh_cons, words_operator ht,
      Nat.zero_add]
  | .number t ht | .text t ht | .field t ht => by simp [Expr.words, TokenKind.words, ht]
  | .boolean t ht hword => by
    rw [Expr.words, weigh_cons, ht, TokenKind.words, if_pos (by simpa using by tauto)]
    rfl
  | .column t ht htrue hfalse hnot => by
    rw [Expr.words, weigh_cons, ht, words_name htrue hfalse hnot]
    rfl
  | .not t ht hword h => by
    rw [Expr.words, h.words, weigh_cons, ht, TokenKind.words, if_pos (by simp [hword]),
      Nat.add_comm]
  | .neg t ht h => by
    rw [Expr.words, h.words, weigh_cons, ht, words_op, Nat.zero_add]
  | .brackets t u ht hu h => by
    rw [h.words]
    simp [ht, hu]
  | .call t o u ht htrue hfalse hnot ho hu h => by
    rw [Expr.words, h.words, weigh_cons, ht, words_name htrue hfalse hnot]
    simp [ho, hu]

theorem DerivesAll.words {d : ℕ} {ts : List Token} {es : List Expr} :
    DerivesAll js d ts es → Expr.wordsAll es = weigh (TokenKind.words js) ts
  | .none => rfl
  | .some h => h.words

theorem DerivesSome.words {d : ℕ} {ts : List Token} {es : List Expr} :
    DerivesSome js d ts es → Expr.wordsAll es = weigh (TokenKind.words js) ts
  | .one h => by rw [Expr.wordsAll, h.words, Expr.wordsAll, Nat.add_zero]
  | .more t ht h hmore => by
    rw [Expr.wordsAll, h.words, hmore.words, weigh_append, weigh_cons, ht, words_op,
      Nat.zero_add]

end

/-! ### Closing brackets -/

/-- How many closing brackets a token is written with. -/
def TokenKind.brackets : TokenKind → ℕ
  | .field _ => 1
  | .string value => value.toList.count ']'
  | _ => 0

theorem Lexeme.count_bracket {kind : TokenKind} {part rest : List Char}
    (h : Lexeme js u kind part rest) : part.count ']' = kind.brackets := by
  cases h with
  | number _ longest =>
    refine count_eq_zero.mpr fun hmem => ?_
    rw [← longest] at hmem
    exact absurd ((numberText_atHead _).2 _ hmem) (by decide)
  | string => simp [TokenKind.brackets]
  | field hvalue => simp [TokenKind.brackets, count_eq_zero.mpr hvalue]
  | name _ letters =>
    refine count_eq_zero.mpr fun hmem => ?_
    have hbracket : inName u ']' = false :=
      inName_ascii (by decide) (by decide) (by decide) (by decide)
    rw [letters _ hmem] at hbracket
    cases hbracket
  | op longest =>
    refine count_eq_zero.mpr fun hmem => ?_
    obtain ⟨-, -, hchars⟩ := operator_spec (operatorOf_spec longest).1
    exact (@operatorChar_spec u ']' (hchars _ hmem) []).2.2.2.2.2 rfl

theorem Lexes.count_bracket {place : ℕ} {cs : List Char} {ts : List Token}
    (h : Lexes js u place cs ts) :
    cs.count ']' = weigh TokenKind.brackets ts := by
  induction h with
  | finish place => rfl
  | @space place c cs ts hc _ ih =>
    have hne : c ≠ ']' := by
      rintro rfl
      exact absurd hc (by decide)
    rwa [count_cons_of_ne hne]
  | token hpart _ ih =>
    rw [count_append, hpart.count_bracket, ih]
    rfl

/-! ### Around the word -/

def KindsDerive (js : Js) (kinds : List TokenKind) (e : Expr) : Prop :=
  ∃ ts, ts.map (·.kind) = kinds ∧ Derives js .or maxFormulaDepth ts e

/-- **The rest of a text parses around a column**: what is before the word and what is after it
have tokens, and with some column's name between them they derive an expression. -/
structure ReadsAround (js : Js) (u : Unicode) (head after : List Char)
    (before rest : List TokenKind) : Prop where
  head : HasKinds js u head (before ++ [.finish])
  after : HasKinds js u after (rest ++ [.finish])
  tree : ∃ name e, KindsDerive js (before ++ .field name :: rest) e

/-- **A text refers to a column at a place**, between these tokens: the token there names it, and
the text parses to what a reference to it derives. -/
def RefersTo (js : Js) (u : Unicode) (text : List Char) (place : ℕ) (before rest : List TokenKind)
    (value : String) : Prop :=
  ∃ ts t us e, TokensOf js u text (ts ++ t :: us) ∧ ts.map (·.kind) = before ∧
    us.map (·.kind) = rest ∧ t.place = place ∧ (t.kind = .name value ∨ t.kind = .field value) ∧
    KindsDerive js (before ++ .field value :: rest) e ∧ ParsesTo js u text (.ok e)

theorem ParsesTo.textWidth_le {text : List Char} {e : Expr} (h : ParsesTo js u text (.ok e)) :
    textWidth text ≤ maxFormula := by
  obtain ⟨fuel, h⟩ := h
  by_contra hlen
  rw [parseFormula, if_pos (Nat.not_le.mp hlen)] at h
  cases h

theorem map_kind_finish {ts : List Token} {kinds : List TokenKind}
    (h : ts.map (·.kind) = kinds ++ [.finish]) :
    ∃ us stop, ts = us ++ [⟨.finish, stop⟩] ∧ us.map (·.kind) = kinds := by
  obtain ⟨us, last, rfl, hus, hlast⟩ := map_eq_append_iff.mp h
  obtain ⟨⟨kind, stop⟩, none, rfl, hkind, hnone⟩ := map_eq_cons_iff.mp hlast
  obtain rfl := map_eq_nil_iff.mp hnone
  obtain rfl : kind = .finish := hkind
  exact ⟨us, stop, rfl, hus⟩

theorem recolumned_of_map_eq {R : String → String → Prop} {ts us : List Token}
    (h : us.map (·.kind) = ts.map (·.kind)) : List.Forall₂ (Recolumned js R) ts us := by
  induction ts generalizing us with
  | nil =>
    obtain rfl := map_eq_nil_iff.mp h
    exact .nil
  | cons t ts ih =>
    obtain ⟨t', us, rfl, ht, hus⟩ := map_eq_cons_iff.mp h
    exact .cons (.same ht) (ih hus)

/-- **Any column may stand there**, and in whichever way it is written the tree is the same. -/
theorem ReadsAround.derives {head after : List Char} {before rest : List TokenKind}
    (h : ReadsAround js u head after before rest) (value : String) :
    ∃ e, KindsDerive js (before ++ .field value :: rest) e ∧
      ∀ ts t us, ts.map (·.kind) = before → us.map (·.kind) = rest → IsColumn js t.kind value →
        Derives js .or maxFormulaDepth (ts ++ t :: us) e := by
  obtain ⟨name, e, ws, hws, hder⟩ := h.tree
  obtain ⟨xs, more, rfl, hxs, hmore⟩ := map_eq_append_iff.mp hws
  obtain ⟨x, ys, rfl, hx, hys⟩ := map_eq_cons_iff.mp hmore
  -- another column first, then the same one written otherwise
  have hother : List.Forall₂ (Recolumned js fun _ _ => True) (xs ++ x :: ys)
      (xs ++ ⟨.field value, 0⟩ :: ys) :=
    rel_append (recolumned_of_map_eq rfl)
      (.cons (.column hx (.inl rfl) trivial) (recolumned_of_map_eq rfl))
  obtain ⟨e', hder', -⟩ := hder.recolumn hother
  refine ⟨e', ⟨_, by simp [hxs, hys], hder'⟩, fun ts t us hts hus ht => ?_⟩
  have hsame : List.Forall₂ (Recolumned js Eq) (xs ++ ⟨.field value, 0⟩ :: ys) (ts ++ t :: us) :=
    rel_append (recolumned_of_map_eq (hts.trans hxs.symm))
      (.cons (.column rfl ht rfl) (recolumned_of_map_eq (hus.trans hys.symm)))
  obtain ⟨e'', hder'', heq⟩ := hder'.recolumn hsame
  exact heq (fun _ _ h => h) ▸ hder''

/-! ### Where the completion is read -/

section Completion

variable {head word after : List Char} {before rest : List TokenKind} {value : String}

/-- **A name that reads back is referred to**, within the limit. -/
theorem ReadsBack.refersTo (hword : partialWord u (head ++ word) = word)
    (haround : ReadsAround js u head after before rest) (h : ReadsBack js u value after)
    (hlen : textWidth head + insertedWidth value + textWidth after ≤ maxFormula) :
    RefersTo js u (head ++ inserted value .column ++ after) (textWidth head) before rest value := by
  obtain ⟨kind, hcolumn, hlexeme⟩ := h.lexeme
  -- the tokens before the word, the inserted one and those after it
  obtain ⟨as, has, hkinds⟩ := hasKinds_iff.mp haround.head 0
  obtain ⟨ts, rfl, happend⟩ := has.append (breaks_of_partialWord hword h)
  obtain ⟨bs, hbs, hkinds'⟩ := hasKinds_iff.mp haround.after
    (0 + textWidth head + textWidth (inserted value .column))
  have htext := happend _ (.token hlexeme hbs)
  rw [← append_assoc, Nat.zero_add] at htext
  obtain ⟨us, stop, rfl, hus⟩ := map_kind_finish hkinds'
  have hts : ts.map (·.kind) = before := by
    rw [map_append] at hkinds
    exact (append_inj' hkinds rfl).1
  have htokens : TokensOf js u (head ++ inserted value .column ++ after)
      (ts ++ ⟨kind, textWidth head⟩ :: us) := by
    refine tokensOf_iff.mpr ⟨stop, ?_⟩
    simpa using htext
  obtain ⟨e, hvalue, hder⟩ := haround.derives value
  refine ⟨ts, _, us, e, htokens, hts, hus, rfl, hcolumn.symm.imp And.left id, hvalue, ?_⟩
  refine (parsesTo_iff ?_ e).mpr ⟨_, htokens, hder ts _ us hts hus hcolumn⟩
  rw [textWidth_append, textWidth_append, textWidth_inserted]
  exact hlen

theorem Lexes.head_token {place : ℕ} {cs : List Char} {t : Token} {ts : List Token}
    (h : Lexes js u place cs (t :: ts)) (hplace : t.place = place) (hkind : t.kind ≠ .finish) :
    ∃ part rest, cs = part ++ rest ∧ Lexeme js u t.kind part rest ∧
      Lexes js u (place + textWidth part) rest ts := by
  cases h with
  | finish => exact absurd rfl hkind
  | space _ h =>
    have hle := h.le_place t mem_cons_self
    omega
  | token hpart h => exact ⟨_, _, rfl, hpart, h⟩

theorem Lexeme.name_inv {part rest : List Char} (h : Lexeme js u (.name value) part rest) :
    part = value.toList ∧ part.head?.any (startsName u) = true ∧
      (∀ c ∈ part, inName u c = true) ∧ ∀ c ∈ rest.head?, inName u c = false := by
  cases h with
  | name start letters longest => exact ⟨by simp, start, letters, longest⟩

theorem Lexeme.field_inv {part rest : List Char} (h : Lexeme js u (.field value) part rest) :
    ∃ name, ']' ∉ name ∧ part = '[' :: (name ++ [']']) ∧
      JsString.trim (String.ofList name) = value := by
  obtain ⟨kind, hkind⟩ : ∃ kind, kind = TokenKind.field value := ⟨_, rfl⟩
  rw [← hkind] at h
  cases h with
  | @field name rest hname => exact ⟨name, hname, rfl, TokenKind.field.inj hkind⟩
  | _ => cases hkind

theorem Lexeme.bracketed_spec {kind : TokenKind} {part left : List Char}
    (h : Lexeme js u kind part left) (hkind : kind = .name value ∨ kind = .field value)
    (hcs : '[' :: (value.toList ++ [']']) ++ after = part ++ left) :
    ']' ∉ value.toList ∧ JsString.trim value = value := by
  rcases hkind with rfl | rfl
  · -- no name begins with a bracket
    obtain ⟨-, hstart, -, -⟩ := h.name_inv
    cases part with
    | nil => simp at hstart
    | cons c cs =>
      obtain ⟨rfl, -⟩ := List.cons.inj hcs
      exact absurd rfl (startsName_spec (by simpa using hstart) []).2.2.2
  · obtain ⟨name, hname, rfl, htrim⟩ := h.field_inv
    have hvalue : ']' ∉ value.toList := fun hmem => by
      rw [← htrim] at hmem
      exact hname (by simpa using mem_of_mem_trim hmem)
    simp only [cons_append, append_assoc, nil_append] at hcs
    obtain ⟨-, hcs⟩ := List.cons.inj hcs
    have hsame := congrArg (List.takeWhile (· ≠ ']')) hcs
    rw [(span_delimited hvalue after).1, (span_delimited hname left).1] at hsame
    rw [← hsame, String.ofList_toList] at htrim
    exact ⟨hvalue, htrim⟩

theorem words_of_refersTo {text : List Char} {ts us : List Token} {t : Token} {e : Expr}
    (htokens : TokensOf js u text (ts ++ t :: us)) (hts : ts.map (·.kind) = before)
    (hus : us.map (·.kind) = rest) (hparse : ParsesTo js u text (.ok e))
    (hder : KindsDerive js (before ++ .field value :: rest) e) : t.kind.words js = 0 := by
  obtain ⟨ws, htokens', hder'⟩ := (parsesTo_iff hparse.textWidth_le e).mp hparse
  obtain rfl := htokens'.unique htokens
  obtain ⟨vs, hvs, hder⟩ := hder
  have hfield : weigh (TokenKind.words js) vs =
      weigh (TokenKind.words js) (ts ++ ⟨.field value, 0⟩ :: us) :=
    weigh_congr (by rw [hvs, map_append, map_cons, hts, hus])
  have hsame := hder'.words.symm.trans (hder.words.trans hfield)
  rw [weigh_append, weigh_append, weigh_cons, weigh_cons] at hsame
  have hnone : (TokenKind.field value).words js = 0 := rfl
  simp only [hnone] at hsame
  omega

/-- **Only a name that reads back is referred to.** -/
theorem RefersTo.readsBack (haround : ReadsAround js u head after before rest)
    (h : RefersTo js u (head ++ inserted value .column ++ after) (textWidth head) before rest
      value) :
    ReadsBack js u value after ∧
      textWidth head + insertedWidth value + textWidth after ≤ maxFormula := by
  obtain ⟨ts, t, us, e, htokens, hts, hus, hplace, hkind, hder, hparse⟩ := h
  have hlen := hparse.textWidth_le
  rw [textWidth_append, textWidth_append, textWidth_inserted] at hlen
  refine ⟨?_, hlen⟩
  -- the token at the place is at the head of what is inserted
  obtain ⟨stop, htext⟩ := tokensOf_iff.mp htokens
  rw [append_assoc, append_assoc, cons_append] at htext
  have hsecond := (htext.split (hplace.trans (Nat.zero_add _).symm)).2
  obtain ⟨part, left, hcs, hpart, hleft⟩ := hsecond.head_token
    (hplace.trans (Nat.zero_add _).symm) (by rcases hkind with h | h <;> simp [h])
  have hwords := words_of_refersTo htokens hts hus hparse hder
  rw [ReadsBack]
  rw [inserted] at hcs
  split
  · rename_i hspace
    rw [if_pos hspace] at hcs
    exact hpart.bracketed_spec hkind hcs
  · rename_i hspace
    rw [if_neg hspace] at hcs
    rcases hkind with hname | hfield
    · rw [hname] at hpart hwords
      obtain ⟨rfl, hstart, hletters, hlongest⟩ := hpart.name_inv
      obtain rfl := append_cancel_left hcs
      refine ⟨hstart, List.all_eq_true.mpr hletters, any_head_eq_false.mpr hlongest,
        fun hmem => ?_⟩
      rw [TokenKind.words, if_pos hmem] at hwords
      cases hwords
    · -- then a bracket of what follows would close it, and one would be left over
      rw [hfield] at hpart
      obtain ⟨name, hname, -, rfl⟩ := hpart.field_inv
      obtain ⟨as, has, hkinds⟩ := hasKinds_iff.mp haround.after 0
      have hvalue : (JsString.trim (String.ofList name)).toList.count ']' = 0 :=
        count_eq_zero.mpr fun hmem => hname (by simpa using mem_of_mem_trim hmem)
      have hsame : left.count ']' = after.count ']' := by
        rw [has.count_bracket, hleft.count_bracket]
        exact weigh_congr (by rw [hkinds, map_append, hus]; rfl)
      have hone : part.count ']' = 1 := hpart.count_bracket
      have hcount := congrArg (List.count ']') hcs
      rw [count_append, count_append] at hcount
      omega

/-- **The completion of a column's name.** Where the rest of the text parses around a column, what
it parses to once the name is completed refers to that column at that place exactly where the name
reads back and the text is within the limit. -/
theorem refersTo_iff (hword : partialWord u (head ++ word) = word)
    (haround : ReadsAround js u head after before rest) :
    RefersTo js u
        (applyCompletion u (head ++ word ++ after) (textWidth (head ++ word)) value .column).1
        (textWidth head) before rest value ↔
      ReadsBack js u value after ∧
        textWidth head + insertedWidth value + textWidth after ≤ maxFormula := by
  rw [applyCompletion_eq hword]
  exact ⟨fun h => h.readsBack haround, fun h => h.1.refersTo hword haround h.2⟩

end Completion

theorem readsAround_nil : ReadsAround js u [] [] [] [] :=
  ⟨hasKinds_nil, hasKinds_nil, "", .field "", [⟨.field "", 0⟩], rfl,
    (Derives.field _ rfl).atLevel .or⟩

/-- The hypotheses can be met: `Ne` is completed to `Netto`. -/
theorem refersTo_iff_netto :
    RefersTo .ascii .asciiOnly (applyCompletion .asciiOnly "Ne".toList 2 "Netto" .column).1 0 [] []
      "Netto" :=
  (@refersTo_iff .ascii .asciiOnly [] "Ne".toList [] [] [] "Netto" (by decide +kernel)
    readsAround_nil).mpr ⟨by decide +kernel, by decide +kernel⟩

/-- **It does not for every name**: completed to `Netto-Preis`, `Ne` is a difference. -/
theorem not_refersTo : ¬∀ (head word after : List Char) (before rest : List TokenKind)
    (value : String), word ≠ [] → partialWord .asciiOnly (head ++ word) = word →
      ReadsAround .ascii .asciiOnly head after before rest →
        RefersTo .ascii .asciiOnly (applyCompletion .asciiOnly (head ++ word ++ after)
          (textWidth (head ++ word)) value .column).1 (textWidth head) before rest value := by
  intro hall
  have hword : partialWord .asciiOnly ([] ++ "Ne".toList) = "Ne".toList := by decide +kernel
  have h := hall [] "Ne".toList [] [] [] "Netto-Preis" (by decide) hword readsAround_nil
  rw [applyCompletion_eq hword] at h
  exact absurd (h.readsBack readsAround_nil).1 (by decide +kernel)

end Sone
