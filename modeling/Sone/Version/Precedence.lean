import Mathlib
import Sone.Collections.DerivedSort
import Sone.Order.Lexicographic
import Sone.Version.Fence

/-!
# The order of versions

`compareVersions` reads a version as fields: three numbers, and the identifiers behind the first
dash. Their order, in which a version that has none behind a dash comes last (`VersionField`), is
the one of semantic versioning, where the fields are those of the version (`SemVer`).

The code has the numbers as `Number`s. Of two that are the same `Number` in different texts, and of
two that are infinite, it says that each is greater than the other (`toldApart`). Where it tells two
versions apart, it may still compare what was rounded, or what is build metadata and stands behind
a dash. `compareVersions_spec` says which versions are in the right order.
-/

namespace Sone.VersionFence

open List

/-! ### Fields -/

/-- **A field of a version**: a number, with its text where this counts; an identifier that is no
number, by its units; or that nothing is behind the numbers. -/
inductive VersionField
  | number (n : WithTop ℕ) (text : List Char)
  | word (units : List ℕ)
  | release
  deriving DecidableEq

namespace VersionField

/-- Numbers first, then words, and last the release. -/
def rank : VersionField → WithTop (Lex ((WithTop ℕ ×ₗ List Char) ⊕ List ℕ))
  | number n text => some (toLex (Sum.inl (toLex (n, text))))
  | word units => some (toLex (Sum.inr units))
  | release => ⊤

theorem rank_injective : Function.Injective rank := by
  rintro (⟨n, text⟩ | units | _) (⟨n', text'⟩ | units' | _) h
  all_goals first
    | rfl
    | (have h := Option.some.inj h; simp_all)
    | cases h

instance : LinearOrder VersionField := LinearOrder.lift' rank rank_injective

variable {n m : WithTop ℕ} {text text' : List Char} {u u' : List ℕ}

theorem number_lt_number :
    number n text < number m text' ↔ n < m ∨ n = m ∧ text < text' := by
  refine WithTop.coe_lt_coe.trans (Sum.Lex.inl_lt_inl_iff.trans ?_)
  exact Prod.Lex.toLex_lt_toLex

theorem number_lt_word : number n text < word u :=
  WithTop.coe_lt_coe.mpr (Sum.Lex.inl_lt_inr _ _)

theorem lt_release_number : number n text < release := WithTop.coe_lt_top _

theorem lt_release_word : word u < release := WithTop.coe_lt_top _

theorem word_lt_word : word u < word u' ↔ u < u' :=
  WithTop.coe_lt_coe.trans Sum.Lex.inr_lt_inr_iff

/-- Both are numbers, and the same `Number`. -/
def sameNumber : VersionField → VersionField → Bool
  | number n _, number m _ => n = m
  | _, _ => false

theorem sameNumber_comm (x y : VersionField) : sameNumber x y = sameNumber y x := by
  rcases x with _ | _ | _ <;> rcases y with _ | _ | _ <;> simp [sameNumber, eq_comm]

end VersionField

open VersionField

def signOf {α : Type*} [LinearOrder α] (a b : α) : ℤ := if a < b then -1 else if b < a then 1 else 0

/-- **The code tells two lists of fields apart** where the first two that differ are not the same
`Number`, and none before them is an infinite one of the three. -/
def toldApart : List VersionField → List VersionField → Bool
  | x :: left, y :: right =>
    if x = y then x ≠ number ⊤ [] && toldApart left right else !sameNumber x y
  | _, _ => true

section Read

variable (round : ℕ → WithTop ℕ)

/-- The `Number` of a text of digits. -/
def valueOf (ds : List Char) : WithTop ℕ := round (Nat.ofDigitChars 10 ds 0)

def identifierField (x : List Char) : VersionField :=
  if isNumeric x then number (valueOf round x) x else word (JsString.units (String.ofList x))

def partField (p : List Char) : VersionField :=
  number (if digitsOf p = [] then 0 else valueOf round (digitsOf p)) []

/-- What is read behind the first dash. -/
def preFields (pieces : List (List Char)) : List VersionField :=
  if pieces.tail = [] then [release]
  else ((['-'].intercalate pieces.tail).splitOn '.').map (identifierField round)

/-- **What the code reads of a version.** -/
def fieldsOf (v : List Char) : List VersionField :=
  let pieces := v.splitOn '-'
  (List.range' 0 3).map (fun i => partField round (((pieces.headD []).splitOn '.').getD i [])) ++
    preFields round pieces

/-- **The code tells two versions apart.** -/
def TellsApart (a b : String) : Prop :=
  a = b ∨ a = "dev" ∨ b = "dev" ∨ toldApart (fieldsOf round a.toList) (fieldsOf round b.toList)

instance (a b : String) : Decidable (TellsApart round a b) :=
  inferInstanceAs (Decidable (_ ∨ _ ∨ _ ∨ _ = true))

end Read

/-! ### Comparing fields -/

section Order

variable {α : Type*} [LinearOrder α] {a b : α}

theorem signOf_self : signOf a a = 0 := by simp [signOf]

theorem signOf_of_lt (h : a < b) : signOf a b = -1 := if_pos h

theorem signOf_of_gt (h : b < a) : signOf a b = 1 := by rw [signOf, if_neg h.not_gt, if_pos h]

theorem signOf_swap : signOf b a = -signOf a b := by
  rcases lt_trichotomy a b with hlt | rfl | hlt
  · rw [signOf_of_lt hlt, signOf_of_gt hlt, neg_neg]
  · rw [signOf_self, neg_zero]
  · rw [signOf_of_lt hlt, signOf_of_gt hlt]

theorem signOf_nonpos_iff : signOf a b ≤ 0 ↔ a ≤ b := by
  rcases le_or_gt a b with hle | hlt
  · refine iff_of_true ?_ hle
    rcases hle.lt_or_eq with hlt | rfl
    · rw [signOf_of_lt hlt]
      decide
    · exact signOf_self.le
  · rw [signOf_of_gt hlt]
    exact iff_of_false (by decide) hlt.not_ge

theorem signOf_congr {β : Type*} [LinearOrder β] {c d : β} (hlt : a < b → c < d)
    (hgt : b < a → d < c) (heq : a = b → c = d) : signOf a b = signOf c d := by
  rcases lt_trichotomy a b with h | h | h
  · rw [signOf_of_lt h, signOf_of_lt (hlt h)]
  · rw [h, heq h, signOf_self, signOf_self]
  · rw [signOf_of_gt h, signOf_of_gt (hgt h)]

theorem cons_le_cons_iff {left right : List α} :
    a :: left ≤ b :: right ↔ a < b ∨ a = b ∧ left ≤ right := by
  rw [le_iff_lt_or_eq, cons_lt_cons_iff, List.cons.injEq, or_assoc, ← and_or_left,
    ← le_iff_lt_or_eq]

theorem signOf_cons (x y : α) (left right : List α) :
    signOf (x :: left) (y :: right) = if x = y then signOf left right else signOf x y := by
  split_ifs with heq
  · subst heq
    exact signOf_congr (fun h => by simpa using h) (fun h => by simpa using h) (by simp)
  · have hcons : ∀ {x y : α} {l r : List α}, x < y → x :: l < y :: r :=
      fun h => cons_lt_cons_iff.mpr (.inl h)
    rcases lt_or_gt_of_ne heq with hlt | hlt
    · rw [signOf_of_lt hlt, signOf_of_lt (hcons hlt)]
    · rw [signOf_of_gt hlt, signOf_of_gt (hcons hlt)]

end Order

/-- **What comes of a comparison** of fields: their order, where they are told apart, and else that
the first are greater. -/
structure Compares (z : ℤ) (left right : List VersionField) : Prop where
  told : toldApart left right = true → z = signOf left right
  untold : toldApart left right = false → z = 1

section Fields

variable {left right : List VersionField} {x y : VersionField} {z : ℤ}

theorem Compares.nil : Compares 0 [] [] := ⟨fun _ => signOf_self.symm, nofun⟩

theorem Compares.nil_cons : Compares (-1) [] (y :: right) :=
  ⟨fun _ => (signOf_of_lt (nil_lt_cons y right)).symm, nofun⟩

theorem Compares.cons_nil : Compares 1 (x :: left) [] :=
  ⟨fun _ => (signOf_of_gt (nil_lt_cons x left)).symm, nofun⟩

theorem Compares.same (hx : x ≠ number ⊤ []) (h : Compares z left right) :
    Compares z (x :: left) (x :: right) := by
  have htold : toldApart (x :: left) (x :: right) = toldApart left right := by
    simp [toldApart, hx]
  refine ⟨fun hboth => ?_, fun hnot => h.untold (htold ▸ hnot)⟩
  rw [signOf_cons, if_pos rfl]
  exact h.told (htold ▸ hboth)

theorem Compares.infinite : Compares 1 (number ⊤ [] :: left) (number ⊤ [] :: right) :=
  ⟨fun h => by simp [toldApart] at h, fun _ => rfl⟩

theorem Compares.of_ne (hne : x ≠ y) (htold : sameNumber x y = false → z = signOf x y)
    (huntold : sameNumber x y = true → z = 1) : Compares z (x :: left) (y :: right) := by
  have heq : toldApart (x :: left) (y :: right) = !sameNumber x y := by
    rw [toldApart, if_neg hne]
  refine ⟨fun h => ?_, fun h => huntold (by simpa [heq] using h)⟩
  rw [signOf_cons, if_neg hne]
  exact htold (by simpa [heq] using h)

theorem Compares.numbers {n m : WithTop ℕ} {text text' : List Char}
    (hne : number n text ≠ number m text') :
    Compares (if n < m then -1 else 1) (number n text :: left) (number m text' :: right) := by
  refine Compares.of_ne hne (fun h => ?_) fun h => ?_
  · have hnum : n ≠ m := by simpa [sameNumber] using h
    split_ifs with hlt
    · exact (signOf_of_lt (number_lt_number.mpr (.inl hlt))).symm
    · have hgt : m < n := lt_of_le_of_ne (not_lt.mp hlt) hnum.symm
      exact (signOf_of_gt (number_lt_number.mpr (.inl hgt))).symm
  · obtain rfl : n = m := by simpa [sameNumber] using h
    rw [if_neg (lt_irrefl n)]

theorem toldApart_comm : toldApart left right = toldApart right left := by
  induction left generalizing right with
  | nil => cases right <;> rfl
  | cons x left ih =>
    rcases right with _ | ⟨y, right⟩
    · rfl
    · by_cases heq : x = y
      · rw [toldApart, toldApart, if_pos heq, if_pos heq.symm, ih, heq]
      · rw [toldApart, toldApart, if_neg heq, if_neg (Ne.symm heq), sameNumber_comm]

theorem sameNumber_of_between {z : VersionField} (h : sameNumber x z = true) (hxy : x < y)
    (hyz : y < z) : sameNumber x y = true := by
  rcases x with ⟨n, text⟩ | u | _ <;> rcases z with ⟨n', text'⟩ | u' | _
  all_goals try exact absurd h Bool.false_ne_true
  obtain rfl : n = n' := of_decide_eq_true h
  rcases y with ⟨m, text''⟩ | u | _
  · have hnm : n ≤ m := (number_lt_number.mp hxy).elim le_of_lt fun h => h.1.le
    have hmn : m ≤ n := (number_lt_number.mp hyz).elim le_of_lt fun h => h.1.le
    exact decide_eq_true (hnm.antisymm hmn)
  · exact absurd hyz number_lt_word.not_gt
  · exact absurd hyz lt_release_number.not_gt

/-- **What is told apart from one in between is told apart.** -/
theorem toldApart_trans {middle : List VersionField} (hl : toldApart left middle = true)
    (hr : toldApart middle right = true) (hlm : left ≤ middle) (hmr : middle ≤ right) :
    toldApart left right = true := by
  induction left generalizing middle right with
  | nil => rfl
  | cons x left ih =>
    rcases middle with _ | ⟨y, middle⟩
    · exact absurd hlm (nil_lt_cons x left).not_ge
    rcases right with _ | ⟨z, right⟩
    · rfl
    rw [cons_le_cons_iff] at hlm hmr
    rw [toldApart] at hl hr ⊢
    rcases hlm with hxy | ⟨rfl, hlm⟩ <;> rcases hmr with hyz | ⟨rfl, hmr⟩
    · rw [if_neg hxy.ne, Bool.not_eq_true'] at hl
      rw [if_neg (hxy.trans hyz).ne, Bool.not_eq_true']
      by_contra hsame
      rw [sameNumber_of_between (by simpa using hsame) hxy hyz] at hl
      cases hl
    · rwa [if_neg hxy.ne] at hl ⊢
    · rwa [if_neg hyz.ne] at hr ⊢
    · rw [if_pos rfl, Bool.and_eq_true] at hl hr ⊢
      exact ⟨hl.1, ih hl.2 hr.2 hlm hmr⟩

end Fields

/-! ### What the code compares -/

/-- A `Number` that is whole, or infinite. -/
def jsNumber : WithTop ℕ → JsNumber
  | none => .infinity false
  | some n => .finite n

/-- **`Number` rounds** what digits say, which keeps the order of numbers. -/
structure Rounds (js : Js) (round : ℕ → WithTop ℕ) : Prop where
  mono : Monotone round
  toNumber : ∀ ds, isNumeric ds = true →
    js.toNumber (.string (String.ofList ds)) = jsNumber (valueOf round ds)

section Compared

variable {js : Js} {round : ℕ → WithTop ℕ} {p x : List Char} {z : ℤ}

theorem numberLt_jsNumber (n m : WithTop ℕ) :
    numberLt (jsNumber n) (jsNumber m) = decide (n < m) := by
  rcases n with _ | n <;> rcases m with _ | m
  · exact (decide_eq_false (lt_irrefl (⊤ : WithTop ℕ))).symm
  · exact (decide_eq_false (not_top_lt (a := (m : WithTop ℕ)))).symm
  · exact (decide_eq_true (WithTop.coe_lt_top n)).symm
  · simp only [jsNumber, numberLt, Nat.cast_lt]
    exact decide_eq_decide.mpr WithTop.coe_lt_coe.symm

theorem identifierField_ne : identifierField round x ≠ number ⊤ [] := by
  rw [identifierField]
  split_ifs with hx
  · rintro heq
    obtain ⟨-, rfl⟩ := VersionField.number.inj heq
    exact absurd hx (by decide)
  · nofun

/-- **The loop of `comparePreRelease`** compares fields. -/
theorem compares_identifiers (h : Rounds js round) (left right : List (List Char)) :
    Compares (compareIdentifiers js left right) (left.map (identifierField round))
      (right.map (identifierField round)) := by
  induction left generalizing right with
  | nil =>
    rcases right with _ | ⟨y, right⟩
    · exact Compares.nil
    · exact Compares.nil_cons
  | cons x left ih =>
    rcases right with _ | ⟨y, right⟩
    · exact Compares.cons_nil
    rw [compareIdentifiers, map_cons, map_cons]
    by_cases heq : x = y
    · rw [if_pos heq, heq]
      exact (ih right).same identifierField_ne
    rw [if_neg heq, identifierField, identifierField]
    rcases hx : isNumeric x with _ | _ <;> rcases hy : isNumeric y with _ | _
    · -- the units of two texts differ
      have hunits : JsString.units (String.ofList x) ≠ JsString.units (String.ofList y) :=
        fun hu => heq (by simpa using congrArg String.toList (JsString.units_injective hu))
      refine Compares.of_ne (by simpa using hunits) (fun _ => ?_) nofun
      simp only [Bool.false_and, Bool.false_eq_true, if_false]
      split_ifs with hlt
      · exact (signOf_of_lt (word_lt_word.mpr hlt)).symm
      · exact (signOf_of_gt (word_lt_word.mpr (lt_of_le_of_ne (not_lt.mp hlt) hunits.symm))).symm
    · exact Compares.of_ne nofun (fun _ => (signOf_of_gt number_lt_word).symm) nofun
    · exact Compares.of_ne nofun (fun _ => (signOf_of_lt number_lt_word).symm) nofun
    · have hnum : Compares (if valueOf round x < valueOf round y then -1 else 1)
          (number (valueOf round x) x :: left.map (identifierField round))
          (number (valueOf round y) y :: right.map (identifierField round)) :=
        Compares.numbers (by simp [heq])
      simpa [h.toNumber x hx, h.toNumber y hy, numberLt_jsNumber] using hnum

theorem mem_of_mem_splitOn {c d : Char} {cs : List Char} (hp : p ∈ cs.splitOn c) (hd : d ∈ p) :
    d ∈ cs := by
  obtain ⟨i, hi⟩ := mem_iff_getElem?.mp hp
  have hcs : [c].intercalate (cs.splitOn c) = cs := intercalate_splitOn c
  rw [← hcs]
  -- the pieces stand at the even places
  have hmem : p ∈ (cs.splitOn c).intersperse [c] :=
    mem_of_getElem? (List.getElem?_intersperse_two_mul.trans hi)
  exact mem_flatten_of_mem hmem hd

theorem headD_splitOn (c : Char) (cs : List Char) :
    (cs.splitOn c).headD [] = cs.takeWhile (· ≠ c) := by
  induction cs with
  | nil => rfl
  | cons d cs ih =>
    rw [splitOn_cons_eq_if_modifyHead]
    by_cases heq : d = c
    · simp [heq]
    · obtain ⟨p, ps, hps⟩ := exists_cons_of_ne_nil (splitOn_ne_nil c cs)
      rw [hps] at ih ⊢
      simpa [heq] using ih

theorem parsePart_eq (h : Rounds js round) (hp : '-' ∉ p) :
    parsePart js p = jsNumber (if digitsOf p = [] then 0 else valueOf round (digitsOf p)) := by
  have hsign : (p.dropWhile JsString.isSpace).head? ≠ some '-' := fun hs =>
    hp ((dropWhile_sublist _).subset (mem_of_mem_head? hs))
  rw [parsePart, parseInt]
  by_cases hdigits : digitsOf p = []
  · simp only [if_pos hdigits, if_true]
    rfl
  · have hnumeric : isNumeric (digitsOf p) = true := by
      rw [isNumeric, Bool.and_eq_true, decide_eq_true_eq, digitsOf]
      exact ⟨hdigits, all_takeWhile⟩
    simp only [if_neg hdigits, if_neg hsign, nil_append, h.toNumber _ hnumeric]
    rcases valueOf round (digitsOf p) with _ | n <;> rfl

/-- **The loop over the numbers** compares fields, and what comes behind them. -/
theorem compares_parts {parts parts' : List JsNumber} {x y : ℕ → WithTop ℕ}
    {left right : List VersionField} (hx : ∀ i, parts.getD i (.finite 0) = jsNumber (x i))
    (hy : ∀ i, parts'.getD i (.finite 0) = jsNumber (y i)) (h : Compares z left right) (n i : ℕ) :
    Compares (if compareParts parts parts' n i ≠ 0 then compareParts parts parts' n i else z)
      ((List.range' i n).map (fun i => number (x i) []) ++ left)
      ((List.range' i n).map (fun i => number (y i) []) ++ right) := by
  induction n generalizing i with
  | zero => exact h
  | succ n' ih =>
    rw [compareParts, hx, hy, range'_succ, map_cons, map_cons, cons_append,
      cons_append]
    have hne : ∀ c : Prop, [Decidable c] → (if c then -1 else 1 : ℤ) ≠ 0 := fun c _ => by
      split_ifs <;> decide
    -- two numbers that are not equal are compared as `Number`s
    have hlt : ∀ n m : WithTop ℕ, n ≠ m → Compares (if numberLt (jsNumber n) (jsNumber m) then -1
        else 1) (number n [] :: ((List.range' (i + 1) n').map (fun i => number (x i) []) ++ left))
        (number m [] :: ((List.range' (i + 1) n').map (fun i => number (y i) []) ++ right)) := by
      intro n m hnm
      simpa [numberLt_jsNumber] using Compares.numbers (by simpa using hnm)
    rcases x i with _ | a <;> rcases y i with _ | b
    · exact Compares.infinite
    · exact hlt none (some b) nofun
    · exact hlt (some a) none nofun
    · by_cases hab : a = b
      · subst hab
        have hsame := (ih (i + 1)).same (x := number (some a) []) fun heq =>
          Option.some_ne_none a (VersionField.number.inj heq).1
        simpa only [jsNumber, if_true] using hsame
      · have hcast : (a : ℚ) ≠ b := by exact_mod_cast hab
        have hnum := hlt (some a) (some b) fun heq => hab (Option.some.inj heq)
        simpa only [jsNumber, numberLt, if_neg hcast, if_pos (hne _), decide_eq_true_eq] using hnum

theorem compareIdentifiers_self (ids : List (List Char)) : compareIdentifiers js ids ids = 0 := by
  induction ids with
  | nil => rfl
  | cons x ids ih => rw [compareIdentifiers, if_pos rfl, ih]

theorem compares_pre (h : Rounds js round) (v w : List Char) :
    Compares (if (parseVersion js v).pre = (parseVersion js w).pre then 0
      else match (parseVersion js v).pre, (parseVersion js w).pre with
        | none, _ => 1
        | _, none => -1
        | some pre, some pre' => comparePreRelease js pre pre')
      (preFields round (v.splitOn '-')) (preFields round (w.splitOn '-')) := by
  have hword : ∀ x, identifierField round x < release := fun x => by
    rw [identifierField]
    split_ifs
    · exact lt_release_number
    · exact lt_release_word
  have hrelease : ∀ x, sameNumber (identifierField round x) release = false := fun x => by
    rcases identifierField round x with _ | _ | _ <;> rfl
  -- there always is an identifier
  have hfirst : ∀ cs : List Char, ∃ x ids, cs.splitOn '.' = x :: ids := fun cs =>
    exists_cons_of_ne_nil (splitOn_ne_nil _ _)
  rw [preFields, preFields]
  by_cases hv : (v.splitOn '-').tail = [] <;> by_cases hw : (w.splitOn '-').tail = []
  · simp only [parseVersion, if_pos hv, if_pos hw, if_true]
    exact Compares.nil.same nofun
  · obtain ⟨x, ids, hids⟩ := hfirst (['-'].intercalate (w.splitOn '-').tail)
    simp only [parseVersion, if_pos hv, if_neg hw, reduceCtorEq, if_false, hids, map_cons]
    exact Compares.of_ne (hword x).ne' (fun _ => (signOf_of_gt (hword x)).symm) fun h =>
      absurd h (by rw [sameNumber_comm, hrelease]; decide)
  · obtain ⟨x, ids, hids⟩ := hfirst (['-'].intercalate (v.splitOn '-').tail)
    simp only [parseVersion, if_neg hv, if_pos hw, reduceCtorEq, if_false, hids, map_cons]
    exact Compares.of_ne (hword x).ne (fun _ => (signOf_of_lt (hword x)).symm) fun h =>
      absurd h (by rw [hrelease]; decide)
  · have hids := compares_identifiers h ((['-'].intercalate (v.splitOn '-').tail).splitOn '.')
      ((['-'].intercalate (w.splitOn '-').tail).splitOn '.')
    simp only [parseVersion, if_neg hv, if_neg hw, Option.some.injEq]
    split_ifs with heq
    · rw [heq, compareIdentifiers_self] at hids
      rwa [heq]
    · exact hids

/-- **`compareVersions` compares fields.** -/
theorem compares_versions (h : Rounds js round) {a b : String} (hne : a ≠ b) (ha : a ≠ "dev")
    (hb : b ≠ "dev") :
    Compares (compareVersions js a b) (fieldsOf round a.toList) (fieldsOf round b.toList) := by
  have hpart : ∀ (v : List Char) (i : ℕ), (parseVersion js v).parts.getD i (.finite 0) =
      jsNumber (if digitsOf (((v.splitOn '-').headD []).splitOn '.' |>.getD i []) = [] then 0
        else valueOf round (digitsOf (((v.splitOn '-').headD []).splitOn '.' |>.getD i []))) := by
    intro v i
    rw [parseVersion, show (.finite 0 : JsNumber) = parsePart js [] from rfl, List.getD_map]
    refine parsePart_eq h fun hdash => ?_
    have hmem : '-' ∈ (v.splitOn '-').headD [] := by
      by_cases hi : i < (((v.splitOn '-').headD []).splitOn '.').length
      · rw [getD_eq_getElem _ _ hi] at hdash
        exact mem_of_mem_splitOn (getElem_mem hi) hdash
      · rw [getD_eq_default _ _ (not_lt.mp hi)] at hdash
        exact absurd hdash not_mem_nil
    rw [headD_splitOn] at hmem
    have hno := mem_takeWhile_imp hmem
    exact of_decide_eq_true hno rfl
  rw [compareVersions, if_neg hne, if_neg ha, if_neg hb]
  exact compares_parts (hpart a.toList) (hpart b.toList) (compares_pre h a.toList b.toList) 3 0

end Compared

/-! ### Versions as they are specified -/

/-- `[0-9A-Za-z-]` -/
def isIdentifierChar (c : Char) : Bool := c.isAlphanum || c = '-'

structure Word where
  chars : List Char
  allowed : chars.all isIdentifierChar = true
  noNumber : chars.all Char.isDigit = false

inductive Identifier
  | number (n : ℕ)
  | word (w : Word)

def Identifier.text : Identifier → List Char
  | .number n => Nat.toDigits 10 n
  | .word w => w.chars

/-- **A version** by the specification: three numbers, and dotted identifiers of a pre-release and
of a build. -/
structure SemVer where
  major : ℕ
  minor : ℕ
  patch : ℕ
  pre : List Identifier
  build : List (List Char)
  allowed : (build.all fun b => b ≠ [] && b.all isIdentifierChar) = true

def exactly (n : ℕ) : WithTop ℕ := n

/-- What is read of an identifier, or of none behind the numbers. -/
def entryField (round : ℕ → WithTop ℕ) : Option Identifier → VersionField
  | none => release
  | some (.number n) => number (round n) (Nat.toDigits 10 n)
  | some (.word w) => word (w.chars.map Char.toNat)

namespace SemVer

variable (v w : SemVer)

def numbers : List ℕ := [v.major, v.minor, v.patch]

def entries : List (Option Identifier) := if v.pre.isEmpty then [none] else v.pre.map some

/-- The three numbers as they are written. -/
def core : List Char := ['.'].intercalate (v.numbers.map (Nat.toDigits 10))

def behind : List Char :=
  (if v.pre.isEmpty then [] else '-' :: ['.'].intercalate (v.pre.map Identifier.text)) ++
    if v.build.isEmpty then [] else '+' :: ['.'].intercalate v.build

def text : List Char := v.core ++ v.behind

def fields (round : ℕ → WithTop ℕ) : List VersionField :=
  v.numbers.map (fun n => number (round n) []) ++ v.entries.map (entryField round)

/-- **Precedence**: the first fields that differ decide, numbers as integers and below words, words
by their characters; fewer identifiers come first, and last the release. The build does not
matter. -/
def precedence : ℤ := signOf (v.fields exactly) (w.fields exactly)

/-- The code reads no build metadata: there is none, or it is behind the numbers and without
dashes. -/
def isRead : Bool := v.build.isEmpty || v.pre.isEmpty && '-' ∉ ['.'].intercalate v.build

/-- The entries before the one that build metadata is read with. -/
def plain : List (Option Identifier) := if v.isRead then v.entries else v.pre.dropLast.map some

end SemVer

/-- **What the code reads is what is meant**, of two versions: the first numbers that differ are
different `Number`s; or the numbers are equal, and no build metadata is read up to the first
entries that differ, or up to the end of the one that has fewer; or there is nothing to read. -/
inductive IsMeant (round : ℕ → WithTop ℕ) (v w : SemVer) : Prop
  | number (front : List ℕ) (n m : ℕ) (hv : front ++ [n] <+: v.numbers)
    (hw : front ++ [m] <+: w.numbers) (hne : round n ≠ round m)
  | entry (front : List (Option Identifier)) (x y : Option Identifier)
    (hnumbers : v.numbers = w.numbers) (hv : front ++ [x] <+: v.plain)
    (hw : front ++ [y] <+: w.plain) (hne : x ≠ y)
  | fewer (hnumbers : v.numbers = w.numbers) (hv : v.isRead = true) (hplain : v.plain <+: w.plain)
  | more (hnumbers : v.numbers = w.numbers) (hw : w.isRead = true) (hplain : w.plain <+: v.plain)
  | same (h : v = w)

/-! ### Reading what is written -/

section Written

variable {round : ℕ → WithTop ℕ} {v w : SemVer} {n : ℕ} {cs : List Char}

theorem notMem_toDigits {c : Char} (hc : c.isDigit = false) : c ∉ Nat.toDigits 10 n := fun h => by
  rw [Nat.isDigit_of_mem_toDigits (by decide) (by decide) h] at hc
  cases hc

theorem not_space_of_isDigit {c : Char} (h : c.isDigit = true) :
    JsString.isSpace c = false ∧ c ≠ '+' ∧ c ≠ '-' := by
  rw [Char.isDigit, Bool.and_eq_true, decide_eq_true_eq, decide_eq_true_eq] at h
  have hlow : 48 ≤ c.toNat := h.1
  have hup : c.toNat ≤ 57 := h.2
  refine ⟨?_, ?_, ?_⟩
  · rw [JsString.isSpace, Bool.or_eq_false_iff, decide_eq_false_iff_not]
    refine ⟨fun hmem => ?_, Bool.and_eq_false_iff.mpr (.inl (decide_eq_false (by omega)))⟩
    have hall : ∀ n ∈ [0x09, 0x0a, 0x0b, 0x0c, 0x0d, 0x20, 0xa0, 0x1680, 0x2028, 0x2029, 0x202f,
        0x205f, 0x3000, 0xfeff], n < 48 ∨ 57 < n := by decide
    have hout := hall _ hmem
    omega
  · rintro rfl
    exact absurd hlow (by decide)
  · rintro rfl
    exact absurd hlow (by decide)

theorem digitsOf_toDigits_append (hcs : ∀ c ∈ cs.head?, c.isDigit = false) :
    digitsOf (Nat.toDigits 10 n ++ cs) = Nat.toDigits 10 n := by
  have hdigit : ∀ c ∈ Nat.toDigits 10 n, c.isDigit = true := fun c hc =>
    Nat.isDigit_of_mem_toDigits (by decide) (by decide) hc
  obtain ⟨d, ds, hds⟩ := exists_cons_of_ne_nil (Nat.toDigits_ne_nil (n := n) (b := 10))
  obtain ⟨hspace, hplus, hminus⟩ := not_space_of_isDigit (hdigit d (hds ▸ mem_cons_self))
  have hdrop : (Nat.toDigits 10 n ++ cs).dropWhile JsString.isSpace = Nat.toDigits 10 n ++ cs := by
    rw [hds, cons_append, dropWhile_cons_of_neg (by simp [hspace])]
  have hhead : (Nat.toDigits 10 n ++ cs).head? = some d := by rw [hds]; rfl
  rw [digitsOf, hdrop, hhead, if_neg (by simp [hplus, hminus]),
    takeWhile_append_of_pos hdigit]
  rcases cs with _ | ⟨c, cs⟩
  · simp
  · rw [takeWhile_cons_of_neg (by simp [hcs c rfl]), append_nil]

theorem partField_toDigits_append (hcs : ∀ c ∈ cs.head?, c.isDigit = false) :
    partField round (Nat.toDigits 10 n ++ cs) = number (round n) [] := by
  rw [partField, digitsOf_toDigits_append hcs, if_neg Nat.toDigits_ne_nil, valueOf,
    Nat.ofDigitChars_ten_toDigits]

theorem identifierField_text (i : Identifier) :
    identifierField round i.text = entryField round (some i) := by
  rcases i with n | w
  · have hnumeric : isNumeric (Nat.toDigits 10 n) = true := by
      rw [isNumeric, Bool.and_eq_true, decide_eq_true_eq, List.all_eq_true]
      exact ⟨Nat.toDigits_ne_nil, fun c hc =>
        Nat.isDigit_of_mem_toDigits (by decide) (by decide) hc⟩
    rw [Identifier.text, identifierField, if_pos hnumeric, valueOf, Nat.ofDigitChars_ten_toDigits]
    rfl
  · have hsmall : ∀ c ∈ w.chars, Char.units c = [c.toNat] := by
      intro c hc
      have hallowed := List.all_eq_true.mp w.allowed c hc
      refine if_pos ?_
      simp only [isIdentifierChar, Char.isAlphanum, Char.isAlpha, Char.isUpper, Char.isLower,
        Char.isDigit, Bool.or_eq_true, Bool.and_eq_true, decide_eq_true_eq] at hallowed
      rcases hallowed with ((h | h) | h) | rfl
      · exact lt_of_le_of_lt (show c.toNat ≤ 90 from h.2) (by decide)
      · exact lt_of_le_of_lt (show c.toNat ≤ 122 from h.2) (by decide)
      · exact lt_of_le_of_lt (show c.toNat ≤ 57 from h.2) (by decide)
      · decide
    rw [Identifier.text, identifierField, isNumeric, w.noNumber, Bool.and_false,
      if_neg Bool.false_ne_true, JsString.units, String.toList_ofList,
      flatMap_congr hsmall, ← map_eq_flatMap]
    rfl

theorem dot_notMem_text (i : Identifier) : '.' ∉ i.text := by
  rcases i with n | w
  · exact notMem_toDigits (by decide)
  · exact fun hmem => absurd (List.all_eq_true.mp w.allowed '.' hmem) (by decide)

theorem splitOn_intercalate_append {init : List (List Char)} {last : List Char}
    (hinit : ∀ p ∈ init, '.' ∉ p) :
    (['.'].intercalate (init ++ [last]) ++ cs).splitOn '.' = init ++ (last ++ cs).splitOn '.' := by
  induction init with
  | nil => simp
  | cons p init ih =>
    rw [forall_mem_cons] at hinit
    obtain ⟨q, ps, hps⟩ : ∃ q ps, init ++ [last] = q :: ps :=
      exists_cons_of_ne_nil (by simp)
    rw [cons_append, hps, intercalate_cons_cons, append_assoc, append_assoc,
      singleton_append, splitOn_append_cons_self_of_not_mem hinit.1, ← hps, ih hinit.2]
    rfl

namespace SemVer

theorem core_eq : v.core = Nat.toDigits 10 v.major ++ '.' :: (Nat.toDigits 10 v.minor ++
    '.' :: Nat.toDigits 10 v.patch) := by
  simp [core, numbers, intercalate_cons_cons]

theorem notMem_core {c : Char} (hc : c.isDigit = false) (hdot : c ≠ '.') : c ∉ v.core := by
  rw [core_eq]
  simp [notMem_toDigits hc, hdot]

theorem fieldsOf_core_append (hcs : ∀ c ∈ (cs.takeWhile (· ≠ '-')).head?, c.isDigit = false) :
    fieldsOf round (v.core ++ cs) = v.numbers.map (fun n => number (round n) []) ++
      preFields round ((v.core ++ cs).splitOn '-') := by
  have hhead : ((v.core ++ cs).splitOn '-').headD [] = v.core ++ cs.takeWhile (· ≠ '-') := by
    rw [headD_splitOn, takeWhile_append_of_pos]
    intro c hc
    exact decide_eq_true fun heq => notMem_core (by decide) (by decide) (heq ▸ hc)
  have hdot : ∀ n, '.' ∉ Nat.toDigits 10 n := fun n => notMem_toDigits (by decide)
  obtain ⟨p, ps, hps⟩ := exists_cons_of_ne_nil (splitOn_ne_nil '.'
    (Nat.toDigits 10 v.patch ++ cs.takeWhile (· ≠ '-')))
  have hsplit : (v.core ++ cs.takeWhile (· ≠ '-')).splitOn '.' =
      Nat.toDigits 10 v.major :: Nat.toDigits 10 v.minor :: p :: ps := by
    rw [core_eq, append_assoc, cons_append, append_assoc, cons_append,
      splitOn_append_cons_self_of_not_mem (hdot _),
      splitOn_append_cons_self_of_not_mem (hdot _), hps]
  -- the third part goes up to a dot, and its number to what is no digit
  have hthird := headD_splitOn '.' (Nat.toDigits 10 v.patch ++ cs.takeWhile (· ≠ '-'))
  have hbefore : ∀ c ∈ Nat.toDigits 10 v.patch, decide (c ≠ '.') = true := fun c hc =>
    decide_eq_true fun heq => hdot _ (heq ▸ hc)
  rw [hps, headD_cons, takeWhile_append_of_pos hbefore] at hthird
  have hpatch : partField round p = number (round v.patch) [] := by
    rw [hthird]
    refine partField_toDigits_append fun c hc => hcs c ?_
    generalize cs.takeWhile (· ≠ '-') = ds at hc ⊢
    rcases ds with _ | ⟨d, ds⟩
    · exact hc
    · by_cases hd : d = '.'
      · simp [hd] at hc
      · simpa [hd] using hc
  have hnumber : ∀ n, partField round (Nat.toDigits 10 n) = number (round n) [] := fun n => by
    simpa using @partField_toDigits_append round n [] (by simp)
  rw [fieldsOf, hhead, hsplit]
  simp [List.range', hnumber, hpatch, numbers]

theorem entries_eq (v : SemVer) :
    ∃ more, v.entries = v.plain ++ more ∧ (more = [] ↔ v.isRead = true) := by
  rw [plain]
  split_ifs with hread
  · exact ⟨[], (append_nil _).symm, iff_of_true rfl hread⟩
  · rcases eq_nil_or_concat' v.pre with hpre | ⟨init, last, hpre⟩
    · exact ⟨[none], by simp [entries, hpre], iff_of_false (cons_ne_nil _ _) hread⟩
    · exact ⟨[some last], by simp [entries, hpre], iff_of_false (cons_ne_nil _ _) hread⟩

/-- **What the code reads of a version**: its numbers, the entries that no build metadata is read
with, and something more where it is. -/
theorem fieldsOf_text (v : SemVer) :
    ∃ more, fieldsOf round v.text = v.numbers.map (fun n => number (round n) []) ++
      (v.plain.map (entryField round) ++ more) ∧ (more = [] ↔ v.isRead = true) := by
  have hdash : '-' ∉ v.core := notMem_core (by decide) (by decide)
  have hids : ∀ cs : List Char, (cs.splitOn '.').map (identifierField round) ≠ [] := fun cs h =>
    splitOn_ne_nil _ _ (map_eq_nil_iff.mp h)
  rcases eq_nil_or_concat' v.pre with hpre | ⟨init, last, hpre⟩
  · have hnumbers : fieldsOf round v.text = v.numbers.map (fun n => number (round n) []) ++
        preFields round ((v.core ++ v.behind).splitOn '-') := by
      rw [text]
      refine fieldsOf_core_append ?_
      rw [behind, hpre]
      rcases v.build.isEmpty with _ | _ <;> simp
    rcases hread : v.isRead with _ | _
    · -- the dash is in the build metadata
      refine ⟨preFields round ((v.core ++ v.behind).splitOn '-'), ?_, iff_of_false ?_ nofun⟩
      · rw [hnumbers, plain, hread, hpre]
        rfl
      · rw [preFields]
        split_ifs
        · exact not_false
        · exact hids _
    · have hno : '-' ∉ v.core ++ v.behind := by
        rw [mem_append, not_or, behind, hpre]
        refine ⟨hdash, ?_⟩
        rw [isRead] at hread
        rcases hbuild : v.build.isEmpty with _ | _ <;> simp_all
      refine ⟨[], ?_, iff_of_true rfl rfl⟩
      rw [hnumbers, plain, hread, splitOn_eq_singleton hno, entries, hpre]
      rfl
  · have hnil : v.pre.isEmpty = false := by simp [hpre]
    have hinit : ∀ p ∈ init.map Identifier.text, '.' ∉ p := by
      simpa using fun i _ => dot_notMem_text i
    have hmap : ∀ ids : List Identifier, (ids.map Identifier.text).map (identifierField round) =
        (ids.map some).map (entryField round) := by
      simp [identifierField_text]
    have hfields : fieldsOf round v.text = v.numbers.map (fun n => number (round n) []) ++
        ((init.map some).map (entryField round) ++ ((last.text ++ if v.build.isEmpty then []
          else '+' :: ['.'].intercalate v.build).splitOn '.').map (identifierField round)) := by
      rw [text, behind, hnil, if_neg Bool.false_ne_true, hpre, cons_append,
        fieldsOf_core_append (by simp), splitOn_append_cons_self_of_not_mem hdash, preFields,
        tail_cons, if_neg (splitOn_ne_nil _ _), intercalate_splitOn,
        map_append, map_singleton, splitOn_intercalate_append hinit, map_append,
        hmap]
    have hread : v.isRead = v.build.isEmpty := by
      rw [isRead, hnil, Bool.false_and, Bool.or_false]
    rcases hbuild : v.build.isEmpty with _ | _
    · exact ⟨_, by simpa [plain, hread, hbuild, hpre] using hfields,
        iff_of_false (hids _) (by simp [hread, hbuild])⟩
    · refine ⟨[], ?_, iff_of_true rfl (hread.trans hbuild)⟩
      rw [hfields, hbuild, if_pos rfl, append_nil,
        splitOn_eq_singleton (dot_notMem_text last), plain, hread, hbuild, if_pos rfl, entries,
        hnil, if_neg Bool.false_ne_true, ← hmap, ← hmap, hpre]
      simp

theorem text_ne_dev (v : SemVer) : String.ofList v.text ≠ "dev" := fun h => by
  have hdot : '.' ∈ v.text := by
    rw [text, core_eq]
    simp
  rw [show v.text = "dev".toList by rw [← h, String.toList_ofList]] at hdot
  exact absurd hdot (by decide)

end SemVer

end Written

/-! ### What is read, and what is meant -/

section Meant

variable {α : Type*} [LinearOrder α] {p l r : List α} {x y : α}

theorem signOf_append_cons (hne : x ≠ y) : signOf (p ++ x :: l) (p ++ y :: r) = signOf x y := by
  induction p with
  | nil => rw [nil_append, nil_append, signOf_cons, if_neg hne]
  | cons z p ih => rw [cons_append, cons_append, signOf_cons, if_pos rfl, ih]

theorem signOf_append : signOf p (p ++ r) = if r = [] then 0 else -1 := by
  split_ifs with hr
  · rw [hr, append_nil, signOf_self]
  · exact signOf_of_lt (Lexicographic.lt_append hr)

end Meant

section Meant

variable {round : ℕ → WithTop ℕ} {left right p l r : List VersionField} {x y : VersionField}
  {i j : Option Identifier} {v w : SemVer}

theorem sameNumber_of_toldApart (h : toldApart (p ++ x :: l) (p ++ y :: r) = true) (hne : x ≠ y) :
    sameNumber x y = false := by
  induction p with
  | nil => simpa [toldApart, hne] using h
  | cons z p ih =>
    rw [cons_append, cons_append, toldApart, if_pos rfl, Bool.and_eq_true] at h
    exact ih h.2

theorem entryField_injective : Function.Injective (entryField round) := by
  rintro (_ | n | u) (_ | m | u') h
  all_goals try cases h
  · rfl
  · have hdigits := congrArg (Nat.ofDigitChars 10 · 0) (VersionField.number.inj h).2
    simp only [Nat.ofDigitChars_ten_toDigits] at hdigits
    rw [hdigits]
  · have hchars : u.chars = u'.chars :=
      map_injective_iff.mpr (fun _ _ => Char.toNat_inj.mp) (VersionField.word.inj h)
    rcases u with ⟨chars⟩
    rcases u' with ⟨chars'⟩
    obtain rfl : chars = chars' := hchars
    rfl

theorem number_lt_exactly {n m : ℕ} {s s' t t' : List Char} (hmono : Monotone round)
    (hne : round n ≠ round m) (hlt : number (round n) s < number (round m) s') :
    number (exactly n) t < number (exactly m) t' := by
  have hround : round n < round m := (number_lt_number.mp hlt).resolve_right fun h => hne h.1
  exact number_lt_number.mpr (.inl (WithTop.coe_lt_coe.mpr (hmono.reflect_lt hround)))

theorem entryField_lt (hmono : Monotone round)
    (hsame : sameNumber (entryField round i) (entryField round j) = false)
    (hlt : entryField round i < entryField round j) :
    entryField exactly i < entryField exactly j := by
  rcases i with _ | n | u <;> rcases j with _ | m | u'
  · exact hlt
  · exact absurd hlt lt_release_number.not_gt
  · exact hlt
  · exact lt_release_number
  · exact number_lt_exactly hmono (by simpa [entryField, sameNumber] using hsame) hlt
  · exact number_lt_word
  · exact hlt
  · exact absurd hlt number_lt_word.not_gt
  · exact hlt

theorem signOf_fieldsOf_of_isPrefix (hnumbers : v.numbers = w.numbers) (hv : v.isRead = true)
    (hplain : v.plain <+: w.plain) :
    signOf (fieldsOf round v.text) (fieldsOf round w.text) = v.precedence w := by
  obtain ⟨moreV, hfieldsV, hreadV⟩ := @SemVer.fieldsOf_text round v
  obtain ⟨moreW, hfieldsW, hreadW⟩ := @SemVer.fieldsOf_text round w
  obtain ⟨moreV', hentriesV, hreadV'⟩ := v.entries_eq
  obtain ⟨moreW', hentriesW, hreadW'⟩ := w.entries_eq
  obtain rfl := hreadV.mpr hv
  obtain rfl := hreadV'.mpr hv
  obtain ⟨t, ht⟩ := hplain
  have hends : t.map (entryField round) ++ moreW = [] ↔
      (t ++ moreW').map (entryField exactly) = [] := by
    rw [map_eq_nil_iff, append_eq_nil_iff, append_eq_nil_iff, map_eq_nil_iff,
      hreadW, hreadW']
  rw [hfieldsV, hfieldsW, SemVer.precedence, SemVer.fields, SemVer.fields, hentriesV, hentriesW,
    ← ht, ← hnumbers, append_nil, append_nil, append_assoc, map_append,
    map_append, append_assoc, ← append_assoc (v.numbers.map _), signOf_append,
    ← append_assoc (v.numbers.map _), signOf_append]
  exact if_congr hends rfl rfl

/-- **What is read of two versions is in the order of precedence** where it is what is meant. -/
theorem signOf_fieldsOf (hmono : Monotone round) (hmeant : IsMeant round v w)
    (htold : v.text = w.text ∨ toldApart (fieldsOf round v.text) (fieldsOf round w.text) = true) :
    signOf (fieldsOf round v.text) (fieldsOf round w.text) = v.precedence w := by
  obtain ⟨moreV, hfieldsV, -⟩ := @SemVer.fieldsOf_text round v
  obtain ⟨moreW, hfieldsW, -⟩ := @SemVer.fieldsOf_text round w
  obtain ⟨moreV', hentriesV, -⟩ := v.entries_eq
  obtain ⟨moreW', hentriesW, -⟩ := w.entries_eq
  -- the first fields that differ are no two texts of one `Number`
  have hfirst : ∀ {p l r x y}, fieldsOf round v.text = p ++ x :: l →
      fieldsOf round w.text = p ++ y :: r → x ≠ y → sameNumber x y = false := by
    intro p l r x y hv hw hne
    rcases htold with heq | htold
    · rw [← heq, hv, append_cancel_left_eq] at hw
      exact absurd (List.cons.inj hw).1 hne
    · rw [hv, hw] at htold
      exact sameNumber_of_toldApart htold hne
  rcases hmeant with ⟨front, n, m, ⟨l, hv⟩, ⟨r, hw⟩, hne⟩ |
    ⟨front, i, j, hnumbers, ⟨l, hv⟩, ⟨r, hw⟩, hne⟩ | ⟨hnumbers, hv, hplain⟩ |
    ⟨hnumbers, hw, hplain⟩ | rfl
  · have hnumber : number (round n) [] ≠ number (round m) [] := by simpa using hne
    have hexact : number (exactly n) [] ≠ number (exactly m) [] := fun heq =>
      hne (congrArg round (WithTop.coe_injective (VersionField.number.inj heq).1))
    rw [hfieldsV, hfieldsW, SemVer.precedence, SemVer.fields, SemVer.fields, ← hv, ← hw]
    simp only [map_append, map_cons, append_assoc, cons_append,
      nil_append]
    rw [signOf_append_cons hnumber, signOf_append_cons hexact]
    exact signOf_congr (number_lt_exactly hmono hne) (number_lt_exactly hmono hne.symm) fun h =>
      absurd h hnumber
  · have happ : ∀ (f : ℕ → WithTop ℕ) (k : Option Identifier) (t : List (Option Identifier)) more,
        v.numbers.map (fun n => number (f n) []) ++
          ((front ++ [k] ++ t).map (entryField f) ++ more) =
        (v.numbers.map (fun n => number (f n) []) ++ front.map (entryField f)) ++
          entryField f k :: (t.map (entryField f) ++ more) := by
      simp
    rw [← hv, happ] at hfieldsV
    rw [← hw, ← hnumbers, happ] at hfieldsW
    have hread : entryField round i ≠ entryField round j := entryField_injective.ne hne
    have hsame := hfirst hfieldsV hfieldsW hread
    rw [hfieldsV, hfieldsW, signOf_append_cons hread, SemVer.precedence, SemVer.fields,
      SemVer.fields, hentriesV, hentriesW, ← hv, ← hw, ← hnumbers, map_append, happ,
      @map_append _ _ _ _ moreW', happ, signOf_append_cons (entryField_injective.ne hne)]
    exact signOf_congr (entryField_lt hmono hsame)
      (entryField_lt hmono (sameNumber_comm _ _ ▸ hsame)) fun h => absurd h hread
  · exact signOf_fieldsOf_of_isPrefix hnumbers hv hplain
  · rw [signOf_swap, signOf_fieldsOf_of_isPrefix hnumbers.symm hw hplain, SemVer.precedence,
      ← signOf_swap, SemVer.precedence]
  · rw [signOf_self, SemVer.precedence, signOf_self]

end Meant

/-! ### The order of versions -/

section Versions

variable {js : Js} {round : ℕ → WithTop ℕ} {a b c : String}

theorem compareVersions_dev (ha : a ≠ "dev") :
    compareVersions js "dev" a = 1 ∧ compareVersions js a "dev" = -1 := by
  simp [compareVersions, ha, ha.symm]

/-- **Opposite signs** are of versions that are told apart. -/
theorem compareVersions_swap_iff (h : Rounds js round) (a b : String) :
    compareVersions js b a = -compareVersions js a b ↔ TellsApart round a b := by
  by_cases hab : a = b
  · exact iff_of_true (by rw [hab, compareVersions_self, neg_zero]) (.inl hab)
  by_cases ha : a = "dev"
  · subst ha
    obtain ⟨hgt, hlt⟩ := @compareVersions_dev js _ (Ne.symm hab)
    exact iff_of_true (by rw [hgt, hlt]) (.inr (.inl rfl))
  by_cases hb : b = "dev"
  · subst hb
    obtain ⟨hgt, hlt⟩ := @compareVersions_dev js _ hab
    exact iff_of_true (by rw [hgt, hlt, neg_neg]) (.inr (.inr (.inl rfl)))
  have hleft := compares_versions h hab ha hb
  have hright := compares_versions h (Ne.symm hab) hb ha
  rw [TellsApart, or_iff_right hab, or_iff_right ha, or_iff_right hb]
  rcases htold : toldApart (fieldsOf round a.toList) (fieldsOf round b.toList) with _ | _
  · rw [hleft.untold htold, hright.untold (toldApart_comm.trans htold)]
    exact iff_of_false (by decide) nofun
  · rw [hleft.told htold, hright.told (toldApart_comm.trans htold)]
    exact iff_of_true signOf_swap rfl

theorem compareVersions_nonpos_iff (h : Rounds js round) (hab : a ≠ b) (ha : a ≠ "dev")
    (hb : b ≠ "dev") :
    compareVersions js a b ≤ 0 ↔
      toldApart (fieldsOf round a.toList) (fieldsOf round b.toList) = true ∧
        fieldsOf round a.toList ≤ fieldsOf round b.toList := by
  have hcompares := compares_versions h hab ha hb
  rcases htold : toldApart (fieldsOf round a.toList) (fieldsOf round b.toList) with _ | _
  · rw [hcompares.untold htold]
    exact iff_of_false (by decide) fun h => Bool.false_ne_true h.1
  · rw [hcompares.told htold, signOf_nonpos_iff, and_iff_right rfl]

/-- **The order is transitive**, of any versions. -/
theorem compareVersions_trans (h : Rounds js round) (hab : compareVersions js a b ≤ 0)
    (hbc : compareVersions js b c ≤ 0) : compareVersions js a c ≤ 0 := by
  by_cases heq : a = b
  · rwa [heq]
  by_cases heq' : b = c
  · rwa [← heq']
  by_cases heq'' : a = c
  · rw [heq'', compareVersions_self]
  by_cases hc : c = "dev"
  · subst hc
    rw [(compareVersions_dev heq'').2]
    decide
  by_cases hb : b = "dev"
  · subst hb
    rw [(compareVersions_dev hc).1] at hbc
    exact absurd hbc (by decide)
  by_cases ha : a = "dev"
  · subst ha
    rw [(compareVersions_dev hb).1] at hab
    exact absurd hab (by decide)
  rw [compareVersions_nonpos_iff h heq ha hb] at hab
  rw [compareVersions_nonpos_iff h heq' hb hc] at hbc
  rw [compareVersions_nonpos_iff h heq'' ha hc]
  exact ⟨toldApart_trans hab.1 hbc.1 hab.2 hbc.2, hab.2.trans hbc.2⟩

/-- **The order is precedence** of versions that are told apart and read as they are meant. -/
theorem compareVersions_eq_precedence (h : Rounds js round) {v w : SemVer}
    (htold : TellsApart round (String.ofList v.text) (String.ofList w.text))
    (hmeant : IsMeant round v w) :
    compareVersions js (String.ofList v.text) (String.ofList w.text) = v.precedence w := by
  rw [TellsApart, String.ofList_inj, or_iff_right v.text_ne_dev, or_iff_right w.text_ne_dev,
    String.toList_ofList, String.toList_ofList] at htold
  rw [← signOf_fieldsOf h.mono hmeant htold]
  by_cases heq : v.text = w.text
  · rw [heq, compareVersions_self, signOf_self]
  · have hne : String.ofList v.text ≠ String.ofList w.text := fun h => heq (String.ofList_inj.mp h)
    have hcompares := compares_versions h hne v.text_ne_dev w.text_ne_dev
    rw [String.toList_ofList, String.toList_ofList] at hcompares
    exact hcompares.told (htold.resolve_left heq)

/-- **When `compareVersions` orders versions.** Two have opposite signs exactly where the code tells
them apart. It is transitive, and "dev" is above everything; and it is precedence of those that
are told apart and read as they are meant. -/
theorem compareVersions_spec (h : Rounds js round) :
    (∀ a b, compareVersions js b a = -compareVersions js a b ↔ TellsApart round a b) ∧
    (∀ a b c, compareVersions js a b ≤ 0 → compareVersions js b c ≤ 0 →
      compareVersions js a c ≤ 0) ∧
    (∀ a ≠ "dev", compareVersions js "dev" a = 1 ∧ compareVersions js a "dev" = -1) ∧
    ∀ v w : SemVer, TellsApart round (String.ofList v.text) (String.ofList w.text) →
      IsMeant round v w →
        compareVersions js (String.ofList v.text) (String.ofList w.text) = v.precedence w :=
  ⟨compareVersions_swap_iff h, fun _ _ _ => compareVersions_trans h, fun _ => compareVersions_dev,
    fun _ _ => compareVersions_eq_precedence h⟩

theorem rounds_decimals : Rounds decimals exactly where
  mono _ _ hle := WithTop.coe_le_coe.mpr hle
  toNumber ds hds := by
    simp only [decimals, String.toList_ofList, if_pos hds]
    rfl

/-- `0.1.1-dev.<n>.g<sha>` -/
def commit (n : ℕ) : SemVer where
  major := 0
  minor := 1
  patch := 1
  pre := [.word ⟨"dev".toList, rfl, rfl⟩, .number n, .word ⟨"g1f".toList, rfl, rfl⟩]
  build := []
  allowed := rfl

/-- The tenth commit after a tag is above the ninth. -/
theorem compareVersions_spec_commits :
    compareVersions decimals (String.ofList (commit 10).text) (String.ofList (commit 9).text) =
      1 := by
  have hmeant : IsMeant exactly (commit 10) (commit 9) :=
    .entry [some (.word ⟨"dev".toList, rfl, rfl⟩)] (some (.number 10)) (some (.number 9)) rfl
      ⟨[some (.word ⟨"g1f".toList, rfl, rfl⟩)], rfl⟩
      ⟨[some (.word ⟨"g1f".toList, rfl, rfl⟩)], rfl⟩ nofun
  rw [(compareVersions_spec rounds_decimals).2.2.2 _ _ (by decide +kernel) hmeant]
  decide +kernel

def candidate (build : List (List Char))
    (allowed : (build.all fun b => b ≠ [] && b.all isIdentifierChar) = true) : SemVer where
  major := 1
  minor := 0
  patch := 0
  pre := [.word ⟨"rc".toList, rfl, rfl⟩, .number 1]
  build := build
  allowed := allowed

/-- **Not an order, and not precedence**: of "1.0.0-01" and "1.0.0-1" each is above the other, and
a candidate is below the same one with build metadata. -/
theorem not_compareVersions_precedence :
    (¬∀ a b, compareVersions decimals b a = -compareVersions decimals a b) ∧
      ¬∀ v w : SemVer, compareVersions decimals (String.ofList v.text) (String.ofList w.text) =
        v.precedence w := by
  refine ⟨fun h => ?_, fun h => ?_⟩
  · exact absurd ((compareVersions_swap_iff rounds_decimals "1.0.0-01" "1.0.0-1").mp (h _ _))
      (by decide)
  · have hsame := h (candidate [] rfl) (candidate ["5".toList] rfl)
    exact absurd hsame (by decide)

end Versions

end Sone.VersionFence
