import Mathlib.Data.List.Find
import Mathlib.Data.List.TakeWhile
import Sone.Formula.Parse

/-!
# The tokens of a formula

A token is what one of five rules finds at the head of a text (`Lexeme`), and a text is cut after
each token and at its spaces (`Lexes`). This is `tokenise` without its fuel (`lexes_iff`).

A rule takes as much as it can, so that a text may be cut otherwise once something follows it.
`Breaks` says where that does not happen: there two texts are cut one after the other
(`Lexes.append`), and wherever a token begins, a text falls into two (`Lexes.split`).
-/

namespace Sone

open List Option

variable {js : Js} {u : Unicode}

/-! ### Runs of characters -/

theorem span_append_of_head {p : Char → Bool} {rest : List Char}
    (hrest : ∀ c ∈ rest.head?, p c = false) (cs : List Char) :
    (cs ++ rest).takeWhile p = cs.takeWhile p ∧
      (cs ++ rest).dropWhile p = cs.dropWhile p ++ rest := by
  induction cs with
  | nil =>
    cases rest with
    | nil => exact ⟨rfl, rfl⟩
    | cons c rest =>
      have hc : ¬p c = true := by simp [hrest c rfl]
      exact ⟨takeWhile_cons_of_neg hc, dropWhile_cons_of_neg hc⟩
  | cons c cs ih =>
    by_cases hc : p c = true
    · simp only [cons_append, takeWhile_cons_of_pos hc, dropWhile_cons_of_pos hc]
      exact ⟨congrArg _ ih.1, ih.2⟩
    · simp only [cons_append, takeWhile_cons_of_neg hc, dropWhile_cons_of_neg hc]
      exact ⟨trivial, trivial⟩

theorem span_append {p : Char → Bool} {cs rest : List Char} (hcs : ∀ c ∈ cs, p c = true)
    (hrest : ∀ c ∈ rest.head?, p c = false) :
    (cs ++ rest).takeWhile p = cs ∧ (cs ++ rest).dropWhile p = rest := by
  obtain ⟨htake, hdrop⟩ := span_append_of_head hrest cs
  have hall := takeWhile_eq_self_iff.mpr hcs
  have hnone := dropWhile_eq_nil_iff.mpr hcs
  exact ⟨htake.trans hall, hdrop.trans (by rw [hnone, nil_append])⟩

theorem span_of_append {p : Char → Bool} {cs rest : List Char}
    (h : (cs ++ rest).takeWhile p <+: cs) :
    cs.takeWhile p = (cs ++ rest).takeWhile p ∧
      (cs ++ rest).dropWhile p = cs.dropWhile p ++ rest := by
  induction cs with
  | nil =>
    have hnone := prefix_nil.mp h
    rw [nil_append] at hnone ⊢
    refine ⟨hnone.symm, ?_⟩
    have hall := takeWhile_append_dropWhile (p := p) (l := rest)
    rwa [hnone] at hall
  | cons c cs ih =>
    by_cases hc : p c = true
    · simp only [cons_append, takeWhile_cons_of_pos hc, dropWhile_cons_of_pos hc,
        prefix_cons_inj] at h ⊢
      exact ⟨congrArg _ (ih h).1, (ih h).2⟩
    · simp only [cons_append, takeWhile_cons_of_neg hc, dropWhile_cons_of_neg hc]
      exact ⟨trivial, trivial⟩

theorem span_delimited {d : Char} {cs : List Char} (h : d ∉ cs) (rest : List Char) :
    (cs ++ d :: rest).takeWhile (· ≠ d) = cs ∧ (cs ++ d :: rest).dropWhile (· ≠ d) = d :: rest := by
  refine span_append (fun c hc => ?_) fun c hc => ?_
  · simpa using fun heq : c = d => h (heq ▸ hc)
  · rw [List.head?_cons, mem_some_iff] at hc
    simp [hc]

theorem eq_of_dropWhile_ne {d c : Char} {cs rest : List Char}
    (h : cs.dropWhile (· ≠ d) = c :: rest) :
    d ∉ cs.takeWhile (· ≠ d) ∧ cs = cs.takeWhile (· ≠ d) ++ d :: rest := by
  have hc : c = d := by simpa using eq_false_of_dropWhile h
  refine ⟨fun hmem => by simpa using mem_takeWhile_imp hmem, ?_⟩
  rw [← hc, ← h, hc, takeWhile_append_dropWhile]

/-! ### How wide a text is -/

theorem textWidth_append (cs rest : List Char) :
    textWidth (cs ++ rest) = textWidth cs + textWidth rest := by
  simp [textWidth]

theorem textWidth_cons (c : Char) (cs : List Char) :
    textWidth (c :: cs) = textWidth [c] + textWidth cs := textWidth_append [c] cs

@[simp] theorem textWidth_nil : textWidth [] = 0 := rfl

theorem textWidth_pos {cs : List Char} (h : cs ≠ []) : 0 < textWidth cs := by
  obtain ⟨c, cs, rfl⟩ := exists_cons_of_ne_nil h
  rw [textWidth_cons]
  have hone : 0 < textWidth [c] := by
    simp only [textWidth, flatMap_cons, flatMap_nil, append_nil, Char.units]
    split <;> simp
  omega

theorem textWidth_one {c : Char} (h : c.toNat < 0x10000) : textWidth [c] = 1 := by
  simp [textWidth, Char.units, h]

theorem textWidth_space {c : Char} (h : JsString.isSpace c = true) : textWidth [c] = 1 := by
  simp only [JsString.isSpace, mem_cons, not_mem_nil, or_false, Bool.or_eq_true,
    decide_eq_true_eq, Bool.and_eq_true] at h
  exact textWidth_one (by omega)

theorem textWidth_delimited {c d : Char} (hc : c.toNat < 0x10000) (hd : d.toNat < 0x10000)
    (cs : List Char) : textWidth (c :: (cs ++ [d])) = textWidth cs + 2 := by
  rw [textWidth_cons, textWidth_append, textWidth_one hc, textWidth_one hd]
  omega

/-! ### What begins a token -/

theorem isAlpha_eq_ranges (c : Char) :
    c.isAlpha = (decide (c.val ≥ 'A'.val ∧ c.val ≤ 'Z'.val) ||
      (decide (c.val ≥ 'a'.val) && decide (c.val ≤ 'z'.val))) :=
  rfl

theorem isAlpha_of_isDigit {c : Char} (h : c.isDigit = true) :
    c.toNat < 128 ∧ c.isAlpha = false := by
  simp only [Char.isDigit, isAlpha_eq_ranges, Bool.decide_and, Bool.and_eq_true,
    decide_eq_true_eq, Bool.or_eq_false_iff, Bool.and_eq_false_iff, decide_eq_false_iff_not,
    ge_iff_le, UInt32.le_iff_toNat_le, Char.toNat] at *
  simp at *
  omega

theorem isSpace_of_startsNumber {c : Char} {cs : List Char} (h : startsNumber (c :: cs) = true) :
    JsString.isSpace c = false := by
  simp only [startsNumber, Bool.or_eq_true, Bool.and_eq_true, decide_eq_true_eq] at h
  rcases h with h | ⟨rfl, -⟩
  · have hdigit : 48 ≤ c.toNat ∧ c.toNat ≤ 57 := by
      simpa [Char.isDigit, UInt32.le_iff_toNat_le] using h
    simp only [JsString.isSpace, mem_cons, not_mem_nil, or_false, Bool.or_eq_false_iff,
      decide_eq_false_iff_not, Bool.and_eq_false_iff]
    omega
  · decide

theorem startsName_spec {c : Char} (h : startsName u c = true) (cs : List Char) :
    JsString.isSpace c = false ∧ startsNumber (c :: cs) = false ∧ c ≠ '"' ∧ c ≠ '[' := by
  simp only [startsName, Bool.or_eq_true, Bool.and_eq_true, decide_eq_true_eq] at h
  rcases h with ⟨hletter, -⟩ | rfl
  · have hascii : ∀ {d : Char}, d.toNat < 128 → d.isAlpha = false → c ≠ d := by
      rintro d hd halpha rfl
      rw [(u.ascii c hd).1, halpha] at hletter
      cases hletter
    have hspace : JsString.isSpace c = false := by
      by_contra hspace
      rw [(u.space c ((Bool.not_eq_false _).mp hspace)).1] at hletter
      cases hletter
    have hdigit : c.isDigit = false := by
      by_contra hdigit
      obtain ⟨hlt, halpha⟩ := isAlpha_of_isDigit ((Bool.not_eq_false _).mp hdigit)
      exact hascii hlt halpha rfl
    have hdot : c ≠ '.' := hascii (by decide) (by decide)
    exact ⟨hspace, by simp [startsNumber, hdigit, hdot], hascii (by decide) (by decide),
      hascii (by decide) (by decide)⟩
  · exact ⟨by decide, by cases cs <;> rfl, by decide, by decide⟩

theorem inName_of_startsName {c : Char} (h : startsName u c = true) : inName u c = true := by
  simp only [startsName, Bool.or_eq_true, Bool.and_eq_true] at h
  simp only [inName, Bool.or_eq_true]
  exact h.imp (fun h => .inl h.1) id

theorem inName_ascii {c : Char} (hlt : c.toNat < 128) (halpha : c.isAlpha = false)
    (hdigit : c.isDigit = false) (hunder : c ≠ '_') : inName u c = false := by
  rw [inName, (u.ascii c hlt).1, (u.ascii c hlt).2, halpha, hdigit]
  simpa using hunder

/-! ### Numbers -/

/-- `\.?[0-9]+`, after the digits before the point. -/
def fractionText (cs : List Char) : List Char :=
  match cs with
  | '.' :: d :: rest => if d.isDigit then '.' :: (d :: rest).takeWhile Char.isDigit else []
  | _ => []

theorem fractionText_eq_nil {cs : List Char} (h : ∀ d rest, cs ≠ '.' :: d :: rest) :
    fractionText cs = [] := by
  unfold fractionText
  split
  · exact absurd rfl (h _ _)
  · rfl

theorem fractionText_of_ne {c : Char} (h : c ≠ '.') (cs : List Char) :
    fractionText (c :: cs) = [] :=
  fractionText_eq_nil fun _ _ heq => h (List.cons.inj heq).1

theorem numberText_eq (cs : List Char) :
    numberText cs = cs.takeWhile Char.isDigit ++ fractionText (cs.dropWhile Char.isDigit) := by
  unfold numberText
  split
  · rename_i d rest hdrop
    rw [hdrop, fractionText]
    by_cases hd : d.isDigit = true
    · rw [if_pos hd, if_pos hd]
    · rw [if_neg hd, if_neg hd, append_nil]
  · rename_i hne
    rw [fractionText_eq_nil hne, append_nil]

theorem fractionText_atHead (cs : List Char) :
    fractionText cs <+: cs ∧ ∀ c ∈ fractionText cs, c.isDigit = true ∨ c = '.' := by
  unfold fractionText
  split
  · split
    · refine ⟨(prefix_cons_inj _).mpr (List.takeWhile_prefix _), fun c hc => ?_⟩
      exact (mem_cons.mp hc).symm.imp mem_takeWhile_imp id
    · exact ⟨List.nil_prefix, nofun⟩
  · exact ⟨List.nil_prefix, nofun⟩

theorem numberText_atHead (cs : List Char) :
    numberText cs <+: cs ∧ ∀ c ∈ numberText cs, c.isDigit = true ∨ c = '.' := by
  obtain ⟨hhead, hchars⟩ := fractionText_atHead (cs.dropWhile Char.isDigit)
  rw [numberText_eq]
  refine ⟨?_, fun c hc => ?_⟩
  · have h := (prefix_append_right_inj (cs.takeWhile Char.isDigit)).mpr hhead
    rwa [takeWhile_append_dropWhile] at h
  · exact (mem_append.mp hc).elim (fun hc => .inl (mem_takeWhile_imp hc)) (hchars c)

theorem numberText_spec {cs : List Char} (h : startsNumber cs = true) :
    1 ≤ (numberText cs).length := by
  rw [numberText_eq]
  cases cs with
  | nil => simp [startsNumber] at h
  | cons c cs =>
    by_cases hc : c.isDigit = true
    · rw [takeWhile_cons_of_pos hc]
      simp
    · -- it begins with its point
      simp only [startsNumber, hc, Bool.false_or, Bool.and_eq_true, decide_eq_true_eq] at h
      obtain ⟨rfl, hdigit⟩ := h
      cases cs with
      | nil => simp at hdigit
      | cons d cs =>
        rw [List.head?_cons, any_some] at hdigit
        rw [dropWhile_cons_of_neg hc, fractionText, if_pos hdigit]
        simp

theorem numberText_append_of_head {rest : List Char}
    (hrest : ∀ c ∈ rest.head?, c.isDigit = false ∧ c ≠ '.') (cs : List Char) :
    numberText (cs ++ rest) = numberText cs := by
  have hdigit : ∀ c ∈ rest.head?, c.isDigit = false := fun c hc => (hrest c hc).1
  have hfraction : ∀ cs : List Char, fractionText (cs ++ rest) = fractionText cs := by
    intro cs
    rcases cs with _ | ⟨c, cs⟩
    · rcases rest with _ | ⟨c, rest⟩
      · rfl
      · exact fractionText_of_ne (hrest c rfl).2 rest
    by_cases hc : c = '.'
    · subst hc
      rcases cs with _ | ⟨d, cs⟩
      · rcases rest with _ | ⟨d, rest⟩
        · rfl
        · exact if_neg (by simp [hdigit d rfl])
      · simp only [cons_append, fractionText]
        rw [← cons_append, (span_append_of_head hdigit (d :: cs)).1]
    · rw [cons_append, fractionText_of_ne hc, fractionText_of_ne hc]
  obtain ⟨htake, hdrop⟩ := span_append_of_head hdigit cs
  rw [numberText_eq, numberText_eq, htake, hdrop, hfraction]

theorem numberText_of_append {cs rest : List Char} (h : numberText (cs ++ rest) <+: cs) :
    numberText cs = numberText (cs ++ rest) := by
  have hfraction : ∀ {more : List Char}, fractionText (more ++ rest) <+: more →
      fractionText more = fractionText (more ++ rest) := by
    intro more hmore
    rcases more with _ | ⟨c, more⟩
    · exact (prefix_nil.mp hmore).symm
    by_cases hc : c = '.'
    · subst hc
      rcases more with _ | ⟨d, more⟩
      · rcases rest with _ | ⟨d, rest⟩
        · rfl
        by_cases hd : d.isDigit = true
        · -- the point would be taken with the digit after it
          simp [fractionText, hd] at hmore
        · exact (if_neg hd).symm
      · simp only [cons_append, fractionText] at hmore ⊢
        split at hmore
        · rw [prefix_cons_inj] at hmore
          rw [(@span_of_append _ (d :: more) rest hmore).1, cons_append]
        · rename_i hd
          rw [if_neg hd, if_neg hd]
    · rw [cons_append, fractionText_of_ne hc, fractionText_of_ne hc]
  rw [numberText_eq] at h
  obtain ⟨htake, hdrop⟩ := span_of_append ((prefix_append _ _).trans h)
  rw [numberText_eq, numberText_eq, htake, hdrop, hfraction]
  rw [hdrop, ← htake] at h
  refine (prefix_append_right_inj (cs.takeWhile Char.isDigit)).mp ?_
  rwa [takeWhile_append_dropWhile]

theorem startsNumber_append_of_head {rest : List Char}
    (hrest : ∀ c ∈ rest.head?, c.isDigit = false) {cs : List Char} (hcs : cs ≠ []) :
    startsNumber (cs ++ rest) = startsNumber cs := by
  rcases cs with _ | ⟨c, _ | ⟨d, cs⟩⟩
  · exact absurd rfl hcs
  · cases rest with
    | nil => rfl
    | cons d rest => simp [startsNumber, hrest d rfl]
  · rfl

theorem startsNumber_of_append {cs rest : List Char} (hcs : cs ≠ [])
    (hstart : startsNumber (cs ++ rest) = true) (h : numberText (cs ++ rest) <+: cs) :
    startsNumber cs = true := by
  rcases cs with _ | ⟨c, _ | ⟨d, cs⟩⟩
  · exact absurd rfl hcs
  · -- a point alone is no number
    by_contra hnot
    have hlen := h.length_le
    rw [← numberText_of_append h] at hlen
    rcases rest with _ | ⟨d, rest⟩
    · exact hnot hstart
    · simp only [startsNumber, Bool.or_eq_true, List.head?_nil, any_none, Bool.and_false,
        Bool.false_eq_true, or_false] at hnot
      have hpoint : c = '.' ∧ d.isDigit = true := by
        simpa [startsNumber, hnot] using hstart
      obtain ⟨rfl, hd⟩ := hpoint
      rw [singleton_append, numberText_eq, dropWhile_cons_of_neg (by decide),
        takeWhile_cons_of_neg (by decide), fractionText, if_pos hd,
        takeWhile_cons_of_pos hd] at h
      simpa using h.length_le
  · exact hstart

/-! ### Operators -/

theorem operator_spec {op : List Char} (h : op ∈ operators) :
    op ≠ [] ∧ textWidth op = op.length ∧
      ∀ c ∈ op, c ∈ ['<', '>', '+', '-', '*', '/', '(', ')', ',', '='] := by
  simp only [operators, mem_cons, not_mem_nil, or_false] at h
  rcases h with rfl | rfl | rfl | rfl | rfl | rfl | rfl | rfl | rfl | rfl | rfl | rfl | rfl <;>
    exact ⟨by decide, by decide, by simp⟩

theorem operatorChar_spec {c : Char}
    (hc : c ∈ ['<', '>', '+', '-', '*', '/', '(', ')', ',', '=']) (cs : List Char) :
    JsString.isSpace c = false ∧ startsNumber (c :: cs) = false ∧ c ≠ '"' ∧ c ≠ '[' ∧
      startsName u c = false ∧ c ≠ ']' := by
  have hplain : c.toNat < 128 ∧ c.isAlpha = false ∧ c.isDigit = false ∧ c ≠ '_' ∧ c ≠ '.' ∧
      JsString.isSpace c = false ∧ c ≠ '"' ∧ c ≠ '[' ∧ c ≠ ']' := by
    simp only [mem_cons, not_mem_nil, or_false] at hc
    rcases hc with rfl | rfl | rfl | rfl | rfl | rfl | rfl | rfl | rfl | rfl <;> decide
  obtain ⟨hlt, halpha, hdigit, hunder, hdot, hspace, hquote, hbracket, hclose⟩ := hplain
  refine ⟨hspace, by simp [startsNumber, hdigit, hdot], hquote, hbracket, ?_, hclose⟩
  rw [startsName, (u.ascii c hlt).1, halpha]
  simpa using hunder

def operatorOf (cs : List Char) : Option (List Char) :=
  operators.find? fun op => op.isPrefixOf cs

theorem operatorOf_spec {cs op : List Char} (h : operatorOf cs = some op) :
    op ∈ operators ∧ op <+: cs := by
  rw [operatorOf] at h
  exact ⟨List.mem_of_find?_eq_some h, by simpa using List.find?_some h⟩

theorem operatorOf_append {cs rest : List Char} (hcs : cs ≠ [])
    (hrest : ∀ c ∈ rest.head?, c ∉ ['=', '>']) : operatorOf (cs ++ rest) = operatorOf cs := by
  have hsame : ∀ op ∈ operators, op.isPrefixOf (cs ++ rest) = op.isPrefixOf cs := by
    intro op hop
    rcases cs with _ | ⟨c, _ | ⟨d, cs⟩⟩
    · exact absurd rfl hcs
    · rcases rest with _ | ⟨d, rest⟩
      · rfl
      have hd := hrest d rfl
      simp only [mem_cons, not_mem_nil, or_false, not_or] at hd
      simp only [operators, mem_cons, not_mem_nil, or_false] at hop
      rcases hop with rfl | rfl | rfl | rfl | rfl | rfl | rfl | rfl | rfl | rfl | rfl | rfl |
        rfl <;>
        simp [List.isPrefixOf, Ne.symm hd.1, Ne.symm hd.2]
    · simp only [operators, mem_cons, not_mem_nil, or_false] at hop
      rcases hop with rfl | rfl | rfl | rfl | rfl | rfl | rfl | rfl | rfl | rfl | rfl | rfl |
        rfl <;>
        simp [List.isPrefixOf]
  exact List.find?_congr fun op hop => hsame op hop

theorem operatorOf_of_append {part rest next : List Char}
    (h : operatorOf (part ++ rest ++ next) = some part) :
    operatorOf (part ++ rest) = some part := by
  rw [operatorOf, List.find?_eq_some_iff_append] at h ⊢
  obtain ⟨-, before, after, hall, hbefore⟩ := h
  refine ⟨by simp, before, after, hall, fun op hop => ?_⟩
  have hnot := hbefore op hop
  simp only [Bool.not_eq_true', ← Bool.not_eq_true, isPrefixOf_iff_prefix] at hnot ⊢
  exact fun hhead => hnot (hhead.trans (prefix_append _ _))

/-! ### One token -/

/-- **A token at the head of a text**: what it is, how it is written and what is left. -/
inductive Lexeme (js : Js) (u : Unicode) : TokenKind → List Char → List Char → Prop where
  | number {part rest} (start : startsNumber (part ++ rest) = true)
      (longest : numberText (part ++ rest) = part) :
      Lexeme js u (.number (js.toNumber (.string (String.ofList part)))) part rest
  | string {value rest} (h : '"' ∉ value) :
      Lexeme js u (.string (String.ofList value)) ('"' :: (value ++ ['"'])) rest
  | field {value rest} (h : ']' ∉ value) :
      Lexeme js u (.field (JsString.trim (String.ofList value))) ('[' :: (value ++ [']'])) rest
  | name {part rest} (start : part.head?.any (startsName u) = true)
      (letters : ∀ c ∈ part, inName u c = true) (longest : ∀ c ∈ rest.head?, inName u c = false) :
      Lexeme js u (.name (String.ofList part)) part rest
  | op {part rest} (longest : operatorOf (part ++ rest) = some part) :
      Lexeme js u (.op (String.ofList part)) part rest

namespace Lexeme

variable {kind : TokenKind} {part rest more : List Char}

theorem part_ne_nil (h : Lexeme js u kind part rest) : part ≠ [] := by
  cases h with
  | number start longest =>
    have hpos := numberText_spec start
    rw [longest] at hpos
    exact ne_nil_of_length_pos hpos
  | string | field => exact cons_ne_nil _ _
  | name start =>
    rintro rfl
    simp at start
  | op longest => exact (operator_spec (operatorOf_spec longest).1).1

theorem kind_ne_finish (h : Lexeme js u kind part rest) : kind ≠ .finish := by
  cases h <;> simp

/-- **It is what is read there.** -/
theorem tokenise_eq (h : Lexeme js u kind part rest) (fuel place : ℕ) :
    tokenise js u (fuel + 1) place (part ++ rest) =
      beforeTokens kind place (tokenise js u fuel (place + textWidth part) rest) := by
  obtain ⟨c, cs, rfl⟩ := exists_cons_of_ne_nil h.part_ne_nil
  cases h with
  | number start longest =>
    have hleft : (c :: cs ++ rest).drop (c :: cs).length = rest := drop_left
    rw [cons_append] at start longest hleft ⊢
    rw [tokenise, if_neg (by simp [isSpace_of_startsNumber start]), if_pos start, longest]
    simp only [hleft]
  | @string value rest hvalue =>
    obtain ⟨htake, hdrop⟩ := span_delimited hvalue rest
    rw [cons_append, append_assoc, singleton_append, tokenise, if_neg (by decide),
      if_neg (by simp [startsNumber]), if_pos rfl]
    simp only [htake, hdrop]
    rw [textWidth_delimited (by decide) (by decide), Nat.add_assoc]
  | @field value rest hvalue =>
    obtain ⟨htake, hdrop⟩ := span_delimited hvalue rest
    rw [cons_append, append_assoc, singleton_append, tokenise, if_neg (by decide),
      if_neg (by simp [startsNumber]), if_neg (by decide), if_pos rfl]
    simp only [htake, hdrop]
    rw [textWidth_delimited (by decide) (by decide), Nat.add_assoc]
  | name start letters longest =>
    obtain ⟨hspace, hnumber, hquote, hbracket⟩ := startsName_spec start (cs ++ rest)
    obtain ⟨htake, hdrop⟩ := span_append letters longest
    rw [cons_append] at htake hdrop ⊢
    rw [tokenise, if_neg (by simp [hspace]), if_neg (by simp [hnumber]), if_neg hquote,
      if_neg hbracket, if_pos (by simpa using start)]
    simp only [htake, hdrop]
  | op longest =>
    obtain ⟨-, hwidth, hchars⟩ := operator_spec (operatorOf_spec longest).1
    obtain ⟨hspace, hnumber, hquote, hbracket, hname, -⟩ :=
      @operatorChar_spec u c (hchars c mem_cons_self) (cs ++ rest)
    have hleft : (c :: cs ++ rest).drop (c :: cs).length = rest := drop_left
    rw [cons_append] at longest hleft ⊢
    rw [operatorOf] at longest
    rw [tokenise, if_neg (by simp [hspace]), if_neg (by simp [hnumber]), if_neg hquote,
      if_neg hbracket, if_neg (by simp [hname]), longest]
    simp only [hleft, hwidth]

end Lexeme

/-- **What is read at a character**: a space, a token, or an error. -/
theorem tokenise_cases (js : Js) (u : Unicode) (c : Char) (cs : List Char) :
    (JsString.isSpace c = true ∧ ∀ fuel place,
        tokenise js u (fuel + 1) place (c :: cs) = tokenise js u fuel (place + 1) cs) ∨
      (∃ kind part rest, c :: cs = part ++ rest ∧ Lexeme js u kind part rest) ∨
      ∃ error : ℕ → ParseError, ∀ fuel place,
        tokenise js u (fuel + 1) place (c :: cs) = some (.error (error place)) := by
  by_cases hspace : JsString.isSpace c = true
  · exact .inl ⟨hspace, fun fuel place => by rw [tokenise, if_pos hspace]⟩
  refine .inr ?_
  by_cases hnumber : startsNumber (c :: cs) = true
  · obtain ⟨rest, hrest⟩ := (numberText_atHead (c :: cs)).1
    exact .inl ⟨_, _, rest, hrest.symm, .number (by rwa [hrest]) (by rw [hrest])⟩
  by_cases hquote : c = '"'
  · subst hquote
    rcases hdrop : cs.dropWhile (· ≠ '"') with _ | ⟨d, rest⟩
    · refine .inr ⟨fun place => ⟨.unclosedString, place, none⟩, fun fuel place => ?_⟩
      rw [tokenise, if_neg hspace, if_neg hnumber, if_pos rfl]
      simp only [hdrop]
    · obtain ⟨hvalue, hcs⟩ := eq_of_dropWhile_ne hdrop
      refine .inl ⟨_, _, rest, ?_, .string hvalue⟩
      rw [cons_append, append_assoc, singleton_append, ← hcs]
  by_cases hbracket : c = '['
  · subst hbracket
    rcases hdrop : cs.dropWhile (· ≠ ']') with _ | ⟨d, rest⟩
    · refine .inr ⟨fun place => ⟨.unclosedBracket, place, none⟩, fun fuel place => ?_⟩
      rw [tokenise, if_neg hspace, if_neg hnumber, if_neg hquote, if_pos rfl]
      simp only [hdrop]
    · obtain ⟨hvalue, hcs⟩ := eq_of_dropWhile_ne hdrop
      refine .inl ⟨_, _, rest, ?_, .field hvalue⟩
      rw [cons_append, append_assoc, singleton_append, ← hcs]
  by_cases hname : startsName u c = true
  · refine .inl ⟨_, _, _, (takeWhile_append_dropWhile (p := inName u)).symm,
      .name ?_ (fun d hd => mem_takeWhile_imp hd) head_dropWhile⟩
    rw [takeWhile_cons_of_pos (inName_of_startsName hname)]
    simpa using hname
  rcases hop : operatorOf (c :: cs) with _ | op
  · refine .inr ⟨fun place => ⟨.unexpectedToken, place, some (firstUnit c)⟩, fun fuel place => ?_⟩
    rw [operatorOf] at hop
    rw [tokenise, if_neg hspace, if_neg hnumber, if_neg hquote, if_neg hbracket, if_neg hname, hop]
  · obtain ⟨rest, hrest⟩ := (operatorOf_spec hop).2
    exact .inl ⟨_, _, rest, hrest.symm, .op (by rwa [hrest])⟩

/-- **One more than the length** is fuel enough, and the tokens end with the end. -/
theorem tokenise_spec {fuel place : ℕ} {cs : List Char} (h : cs.length < fuel) :
    ∃ r, tokenise js u fuel place cs = some r ∧ ∀ tokens, r = .ok tokens →
      ∃ ts stop, tokens = ts ++ [⟨.finish, stop⟩] ∧ ∀ t ∈ ts, t.kind ≠ .finish := by
  induction fuel generalizing place cs with
  | zero => omega
  | succ fuel ih =>
    rcases cs with _ | ⟨c, cs⟩
    · refine ⟨_, rfl, fun tokens heq => ?_⟩
      obtain rfl := Except.ok.inj heq
      exact ⟨[], place, rfl, nofun⟩
    rcases tokenise_cases js u c cs with ⟨-, heq⟩ | ⟨kind, part, rest, hcs, hpart⟩ | ⟨error, heq⟩
    · rw [heq]
      rw [length_cons] at h
      exact ih (by omega)
    · -- one token, and those of what is left
      have hpos := length_pos_of_ne_nil hpart.part_ne_nil
      rw [hcs, length_append] at h
      obtain ⟨r, hr, hspec⟩ := @ih (place + textWidth part) rest (by omega)
      rw [hcs, hpart.tokenise_eq, hr]
      cases r with
      | error error => exact ⟨_, rfl, nofun⟩
      | ok tokens =>
        obtain ⟨ts, stop, rfl, hts⟩ := hspec _ rfl
        refine ⟨_, rfl, fun tokens' heq => ?_⟩
        obtain rfl := Except.ok.inj heq
        refine ⟨⟨kind, place⟩ :: ts, stop, rfl, fun t ht => ?_⟩
        rcases mem_cons.mp ht with rfl | ht
        · exact hpart.kind_ne_finish
        · exact hts t ht
    · exact ⟨_, heq fuel place, nofun⟩

theorem tokenise_succ {fuel place : ℕ} {cs : List Char} {r : Except ParseError (List Token)}
    (h : tokenise js u fuel place cs = some r) : tokenise js u (fuel + 1) place cs = some r := by
  induction fuel generalizing place cs r with
  | zero => simp [tokenise] at h
  | succ fuel ih =>
    rcases cs with _ | ⟨c, cs⟩
    · exact h
    rcases tokenise_cases js u c cs with ⟨-, heq⟩ | ⟨kind, part, rest, hcs, hpart⟩ | ⟨error, heq⟩
    · rw [heq] at h ⊢
      exact ih h
    · rw [hcs, hpart.tokenise_eq, beforeTokens] at h ⊢
      obtain ⟨r, hr, hmap⟩ := map_eq_some_iff.mp h
      rw [ih hr, map_some, hmap]
    · rw [heq] at h ⊢
      exact h

theorem tokenise_of_le {fuel fuel' place : ℕ} {cs : List Char}
    {r : Except ParseError (List Token)} (hle : fuel ≤ fuel')
    (h : tokenise js u fuel place cs = some r) : tokenise js u fuel' place cs = some r := by
  induction hle with
  | refl => exact h
  | step _ ih => exact tokenise_succ ih

/-! ### The tokens of a text -/

/-- **The tokens of a text** that begins at a place. -/
inductive Lexes (js : Js) (u : Unicode) : ℕ → List Char → List Token → Prop where
  | finish (place : ℕ) : Lexes js u place [] [⟨.finish, place⟩]
  | space {place c cs ts} (hc : JsString.isSpace c = true) (h : Lexes js u (place + 1) cs ts) :
      Lexes js u place (c :: cs) ts
  | token {place kind part rest ts} (hpart : Lexeme js u kind part rest)
      (h : Lexes js u (place + textWidth part) rest ts) :
      Lexes js u place (part ++ rest) (⟨kind, place⟩ :: ts)

theorem lexes_of_tokenise {fuel place : ℕ} {cs : List Char} {ts : List Token}
    (h : tokenise js u fuel place cs = some (.ok ts)) : Lexes js u place cs ts := by
  induction fuel generalizing place cs ts with
  | zero => simp [tokenise] at h
  | succ fuel ih =>
    cases cs with
    | nil =>
      obtain rfl := Except.ok.inj (some.inj h)
      exact .finish place
    | cons c cs =>
      rcases tokenise_cases js u c cs with
        ⟨hspace, heq⟩ | ⟨kind, part, rest, hcs, hpart⟩ | ⟨error, heq⟩
      · exact .space hspace (ih ((heq fuel place).symm.trans h))
      · rw [hcs, hpart.tokenise_eq, beforeTokens] at h
        obtain ⟨r, hr, hts⟩ := map_eq_some_iff.mp h
        cases r with
        | error error => cases hts
        | ok us =>
          obtain rfl := Except.ok.inj hts
          exact hcs ▸ .token hpart (ih hr)
      · rw [heq] at h
        cases h

theorem Lexes.tokenise_eq {place : ℕ} {cs : List Char} {ts : List Token}
    (h : Lexes js u place cs ts) : ∃ fuel, tokenise js u fuel place cs = some (.ok ts) := by
  induction h with
  | finish place => exact ⟨1, rfl⟩
  | space hc _ ih =>
    obtain ⟨fuel, hfuel⟩ := ih
    exact ⟨fuel + 1, by rw [tokenise, if_pos hc, hfuel]⟩
  | token hpart _ ih =>
    obtain ⟨fuel, hfuel⟩ := ih
    refine ⟨fuel + 1, ?_⟩
    rw [hpart.tokenise_eq, hfuel]
    rfl

theorem lexes_iff {place : ℕ} {cs : List Char} {ts : List Token} :
    Lexes js u place cs ts ↔ ∃ fuel, tokenise js u fuel place cs = some (.ok ts) :=
  ⟨Lexes.tokenise_eq, fun ⟨_, h⟩ => lexes_of_tokenise h⟩

theorem Lexes.unique {place : ℕ} {cs : List Char} {ts us : List Token}
    (h : Lexes js u place cs ts) (h' : Lexes js u place cs us) : ts = us := by
  obtain ⟨fuel, hfuel⟩ := h.tokenise_eq
  obtain ⟨fuel', hfuel'⟩ := h'.tokenise_eq
  have hts := tokenise_of_le (Nat.le_max_left fuel fuel') hfuel
  have hus := tokenise_of_le (Nat.le_max_right fuel fuel') hfuel'
  exact Except.ok.inj (some.inj (hts.symm.trans hus))

theorem Lexes.le_place {place : ℕ} {cs : List Char} {ts : List Token} (h : Lexes js u place cs ts) :
    ∀ t ∈ ts, place ≤ t.place := by
  induction h with
  | finish place => simp
  | space _ _ ih => exact fun t ht => Nat.le_of_succ_le (ih t ht)
  | token _ _ ih =>
    intro t ht
    rcases mem_cons.mp ht with rfl | ht
    · exact le_rfl
    · exact (Nat.le_add_right _ _).trans (ih t ht)

/-! ### Two texts, one after the other -/

def EndsInName (u : Unicode) (text : List Char) : Prop :=
  ∃ name, name <:+ text ∧ name.head?.any (startsName u) = true ∧ ∀ c ∈ name, inName u c = true

/-- **No token goes on** from the first text into the second. -/
structure Breaks (u : Unicode) (text next : List Char) : Prop where
  plain : ∀ c ∈ next.head?, c.isDigit = false ∧ c ∉ ['.', '=', '>']
  name : ∀ c ∈ next.head?, inName u c = true → ¬EndsInName u text

section Breaks

variable {kind : TokenKind} {place : ℕ} {text part rest next : List Char} {ts us : List Token}
  {t : Token}

theorem Breaks.of_append (h : Breaks u (part ++ rest) next) : Breaks u rest next := by
  refine ⟨h.plain, fun c hc hin hends => h.name c hc hin ?_⟩
  obtain ⟨name, hsuffix, hname⟩ := hends
  exact ⟨name, hsuffix.trans (suffix_append _ _), hname⟩

theorem Lexeme.append (h : Lexeme js u kind part rest) (hbreaks : Breaks u (part ++ rest) next) :
    Lexeme js u kind part (rest ++ next) := by
  have hne := h.part_ne_nil
  have hsome : part ++ rest ≠ [] := by simp [hne]
  cases h with
  | number start longest =>
    refine .number ?_ ?_ <;> rw [← append_assoc]
    · rwa [startsNumber_append_of_head (fun c hc => (hbreaks.plain c hc).1) hsome]
    · refine (numberText_append_of_head (fun c hc => ?_) _).trans longest
      obtain ⟨hdigit, hplain⟩ := hbreaks.plain c hc
      exact ⟨hdigit, fun hdot => hplain (by simp [hdot])⟩
  | string hvalue => exact .string hvalue
  | field hvalue => exact .field hvalue
  | name start letters longest =>
    refine .name start letters fun c hc => ?_
    rw [List.head?_append] at hc
    cases rest with
    | cons d rest => exact longest c hc
    | nil =>
      -- the first text ends in this name
      refine (Bool.not_eq_true _).mp fun hin => hbreaks.name c hc hin ⟨part, ?_, start, letters⟩
      simp
  | op longest =>
    refine .op ?_
    rw [← append_assoc, operatorOf_append hsome fun c hc => ?_]
    · exact longest
    · have hplain := (hbreaks.plain c hc).2
      simp only [mem_cons, not_mem_nil, or_false, not_or] at hplain ⊢
      exact hplain.2

/-- **A text and one after it** have the tokens of the one before those of the other. -/
theorem Lexes.append (h : Lexes js u place text ts) (hbreaks : Breaks u text next) :
    ∃ us, ts = us ++ [⟨.finish, place + textWidth text⟩] ∧
      ∀ vs, Lexes js u (place + textWidth text) next vs →
        Lexes js u place (text ++ next) (us ++ vs) := by
  induction h with
  | finish place => exact ⟨[], rfl, fun vs hvs => hvs⟩
  | @space place c cs ts hc h ih =>
    obtain ⟨us, rfl, hus⟩ := ih (@Breaks.of_append u [c] cs next hbreaks)
    rw [textWidth_cons, textWidth_space hc, ← Nat.add_assoc]
    exact ⟨us, rfl, fun vs hvs => .space hc (hus vs hvs)⟩
  | @token place kind part rest ts hpart h ih =>
    obtain ⟨us, rfl, hus⟩ := ih hbreaks.of_append
    rw [textWidth_append, ← Nat.add_assoc]
    refine ⟨⟨kind, place⟩ :: us, rfl, fun vs hvs => ?_⟩
    rw [append_assoc]
    exact .token (hpart.append hbreaks) (hus vs hvs)

theorem Lexeme.of_append (h : Lexeme js u kind part (rest ++ next)) :
    Lexeme js u kind part rest := by
  have hne := h.part_ne_nil
  cases h with
  | number start longest =>
    rw [← append_assoc] at start longest
    have hhead : numberText (part ++ rest ++ next) <+: part ++ rest := by
      rw [longest]
      exact prefix_append _ _
    exact .number (startsNumber_of_append (by simp [hne]) start hhead)
      ((numberText_of_append hhead).trans longest)
  | string hvalue => exact .string hvalue
  | field hvalue => exact .field hvalue
  | name start letters longest =>
    refine .name start letters fun c hc => longest c ?_
    rw [List.head?_append, mem_def.mp hc]
    rfl
  | op longest =>
    rw [← append_assoc] at longest
    exact .op (operatorOf_of_append longest)

/-- **Where a token begins the second text**, the first is cut by itself and so is the second. -/
theorem Lexes.split (h : Lexes js u place (text ++ next) (ts ++ t :: us))
    (ht : t.place = place + textWidth text) :
    Lexes js u place text (ts ++ [⟨.finish, place + textWidth text⟩]) ∧
      Lexes js u (place + textWidth text) next (t :: us) := by
  obtain ⟨cs, hcs⟩ : ∃ cs, cs = text ++ next := ⟨_, rfl⟩
  obtain ⟨all, hall⟩ : ∃ all, all = ts ++ t :: us := ⟨_, rfl⟩
  rw [← hcs, ← hall] at h
  induction h generalizing text ts with
  | finish place =>
    obtain ⟨rfl, rfl⟩ := append_eq_nil_iff.mp hcs.symm
    rcases ts with _ | ⟨x, ts⟩
    · rw [nil_append] at hall
      exact ⟨.finish place, hall ▸ .finish place⟩
    · simp at hall
  | @space place c cs all hc h ih =>
    rcases text with _ | ⟨d, text⟩
    · -- it would be placed at the space
      have hle := h.le_place t (hall ▸ mem_append_right _ mem_cons_self)
      rw [textWidth_nil] at ht
      omega
    · obtain ⟨rfl, rfl⟩ := List.cons.inj hcs
      rw [textWidth_cons, textWidth_space hc, ← Nat.add_assoc] at ht ⊢
      obtain ⟨hfirst, hsecond⟩ := ih ht rfl hall
      exact ⟨.space hc hfirst, hsecond⟩
  | @token place kind part rest all hpart h ih =>
    rcases ts with _ | ⟨x, ts⟩
    · -- it is this token, and nothing is before it
      obtain ⟨rfl, rfl⟩ := List.cons.inj hall
      have hnil : text = [] := by
        by_contra hne
        have hpos := textWidth_pos hne
        simp only at ht
        omega
      subst hnil
      rw [nil_append] at hcs
      exact ⟨.finish place, hcs ▸ .token hpart h⟩
    · obtain ⟨rfl, rfl⟩ := List.cons.inj hall
      have hle := h.le_place t (mem_append_right _ mem_cons_self)
      rcases append_eq_append_iff.mp hcs with ⟨more, rfl, rfl⟩ | ⟨more, rfl, rfl⟩
      · rw [textWidth_append, ← Nat.add_assoc] at ht ⊢
        obtain ⟨hfirst, hsecond⟩ := ih ht rfl rfl
        exact ⟨.token hpart.of_append hfirst, hsecond⟩
      · -- the second text begins no later than this token ends
        have hnil : more = [] := by
          by_contra hne
          have hpos := textWidth_pos hne
          rw [textWidth_append] at hle
          omega
        subst hnil
        rw [append_nil] at *
        obtain ⟨hfirst, hsecond⟩ := @ih [] ts ht rfl rfl
        have hlast := Lexes.token (@Lexeme.of_append js u kind text [] rest hpart) hfirst
        rw [append_nil] at hlast
        exact ⟨hlast, hsecond⟩

end Breaks

end Sone
