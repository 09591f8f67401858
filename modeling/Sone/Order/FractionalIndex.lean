import Mathlib.Data.Char
import Mathlib.Data.List.Sort
import Sone.Order.Lexicographic

/-!
# Fractional indexing

The order of siblings is a string that sorts, never a position. A key is an integer part and
a fraction: the first character of the integer part is its length header, and the fraction
does not end in the lowest digit.

* `validate` is what the functions accept. It is a property of the two parts
  (`validate_eq_ok_iff`), and two integer parts that differ compare as whole keys do
  (`append_lt_append_of_integer`).
* `incrementInteger` and `decrementInteger` carry through the digits and on to the next
  header; each has the neighbour strictly on its side, until the last header is exhausted
  (`incrementInteger_spec`, `decrementInteger_spec`).

Strings are lists of characters. A key that `validate` accepts has only characters below 128,
for which the order of characters, of code units and of bytes is one.
-/

namespace Sone.FractionalIndex

open List

open Lexicographic

abbrev Text := List Char

/-- `DIGITS` -/
def digits : Text := "0123456789ABCDEFGHIJKLMNOPQRSTUVWXYZabcdefghijklmnopqrstuvwxyz".toList

/-- `BASE` -/
def base : ℤ := digits.length

/-- `ZERO`, the first digit -/
def zero : Char := '0'

/-- `MAX_DIGIT`, the last digit -/
def maxDigit : Char := 'z'

/-- `FIRST_INDEX`, the key of an empty list -/
def firstIndex : Text := "a0".toList

/-- `DIGITS.indexOf(c)`, which is `-1` for a character that is no digit. -/
def indexOf (c : Char) : ℤ := if c ∈ digits then digits.idxOf c else -1

/-- `DIGITS[i]`, undefined outside the table. -/
def digitAt (i : ℤ) : Option Char := if 0 ≤ i then digits[i.toNat]? else none

/-- What a character that may be undefined adds to a string. -/
def concat : Option Char → Text
  | some c => [c]
  | none => "undefined".toList

/-- `JSON.stringify` of a string, by its characters. -/
def stringify (s : Text) : String :=
  "\"" ++ String.join (s.map escape) ++ "\""
where
  /-- A character as it stands between quotes. -/
  escape (c : Char) : String :=
    if c = '"' then "\\\""
    else if c = '\\' then "\\\\"
    else if c = '\n' then "\\n"
    else if c = '\r' then "\\r"
    else if c = '\t' then "\\t"
    else if c.toNat = 8 then "\\b"
    else if c.toNat = 12 then "\\f"
    else if c.toNat < 32 then
      "\\u00" ++ toString (c.toNat / 16) ++ String.ofList [Nat.digitChar (c.toNat % 16)]
    else String.ofList [c]

/-- What the functions throw: what a `FractionalIndexError` is for, and the `TypeError` of
reading the header of an empty string. -/
inductive Failure
  | emptyKey
  | invalidHead (head : Char)
  | tooShort (key : Text)
  | invalidDigit (digit : Char) (key : Text)
  | trailingZero (key : Text)
  | lowerAboveUpper (lower upper : Text)
  | beforeAboveAfter (before after : Text)
  | exhaustedAtHead
  | exhausted
  | headMissing
  deriving DecidableEq, Repr

def Failure.message : Failure → String
  | emptyKey => "empty order key"
  | invalidHead head => "invalid order key head: " ++ stringify [head]
  | tooShort key => "order key too short: " ++ stringify key
  | invalidDigit digit key =>
    "invalid digit " ++ stringify [digit] ++ " in order key " ++ stringify key
  | trailingZero key =>
    "order key must not end in '" ++ String.ofList [zero] ++ "': " ++ stringify key
  | lowerAboveUpper lower upper =>
    "lower >= upper: " ++ stringify lower ++ " / " ++ stringify upper
  | beforeAboveAfter before after =>
    "before >= after: " ++ stringify before ++ " / " ++ stringify after
  | exhaustedAtHead => "order key space exhausted at the head"
  | exhausted => "order key space exhausted"
  | headMissing => "Cannot read properties of undefined (reading 'charCodeAt')"

/-! ### Digits -/

section Digits

variable {c d : Char} {i j : ℤ}

theorem sortedLT_digits : digits.SortedLT := (by decide +kernel : digits.Pairwise (· < ·)).sortedLT

theorem forall_mem_of_all {P : Char → Prop} [DecidablePred P] {s : Text}
    (h : s.all (fun c => P c) = true) : ∀ c ∈ s, P c := by simpa using h

theorem exists_digitAt (h0 : 0 ≤ i) (hi : i < base) :
    ∃ c ∈ digits, digitAt i = some c ∧ indexOf c = i := by
  obtain ⟨n, rfl⟩ := Int.eq_ofNat_of_zero_le h0
  have hn : n < digits.length := by rw [base] at hi; exact_mod_cast hi
  refine ⟨digits[n], getElem_mem hn, by simp [digitAt, hn], ?_⟩
  rw [indexOf, if_pos (getElem_mem hn)]
  exact_mod_cast sortedLT_digits.nodup.idxOf_getElem n hn

theorem indexOf_nonneg (hc : c ∈ digits) : 0 ≤ indexOf c := by
  rw [indexOf, if_pos hc]
  exact Int.natCast_nonneg _

theorem indexOf_lt_base (hc : c ∈ digits) : indexOf c < base := by
  rw [indexOf, if_pos hc, base]
  exact_mod_cast idxOf_lt_length_iff.mpr hc

theorem indexOf_lt_iff (hc : c ∈ digits) (hd : d ∈ digits) : indexOf c < indexOf d ↔ c < d := by
  have hmem : ∀ {e}, e ∈ digits → digits.idxOf e < digits.length := idxOf_lt_length_iff.mpr
  have hlt : digits.get ⟨digits.idxOf c, hmem hc⟩ < digits.get ⟨digits.idxOf d, hmem hd⟩ ↔
      digits.idxOf c < digits.idxOf d := sortedLT_digits.strictMono_get.lt_iff_lt
  rw [get_eq_getElem, get_eq_getElem, getElem_idxOf, getElem_idxOf] at hlt
  rw [indexOf, indexOf, if_pos hc, if_pos hd, hlt]
  exact Int.ofNat_lt

theorem digitAt_indexOf (hc : c ∈ digits) : digitAt (indexOf c) = some c := by
  rw [indexOf, if_pos hc, digitAt, if_pos (Int.natCast_nonneg _), Int.toNat_natCast,
    List.getElem?_eq_getElem (idxOf_lt_length_iff.mpr hc), getElem_idxOf]

end Digits

/-! ### The parts of a key -/

/-- `integerPartLength`: the length of an integer part, its header included. -/
def integerPartLength (head : Char) : Except Failure ℕ :=
  if 'a' ≤ head ∧ head ≤ 'z' then .ok (head.toNat - 'a'.toNat + 2)
  else if 'A' ≤ head ∧ head ≤ 'Z' then .ok ('Z'.toNat - head.toNat + 2)
  else .error (.invalidHead head)

def integerPart (key : Text) : Except Failure Text :=
  match key with
  | [] => .error .emptyKey
  | head :: _ => do
    let len ← integerPartLength head
    if key.length < len then .error (.tooShort key) else .ok (key.take len)

def validate (key : Text) : Except Failure Unit := do
  if key = [] then .error .emptyKey
  let int ← integerPart key
  let frac := key.drop int.length
  match (int.drop 1 ++ frac).find? fun ch => !digits.contains ch with
  | some ch => .error (.invalidDigit ch key)
  | none => if frac.getLast? = some zero then .error (.trailingZero key) else .ok ()

def IsDigits (s : Text) : Prop := ∀ c ∈ s, c ∈ digits

instance : DecidablePred IsDigits := fun s => List.decidableBAll (fun c => c ∈ digits) s

/-- **An integer part**: a header and as many digits as it says. -/
def IsInteger (int : Text) : Prop :=
  ∃ head ds, int = head :: ds ∧ integerPartLength head = .ok (ds.length + 1) ∧ IsDigits ds

/-- **A fraction**: digits of which the last is not the lowest. -/
structure IsFraction (frac : Text) : Prop where
  isDigits : IsDigits frac
  getLast_ne : frac.getLast? ≠ some zero

section Parts

variable {int int' frac frac' key : Text} {head : Char} {n : ℕ}

def heads : Text := digits.drop 10

theorem mem_heads_of_toNat {lo len : ℕ} (hsub : ∀ i ∈ List.range' lo len, Char.ofNat i ∈ heads)
    (hlo : lo ≤ head.toNat) (hhi : head.toNat < lo + len) : head ∈ heads := by
  have hmem := hsub head.toNat (mem_range'_1.mpr ⟨hlo, hhi⟩)
  rwa [Char.ofNat_toNat] at hmem

theorem mem_heads (h : integerPartLength head = .ok n) : head ∈ heads := by
  rw [integerPartLength] at h
  split_ifs at h with hlower hupper
  · exact mem_heads_of_toNat (by decide +kernel : ∀ i ∈ List.range' 97 26, Char.ofNat i ∈ heads)
      hlower.1 (Nat.lt_succ_of_le hlower.2)
  · exact mem_heads_of_toNat (by decide +kernel : ∀ i ∈ List.range' 65 26, Char.ofNat i ∈ heads)
      hupper.1 (Nat.lt_succ_of_le hupper.2)

theorem exists_integerPartLength (h : head ∈ heads) :
    ∃ k, integerPartLength head = .ok (k + 2) := by
  have hall : ∀ head ∈ heads, 'a' ≤ head ∧ head ≤ 'z' ∨ 'A' ≤ head ∧ head ≤ 'Z' :=
    forall_mem_of_all (by decide +kernel)
  rw [integerPartLength]
  split_ifs with hlower hupper
  · exact ⟨_, rfl⟩
  · exact ⟨_, rfl⟩
  · exact absurd (hall head h) (not_or.mpr ⟨hlower, hupper⟩)

theorem integerPart_append (hint : IsInteger int) : integerPart (int ++ frac) = .ok int := by
  obtain ⟨head, ds, rfl, hlen, -⟩ := hint
  have hshort : ¬(head :: ds ++ frac).length < ds.length + 1 := by simp
  have htake : (head :: ds ++ frac).take (ds.length + 1) = head :: ds := by simp
  rw [cons_append] at hshort htake ⊢
  simp only [integerPart, hlen, bind, Except.bind, if_neg hshort, htake]

/-- What `integerPart` gives begins the key and has the length its header says. -/
theorem exists_of_integerPart (h : integerPart key = .ok int) :
    ∃ head ds frac, int = head :: ds ∧ key = head :: ds ++ frac ∧
      integerPartLength head = .ok (ds.length + 1) := by
  rcases key with _ | ⟨head, key⟩
  · simp [integerPart] at h
  · rcases hlen : integerPartLength head with failure | n
    · simp [integerPart, hlen, bind, Except.bind] at h
    · obtain ⟨k, hk⟩ := exists_integerPartLength (mem_heads hlen)
      obtain rfl : n = k + 2 := Except.ok.inj (hlen.symm.trans hk)
      simp only [integerPart, hlen, bind, Except.bind] at h
      split_ifs at h with hshort
      have hle : k + 1 ≤ key.length := by simpa using hshort
      refine ⟨head, key.take (k + 1), key.drop (k + 1), ?_, ?_, ?_⟩
      · simpa using (Except.ok.inj h).symm
      · simp
      · rw [hlen, length_take, Nat.min_eq_left hle]

/-- With the integer part read, `validate` looks at the digits and at the last of them. -/
theorem validate_append_eq_ok_iff {ds : Text}
    (hpart : integerPart (head :: ds ++ frac) = .ok (head :: ds)) :
    validate (head :: ds ++ frac) = .ok () ↔ IsDigits ds ∧ IsFraction frac := by
  have hdrop : (head :: ds ++ frac).drop (head :: ds).length = frac := drop_left
  have hsplit : validate (head :: ds ++ frac) =
      match (ds ++ frac).find? fun ch => !digits.contains ch with
      | some ch => .error (.invalidDigit ch (head :: ds ++ frac))
      | none => if frac.getLast? = some zero then .error (.trailingZero (head :: ds ++ frac))
        else .ok () := by
    rw [validate, hpart]
    simp only [bind, Except.bind, hdrop, drop_succ_cons, drop_zero]
    rfl
  rw [hsplit]
  rcases hfind : (ds ++ frac).find? fun ch => !digits.contains ch with _ | ch
  · have hall : IsDigits ds ∧ IsDigits frac := by
      simpa [IsDigits, or_imp, forall_and] using List.find?_eq_none.mp hfind
    refine ⟨fun h => ?_, fun h => if_neg h.2.getLast_ne⟩
    by_cases hlast : frac.getLast? = some zero
    · simp [if_pos hlast] at h
    · exact ⟨hall.1, hall.2, hlast⟩
  · refine ⟨fun h => by simp at h, fun h => ?_⟩
    have hno : ch ∉ digits := by simpa using List.find?_some hfind
    rcases mem_append.mp (List.mem_of_find?_eq_some hfind) with hmem | hmem
    · exact absurd (h.1 ch hmem) hno
    · exact absurd (h.2.isDigits ch hmem) hno

/-- `validate` accepts an integer part and a fraction after it, and nothing else. -/
theorem validate_eq_ok_iff :
    validate key = .ok () ↔ ∃ int frac, key = int ++ frac ∧ IsInteger int ∧ IsFraction frac := by
  constructor
  · intro h
    rcases hpart : integerPart key with failure | int
    · rw [validate] at h
      split_ifs at h
      · simp [bind, Except.bind] at h
      · simp [hpart, bind, Except.bind] at h
    · obtain ⟨head, ds, frac, rfl, rfl, hlen⟩ := exists_of_integerPart hpart
      obtain ⟨hds, hfrac⟩ := (validate_append_eq_ok_iff hpart).mp h
      exact ⟨head :: ds, frac, rfl, ⟨head, ds, rfl, hlen, hds⟩, hfrac⟩
  · rintro ⟨int, frac, rfl, hint, hfrac⟩
    have hpart : integerPart (int ++ frac) = .ok int := integerPart_append hint
    obtain ⟨head, ds, rfl, hlen, hds⟩ := hint
    exact (validate_append_eq_ok_iff hpart).mpr ⟨hds, hfrac⟩

theorem IsInteger.eq_of_prefix (hint : IsInteger int) (hint' : IsInteger int')
    (h : int <+: int') : int = int' := by
  obtain ⟨head, ds, rfl, hlen, -⟩ := hint
  obtain ⟨head', ds', rfl, hlen', -⟩ := hint'
  obtain ⟨rfl, -⟩ := cons_prefix_cons.mp h
  have hsame : ds.length + 1 = ds'.length + 1 := Except.ok.inj (hlen.symm.trans hlen')
  exact h.eq_of_length hsame

theorem append_lt_append_of_integer (hint : IsInteger int) (hint' : IsInteger int')
    (hne : int ≠ int') : int ++ frac < int' ++ frac' ↔ int < int' :=
  append_lt_append_iff (fun h => hne (hint.eq_of_prefix hint' h))
    fun h => hne (hint'.eq_of_prefix hint h).symm

end Parts

/-! ### The neighbours of an integer part -/

/-- One digit of the loop of `incrementInteger`: whether the carry goes on, and the digit. -/
def incrementDigit (digit : Char) (carry : Bool) : Bool × Char :=
  if carry then
    let next := indexOf digit + 1
    if next = base then (true, zero) else (false, (digitAt next).getD zero)
  else (false, digit)

/-- One digit of the loop of `decrementInteger`: whether the borrow goes on, and the digit. -/
def decrementDigit (digit : Char) (borrow : Bool) : Bool × Char :=
  if borrow then
    let next := indexOf digit - 1
    if next < 0 then (true, maxDigit) else (false, (digitAt next).getD maxDigit)
  else (false, digit)

/-- `incrementInteger`: grows the magnitude when the digits overflow; `none` is the source's
null, when there is no next magnitude. -/
def incrementInteger : Text → Except Failure (Option Text)
  | [] => .error .headMissing
  | head :: ds =>
    match ds.mapAccumr incrementDigit true with
    | (false, ds') => .ok (some (head :: ds'))
    | (true, _) =>
      if head = 'z' then .ok none
      else if head = 'Z' then .ok (some ['a', zero])
      else
        let nextHead := Char.ofNat (head.toNat + 1)
        if 'Z' < nextHead ∧ nextHead < 'a' then .ok (some [nextHead, zero])
        else do
          let len ← integerPartLength nextHead
          return some (nextHead :: List.replicate (len - 1) zero)

def decrementInteger : Text → Except Failure (Option Text)
  | [] => .error .headMissing
  | head :: ds =>
    match ds.mapAccumr decrementDigit true with
    | (false, ds') => .ok (some (head :: ds'))
    | (true, _) =>
      if head = 'A' then .ok none
      else if head = 'a' then .ok (some ['Z', maxDigit])
      else do
        let prevHead := Char.ofNat (head.toNat - 1)
        let len ← integerPartLength prevHead
        return some (prevHead :: List.replicate (len - 1) maxDigit)

/-- **A step of digits** that carries: it goes on through the digit `last`, which it makes
`first`, and stops at any other, which it makes its neighbour on one side. -/
structure Carries (f : Char → Bool → Bool × Char) (last first : Char)
    (side : Char → Char → Prop) : Prop where
  idle : ∀ e, f e false = (false, e)
  step : ∀ e ∈ digits, e = last ∧ f e true = (true, first) ∨
    ∃ e' ∈ digits, side e e' ∧ f e true = (false, e')
  first_mem : first ∈ digits

namespace Carries

variable {f : Char → Bool → Bool × Char} {last first e : Char} {side : Char → Char → Prop}
  {ds es : Text}

theorem snd_mem (h : Carries f last first side) (he : e ∈ digits) (carry : Bool) :
    (f e carry).2 ∈ digits := by
  rcases carry with _ | _
  · rwa [h.idle]
  · obtain ⟨-, hon⟩ | ⟨e', he', -, hstop⟩ := h.step e he
    · rw [hon]; exact h.first_mem
    · rw [hstop]; exact he'

theorem isDigits (h : Carries f last first side) (hds : IsDigits ds) :
    IsDigits (ds.mapAccumr f true).2 :=
  forall_mem_mapAccumr fun e he b => h.snd_mem (hds e he) b

theorem exists_of_stops (h : Carries f last first side) (hds : IsDigits ds)
    (hrun : ds.mapAccumr f true = (false, es)) :
    ∃ front e e' back back', ds = front ++ e :: back ∧ es = front ++ e' :: back' ∧ side e e' := by
  obtain ⟨front, e, back, back', rfl, hstop, rfl⟩ := exists_of_carry_stops h.idle hrun
  obtain ⟨-, hon⟩ | ⟨e', -, hside, hnext⟩ := h.step e (hds e (by simp))
  · simp [hon] at hstop
  · exact ⟨front, e, e', back, back', rfl, by rw [hnext], hside⟩

theorem eq_replicate_of_remains (h : Carries f last first side) (hds : IsDigits ds)
    (hrun : ds.mapAccumr f true = (true, es)) : ds = List.replicate ds.length last := by
  refine eq_replicate_of_mem fun e he => ?_
  obtain ⟨heq, -⟩ | ⟨e', -, -, hstop⟩ := h.step e (hds e he)
  · exact heq
  · have hon := (eq_map_of_carry_remains h.idle hrun).1 e he
    simp [hstop] at hon

end Carries

/-- **The carry of `incrementInteger`**: through the highest digit, to a greater one. -/
theorem carries_incrementDigit : Carries incrementDigit maxDigit zero (· < ·) where
  idle _ := rfl
  first_mem := by decide +kernel
  step e he := by
    have h0 := indexOf_nonneg he
    have hlt := indexOf_lt_base he
    simp only [incrementDigit, if_true]
    by_cases hnext : indexOf e + 1 = base
    · refine .inl ⟨?_, if_pos hnext⟩
      have hlast : digitAt (base - 1) = some maxDigit := by decide +kernel
      rw [show base - 1 = indexOf e by omega, digitAt_indexOf he] at hlast
      exact Option.some.inj hlast
    · obtain ⟨e', he', hat, hindex⟩ := exists_digitAt (by omega : 0 ≤ indexOf e + 1) (by omega)
      refine .inr ⟨e', he', (indexOf_lt_iff he he').mp (by omega), ?_⟩
      rw [if_neg hnext, hat, Option.getD_some]

/-- **The borrow of `decrementInteger`**: through the lowest digit, to a smaller one. -/
theorem carries_decrementDigit : Carries decrementDigit zero maxDigit (· > ·) where
  idle _ := rfl
  first_mem := by decide +kernel
  step e he := by
    have h0 := indexOf_nonneg he
    have hlt := indexOf_lt_base he
    simp only [decrementDigit, if_true]
    by_cases hnext : indexOf e - 1 < 0
    · refine .inl ⟨?_, if_pos hnext⟩
      have hfirst : digitAt 0 = some zero := by decide +kernel
      rw [show (0 : ℤ) = indexOf e by omega, digitAt_indexOf he] at hfirst
      exact Option.some.inj hfirst
    · obtain ⟨e', he', hat, hindex⟩ := exists_digitAt (by omega : 0 ≤ indexOf e - 1) (by omega)
      refine .inr ⟨e', he', (indexOf_lt_iff he' he).mp (by omega), ?_⟩
      rw [if_neg hnext, hat, Option.getD_some]

/-- The least key there is, an integer part alone. -/
def smallestInteger : Text := 'A' :: List.replicate 26 zero

def largestInteger : Text := 'z' :: List.replicate 26 maxDigit

section Neighbours

variable {int int' : Text} {head : Char} {ds : Text}

theorem isInteger_replicate {c : Char} (hhead : head ∈ heads) (hc : c ∈ digits) {n : ℕ}
    (hlen : integerPartLength head = .ok n) :
    IsInteger (head :: List.replicate (n - 1) c) := by
  obtain ⟨k, hk⟩ := exists_integerPartLength hhead
  obtain rfl : n = k + 2 := Except.ok.inj (hlen.symm.trans hk)
  refine ⟨head, _, rfl, by simpa using hlen, fun e he => ?_⟩
  rw [eq_of_mem_replicate he]
  exact hc

theorem nextHead_mem : ∀ head ∈ heads, head ≠ 'z' → head ≠ 'Z' →
    Char.ofNat (head.toNat + 1) ∈ heads ∧ head < Char.ofNat (head.toNat + 1) ∧
      ¬('Z' < Char.ofNat (head.toNat + 1) ∧ Char.ofNat (head.toNat + 1) < 'a') :=
  forall_mem_of_all (by decide +kernel)

theorem prevHead_mem : ∀ head ∈ heads, head ≠ 'A' → head ≠ 'a' →
    Char.ofNat (head.toNat - 1) ∈ heads ∧ Char.ofNat (head.toNat - 1) < head :=
  forall_mem_of_all (by decide +kernel)

theorem IsInteger.not_largest_lt (hint : IsInteger int) : ¬largestInteger < int := by
  obtain ⟨head, ds, rfl, hlen, hds⟩ := hint
  have hle : ∀ c ∈ digits, c ≤ maxDigit := forall_mem_of_all (by decide +kernel)
  rw [largestInteger, cons_lt_cons_iff]
  rintro (hlt | ⟨rfl, hlt⟩)
  · have hz : ∀ head ∈ heads, head ≤ 'z' := forall_mem_of_all (by decide +kernel)
    exact (hz head (mem_heads hlen)).not_gt hlt
  · have hlen' : ds.length + 1 = 27 := (Except.ok.inj hlen).symm
    exact not_replicate_lt (fun c hc => hle c (hds c hc)) (by omega) hlt

/-- **The next integer part** is one above, and there is one unless the greatest is reached. -/
theorem incrementInteger_spec (hint : IsInteger int) :
    incrementInteger int = .ok none ∧ int = largestInteger ∨
      ∃ inc, incrementInteger int = .ok (some inc) ∧ IsInteger inc ∧ int < inc := by
  obtain ⟨head, ds, rfl, hlen, hds⟩ := hint
  have hhead := mem_heads hlen
  rcases hrun : ds.mapAccumr incrementDigit true with ⟨carry, es⟩
  simp only [incrementInteger, hrun]
  rcases carry with _ | _
  · -- the carry stops at a digit
    have hes : IsDigits es := by simpa [hrun] using carries_incrementDigit.isDigits hds
    have hlength : es.length = ds.length := by
      simpa [hrun] using length_mapAccumr incrementDigit ds true
    obtain ⟨front, e, e', back, back', rfl, rfl, hlt⟩ :=
      carries_incrementDigit.exists_of_stops hds hrun
    refine .inr ⟨_, rfl, ⟨head, _, rfl, by rw [hlen, hlength], hes⟩, ?_⟩
    exact cons_lt_cons_iff.mpr (.inr ⟨rfl, lt_of_first_difference hlt⟩)
  · -- the carry is left over: the header moves on
    have hall := carries_incrementDigit.eq_replicate_of_remains hds hrun
    by_cases hz : head = 'z'
    · subst hz
      have hlen' : ds.length = 26 := Nat.succ.inj (Except.ok.inj hlen).symm
      rw [hlen'] at hall
      exact .inl ⟨if_pos rfl, by rw [hall, largestInteger]⟩
    · rw [if_neg hz]
      by_cases hZ : head = 'Z'
      · subst hZ
        refine .inr ⟨['a', zero], if_pos rfl, ⟨'a', [zero], rfl, rfl, by decide +kernel⟩, ?_⟩
        exact cons_lt_cons_iff.mpr (.inl (by decide +kernel))
      · obtain ⟨hmem, hlt, hbetween⟩ := nextHead_mem head hhead hz hZ
        obtain ⟨k, hk⟩ := exists_integerPartLength hmem
        refine .inr ⟨Char.ofNat (head.toNat + 1) :: List.replicate (k + 1) zero, ?_,
          isInteger_replicate hmem (by decide +kernel) hk, cons_lt_cons_iff.mpr (.inl hlt)⟩
        simp only [if_neg hZ, if_neg hbetween, hk]
        rfl

/-- **The previous integer part** is one below, and there is one unless the smallest is
reached. -/
theorem decrementInteger_spec (hint : IsInteger int) :
    decrementInteger int = .ok none ∧ int = smallestInteger ∨
      ∃ dec, decrementInteger int = .ok (some dec) ∧ IsInteger dec ∧ dec < int := by
  obtain ⟨head, ds, rfl, hlen, hds⟩ := hint
  have hhead := mem_heads hlen
  rcases hrun : ds.mapAccumr decrementDigit true with ⟨borrow, es⟩
  simp only [decrementInteger, hrun]
  rcases borrow with _ | _
  · -- the borrow stops at a digit
    have hes : IsDigits es := by simpa [hrun] using carries_decrementDigit.isDigits hds
    have hlength : es.length = ds.length := by
      simpa [hrun] using length_mapAccumr decrementDigit ds true
    obtain ⟨front, e, e', back, back', rfl, rfl, hlt⟩ :=
      carries_decrementDigit.exists_of_stops hds hrun
    refine .inr ⟨_, rfl, ⟨head, _, rfl, by rw [hlen, hlength], hes⟩, ?_⟩
    exact cons_lt_cons_iff.mpr (.inr ⟨rfl, lt_of_first_difference hlt⟩)
  · -- the borrow is left over: the header moves back
    have hall := carries_decrementDigit.eq_replicate_of_remains hds hrun
    by_cases hA : head = 'A'
    · subst hA
      have hlen' : ds.length = 26 := Nat.succ.inj (Except.ok.inj hlen).symm
      rw [hlen'] at hall
      exact .inl ⟨if_pos rfl, by rw [hall, smallestInteger]⟩
    · rw [if_neg hA]
      by_cases ha : head = 'a'
      · subst ha
        have hint : IsInteger ['Z', maxDigit] := ⟨'Z', [maxDigit], rfl, rfl, by decide +kernel⟩
        refine .inr ⟨['Z', maxDigit], if_pos rfl, hint, ?_⟩
        exact cons_lt_cons_iff.mpr (.inl (by decide +kernel))
      · obtain ⟨hmem, hlt⟩ := prevHead_mem head hhead hA ha
        obtain ⟨k, hk⟩ := exists_integerPartLength hmem
        refine .inr ⟨Char.ofNat (head.toNat - 1) :: List.replicate (k + 1) maxDigit, ?_,
          isInteger_replicate hmem (by decide +kernel) hk, cons_lt_cons_iff.mpr (.inl hlt)⟩
        simp only [if_neg ha, hk]
        rfl

end Neighbours

end Sone.FractionalIndex
