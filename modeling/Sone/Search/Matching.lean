import Mathlib.Data.List.Infix
import Mathlib.Data.List.Nodup
import Mathlib.Data.List.Perm.Subperm

/-!
# Matching by patterns and by counts

Two ways a database is asked whether one thing is among others.

A pattern (`Wildcard`) is letters with places for any letter and for any run of letters. Patterns
are put together as the texts they fit (`fits_append`), so a pattern with a run at its end fits
what starts with something that fits it (`fits_append_many`), and where it has letters only, what
starts with these (`fits_literal_many`).

The patterns of `LIKE` are read from texts (`readLike`), in which some letters stand for places, so
a text that was not written as a pattern may fit more than itself, or less.

To ask for several at once, one can count how many of the stored are among the named. The count is
the number of the named exactly where each of them is stored and none is named twice
(`length_filter_mem_eq_iff`).
-/

namespace Sone

open List

/-! ### Patterns -/

inductive Wildcard (α : Type*) where
  /-- This letter. -/
  | one (a : α)
  /-- Any letter. -/
  | any
  /-- Any run of letters. -/
  | many
  deriving DecidableEq, Repr

namespace Wildcard

variable {α : Type*} [DecidableEq α]

/-- A text **fits** a pattern as a whole. -/
def fits : List (Wildcard α) → List α → Bool
  | [], text => text.isEmpty
  | one a :: pattern, b :: text => a = b && fits pattern text
  | any :: pattern, _ :: text => fits pattern text
  | many :: pattern, text => text.tails.any (fits pattern)
  | _, [] => false

variable {pattern more : List (Wildcard α)} {text word : List α} {a : α}

@[simp] theorem fits_nil : fits [] text = true ↔ text = [] := by
  rw [fits, List.isEmpty_iff]

theorem fits_one_cons :
    fits (one a :: pattern) text = true ↔ ∃ rest, text = a :: rest ∧ fits pattern rest = true := by
  cases text with
  | nil => simp [fits]
  | cons b rest =>
    rw [fits, Bool.and_eq_true, decide_eq_true_iff]
    constructor
    · rintro ⟨rfl, hrest⟩
      exact ⟨rest, rfl, hrest⟩
    · rintro ⟨_, heq, hrest⟩
      obtain ⟨rfl, rfl⟩ := List.cons.inj heq
      exact ⟨rfl, hrest⟩

theorem fits_any_cons :
    fits (any :: pattern) text = true ↔
      ∃ b rest, text = b :: rest ∧ fits pattern rest = true := by
  cases text with
  | nil => simp [fits]
  | cons b rest => simp [fits]

theorem fits_many_cons :
    fits (many :: pattern) text = true ↔ ∃ rest, rest <:+ text ∧ fits pattern rest = true := by
  rw [fits, List.any_eq_true]
  simp only [mem_tails]

/-- **Patterns compose** as the texts that fit them. -/
theorem fits_append :
    fits (pattern ++ more) text = true ↔
      ∃ front back, front ++ back = text ∧ fits pattern front = true ∧ fits more back = true := by
  induction pattern generalizing text with
  | nil => simp
  | cons place pattern ih =>
    rw [cons_append]
    cases place with
    | one a =>
      simp only [fits_one_cons, ih]
      constructor
      · rintro ⟨_, rfl, front, back, rfl, hfront, hback⟩
        exact ⟨a :: front, back, rfl, ⟨front, rfl, hfront⟩, hback⟩
      · rintro ⟨_, back, rfl, ⟨front, rfl, hfront⟩, hback⟩
        exact ⟨front ++ back, rfl, front, back, rfl, hfront, hback⟩
    | any =>
      simp only [fits_any_cons, ih]
      constructor
      · rintro ⟨b, _, rfl, front, back, rfl, hfront, hback⟩
        exact ⟨b :: front, back, rfl, ⟨b, front, rfl, hfront⟩, hback⟩
      · rintro ⟨_, back, rfl, ⟨b, front, rfl, hfront⟩, hback⟩
        exact ⟨b, front ++ back, rfl, front, back, rfl, hfront, hback⟩
    | many =>
      simp only [fits_many_cons, ih]
      constructor
      · rintro ⟨_, ⟨skipped, rfl⟩, front, back, rfl, hfront, hback⟩
        exact ⟨skipped ++ front, back, append_assoc .., ⟨front, ⟨skipped, rfl⟩, hfront⟩, hback⟩
      · rintro ⟨_, back, rfl, ⟨front, ⟨skipped, rfl⟩, hfront⟩, hback⟩
        exact ⟨front ++ back, ⟨skipped, (append_assoc ..).symm⟩, front, back, rfl, hfront,
          hback⟩

theorem fits_append_many :
    fits (pattern ++ [many]) text = true ↔ ∃ front, front <+: text ∧ fits pattern front = true := by
  rw [fits_append]
  constructor
  · rintro ⟨front, back, rfl, hfront, -⟩
    exact ⟨front, prefix_append front back, hfront⟩
  · rintro ⟨front, ⟨back, rfl⟩, hfront⟩
    exact ⟨front, back, rfl, hfront, fits_many_cons.mpr ⟨[], nil_suffix, fits_nil.mpr rfl⟩⟩

theorem fits_literal : fits (word.map one) text = true ↔ text = word := by
  induction word generalizing text with
  | nil => simp
  | cons a word ih => simp [fits_one_cons, ih]

theorem fits_literal_many : fits (word.map one ++ [many]) text = true ↔ word <+: text := by
  simp only [fits_append_many, fits_literal, exists_eq_right]

/-! ### The patterns of `LIKE` -/

/-- The letters that a pattern reads as something else. -/
def isLikeSpecial (c : Char) : Bool := c = '%' || c = '_' || c = '\\'

/-- The pattern a text is for `LIKE`. One that ends in a lone escape is refused; it is read as that
letter here. -/
def readLike : List Char → List (Wildcard Char)
  | [] => []
  | '%' :: cs => many :: readLike cs
  | '_' :: cs => any :: readLike cs
  | '\\' :: c :: cs => one c :: readLike cs
  | c :: cs => one c :: readLike cs

theorem readLike_cons {c : Char} {cs : List Char} (hc : isLikeSpecial c = false) :
    readLike (c :: cs) = one c :: readLike cs := by
  simp only [isLikeSpecial, Bool.or_eq_false_iff, decide_eq_false_iff_not] at hc
  obtain ⟨⟨hpercent, hunderscore⟩, hescape⟩ := hc
  rw [readLike]
  · exact fun h => hpercent h
  · exact fun h => hunderscore h
  · exact fun c' cs' h => absurd h hescape

theorem fits_readLike_of_plain {word text : List Char}
    (hplain : ∀ c ∈ word, isLikeSpecial c = false) :
    fits (readLike (word ++ ['%'])) text = true ↔ word <+: text := by
  have hread : readLike (word ++ ['%']) = word.map one ++ [many] := by
    induction word with
    | nil => rfl
    | cons c word ih =>
      rw [cons_append, readLike_cons (hplain c mem_cons_self),
        ih fun c hc => hplain c (mem_cons_of_mem _ hc), map_cons, cons_append]
  rw [hread, fits_literal_many]

end Wildcard

/-! ### Counts -/

/-- **Counting what is among the named**: as many are stored as are named, where each that is named
is stored and none is named twice. -/
theorem length_filter_mem_eq_iff {α : Type*} [DecidableEq α] {stored named : List α}
    (hstored : stored.Nodup) :
    (stored.filter fun a => a ∈ named).length = named.length ↔
      named.Nodup ∧ ∀ a ∈ named, a ∈ stored := by
  have hnodup : (stored.filter fun a => a ∈ named).Nodup := hstored.filter _
  have hsubperm : (stored.filter fun a => a ∈ named).Subperm named :=
    subperm_of_subset hnodup fun a ha => by simpa using (mem_filter.mp ha).2
  constructor
  · intro hlength
    have hperm := hsubperm.perm_of_length_le hlength.ge
    exact ⟨hperm.nodup_iff.mp hnodup, fun a ha =>
      (mem_filter.mp (hperm.mem_iff.mpr ha)).1⟩
  · rintro ⟨hnamed, hall⟩
    refine le_antisymm hsubperm.length_le (List.Subperm.length_le ?_)
    exact subperm_of_subset hnamed fun a ha =>
      mem_filter.mpr ⟨hall a ha, decide_eq_true ha⟩

end Sone
