import Sone.Doc.Read

/-!
# Reading filters out of a query

`parseSearchQuery` (`core/search/query.ts`) takes what somebody typed apart: `tag:budget
author:anna after:2026-08-01 invoice` is three filters and a word. What a filter is for stands
before the first colon, and is looked up in an object that has more keys than it was written with:
`constructor:2026-01-01` is a filter too, and bounds the day from above.

A day is let through where writing it into a `Date` gives it back. Such a day is one that the
database takes (`isSome_dateOf`), whatever was typed (`readsDates_parseSearchQuery`).
-/

namespace Sone

open List

/-! ### Days -/

/-- A `date`. -/
structure Day where
  year : ℕ
  month : ℕ
  day : ℕ
  deriving DecidableEq, Repr

def Day.number (d : Day) : ℕ := (d.year * 100 + d.month) * 100 + d.day

/-- The days of a month, by the number of the month since the year 0. -/
def daysInMonth (months : ℕ) : ℕ :=
  let year := months / 12
  match months % 12 with
  | 1 => if year % 4 = 0 ∧ (year % 100 ≠ 0 ∨ year % 400 = 0) then 29 else 28
  | 3 | 5 | 8 | 10 => 30
  | _ => 31

/-- The month and the day that a day in a month is, which may be past the end of the month. -/
def rollForward : ℕ → ℕ → ℕ → ℕ × ℕ
  | 0, months, day => (months, day)
  | fuel + 1, months, day =>
    if day ≤ daysInMonth months then (months, day)
    else rollForward fuel (months + 1) (day - daysInMonth months)

/-- `new Date(Date.UTC(year, month - 1, day))`, as its getters give it. The first hundred years are
those of the 20th century. -/
def utcDate (year month day : ℕ) : Day :=
  let months := (if year < 100 then 1900 + year else year) * 12 + month - 1
  let rolled := if day = 0 then (months - 1, daysInMonth (months - 1))
    else rollForward day months day
  ⟨rolled.1 / 12, rolled.1 % 12 + 1, rolled.2⟩

def digitsValue (digits : List Char) : ℕ :=
  digits.foldl (fun n c => 10 * n + (c.toNat - '0'.toNat)) 0

/-- `/^\d{4}-\d{2}-\d{2}$/`, and the numbers between the dashes. -/
def readDigits (text : String) : Option Day :=
  match text.toList with
  | [y₁, y₂, y₃, y₄, '-', m₁, m₂, '-', d₁, d₂] =>
    if [y₁, y₂, y₃, y₄, m₁, m₂, d₁, d₂].all Char.isDigit then
      some ⟨digitsValue [y₁, y₂, y₃, y₄], digitsValue [m₁, m₂], digitsValue [d₁, d₂]⟩
    else none
  | _ => none

def readDate (value : String) : Option String :=
  match readDigits value with
  | none => none
  | some date => if utcDate date.year date.month date.day = date then some value else none

/-- `$1::date`, of a text as `readDate` lets it through: there is no year 0, and no day that its
month does not have. -/
def dateOf (text : String) : Option Day :=
  (readDigits text).filter fun date =>
    0 < date.year ∧ (0 < date.month ∧ date.month ≤ 12) ∧
      0 < date.day ∧ date.day ≤ daysInMonth (date.year * 12 + date.month - 1)

theorem daysInMonth_pos (months : ℕ) : 0 < daysInMonth months := by
  simp only [daysInMonth]
  split
  · split_ifs <;> decide
  all_goals decide

theorem rollForward_valid {fuel months day : ℕ} (hday : 0 < day) (hfuel : day ≤ fuel) :
    months ≤ (rollForward fuel months day).1 ∧ 0 < (rollForward fuel months day).2 ∧
      (rollForward fuel months day).2 ≤ daysInMonth (rollForward fuel months day).1 := by
  induction fuel generalizing months day with
  | zero => omega
  | succ fuel ih =>
    rw [rollForward]
    split_ifs with hle
    · exact ⟨le_rfl, hday, hle⟩
    · have hpos := daysInMonth_pos months
      obtain ⟨hmonths, hvalid⟩ :=
        @ih (months + 1) (day - daysInMonth months) (by omega) (by omega)
      exact ⟨by omega, hvalid⟩

/-- **A date is a day** of its month, and of a year after 0. -/
theorem utcDate_valid (year month day : ℕ) :
    0 < (utcDate year month day).year ∧
      (0 < (utcDate year month day).month ∧ (utcDate year month day).month ≤ 12) ∧
      0 < (utcDate year month day).day ∧ (utcDate year month day).day ≤
        daysInMonth ((utcDate year month day).year * 12 + (utcDate year month day).month - 1) := by
  obtain ⟨months, rolled, hmonths, hpos, hle, hdate⟩ : ∃ months rolled, 1198 ≤ months ∧
      0 < rolled ∧ rolled ≤ daysInMonth months ∧
        utcDate year month day = ⟨months / 12, months % 12 + 1, rolled⟩ := by
    have hfrom : 1199 ≤ (if year < 100 then 1900 + year else year) * 12 + month - 1 := by
      split_ifs <;> omega
    by_cases hday : day = 0
    · refine ⟨_, _, ?_, daysInMonth_pos _, le_rfl, by rw [utcDate, if_pos hday]⟩
      omega
    · obtain ⟨hmonths, hvalid⟩ := @rollForward_valid day
        ((if year < 100 then 1900 + year else year) * 12 + month - 1) day
        (Nat.pos_of_ne_zero hday) le_rfl
      refine ⟨_, _, ?_, hvalid.1, hvalid.2, by rw [utcDate, if_neg hday]⟩
      omega
  have hsame : months / 12 * 12 + (months % 12 + 1) - 1 = months := by omega
  rw [hdate]
  dsimp only
  rw [hsame]
  exact ⟨by omega, ⟨by omega, by omega⟩, hpos, hle⟩

theorem isSome_dateOf {value date : String} (h : readDate value = some date) :
    (dateOf date).isSome = true := by
  rw [readDate] at h
  cases hread : readDigits value with
  | none => simp [hread] at h
  | some read =>
    rw [hread] at h
    dsimp only at h
    split_ifs at h with hsame
    obtain rfl := Option.some.inj h
    obtain ⟨hyear, hmonth, hday⟩ := utcDate_valid read.year read.month read.day
    rw [hsame] at hyear hmonth hday
    rw [dateOf, hread, Option.isSome_filter]
    simp only [Option.any_some, decide_eq_true_iff]
    exact ⟨hyear, hmonth, hday⟩

/-! ### Filters -/

/-- What a prefix stands for. The last is what the object of the prefixes inherits from any other:
it is none of the kinds, and is not nothing. -/
inductive FilterKind where
  | assigned
  | within
  | tag
  | author
  | after
  | before
  | inherited
  deriving DecidableEq, Repr

/-- `PREFIXES`, with the keys in lower case that every object has. -/
def prefixes : String → Option FilterKind
  | "assigned" | "zugewiesen" => some .assigned
  | "in" | "ordner" | "folder" => some .within
  | "tag" | "schlagwort" => some .tag
  | "author" | "autor" => some .author
  | "after" | "ab" | "seit" => some .after
  | "before" | "bis" | "vor" => some .before
  | "constructor" | "__proto__" => some .inherited
  | _ => none

/-- `UnreadableFilter`: there is one reason, that it is not a date. -/
structure UnreadableFilter where
  kind : FilterKind
  value : String
  deriving DecidableEq, Repr

structure SearchFilters where
  assigned : List String := []
  tags : List String := []
  /-- `in` -/
  within : List String := []
  authors : List String := []
  after : Option String := none
  before : Option String := none
  text : String := ""
  unreadable : List UnreadableFilter := []
  deriving DecidableEq, Repr

section Tokens

/-- `[^\s"]` -/
def isBare (c : Char) : Bool := !JsString.isSpace c && c ≠ '"'

/-- `/[^\s"]*"[^"]*"/` at the start of a text, and what is left. -/
def quotedToken (cs : List Char) : Option (List Char × List Char) :=
  match cs.dropWhile isBare with
  | '"' :: inside =>
    match inside.dropWhile (· ≠ '"') with
    | [] => none
    | closing :: rest =>
      some (cs.takeWhile isBare ++ '"' :: inside.takeWhile (· ≠ '"') ++ [closing], rest)
  | _ => none

/-- `/[^\s]+/` at the start of a text, and what is left. -/
def bareToken (cs : List Char) : Option (List Char × List Char) :=
  match cs.takeWhile fun c => !JsString.isSpace c with
  | [] => none
  | token => some (token, cs.dropWhile fun c => !JsString.isSpace c)

/-- The matches in a text, with a bound on the number of steps. -/
def tokensFrom : ℕ → List Char → List (List Char)
  | 0, _ | _, [] => []
  | fuel + 1, c :: cs =>
    match (quotedToken (c :: cs)).or (bareToken (c :: cs)) with
    | some (token, rest) => token :: tokensFrom fuel rest
    | none => tokensFrom fuel cs

/-- `raw.match(/[^\s"]*"[^"]*"|[^\s]+/g)` -/
def tokens (raw : List Char) : List (List Char) := tokensFrom raw.length raw

variable {cs token rest : List Char}

theorem length_lt_of_quotedToken (h : quotedToken cs = some (token, rest)) :
    rest.length < cs.length := by
  rw [quotedToken] at h
  split at h
  · rename_i inside hinside
    split at h
    · cases h
    · rename_i closing after hafter
      obtain ⟨-, rfl⟩ := Prod.mk.inj (Option.some.inj h)
      have hcs := (dropWhile_suffix isBare (l := cs)).length_le
      have hin := (dropWhile_suffix (fun c : Char => c ≠ '"') (l := inside)).length_le
      rw [hinside, length_cons] at hcs
      rw [hafter, length_cons] at hin
      omega
  · cases h

theorem length_lt_of_bareToken (h : bareToken cs = some (token, rest)) :
    rest.length < cs.length := by
  rw [bareToken] at h
  split at h
  · cases h
  · rename_i hsome
    obtain ⟨-, rfl⟩ := Prod.mk.inj (Option.some.inj h)
    have happend := congrArg List.length
      (takeWhile_append_dropWhile (p := fun c : Char => !JsString.isSpace c) (l := cs))
    have hpos := length_pos_of_ne_nil hsome
    rw [length_append] at happend
    omega

/-- **Each match takes something**, so as many steps as there are letters are enough. -/
theorem tokensFrom_of_le {fuel more : ℕ} (hfuel : cs.length ≤ fuel) (hmore : fuel ≤ more) :
    tokensFrom more cs = tokensFrom fuel cs := by
  induction fuel generalizing cs more with
  | zero =>
    obtain rfl := eq_nil_of_length_eq_zero (Nat.le_zero.mp hfuel)
    cases more <;> rfl
  | succ fuel ih =>
    obtain ⟨more, rfl⟩ : ∃ m, more = m + 1 := ⟨more - 1, by omega⟩
    cases cs with
    | nil => rfl
    | cons c cs =>
      rw [length_cons] at hfuel
      rw [tokensFrom, tokensFrom]
      cases htoken : (quotedToken (c :: cs)).or (bareToken (c :: cs)) with
      | none => exact ih (by omega) (by omega)
      | some read =>
        obtain ⟨token, rest⟩ := read
        have hlt : rest.length < (c :: cs).length := by
          rcases Option.or_eq_some_iff.mp htoken with hquoted | ⟨-, hbare⟩
          · exact length_lt_of_quotedToken hquoted
          · exact length_lt_of_bareToken hbare
        rw [length_cons] at hlt
        exact congrArg _ (ih (by omega) (by omega))

end Tokens

/-- `value.replace(/^"|"$/g, '')` -/
def withoutQuotes (value : List Char) : List Char :=
  let opened := if value.head? = some '"' then value.tail else value
  if opened.getLast? = some '"' then opened.dropLast else opened

/-- A day that is asked for. One that is not a date is reported. -/
def SearchFilters.addDate (kind : FilterKind) (value : String) (filters : SearchFilters) :
    SearchFilters :=
  match readDate value with
  | none => { filters with unreadable := filters.unreadable ++ [⟨kind, value⟩] }
  | some date =>
    if kind = .after then { filters with after := some date }
    else { filters with before := some date }

/-- What a filter adds to those before it. -/
def SearchFilters.add (js : Js) (kind : FilterKind) (value : String) (filters : SearchFilters) :
    SearchFilters :=
  match kind with
  | .within => { filters with within := filters.within ++ [js.lowerCase value] }
  | .assigned => { filters with assigned := filters.assigned ++ [js.lowerCase value] }
  | .tag => { filters with tags := filters.tags ++ [js.lowerCase value] }
  | .author => { filters with authors := filters.authors ++ [js.lowerCase value] }
  | .after | .before | .inherited => filters.addDate kind value

/-- The body of the loop: what is read of the tokens so far, filters and words. -/
def readToken (js : Js) (read : SearchFilters × List String) (token : List Char) :
    SearchFilters × List String :=
  match token.takeWhile (· ≠ ':'), token.dropWhile (· ≠ ':') with
  | [], _ | _, [] => (read.1, read.2 ++ [String.ofList token])
  | name, _ :: rest =>
    match prefixes (js.lowerCase (String.ofList name)) with
    | none => (read.1, read.2 ++ [String.ofList token])
    | some kind =>
      let value := JsString.trim (String.ofList (withoutQuotes rest))
      if value = "" then read else (read.1.add js kind value, read.2)

def parseSearchQuery (js : Js) (raw : String) : SearchFilters :=
  let read := (tokens raw.toList).foldl (readToken js) ({}, [])
  { read.1 with text := JsString.trim (JsString.join " " read.2) }

def hasSearchCriteria (filters : SearchFilters) : Bool :=
  2 ≤ JsString.length filters.text || filters.tags ≠ [] || filters.within ≠ [] ||
    filters.assigned ≠ [] || filters.authors ≠ [] || filters.after.isSome || filters.before.isSome

def SearchFilters.without (kind : FilterKind) (filters : SearchFilters) : SearchFilters :=
  match kind with
  | .within => { filters with within := [] }
  | .assigned => { filters with assigned := [] }
  | .tag => { filters with tags := [] }
  | .author => { filters with authors := [] }
  | .after => { filters with after := none }
  | .before | .inherited => { filters with before := none }

/-- The tags are **named once** each, and by their keys. -/
def SearchFilters.NamesTagsOnce (js : Js) (filters : SearchFilters) : Prop :=
  filters.tags.Nodup ∧ ∀ tag ∈ filters.tags, PageDocument.tagKey js tag = tag

/-! ### What is read of a query -/

/-- The days that are asked for are such to the database. -/
structure SearchFilters.ReadsDates (filters : SearchFilters) : Prop where
  after : ∀ date ∈ filters.after, (dateOf date).isSome = true
  before : ∀ date ∈ filters.before, (dateOf date).isSome = true

variable {js : Js}

theorem SearchFilters.ReadsDates.addDate {filters : SearchFilters} (h : filters.ReadsDates)
    (kind : FilterKind) (value : String) : (filters.addDate kind value).ReadsDates := by
  rw [SearchFilters.addDate]
  cases hread : readDate value with
  | none => exact ⟨h.after, h.before⟩
  | some date =>
    have hsome : ∀ read ∈ some date, (dateOf read).isSome = true := by
      rintro _ ⟨rfl⟩
      exact isSome_dateOf hread
    dsimp only
    split_ifs
    · exact ⟨hsome, h.before⟩
    · exact ⟨h.after, hsome⟩

theorem SearchFilters.ReadsDates.add {filters : SearchFilters} (h : filters.ReadsDates)
    (kind : FilterKind) (value : String) : (filters.add js kind value).ReadsDates := by
  cases kind with
  | assigned | within | tag | author => exact ⟨h.after, h.before⟩
  | after | before | inherited => exact h.addDate _ _

theorem SearchFilters.ReadsDates.readToken {read : SearchFilters × List String}
    (h : read.1.ReadsDates) (token : List Char) : (readToken js read token).1.ReadsDates := by
  unfold Sone.readToken
  split
  · exact h
  · exact h
  · split
    · exact h
    · dsimp only
      split_ifs
      · exact h
      · exact h.add _ _

theorem readsDates_parseSearchQuery (js : Js) (raw : String) :
    (parseSearchQuery js raw).ReadsDates := by
  have hwords : ∀ {filters : SearchFilters} (text : String), filters.ReadsDates →
      { filters with text }.ReadsDates := fun _ h => ⟨h.after, h.before⟩
  have hrun : ∀ (toRead : List (List Char)) (read : SearchFilters × List String),
      read.1.ReadsDates → (toRead.foldl (readToken js) read).1.ReadsDates := by
    intro toRead
    induction toRead with
    | nil => exact fun read h => h
    | cons token toRead ih => exact fun read h => ih _ (h.readToken token)
  exact hwords _ (hrun (tokens raw.toList) ({}, []) ⟨nofun, nofun⟩)

example : parseSearchQuery .ascii "tag:\"Rechnung 2026\" offen" =
    { tags := ["rechnung 2026"], text := "offen" } := by decide +kernel

example : (parseSearchQuery .ascii "before:2026-02-30 constructor:2026-01-01").before =
    some "2026-01-01" := by decide +kernel

end Sone
