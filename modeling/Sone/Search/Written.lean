import Sone.Search.Query
import Mathlib.Data.List.TakeWhile

/-!
# Writing filters into a query

`buildSearchQuery` (`core/search/query.ts`) writes filters as somebody could have typed them, each
by the name of its kind, in quotation marks where it has a space in it, and the words last.

A query is taken apart into tokens with nothing but space between them
(`splitsInto_and_areTokens`), and each token says one thing (`parseSearchQuery_eq`). The tokens that
are written and the words that were left come apart again as they were put together
(`tokens_intercalate`), so what is read of a query is read again of what is written of it, where no
filter has a quotation mark in it.
`accounts_and_roundTrips` says both.
-/

namespace Sone

open List

namespace JsString

variable {cs : List Char} {s : String}

/-- **No space** at either end. -/
structure IsTrimmed (cs : List Char) : Prop where
  head : ∀ c ∈ cs.head?, isSpace c = false
  last : ∀ c ∈ cs.getLast?, isSpace c = false

theorem isTrimmed_trim (s : String) : IsTrimmed (trim s).toList := by
  rw [trim, String.toList_ofList]
  refine ⟨fun c hc => ?_, fun c hc => ?_⟩
  · -- what is left at the front is what was there before the end was cut
    obtain ⟨start, hstart⟩ : ∃ start, start = s.toList.dropWhile isSpace := ⟨_, rfl⟩
    rw [← hstart] at hc
    have hprefix : (start.reverse.dropWhile isSpace).reverse <+: start := by
      rw [← reverse_suffix, reverse_reverse]
      exact dropWhile_suffix _
    obtain ⟨rest, hrest⟩ := hprefix
    have hhead : c ∈ start.head? := by
      rw [← hrest, List.head?_append, Option.mem_def.mp hc]
      rfl
    exact head_dropWhile c (hstart ▸ hhead)
  · rw [List.getLast?_reverse] at hc
    exact head_dropWhile c hc

theorem trim_of_isTrimmed (h : IsTrimmed s.toList) : trim s = s := by
  have hdrop : ∀ cs : List Char, (∀ c ∈ cs.head?, isSpace c = false) →
      cs.dropWhile isSpace = cs := by
    intro cs hcs
    cases cs with
    | nil => rfl
    | cons c cs => exact dropWhile_cons_of_neg (by simp [hcs c rfl])
  rw [trim, hdrop _ h.head, hdrop, reverse_reverse, String.ofList_toList]
  rw [List.head?_reverse]
  exact h.last

theorem trim_trim (s : String) : trim (trim s) = trim s := trim_of_isTrimmed (isTrimmed_trim s)

end JsString

/-! ### The writer -/

/-- `/[\s"]/.test(value)` -/
def needsQuotes (value : String) : Bool := value.toList.any fun c => JsString.isSpace c || c = '"'

/-- `write` -/
def writtenFilter (name value : String) : String :=
  name ++ ":" ++ (if needsQuotes value then
    "\"" ++ String.ofList (value.toList.filter (· ≠ '"')) ++ "\"" else value)

def writtenFilters (filters : SearchFilters) : List String :=
  filters.tags.map (writtenFilter "tag") ++ filters.within.map (writtenFilter "in") ++
    filters.authors.map (writtenFilter "author") ++
    filters.assigned.map (writtenFilter "assigned") ++
    (filters.after.toList.filter (· ≠ "")).map (writtenFilter "after") ++
    (filters.before.toList.filter (· ≠ "")).map (writtenFilter "before")

def buildSearchQuery (filters : SearchFilters) : String :=
  JsString.join " " (writtenFilters filters ++ [filters.text].filter (· ≠ ""))

def SearchFilters.names (filters : SearchFilters) : List String :=
  filters.tags ++ filters.within ++ filters.authors ++ filters.assigned

namespace Search

/-! ### Tokens -/

section Tokens

variable {cs front inside word rest token : List Char} {c : Char}

/-- A token and what comes after it: a quoted one ends at its second quotation mark, one without
quotation marks at the first space, and one whose only quotation mark is not followed by another
does so too. -/
inductive IsToken : List Char → List Char → Prop where
  | quoted (front inside rest : List Char) (hfront : ∀ c ∈ front, isBare c = true)
      (hinside : '"' ∉ inside) : IsToken (front ++ '"' :: inside ++ ['"']) rest
  | bare (word rest : List Char) (hne : word ≠ []) (hword : ∀ c ∈ word, isBare c = true) :
      IsToken word rest
  | opened (front back rest : List Char) (hfront : ∀ c ∈ front, isBare c = true)
      (hback : ∀ c ∈ back, isBare c = true) (hrest : '"' ∉ rest) :
      IsToken (front ++ '"' :: back) rest

theorem IsToken.of_imp {rest' : List Char} (h : IsToken token rest)
    (hrest : '"' ∈ rest' → '"' ∈ rest) : IsToken token rest' := by
  cases h with
  | quoted front inside _ hfront hinside => exact .quoted _ _ _ hfront hinside
  | bare _ _ hne hword => exact .bare _ _ hne hword
  | opened front back _ hfront hback hno => exact .opened _ _ _ hfront hback fun h => hno (hrest h)

theorem isBare_iff : isBare c = true ↔ JsString.isSpace c = false ∧ c ≠ '"' := by
  simp [isBare]

theorem IsToken.isTrimmed (h : IsToken token rest) : token ≠ [] ∧ JsString.IsTrimmed token := by
  have hbare : ∀ {c}, isBare c = true → JsString.isSpace c = false := fun h => (isBare_iff.mp h).1
  have hquote : JsString.isSpace '"' = false := by decide
  cases h with
  | quoted front inside _ hfront hinside =>
    refine ⟨by simp, fun c hc => ?_, fun c hc => ?_⟩
    · cases front with
      | nil =>
        obtain rfl := Option.some.inj hc
        exact hquote
      | cons d front =>
        obtain rfl := Option.some.inj hc
        exact hbare (hfront d mem_cons_self)
    · rw [List.getLast?_concat] at hc
      obtain rfl := Option.some.inj hc
      exact hquote
  | bare _ _ hne hword =>
    exact ⟨hne, fun c hc => hbare (hword c (mem_of_mem_head? hc)),
      fun c hc => hbare (hword c (mem_of_mem_getLast? hc))⟩
  | opened front back _ hfront hback _ =>
    have hall : ∀ c ∈ front ++ '"' :: back, JsString.isSpace c = false := by
      intro c hc
      rcases mem_append.mp hc with hc | hc
      · exact hbare (hfront c hc)
      · rcases mem_cons.mp hc with rfl | hc
        · exact hquote
        · exact hbare (hback c hc)
    exact ⟨by simp, fun c hc => hall c (mem_of_mem_head? hc),
      fun c hc => hall c (mem_of_mem_getLast? hc)⟩

/-! #### What is matched -/

theorem quotedToken_append (hfront : ∀ c ∈ front, isBare c = true) (after : List Char) :
    quotedToken (front ++ '"' :: after) = match after.dropWhile (· ≠ '"') with
      | [] => none
      | closing :: rest =>
        some (front ++ '"' :: after.takeWhile (· ≠ '"') ++ [closing], rest) := by
  have hquote : isBare '"' = false := by decide
  rw [quotedToken, dropWhile_append_of_pos hfront, takeWhile_append_of_pos hfront,
    dropWhile_cons_of_neg (by simp [hquote]), takeWhile_cons_of_neg (by simp [hquote]),
    append_nil]
  rfl

theorem quotedToken_of_quoted (hfront : ∀ c ∈ front, isBare c = true) (hinside : '"' ∉ inside) :
    quotedToken (front ++ '"' :: (inside ++ '"' :: rest)) =
      some (front ++ '"' :: inside ++ ['"'], rest) := by
  have hstop : ∀ c ∈ inside, decide (c ≠ '"') = true := fun c hc =>
    decide_eq_true fun heq => hinside (heq ▸ hc)
  rw [quotedToken_append hfront, dropWhile_append_of_pos hstop,
    takeWhile_append_of_pos hstop, dropWhile_cons_of_neg (by simp),
    takeWhile_cons_of_neg (by simp), append_nil]

theorem quotedToken_of_opened (hfront : ∀ c ∈ front, isBare c = true) (hrest : '"' ∉ rest) :
    quotedToken (front ++ '"' :: rest) = none := by
  have hnone : rest.dropWhile (· ≠ '"') = [] := by
    rw [dropWhile_eq_nil_iff]
    exact fun c hc => decide_eq_true fun heq => hrest (heq ▸ hc)
  rw [quotedToken_append hfront, hnone]

/-- Where a space comes, or nothing. -/
def EndsToken (rest : List Char) : Prop := ∀ c ∈ rest.head?, JsString.isSpace c = true

theorem quotedToken_of_bare (hword : ∀ c ∈ word, isBare c = true) (hrest : EndsToken rest) :
    quotedToken (word ++ rest) = none := by
  rw [quotedToken, dropWhile_append_of_pos hword]
  cases rest with
  | nil => rfl
  | cons d rest =>
    have hspace : JsString.isSpace d = true := hrest d rfl
    have hne : d ≠ '"' := by
      rintro rfl
      exact absurd hspace (by decide)
    rw [dropWhile_cons_of_neg (by simp [isBare, hspace])]
    split
    · rename_i heq
      exact absurd (List.cons.inj heq).1 hne
    · rfl

theorem bareToken_of_word (hne : word ≠ []) (hword : ∀ c ∈ word, JsString.isSpace c = false)
    (hrest : EndsToken rest) : bareToken (word ++ rest) = some (word, rest) := by
  have hall : ∀ c ∈ word, (!JsString.isSpace c) = true := fun c hc => by simp [hword c hc]
  have htake : rest.takeWhile (fun c => !JsString.isSpace c) = [] := by
    cases rest with
    | nil => rfl
    | cons d rest => exact takeWhile_cons_of_neg (by simp [hrest d rfl])
  have hdrop : rest.dropWhile (fun c => !JsString.isSpace c) = rest := by
    cases rest with
    | nil => rfl
    | cons d rest => exact dropWhile_cons_of_neg (by simp [hrest d rfl])
  rw [bareToken, takeWhile_append_of_pos hall, dropWhile_append_of_pos hall, htake, hdrop,
    append_nil]
  obtain ⟨d, word, rfl⟩ := exists_cons_of_ne_nil hne
  rfl

theorem tokens_of_space (hc : JsString.isSpace c = true) : tokens (c :: cs) = tokens cs := by
  have hne : c ≠ '"' := by
    rintro rfl
    exact absurd hc (by decide)
  have hquoted : quotedToken (c :: cs) = none :=
    @quotedToken_of_bare [] (c :: cs) (fun _ h => absurd h not_mem_nil) fun _ h => by
      obtain rfl := Option.some.inj h
      exact hc
  have hbare : bareToken (c :: cs) = none := by
    rw [bareToken, takeWhile_cons_of_neg (by simp [hc])]
  rw [tokens, length_cons, tokensFrom, hquoted, hbare]
  rfl

theorem tokens_of_match (h : (quotedToken cs).or (bareToken cs) = some (token, rest)) :
    tokens cs = token :: tokens rest := by
  cases cs with
  | nil => cases h
  | cons c cs =>
    have hlt : rest.length < (c :: cs).length := by
      rcases Option.or_eq_some_iff.mp h with hquoted | ⟨-, hbare⟩
      · exact length_lt_of_quotedToken hquoted
      · exact length_lt_of_bareToken hbare
    rw [length_cons] at hlt
    rw [tokens, length_cons, tokensFrom, h]
    exact congrArg _ (tokensFrom_of_le le_rfl (by omega))

/-- **A token is taken off** where it ends. -/
theorem tokens_of_isToken (h : IsToken token rest) (hrest : EndsToken rest) :
    tokens (token ++ rest) = token :: tokens rest := by
  apply tokens_of_match
  cases h with
  | quoted front inside _ hfront hinside =>
    have happend : front ++ '"' :: inside ++ ['"'] ++ rest =
        front ++ '"' :: (inside ++ '"' :: rest) := by simp
    rw [happend, quotedToken_of_quoted hfront hinside]
    rfl
  | bare _ _ hne hword =>
    rw [quotedToken_of_bare hword hrest,
      bareToken_of_word hne (fun c hc => (isBare_iff.mp (hword c hc)).1) hrest]
    rfl
  | opened front back _ hfront hback hno =>
    have hall : ∀ c ∈ front ++ '"' :: back, JsString.isSpace c = false := by
      intro c hc
      rcases mem_append.mp hc with hc | hc
      · exact (isBare_iff.mp (hfront c hc)).1
      · rcases mem_cons.mp hc with rfl | hc
        · decide
        · exact (isBare_iff.mp (hback c hc)).1
    have hquoted : quotedToken (front ++ '"' :: back ++ rest) = none := by
      rw [append_assoc, cons_append]
      refine quotedToken_of_opened hfront ?_
      rw [mem_append, not_or]
      exact ⟨fun hmem => (isBare_iff.mp (hback _ hmem)).2 rfl, hno⟩
    rw [hquoted, bareToken_of_word (by simp) hall hrest]
    rfl

/-! #### A query is its tokens -/

/-- **A text is taken apart** into tokens, with nothing but space before, between and after them. -/
inductive SplitsInto : List Char → List (List Char) → Prop where
  | nil (gap : List Char) (hgap : ∀ c ∈ gap, JsString.isSpace c = true) : SplitsInto gap []
  | cons (gap token rest : List Char) (toks : List (List Char))
      (hgap : ∀ c ∈ gap, JsString.isSpace c = true) (hne : token ≠ [])
      (hrest : SplitsInto rest toks) : SplitsInto (gap ++ token ++ rest) (token :: toks)

theorem SplitsInto.space {toks : List (List Char)} (h : SplitsInto cs toks)
    (hc : JsString.isSpace c = true) : SplitsInto (c :: cs) toks := by
  cases h with
  | nil _ hgap => exact .nil _ (forall_mem_cons.mpr ⟨hc, hgap⟩)
  | cons gap token rest toks hgap hne hrest =>
    exact .cons (c :: gap) token rest toks (forall_mem_cons.mpr ⟨hc, hgap⟩) hne hrest

/-- **What comes first** in a text that does not begin with a space is a token. -/
theorem exists_isToken (hc : JsString.isSpace c = false) : ∃ token rest,
    c :: cs = token ++ rest ∧ IsToken token rest ∧ tokens (c :: cs) = token :: tokens rest := by
  obtain ⟨text, htext⟩ : ∃ text, text = c :: cs := ⟨_, rfl⟩
  obtain ⟨word, hword⟩ : ∃ word, word = text.takeWhile fun c => !JsString.isSpace c := ⟨_, rfl⟩
  obtain ⟨rest, hrest⟩ : ∃ rest, rest = text.dropWhile fun c => !JsString.isSpace c := ⟨_, rfl⟩
  have happend : text = word ++ rest := by
    rw [hword, hrest, takeWhile_append_dropWhile]
  have hspace : ∀ c ∈ word, JsString.isSpace c = false := by
    intro d hd
    rw [hword] at hd
    simpa using mem_takeWhile_imp hd
  have hends : EndsToken rest := by
    intro d hd
    rw [hrest] at hd
    simpa using head_dropWhile d hd
  have hne : word ≠ [] := by
    rw [hword, htext, takeWhile_cons_of_pos (by simp [hc])]
    exact cons_ne_nil _ _
  rw [← htext]
  by_cases hquote : '"' ∈ word
  · obtain ⟨front, back, rfl, hfront⟩ := eq_append_cons_of_mem hquote
    have hbare : ∀ d ∈ front, isBare d = true := fun d hd => isBare_iff.mpr
      ⟨hspace d (mem_append_left _ hd), fun heq => hfront (heq ▸ hd)⟩
    by_cases hmore : '"' ∈ back ++ rest
    · -- there is a second quotation mark, maybe behind a space
      obtain ⟨inside, after, hinside, hnot⟩ := eq_append_cons_of_mem hmore
      have htoken : text = front ++ '"' :: (inside ++ '"' :: after) := by
        rw [happend, append_assoc, cons_append, hinside]
      refine ⟨front ++ '"' :: inside ++ ['"'], after, by rw [htoken]; simp,
        .quoted _ _ _ hbare hnot, ?_⟩
      apply tokens_of_match
      rw [htoken, quotedToken_of_quoted hbare hnot]
      rfl
    · rw [mem_append, not_or] at hmore
      have htoken : IsToken (front ++ '"' :: back) rest := by
        refine .opened _ _ _ hbare (fun d hd => isBare_iff.mpr ⟨?_, fun heq => ?_⟩) hmore.2
        · exact hspace d (mem_append_right _ (mem_cons_of_mem _ hd))
        · exact hmore.1 (heq ▸ hd)
      exact ⟨_, rest, happend, htoken, by rw [happend, tokens_of_isToken htoken hends]⟩
  · have htoken : IsToken word rest := .bare _ _ hne fun d hd =>
      isBare_iff.mpr ⟨hspace d hd, fun heq => hquote (heq ▸ hd)⟩
    exact ⟨word, rest, happend, htoken, by rw [happend, tokens_of_isToken htoken hends]⟩

/-- Tokens that come one after the other. -/
inductive AreTokens : List (List Char) → Prop where
  | nil : AreTokens []
  | cons (token : List Char) (toks : List (List Char)) (htoken : IsToken token toks.flatten)
      (htoks : AreTokens toks) : AreTokens (token :: toks)

/-- **Every letter is in a token**, and its tokens are such one after the other. -/
theorem splitsInto_and_areTokens (raw : List Char) :
    SplitsInto raw (tokens raw) ∧ AreTokens (tokens raw) ∧
      ∀ c ∈ (tokens raw).flatten, c ∈ raw := by
  obtain ⟨n, hn⟩ : ∃ n, raw.length ≤ n := ⟨_, le_rfl⟩
  induction n generalizing raw with
  | zero =>
    obtain rfl := eq_nil_of_length_eq_zero (Nat.le_zero.mp hn)
    exact ⟨.nil [] (by simp), .nil, by simp [tokens, tokensFrom]⟩
  | succ n ih =>
    cases raw with
    | nil => exact ⟨.nil [] (by simp), .nil, by simp [tokens, tokensFrom]⟩
    | cons c cs =>
      by_cases hc : JsString.isSpace c = true
      · obtain ⟨hsplits, htokens, hmem⟩ := ih cs (by rw [length_cons] at hn; omega)
        rw [tokens_of_space hc]
        exact ⟨hsplits.space hc, htokens, fun d hd => mem_cons_of_mem _ (hmem d hd)⟩
      · rw [Bool.not_eq_true] at hc
        obtain ⟨token, rest, happend, htoken, htokens⟩ := @exists_isToken cs c hc
        have hne := htoken.isTrimmed.1
        have hlength := congrArg List.length happend
        have hpos := length_pos_of_ne_nil hne
        rw [length_append] at hlength
        obtain ⟨hsplits, hrest, hmem⟩ := ih rest (by omega)
        rw [htokens, happend]
        refine ⟨.cons [] token rest _ (by simp) hne hsplits,
          .cons _ _ (htoken.of_imp (hmem _)) hrest, fun d hd => ?_⟩
        rw [flatten_cons, mem_append] at hd
        exact mem_append.mpr (hd.imp_right (hmem d))

theorem AreTokens.filter {toks : List (List Char)} (h : AreTokens toks) (p : List Char → Bool) :
    AreTokens (toks.filter p) := by
  induction h with
  | nil => exact .nil
  | cons token toks htoken _ ih =>
    rw [filter_cons]
    split_ifs
    · refine .cons _ _ (htoken.of_imp fun hmem => ?_) ih
      obtain ⟨other, hother, hquote⟩ := mem_flatten.mp hmem
      exact mem_flatten.mpr ⟨other, mem_of_mem_filter hother, hquote⟩
    · exact ih

theorem mem_flatten_of_mem_intercalate {texts : List (List Char)} {d : Char} (hne : d ≠ c)
    (h : d ∈ [c].intercalate texts) : d ∈ texts.flatten := by
  induction texts with
  | nil => cases h
  | cons text texts ih =>
    cases texts with
    | nil =>
      rw [intercalate_singleton] at h
      simpa using h
    | cons next texts =>
      rw [intercalate_cons_cons, append_assoc, mem_append, mem_append] at h
      rw [flatten_cons, mem_append]
      rcases h with h | h | h
      · exact .inl h
      · exact absurd (mem_singleton.mp h) hne
      · exact .inr (ih h)

/-- **Tokens come apart** as they were put together, with a blank in between. -/
theorem tokens_intercalate {toks : List (List Char)} (h : AreTokens toks) :
    tokens ([' '].intercalate toks) = toks := by
  induction h with
  | nil => rfl
  | cons token toks htoken _ ih =>
    cases toks with
    | nil =>
      rw [intercalate_singleton]
      have htokens := tokens_of_isToken htoken fun _ h => by cases h
      rwa [flatten_nil, append_nil] at htokens
    | cons next toks =>
      rw [intercalate_cons_cons, append_assoc]
      have hblank : JsString.isSpace ' ' = true := by decide
      have hquotes : '"' ∈ [' '] ++ [' '].intercalate (next :: toks) →
          '"' ∈ (next :: toks).flatten := by
        intro hmem
        rcases mem_append.mp hmem with hmem | hmem
        · exact absurd (mem_singleton.mp hmem) (by decide)
        · exact mem_flatten_of_mem_intercalate (by decide) hmem
      rw [tokens_of_isToken (htoken.of_imp hquotes) fun c hc => by
        obtain rfl := Option.some.inj hc
        exact hblank]
      rw [singleton_append, tokens_of_space hblank, ih]

end Tokens

/-! ### What a token says -/

/-- What a token says: a filter with its value, a day that is not one, a filter with nothing after
its name, or a word. -/
inductive Part where
  | filter (kind : FilterKind) (value : String)
  | unreadable (kind : FilterKind) (value : String)
  | empty (kind : FilterKind)
  | word (text : String)
  deriving DecidableEq

namespace Part

def valueOf (kind : FilterKind) : Part → Option String
  | filter other value => if other = kind then some value else none
  | _ => none

def unreadable? : Part → Option UnreadableFilter
  | unreadable kind value => some ⟨kind, value⟩
  | _ => none

def word? : Part → Option String
  | word text => some text
  | _ => none

end Part

def wordsOf (parts : List Part) : List String := parts.filterMap Part.word?

/-- **What is said**, one part after the other: the names in lower case, the day that was named
last, and the words. -/
def filtersOf (js : Js) (parts : List Part) : SearchFilters where
  assigned := (parts.filterMap (Part.valueOf .assigned)).map js.lowerCase
  tags := (parts.filterMap (Part.valueOf .tag)).map js.lowerCase
  within := (parts.filterMap (Part.valueOf .within)).map js.lowerCase
  authors := (parts.filterMap (Part.valueOf .author)).map js.lowerCase
  after := (parts.filterMap (Part.valueOf .after)).getLast?
  before := (parts.filterMap (Part.valueOf .before)).getLast?
  text := JsString.trim (JsString.join " " (wordsOf parts))
  unreadable := parts.filterMap Part.unreadable?

def documentedKind (name : String) : Option FilterKind :=
  (prefixes name).filter (· ≠ .inherited)

def Names (js : Js) (token : List Char) (kind : FilterKind) (value : String) : Prop :=
  ∃ name rest, token = name ++ ':' :: rest ∧ name ≠ [] ∧ ':' ∉ name ∧
    documentedKind (js.lowerCase (String.ofList name)) = some kind ∧
    value = JsString.trim (String.ofList (withoutQuotes rest))

def NamesNothing (js : Js) (token : List Char) : Prop :=
  ∀ name rest, token = name ++ ':' :: rest → name ≠ [] → ':' ∉ name →
    documentedKind (js.lowerCase (String.ofList name)) = none

def NamesInherited (js : Js) (token : List Char) : Prop :=
  ∃ name rest, token = name ++ ':' :: rest ∧ name ≠ [] ∧ ':' ∉ name ∧
    prefixes (js.lowerCase (String.ofList name)) = some .inherited

/-- **A part of a query**, as it should be understood: a filter of a kind that was written down,
with a value that can be read, a day that is not one, a filter without a value, or a word. -/
inductive IsPart (js : Js) (token : List Char) : Part → Prop where
  | filter (kind : FilterKind) (value : String) (hnames : Names js token kind value)
      (hne : value ≠ "") (hday : kind = .after ∨ kind = .before → readDate value = some value) :
      IsPart js token (.filter kind value)
  | unreadable (kind : FilterKind) (value : String) (hnames : Names js token kind value)
      (hne : value ≠ "") (hday : kind = .after ∨ kind = .before) (hread : readDate value = none) :
      IsPart js token (.unreadable kind value)
  | empty (kind : FilterKind) (hnames : Names js token kind "") : IsPart js token (.empty kind)
  | word (hnames : NamesNothing js token) : IsPart js token (.word (String.ofList token))

/-- **A query is accounted for** by parts: every letter of it is in one or is space between two, and
the filters are what the parts say. -/
structure AccountedBy (js : Js) (raw : String) (parts : List Part) : Prop where
  splits : SplitsInto raw.toList (tokens raw.toList)
  reads : List.Forall₂ (IsPart js) (tokens raw.toList) parts
  filters : parseSearchQuery js raw = filtersOf js parts

section Parts

variable {js : Js} {token name rest : List Char} {kind : FilterKind} {value : String}

/-- What a day says. What is named by what every object has is taken for a bound from above. -/
def dayPart (kind : FilterKind) (value : String) : Part :=
  match readDate value with
  | none => .unreadable kind value
  | some date => .filter (if kind = .after then .after else .before) date

def valuePart (kind : FilterKind) (value : String) : Part :=
  match kind with
  | .after | .before | .inherited => dayPart kind value
  | _ => .filter kind value

/-- The kind a token names, and what comes after the colon. -/
def kindOf (js : Js) (token : List Char) : Option (FilterKind × List Char) :=
  match token.takeWhile (· ≠ ':'), token.dropWhile (· ≠ ':') with
  | [], _ | _, [] => none
  | name, _ :: rest => (prefixes (js.lowerCase (String.ofList name))).map fun kind => (kind, rest)

def partOf (js : Js) (token : List Char) : Part :=
  match kindOf js token with
  | none => .word (String.ofList token)
  | some (kind, rest) =>
    let value := JsString.trim (String.ofList (withoutQuotes rest))
    if value = "" then .empty kind else valuePart kind value

theorem readToken_eq (read : SearchFilters × List String) (token : List Char) :
    readToken js read token = match kindOf js token with
      | none => (read.1, read.2 ++ [String.ofList token])
      | some (kind, rest) =>
        let value := JsString.trim (String.ofList (withoutQuotes rest))
        if value = "" then read else (read.1.add js kind value, read.2) := by
  unfold readToken kindOf
  generalize token.takeWhile (· ≠ ':') = name
  generalize token.dropWhile (· ≠ ':') = after
  cases name with
  | nil => rfl
  | cons c name =>
    cases after with
    | nil => rfl
    | cons d after =>
      dsimp only
      cases prefixes (js.lowerCase (String.ofList (c :: name))) <;> rfl

theorem kindOf_of_named (hne : name ≠ []) (hname : ':' ∉ name) (rest : List Char) :
    kindOf js (name ++ ':' :: rest) =
      (prefixes (js.lowerCase (String.ofList name))).map fun kind => (kind, rest) := by
  have hall : ∀ c ∈ name, decide (c ≠ ':') = true := fun c hc =>
    decide_eq_true fun heq => hname (heq ▸ hc)
  rw [kindOf, takeWhile_append_of_pos hall, dropWhile_append_of_pos hall,
    takeWhile_cons_of_neg (by simp), dropWhile_cons_of_neg (by simp), append_nil]
  obtain ⟨c, name, rfl⟩ := exists_cons_of_ne_nil hne
  rfl

theorem exists_name (token : List Char) : (∃ name rest, token = name ++ ':' :: rest ∧ name ≠ [] ∧
      ':' ∉ name) ∨
    kindOf js token = none ∧ ∀ name rest, token = name ++ ':' :: rest → ':' ∉ name → name = [] := by
  by_cases hcolon : ':' ∈ token
  · obtain ⟨name, rest, rfl, hname⟩ := eq_append_cons_of_mem hcolon
    by_cases hne : name = []
    · refine .inr ⟨by rw [hne]; rfl, fun other after heq hother => ?_⟩
      rw [hne, nil_append] at heq
      cases other with
      | nil => rfl
      | cons c other => exact absurd (List.cons.inj heq).1 (by rintro rfl; simp at hother)
    · exact .inl ⟨name, rest, rfl, hne, hname⟩
  · refine .inr ⟨?_, fun other after heq _ => absurd (heq ▸ by simp) hcolon⟩
    have hdrop : token.dropWhile (· ≠ ':') = [] := by
      rw [dropWhile_eq_nil_iff]
      exact fun c hc => decide_eq_true fun heq => hcolon (heq ▸ hc)
    rw [kindOf, hdrop]
    cases token.takeWhile (· ≠ ':') <;> rfl

/-- Nothing was said before the first token. -/
def gathered (js : Js) (parts : List Part) : SearchFilters × List String :=
  ({ filtersOf js parts with text := "" }, wordsOf parts)

theorem addDate_gathered (parts : List Part) (kind : FilterKind) (value : String) :
    ((gathered js parts).1.addDate kind value, (gathered js parts).2) =
      gathered js (parts ++ [dayPart kind value]) := by
  rw [SearchFilters.addDate, dayPart]
  cases readDate value with
  | none =>
    simp [gathered, filtersOf, wordsOf, Part.valueOf, Part.unreadable?, Part.word?]
  | some date =>
    by_cases hkind : kind = .after
    · simp [gathered, filtersOf, wordsOf, Part.valueOf, Part.unreadable?, Part.word?, hkind]
    · simp [gathered, filtersOf, wordsOf, Part.valueOf, Part.unreadable?, Part.word?, hkind]

theorem add_gathered (parts : List Part) (kind : FilterKind) (value : String) :
    ((gathered js parts).1.add js kind value, (gathered js parts).2) =
      gathered js (parts ++ [valuePart kind value]) := by
  cases kind with
  | after => exact addDate_gathered parts .after value
  | before => exact addDate_gathered parts .before value
  | inherited => exact addDate_gathered parts .inherited value
  | assigned | within | tag | author =>
    simp [gathered, filtersOf, wordsOf, Part.valueOf, Part.unreadable?, Part.word?,
      SearchFilters.add, valuePart]

theorem readToken_gathered (parts : List Part) (token : List Char) :
    readToken js (gathered js parts) token = gathered js (parts ++ [partOf js token]) := by
  have hword : ((gathered js parts).1, (gathered js parts).2 ++ [String.ofList token]) =
      gathered js (parts ++ [.word (String.ofList token)]) := by
    simp [gathered, filtersOf, wordsOf, Part.valueOf, Part.unreadable?, Part.word?]
  rw [readToken_eq, partOf]
  cases kindOf js token with
  | none => exact hword
  | some named =>
    dsimp only
    split_ifs
    · simp [gathered, filtersOf, wordsOf, Part.valueOf, Part.unreadable?, Part.word?]
    · exact add_gathered parts _ _

theorem parseSearchQuery_eq (js : Js) (raw : String) :
    parseSearchQuery js raw = filtersOf js ((tokens raw.toList).map (partOf js)) := by
  have hrun : ∀ (toks : List (List Char)) (parts : List Part),
      toks.foldl (readToken js) (gathered js parts) =
        gathered js (parts ++ toks.map (partOf js)) := by
    intro toks
    induction toks with
    | nil => intro parts; rw [map_nil, append_nil]; rfl
    | cons token toks ih =>
      intro parts
      rw [foldl_cons, readToken_gathered, ih, map_cons, append_assoc,
        singleton_append]
  rw [parseSearchQuery, show (({}, []) : SearchFilters × List String) = gathered js [] from rfl,
    hrun, nil_append]
  rfl

/-! ### Every part is accounted for -/

theorem name_unique {name' rest' : List Char} (hname : ':' ∉ name) (hname' : ':' ∉ name')
    (h : name ++ ':' :: rest = name' ++ ':' :: rest') : name = name' ∧ rest = rest' := by
  have hbefore : ∀ {a b : List Char}, ':' ∉ a → (a ++ ':' :: b).takeWhile (· ≠ ':') = a := by
    intro a b ha
    have hall : ∀ c ∈ a, decide (c ≠ ':') = true := fun c hc =>
      decide_eq_true fun heq => ha (heq ▸ hc)
    rw [takeWhile_append_of_pos hall, takeWhile_cons_of_neg (by simp), append_nil]
  obtain rfl : name = name' := by rw [← @hbefore name rest hname, h, hbefore hname']
  exact ⟨rfl, (List.cons.inj (append_cancel_left h)).2⟩

theorem readDate_eq {date : String} (h : readDate value = some date) : date = value := by
  rw [readDate] at h
  split at h
  · cases h
  · split_ifs at h
    exact (Option.some.inj h).symm

/-- **A token is understood** as it should be, unless its name is one that every object has. -/
theorem isPart_partOf (h : ¬NamesInherited js token) : IsPart js token (partOf js token) := by
  rcases @exists_name js token with ⟨name, rest, rfl, hne, hname⟩ | ⟨hnone, hnot⟩
  · rw [partOf, kindOf_of_named hne hname]
    cases hkind : prefixes (js.lowerCase (String.ofList name)) with
    | none =>
      refine .word fun other after heq _ hother => ?_
      obtain ⟨rfl, -⟩ := name_unique hname hother heq
      rw [documentedKind, hkind]
      rfl
    | some kind =>
      have hdocumented : kind ≠ .inherited := fun hinherited =>
        h ⟨name, rest, rfl, hne, hname, hinherited ▸ hkind⟩
      obtain ⟨value, hvalue⟩ :
          ∃ value, value = JsString.trim (String.ofList (withoutQuotes rest)) := ⟨_, rfl⟩
      have hnames : Names js (name ++ ':' :: rest) kind value := by
        refine ⟨name, rest, rfl, hne, hname, ?_, hvalue⟩
        rw [documentedKind, hkind, Option.filter_some_pos (by simpa using hdocumented)]
      rw [Option.map_some]
      dsimp only
      rw [← hvalue]
      split_ifs with hempty
      · exact .empty kind (hempty ▸ hnames)
      · have hday : kind = .after ∨ kind = .before →
            IsPart js (name ++ ':' :: rest) (dayPart kind value) := by
          intro hday
          rw [dayPart]
          cases hread : readDate value with
          | none => exact .unreadable kind value hnames hempty hday hread
          | some date =>
            obtain rfl := readDate_eq hread
            have hsame : (if kind = .after then FilterKind.after else .before) = kind := by
              rcases hday with rfl | rfl <;> rfl
            dsimp only
            rw [hsame]
            exact .filter kind date hnames hempty fun _ => hread
        cases kind with
        | after => exact hday (.inl rfl)
        | before => exact hday (.inr rfl)
        | inherited => exact absurd rfl hdocumented
        | assigned | within | tag | author => exact .filter _ value hnames hempty (by simp)
  · rw [partOf, hnone]
    exact .word fun name rest heq hne hname => absurd (hnot name rest heq hname) hne

theorem accountedBy_partOf (raw : String)
    (h : ∀ token ∈ tokens raw.toList, ¬NamesInherited js token) :
    AccountedBy js raw ((tokens raw.toList).map (partOf js)) where
  splits := (splitsInto_and_areTokens _).1
  reads := by
    rw [forall₂_map_right_iff, forall₂_same]
    exact fun token htoken => isPart_partOf (h token htoken)
  filters := parseSearchQuery_eq js raw

/-! ### What is written is read -/

theorem partOf_eq_filter (h : partOf js token = .filter kind value) :
    value ≠ "" ∧ JsString.trim value = value ∧
      (kind = .after ∨ kind = .before → readDate value = some value) := by
  rw [partOf] at h
  split at h
  · cases h
  · rename_i named rest _
    obtain ⟨read, hread⟩ : ∃ read, read = JsString.trim (String.ofList (withoutQuotes rest)) :=
      ⟨_, rfl⟩
    have htrim : JsString.trim read = read := by rw [hread, JsString.trim_trim]
    dsimp only at h
    rw [← hread] at h
    split_ifs at h with hne
    have hday : dayPart named read = .filter kind value → value = read ∧
        (kind = .after ∨ kind = .before → readDate value = some value) := by
      intro hday
      rw [dayPart] at hday
      cases hdate : readDate read with
      | none => rw [hdate] at hday; cases hday
      | some date =>
        obtain rfl := readDate_eq hdate
        rw [hdate] at hday
        obtain ⟨-, rfl⟩ := Part.filter.inj hday
        exact ⟨rfl, fun _ => hdate⟩
    have hsame : value = read ∧
        (kind = .after ∨ kind = .before → readDate value = some value) := by
      cases named with
      | after | before | inherited => exact hday h
      | assigned | within | tag | author =>
        obtain ⟨rfl, rfl⟩ := Part.filter.inj h
        exact ⟨rfl, by simp⟩
    obtain ⟨rfl, hvalue⟩ := hsame
    exact ⟨hne, htrim, hvalue⟩

theorem withoutQuotes_of_not_mem (h : '"' ∉ rest) : withoutQuotes rest = rest := by
  have hhead : rest.head? ≠ some '"' := fun heq => h (mem_of_head? heq)
  have hlast : rest.getLast? ≠ some '"' := fun heq => h (mem_of_getLast? heq)
  rw [withoutQuotes, if_neg hhead, if_neg hlast]

theorem withoutQuotes_quoted (inside : List Char) :
    withoutQuotes ('"' :: inside ++ ['"']) = inside := by
  rw [withoutQuotes, cons_append, List.head?_cons, if_pos rfl, tail_cons,
    List.getLast?_concat, if_pos rfl, dropLast_concat]

theorem toList_writtenFilter (name value : String) : (writtenFilter name value).toList =
    name.toList ++ ':' :: (if needsQuotes value then
      '"' :: value.toList.filter (· ≠ '"') ++ ['"'] else value.toList) := by
  rw [writtenFilter]
  split_ifs <;> simp

theorem isToken_writtenFilter {name value : String} (hname : ∀ c ∈ name.toList, isBare c = true)
    (rest : List Char) : IsToken (writtenFilter name value).toList rest := by
  have hcolon : ∀ c ∈ name.toList ++ [':'], isBare c = true := by
    intro c hc
    rcases mem_append.mp hc with hc | hc
    · exact hname c hc
    · obtain rfl := mem_singleton.mp hc
      decide
  rw [toList_writtenFilter]
  split_ifs with hquotes
  · have hsame : name.toList ++ ':' :: ('"' :: value.toList.filter (· ≠ '"') ++ ['"']) =
        name.toList ++ [':'] ++ '"' :: value.toList.filter (· ≠ '"') ++ ['"'] := by simp
    rw [hsame]
    exact .quoted _ _ rest hcolon (by simp)
  · refine .bare _ rest (by simp) fun c hc => ?_
    rw [mem_append, mem_cons, ← or_assoc, ← mem_singleton, ← mem_append] at hc
    rcases hc with hc | hc
    · exact hcolon c hc
    · rw [needsQuotes, List.any_eq_true, not_exists] at hquotes
      have hnot := hquotes c
      rw [not_and, Bool.or_eq_true, not_or, decide_eq_true_eq, Bool.not_eq_true] at hnot
      exact isBare_iff.mpr (hnot hc)

/-- **What is written is read** as it was, where there is no quotation mark in it. -/
theorem partOf_writtenFilter {name : String} (hne : name ≠ "") (hname : ':' ∉ name.toList)
    (hkind : prefixes (js.lowerCase name) = some kind) (hvalue : value ≠ "")
    (htrim : JsString.trim value = value) (hquote : '"' ∉ value.toList) :
    partOf js (writtenFilter name value).toList = valuePart kind value := by
  have hname' : name.toList ≠ [] := fun h => hne (String.toList_eq_nil_iff.mp h)
  have hwithout : withoutQuotes (if needsQuotes value then
      '"' :: value.toList.filter (· ≠ '"') ++ ['"'] else value.toList) = value.toList := by
    split_ifs
    · rw [withoutQuotes_quoted, List.filter_eq_self]
      exact fun c hc => decide_eq_true fun heq => hquote (heq ▸ hc)
    · exact withoutQuotes_of_not_mem hquote
  rw [toList_writtenFilter, partOf, kindOf_of_named hname' hname, String.ofList_toList, hkind]
  dsimp only [Option.map_some]
  rw [hwithout, String.ofList_toList, htrim, if_neg hvalue]

end Parts

/-- **What letters become** in lower case: small ones stay, none is changed twice, and what has no
space at its ends keeps none. -/
structure LowersLetters (js : Js) : Prop where
  small (s : String) : (∀ c ∈ s.toList, c.isLower = true) → js.lowerCase s = s
  again (s : String) : js.lowerCase (js.lowerCase s) = js.lowerCase s
  ends (s : String) : JsString.IsTrimmed s.toList → JsString.IsTrimmed (js.lowerCase s).toList
  ne_empty (s : String) : s ≠ "" → js.lowerCase s ≠ ""

section RoundTrip

variable {js : Js} {raw : String} {kind : FilterKind} {value : String} {toks : List (List Char)}

def writtenParts (filters : SearchFilters) : List Part :=
  filters.tags.map (.filter .tag) ++ filters.within.map (.filter .within) ++
    filters.authors.map (.filter .author) ++ filters.assigned.map (.filter .assigned) ++
    filters.after.toList.map (.filter .after) ++ filters.before.toList.map (.filter .before)

theorem exists_token_of_valueOf
    (h : value ∈ (toks.map (partOf js)).filterMap (Part.valueOf kind)) :
    ∃ token ∈ toks, partOf js token = .filter kind value := by
  obtain ⟨part, hpart, hvalue⟩ := mem_filterMap.mp h
  obtain ⟨token, htoken, rfl⟩ := List.mem_map.mp hpart
  refine ⟨token, htoken, ?_⟩
  cases hpartOf : partOf js token with
  | filter other value =>
    rw [hpartOf, Part.valueOf] at hvalue
    split_ifs at hvalue with hkind
    rw [hkind, Option.some.inj hvalue]
  | _ => rw [hpartOf] at hvalue; cases hvalue

theorem name_of_parts (hjs : LowersLetters js)
    (h : value ∈ ((toks.map (partOf js)).filterMap (Part.valueOf kind)).map js.lowerCase) :
    value ≠ "" ∧ JsString.trim value = value ∧ js.lowerCase value = value := by
  obtain ⟨read, hread, rfl⟩ := List.mem_map.mp h
  obtain ⟨token, -, hfilter⟩ := exists_token_of_valueOf hread
  obtain ⟨hne, htrim, -⟩ := partOf_eq_filter hfilter
  have hends : JsString.IsTrimmed read.toList := htrim ▸ JsString.isTrimmed_trim read
  exact ⟨hjs.ne_empty read hne, JsString.trim_of_isTrimmed (hjs.ends read hends), hjs.again read⟩

theorem no_quote_of_readDate {date : String} (h : readDate value = some date) :
    '"' ∉ value.toList := by
  intro hquote
  rw [readDate] at h
  cases hread : readDigits value with
  | none => simp [hread] at h
  | some day =>
    rw [readDigits] at hread
    split at hread
    · rename_i heq
      split_ifs at hread with hdigits
      rw [heq] at hquote
      have hdigit : ∀ {c : Char}, c.isDigit = true → '"' ≠ c := by
        rintro c hc rfl
        exact absurd hc (by decide)
      simp only [all_cons, all_nil, Bool.and_true, Bool.and_eq_true] at hdigits
      simp [hdigit, hdigits] at hquote
    · cases hread

theorem day_of_parts (hkind : kind = .after ∨ kind = .before)
    (h : value ∈ ((toks.map (partOf js)).filterMap (Part.valueOf kind)).getLast?) :
    value ≠ "" ∧ JsString.trim value = value ∧ readDate value = some value := by
  obtain ⟨token, -, hfilter⟩ := exists_token_of_valueOf (mem_of_getLast? h)
  obtain ⟨hne, htrim, hday⟩ := partOf_eq_filter hfilter
  exact ⟨hne, htrim, hday hkind⟩

/-! #### Words -/

def wordTokens (js : Js) (toks : List (List Char)) : List (List Char) :=
  toks.filter fun token => (kindOf js token).isNone

theorem word?_valuePart (kind : FilterKind) (value : String) :
    (valuePart kind value).word? = none := by
  have hday : ∀ kind, (dayPart kind value).word? = none := by
    intro kind
    rw [dayPart]
    cases readDate value <;> rfl
  cases kind with
  | after => exact hday .after
  | before => exact hday .before
  | inherited => exact hday .inherited
  | assigned | within | tag | author => rfl

theorem wordsOf_partOf (toks : List (List Char)) :
    wordsOf (toks.map (partOf js)) = (wordTokens js toks).map String.ofList := by
  rw [wordsOf, wordTokens, filterMap_map]
  induction toks with
  | nil => rfl
  | cons token toks ih =>
    have hword : (Part.word? ∘ partOf js) token =
        if (kindOf js token).isNone then some (String.ofList token) else none := by
      rw [Function.comp_apply, partOf]
      cases kindOf js token with
      | none => rfl
      | some named =>
        rw [Option.isNone_some, if_neg Bool.false_ne_true]
        dsimp only
        split_ifs
        · rfl
        · exact word?_valuePart _ _
    rw [filterMap_cons, hword, filter_cons, ih]
    by_cases hnone : (kindOf js token).isNone = true
    · rw [if_pos hnone, if_pos hnone, map_cons]
    · rw [if_neg hnone, if_neg hnone]

theorem partOf_wordTokens (toks : List (List Char)) :
    (wordTokens js toks).map (partOf js) =
      ((wordTokens js toks).map String.ofList).map Part.word := by
  rw [List.map_map]
  refine map_congr_left fun token htoken => ?_
  rw [partOf, Option.isNone_iff_eq_none.mp (mem_filter.mp htoken).2]
  rfl

/-- **Tokens with blanks in between** begin and end with no space, and are something. -/
theorem isTrimmed_intercalate (h : ∀ token ∈ toks, token ≠ [] ∧ JsString.IsTrimmed token) :
    JsString.IsTrimmed ([' '].intercalate toks) ∧
      (toks ≠ [] → [' '].intercalate toks ≠ []) := by
  induction toks with
  | nil => exact ⟨⟨by simp, by simp⟩, fun hne => absurd rfl hne⟩
  | cons token toks ih =>
    obtain ⟨⟨hne, htoken⟩, hrest⟩ := forall_mem_cons.mp h
    cases toks with
    | nil =>
      rw [intercalate_singleton]
      exact ⟨htoken, fun _ => hne⟩
    | cons next toks =>
      obtain ⟨htrimmed, hsome⟩ := ih hrest
      obtain ⟨c, cs, hcs⟩ := exists_cons_of_ne_nil hne
      rw [intercalate_cons_cons, append_assoc]
      refine ⟨⟨fun d hd => htoken.head d ?_, fun d hd => htrimmed.last d ?_⟩,
        fun _ => by simp [hne]⟩
      · rw [hcs] at hd ⊢
        exact hd
      · rw [List.getLast?_append_of_ne_nil _ (by simp),
          List.getLast?_append_of_ne_nil _ (hsome (by simp))] at hd
        exact hd

theorem AreTokens.isTrimmed (h : AreTokens toks) :
    ∀ token ∈ toks, token ≠ [] ∧ JsString.IsTrimmed token := by
  induction h with
  | nil => exact fun token htoken => by cases htoken
  | cons token toks htoken _ ih => exact forall_mem_cons.mpr ⟨htoken.isTrimmed, ih⟩

/-- **The words come last**, in the order they were in. -/
theorem join_append_join {written words : List String} (h : ∀ word ∈ words, word ≠ "") :
    JsString.join " " (written ++ [JsString.join " " words].filter (· ≠ "")) =
      JsString.join " " (written ++ words) := by
  simp only [JsString.join]
  cases words with
  | nil => simp
  | cons word words =>
    have hne : " ".intercalate (word :: words) ≠ "" := by
      have hword := (forall_mem_cons.mp h).1
      cases words with
      | nil => simpa using hword
      | cons next words =>
        rw [String.intercalate_cons_cons]
        simp [hword]
    rw [filter_cons, if_pos (decide_eq_true hne), filter_nil]
    by_cases hwritten : written = []
    · rw [hwritten, nil_append, nil_append, String.intercalate_singleton]
    · rw [String.intercalate_append_of_ne_nil hwritten (by simp),
        String.intercalate_append_of_ne_nil hwritten (by simp), String.intercalate_singleton]

theorem areTokens_written (filters : SearchFilters) (h : AreTokens toks) :
    AreTokens ((writtenFilters filters).map String.toList ++ toks) := by
  have hwritten : ∀ written ∈ writtenFilters filters, ∀ rest, IsToken written.toList rest := by
    intro written hmem
    simp only [writtenFilters, mem_append, List.mem_map] at hmem
    rcases hmem with ((((⟨value, -, rfl⟩ | ⟨value, -, rfl⟩) | ⟨value, -, rfl⟩) |
      ⟨value, -, rfl⟩) | ⟨value, -, rfl⟩) | ⟨value, -, rfl⟩
    all_goals exact isToken_writtenFilter (List.all_eq_true.mp (by decide))
  obtain ⟨all, hall⟩ : ∃ all, all = writtenFilters filters := ⟨_, rfl⟩
  rw [← hall] at hwritten ⊢
  clear hall
  induction all with
  | nil => exact h
  | cons written others ih =>
    obtain ⟨hfirst, hothers⟩ := forall_mem_cons.mp hwritten
    exact .cons _ _ (hfirst _) (ih hothers)

/-! #### Filters -/

theorem partOf_written {name : String} {values : List String} (hne : name ≠ "")
    (hname : ':' ∉ name.toList) (hkind : prefixes (js.lowerCase name) = some kind)
    (hvalues : ∀ value ∈ values, value ≠ "" ∧ JsString.trim value = value ∧ '"' ∉ value.toList)
    (hpart : ∀ value ∈ values, valuePart kind value = .filter kind value) :
    ((values.map (writtenFilter name)).map String.toList).map (partOf js) =
      values.map (.filter kind) := by
  rw [List.map_map, List.map_map]
  refine map_congr_left fun value hvalue => ?_
  obtain ⟨hnotEmpty, htrim, hquote⟩ := hvalues value hvalue
  rw [Function.comp_apply, Function.comp_apply,
    partOf_writtenFilter hne hname hkind hnotEmpty htrim hquote, hpart value hvalue]

/-- **The filters that are written** say what they said, where no name has a quotation mark. -/
theorem partOf_writtenFilters (hjs : LowersLetters js)
    (hquotes : ∀ name ∈ (filtersOf js (toks.map (partOf js))).names, '"' ∉ name.toList) :
    ((writtenFilters (filtersOf js (toks.map (partOf js)))).map String.toList).map (partOf js) =
      writtenParts (filtersOf js (toks.map (partOf js))) := by
  obtain ⟨filters, hfilters⟩ : ∃ filters, filters = filtersOf js (toks.map (partOf js)) := ⟨_, rfl⟩
  have hnames : ∀ {names}, (∃ kind, names =
      ((toks.map (partOf js)).filterMap (Part.valueOf kind)).map js.lowerCase) →
      (∀ name ∈ names, name ∈ filters.names) → ∀ name ∈ names,
        name ≠ "" ∧ JsString.trim name = name ∧ '"' ∉ name.toList := by
    rintro _ ⟨kind, rfl⟩ hsub name hname
    obtain ⟨hne, htrim, -⟩ := name_of_parts hjs hname
    exact ⟨hne, htrim, hquotes name (hfilters ▸ hsub name hname)⟩
  have hdays : ∀ {day : Option String} {kind}, kind = .after ∨ kind = .before →
      day = ((toks.map (partOf js)).filterMap (Part.valueOf kind)).getLast? →
      day.toList.filter (· ≠ "") = day.toList ∧ (∀ date ∈ day.toList, date ≠ "" ∧
        JsString.trim date = date ∧ '"' ∉ date.toList) ∧
        ∀ date ∈ day.toList, dayPart kind date = .filter kind date := by
    rintro _ kind hkind rfl
    have hday := fun date hdate =>
      @day_of_parts js kind date toks hkind (Option.mem_toList.mp hdate)
    refine ⟨List.filter_eq_self.mpr fun date hdate => decide_eq_true (hday date hdate).1,
      fun date hdate => ?_, fun date hdate => ?_⟩
    · obtain ⟨hne, htrim, hread⟩ := hday date hdate
      exact ⟨hne, htrim, no_quote_of_readDate hread⟩
    · obtain ⟨-, -, hread⟩ := hday date hdate
      rw [dayPart, hread]
      rcases hkind with rfl | rfl <;> rfl
  obtain ⟨hafter, hafterValues, hafterParts⟩ :=
    @hdays filters.after .after (.inl rfl) (by rw [hfilters]; rfl)
  obtain ⟨hbefore, hbeforeValues, hbeforeParts⟩ :=
    @hdays filters.before .before (.inr rfl) (by rw [hfilters]; rfl)
  have hsmall : ∀ {name : String} {kind}, name.toList.all Char.isLower = true →
      prefixes name = some kind → prefixes (js.lowerCase name) = some kind := by
    intro name kind hname hkind
    rwa [hjs.small name (List.all_eq_true.mp hname)]
  have hwritten : ∀ {name : String} {kind values}, name ≠ "" → ':' ∉ name.toList →
      name.toList.all Char.isLower = true → prefixes name = some kind →
      (∀ value, valuePart kind value = .filter kind value) →
      values = ((toks.map (partOf js)).filterMap (Part.valueOf kind)).map js.lowerCase →
      (∀ value ∈ values, value ∈ filters.names) →
        ((values.map (writtenFilter name)).map String.toList).map (partOf js) =
          values.map (.filter kind) := by
    intro name kind values hne hcolon hlower hkind hpart hvalues hsub
    exact partOf_written hne hcolon (hsmall hlower hkind) (hnames ⟨kind, hvalues⟩ hsub)
      fun value _ => hpart value
  have htags := @hwritten "tag" .tag filters.tags (by decide) (by decide) (by decide) rfl
    (fun _ => rfl) (by rw [hfilters]; rfl) (by simp +contextual [SearchFilters.names])
  have hwithin := @hwritten "in" .within filters.within (by decide) (by decide) (by decide) rfl
    (fun _ => rfl) (by rw [hfilters]; rfl) (by simp +contextual [SearchFilters.names])
  have hauthors := @hwritten "author" .author filters.authors (by decide) (by decide) (by decide)
    rfl (fun _ => rfl) (by rw [hfilters]; rfl) (by simp +contextual [SearchFilters.names])
  have hassigned := @hwritten "assigned" .assigned filters.assigned (by decide) (by decide)
    (by decide) rfl (fun _ => rfl) (by rw [hfilters]; rfl)
    (by simp +contextual [SearchFilters.names])
  have hafterWritten := @partOf_written js .after "after" filters.after.toList (by decide)
    (by decide) (hsmall (by decide) rfl) hafterValues hafterParts
  have hbeforeWritten := @partOf_written js .before "before" filters.before.toList (by decide)
    (by decide) (hsmall (by decide) rfl) hbeforeValues hbeforeParts
  rw [← hfilters, writtenFilters, hafter, hbefore, writtenParts]
  simp only [map_append, htags, hwithin, hauthors, hassigned, hafterWritten, hbeforeWritten]

theorem filterMap_valueOf_filter (kind other : FilterKind) (values : List String) :
    (values.map (Part.filter other)).filterMap (Part.valueOf kind) =
      if other = kind then values else [] := by
  rw [filterMap_map]
  split_ifs with heq
  · rw [show Part.valueOf kind ∘ Part.filter other = some from
      funext fun value => if_pos heq, filterMap_some]
  · rw [filterMap_eq_nil_iff]
    exact fun value _ => if_neg heq

/-- **What is said by what is written** is what was said, where all of it could be read. -/
theorem filtersOf_writtenParts {filters : SearchFilters} {words : List String}
    (hlower : ∀ name ∈ filters.names, js.lowerCase name = name)
    (htext : JsString.trim (JsString.join " " words) = filters.text)
    (hread : filters.unreadable = []) :
    filtersOf js (writtenParts filters ++ words.map .word) = filters := by
  have hsame : ∀ {names : List String}, (∀ name ∈ names, name ∈ filters.names) →
      names.map js.lowerCase = names := fun hsub =>
    (map_congr_left fun name hname => hlower name (hsub name hname)).trans (List.map_id _)
  have hvalues : ∀ kind, (words.map Part.word).filterMap (Part.valueOf kind) = [] := by
    intro kind
    rw [filterMap_map, filterMap_eq_nil_iff]
    exact fun _ _ => rfl
  have hnone : ∀ (kind : FilterKind) (values : List String),
      (values.map (Part.filter kind)).filterMap Part.unreadable? = [] ∧
        (values.map (Part.filter kind)).filterMap Part.word? = [] := by
    intro kind values
    rw [filterMap_map, filterMap_map, filterMap_eq_nil_iff,
      filterMap_eq_nil_iff]
    exact ⟨fun _ _ => rfl, fun _ _ => rfl⟩
  have hwords : wordsOf (writtenParts filters ++ words.map .word) = words := by
    have hmap : (words.map Part.word).filterMap Part.word? = words := by
      rw [filterMap_map, show Part.word? ∘ Part.word = some from rfl, filterMap_some]
    simp only [wordsOf, writtenParts, filterMap_append, (hnone _ _).2, hmap, nil_append]
  have hunreadable : (words.map Part.word).filterMap Part.unreadable? = [] := by
    rw [filterMap_map, filterMap_eq_nil_iff]
    exact fun _ _ => rfl
  have htags := @hsame filters.tags (by simp +contextual [SearchFilters.names])
  have hwithin := @hsame filters.within (by simp +contextual [SearchFilters.names])
  have hauthors := @hsame filters.authors (by simp +contextual [SearchFilters.names])
  have hassigned := @hsame filters.assigned (by simp +contextual [SearchFilters.names])
  have hday : ∀ day : Option String, day.toList.getLast? = day := fun day => by cases day <;> rfl
  rw [filtersOf, hwords, htext]
  obtain ⟨assigned, tags, within, authors, after, before, text, unreadable⟩ := filters
  simp only [writtenParts, filterMap_append, filterMap_valueOf_filter, hvalues, (hnone _ _).1,
    hunreadable, append_nil, nil_append, reduceCtorEq, if_true, if_false, hday]
  simp_all

/-- **The round trip**: what is read of a query is read again of what is written of it, where all
of it could be read and no name has a quotation mark. -/
theorem parseSearchQuery_buildSearchQuery (hjs : LowersLetters js) (raw : String)
    (hread : (parseSearchQuery js raw).unreadable = [])
    (hquotes : ∀ name ∈ (parseSearchQuery js raw).names, '"' ∉ name.toList) :
    parseSearchQuery js (buildSearchQuery (parseSearchQuery js raw)) = parseSearchQuery js raw := by
  obtain ⟨toks, htoks⟩ : ∃ toks, toks = tokens raw.toList := ⟨_, rfl⟩
  have hare : AreTokens toks := htoks ▸ (splitsInto_and_areTokens _).2.1
  have hwordTokens : AreTokens (wordTokens js toks) := hare.filter _
  obtain ⟨words, hwords⟩ : ∃ words, words = (wordTokens js toks).map String.ofList := ⟨_, rfl⟩
  rw [parseSearchQuery_eq js raw, ← htoks] at hread hquotes ⊢
  obtain ⟨filters, hfilters⟩ : ∃ filters, filters = filtersOf js (toks.map (partOf js)) := ⟨_, rfl⟩
  have htrim : JsString.trim (JsString.join " " words) = JsString.join " " words := by
    refine JsString.trim_of_isTrimmed ?_
    rw [JsString.join, String.toList_intercalate, hwords, List.map_map]
    simpa using (isTrimmed_intercalate hwordTokens.isTrimmed).1
  have htext : filters.text = JsString.join " " words := by
    rw [hfilters, filtersOf, wordsOf_partOf, ← hwords, htrim]
  have hsome : ∀ word ∈ words, word ≠ "" := by
    intro word hword hempty
    rw [hwords] at hword
    obtain ⟨token, htoken, rfl⟩ := List.mem_map.mp hword
    exact (hwordTokens.isTrimmed token htoken).1 (String.ofList_injective hempty)
  -- what is written are the tokens of the filters and the words, with blanks in between
  have hbuilt : (buildSearchQuery filters).toList = [' '].intercalate
      ((writtenFilters filters).map String.toList ++ wordTokens js toks) := by
    rw [buildSearchQuery, htext, join_append_join hsome, JsString.join,
      String.toList_intercalate, map_append, hwords, List.map_map]
    simp
  have hwritten : AreTokens ((writtenFilters filters).map String.toList ++ wordTokens js toks) :=
    areTokens_written filters hwordTokens
  have hlower : ∀ name ∈ filters.names, js.lowerCase name = name := by
    intro name hname
    rw [SearchFilters.names, mem_append, mem_append, mem_append, hfilters] at hname
    rcases hname with ((h | h) | h) | h
    · exact (name_of_parts hjs h).2.2
    · exact (name_of_parts hjs h).2.2
    · exact (name_of_parts hjs h).2.2
    · exact (name_of_parts hjs h).2.2
  rw [← hfilters] at hread ⊢
  rw [parseSearchQuery_eq, hbuilt, tokens_intercalate hwritten, map_append, hfilters,
    partOf_writtenFilters hjs hquotes, ← hfilters, partOf_wordTokens, ← hwords]
  exact filtersOf_writtenParts hlower (by rw [htrim, htext]) hread

/-! ### What is promised of a query -/

theorem namesInherited_iff {token : List Char} :
    NamesInherited js token ↔ (kindOf js token).any (·.1 = .inherited) = true := by
  constructor
  · rintro ⟨name, rest, rfl, hne, hname, hkind⟩
    rw [kindOf_of_named hne hname, hkind]
    rfl
  · intro h
    rcases @exists_name js token with ⟨name, rest, rfl, hne, hname⟩ | ⟨hnone, -⟩
    · rw [kindOf_of_named hne hname] at h
      cases hkind : prefixes (js.lowerCase (String.ofList name)) with
      | none => rw [hkind] at h; cases h
      | some kind =>
        rw [hkind, Option.map_some, Option.any_some, decide_eq_true_eq] at h
        exact ⟨name, rest, rfl, hne, hname, by rw [hkind, ← h]⟩
    · rw [hnone] at h
      cases h

instance (token : List Char) : Decidable (NamesInherited js token) :=
  decidable_of_iff _ namesInherited_iff.symm

/-- **Every query is accounted for** by filters, days that are not such, filters without a value
and words, and what is read of it is read of what is written of that, where no part has a name that
every object has, all could be read, and no name has a quotation mark. -/
theorem accounts_and_roundTrips (hjs : LowersLetters js) :
    (∀ raw, (∀ token ∈ tokens raw.toList, ¬NamesInherited js token) →
      ∃ parts, AccountedBy js raw parts) ∧
    (∀ raw, (parseSearchQuery js raw).unreadable = [] →
      (∀ name ∈ (parseSearchQuery js raw).names, '"' ∉ name.toList) →
        parseSearchQuery js (buildSearchQuery (parseSearchQuery js raw)) =
          parseSearchQuery js raw) :=
  ⟨fun raw h => ⟨_, accountedBy_partOf raw h⟩, parseSearchQuery_buildSearchQuery hjs⟩

end RoundTrip

/-! ### Where texts are ASCII -/

theorem toLower_eq_or (c : Char) : c.toLower = c ∧ ¬(65 ≤ c.toNat ∧ c.toNat ≤ 90) ∨
    (65 ≤ c.toNat ∧ c.toNat ≤ 90) ∧ c.toLower.toNat = c.toNat + 32 := by
  have hrange : (c.val ≥ 'A'.val ∧ c.val ≤ 'Z'.val) ↔ 65 ≤ c.toNat ∧ c.toNat ≤ 90 := Iff.rfl
  by_cases h : c.val ≥ 'A'.val ∧ c.val ≤ 'Z'.val
  · refine .inr ⟨hrange.mp h, ?_⟩
    have hle := (hrange.mp h).2
    have hlower : c.toLower.toNat = (c.val + ('a'.val - 'A'.val)).toNat :=
      congrArg Char.toNat (dif_pos h)
    rw [hlower, UInt32.toNat_add]
    change (c.toNat + 32) % 2 ^ 32 = c.toNat + 32
    omega
  · exact .inl ⟨dif_neg h, fun hin => h (hrange.mpr hin)⟩

theorem isSpace_toLower (c : Char) : JsString.isSpace c.toLower = JsString.isSpace c := by
  rcases toLower_eq_or c with ⟨h, -⟩ | ⟨⟨hfrom, hto⟩, hnat⟩
  · rw [h]
  · have hno : ∀ d : Char, 65 ≤ d.toNat → d.toNat ≤ 122 → JsString.isSpace d = false := by
      intro d hfrom hto
      simp [JsString.isSpace]
      omega
    rw [hno c hfrom (by omega), hno c.toLower (by omega) (by omega)]

theorem lowersLetters_ascii : LowersLetters Js.ascii := by
  have hlist : ∀ s, (Js.ascii.lowerCase s).toList = s.toList.map Char.toLower := fun s =>
    String.toList_map
  refine ⟨fun s h => ?_, fun s => ?_, fun s h => ?_, fun s h => ?_⟩
  · apply String.toList_injective
    rw [hlist, map_congr_left, List.map_id]
    intro c hc
    rcases toLower_eq_or c with ⟨hsame, -⟩ | ⟨⟨-, hto⟩, -⟩
    · exact hsame
    · have hlower : 97 ≤ c.toNat := (of_decide_eq_true (Bool.and_eq_true_iff.mp (h c hc)).1)
      omega
  · apply String.toList_injective
    rw [hlist, hlist, List.map_map]
    refine map_congr_left fun c _ => ?_
    rw [Function.comp_apply]
    rcases toLower_eq_or c.toLower with ⟨hsame, -⟩ | ⟨⟨hfrom, hto⟩, -⟩
    · exact hsame
    · rcases toLower_eq_or c with ⟨hsame, hout⟩ | ⟨⟨hfrom', -⟩, hnat⟩
      · rw [hsame] at hfrom hto
        exact absurd ⟨hfrom, hto⟩ hout
      · omega
  · rw [hlist]
    refine ⟨fun c hc => ?_, fun c hc => ?_⟩
    · rw [List.head?_map] at hc
      obtain ⟨d, hd, rfl⟩ := Option.map_eq_some_iff.mp hc
      rw [isSpace_toLower, h.head d hd]
    · rw [List.getLast?_map] at hc
      obtain ⟨d, hd, rfl⟩ := Option.map_eq_some_iff.mp hc
      rw [isSpace_toLower, h.last d hd]
  · intro hempty
    have hnil := congrArg String.toList hempty
    rw [hlist] at hnil
    exact h (String.toList_eq_nil_iff.mp (map_eq_nil_iff.mp hnil))

theorem accounts_and_roundTrips_offen :
    (∃ parts, AccountedBy Js.ascii "tag:\"Rechnung 2026\" offen" parts) ∧
      parseSearchQuery Js.ascii
          (buildSearchQuery (parseSearchQuery Js.ascii "tag:\"Rechnung 2026\" offen")) =
        parseSearchQuery Js.ascii "tag:\"Rechnung 2026\" offen" :=
  ⟨(accounts_and_roundTrips lowersLetters_ascii).1 _ (by decide +kernel),
    (accounts_and_roundTrips lowersLetters_ascii).2 _ (by decide +kernel) (by decide +kernel)⟩

/-- **A filter without a value** is none of what a part should be: it is dropped. -/
theorem not_accounts_and_roundTrips : ¬∀ (js : Js), LowersLetters js → ∀ raw : String,
    (∃ parts, AccountedBy js raw parts ∧ ∀ kind, .empty kind ∉ parts) ∧
      ((parseSearchQuery js raw).unreadable = [] →
        parseSearchQuery js (buildSearchQuery (parseSearchQuery js raw)) =
          parseSearchQuery js raw) := by
  intro h
  obtain ⟨⟨parts, haccounted, hempty⟩, -⟩ := h Js.ascii lowersLetters_ascii "tag:"
  have htokens : tokens "tag:".toList = ["tag:".toList] := by decide
  have hreads := haccounted.reads
  rw [htokens] at hreads
  obtain ⟨part, rest, hpart, -, rfl⟩ := forall₂_cons_left_iff.mp hreads
  have hvalue : ∀ {kind value}, Names Js.ascii "tag:".toList kind value → value = "" := by
    rintro kind value ⟨name, rest, heq, -, hname, -, rfl⟩
    obtain ⟨-, rfl⟩ := name_unique (by decide) hname
      (show "tag".toList ++ ':' :: [] = name ++ ':' :: rest from heq)
    decide
  cases hpart with
  | filter kind value hnames hne => exact hne (hvalue hnames)
  | unreadable kind value hnames hne => exact hne (hvalue hnames)
  | empty kind hnames => exact hempty kind mem_cons_self
  | word hnames =>
    have hnone := hnames "tag".toList [] rfl (by decide) (by decide)
    rw [String.ofList_toList,
      lowersLetters_ascii.small "tag" (List.all_eq_true.mp (by decide))] at hnone
    cases hnone

end Search

end Sone
