import Sone.Markdown.Blocks
import Sone.Pages.Table
import Sone.Wire.Json

/-!
# The title and the look of an entry in Markdown

A file of an export begins with the title as a heading. What the entry looks like is a comment
below it, where there is anything to say (`entryLook`). The importer reads the title out of the
first heading (`titleFrom`) and the look out of the first comment of that kind (`entryFrom`), and
takes both off what it reads the blocks of (`bodyWithoutTitle`).

The patterns are looked for at the start of every line, and their `\s` goes over the ends of
lines. `titleFrom_heading` says what is read of a file whose title is one line; `titleFrom_isTitle`
that no other title is read back.
-/

namespace Sone

open List

/-! ### Writing -/

def EntryKind.toString : EntryKind → String
  | .page => "page"
  | .folder => "folder"
  | .canvas => "canvas"
  | .row => "row"
  | .container => "container"

structure ExportEntry where
  kind : EntryKind
  icon : Option JsValue := none
  cover : Option JsValue := none
  width : Option String := none
  template : Bool := false
  locked : Bool := false

/-- `fileIdFromUrl`: `/^\/api\/files\/([0-9a-f-]{36})(?:[/?#]|$)/` -/
def fileIdFromUrl (url : String) : Option String := do
  let cs ← stripPrefix "/api/files/".toList url.toList
  let inId := fun c : Char => c.isDigit || ('a' ≤ c && c ≤ 'f') || c = '-'
  if (cs.take 36).length = 36 && (cs.take 36).all inId &&
    (cs.drop 36).head?.all (· ∈ ['/', '?', '#']) then some (String.ofList (cs.take 36)) else none

/-- A cover as it is written: a picture of ours names its file the way an image block does. -/
def coverLook (cover : JsValue) : JsValue :=
  match (if (cover.get "kind").string? = some "image" then (cover.get "url").string? else none).bind
    fileIdFromUrl with
  | some file =>
    .object [("kind", .string "image"), ("url", .string ("attachments/" ++ file))]
  | none => cover

def lookFields (entry : ExportEntry) : List (String × Option JsValue) :=
  [("kind", if entry.kind = .page ∨ entry.kind = .folder then none
      else some (.string entry.kind.toString)),
    ("icon", entry.icon.filter fun icon => !icon.isNullish),
    ("cover", entry.cover.map coverLook),
    ("width", (entry.width.filter fun width => width ≠ "").map .string),
    ("template", if entry.template then some (.boolean true) else none),
    ("locked", if entry.locked then some (.boolean true) else none)]

def lookComment (js : Js) (fields : List (String × JsValue)) : Text :=
  "<!-- sone-entry ".toList ++ (Json.stringify js (.object fields) ++ " -->".toList)

def entryLook (js : Js) (entry : ExportEntry) : Option Text :=
  if (Json.present (lookFields entry)).isEmpty then none
  else some (lookComment js (Json.present (lookFields entry)))

def titleHeading (title : String) : Text :=
  '#' :: ' ' :: (if title = "" then "Untitled" else title).toList

/-- `[ \t]` -/
def isTrailing (c : Char) : Bool := c = ' ' || c = '\t'

/-- `$` in a pattern that reads lines. -/
def atLineEnd (cs : Text) : Bool := !cs.head?.any isDot

/-- `replace(/[ \t]+$/gm, '')` -/
def stripLineEnds : Text → Text
  | [] => []
  | c :: cs =>
    if isTrailing c && atLineEnd (cs.dropWhile isTrailing) then stripLineEnds cs
    else c :: stripLineEnds cs

/-- `lines.join('\n\n')` -/
def joinParagraphs (parts : List Text) : Text := ['\n', '\n'].intercalate parts

/-! ### Reading -/

/-- What the rest of a pattern may be tried on after `\s+`, which takes as many as it can first. -/
def afterSpaces (cs : Text) : List Text :=
  let n := (cs.takeWhile JsString.isSpace).length
  (List.range n).map fun i => cs.drop (n - i)

/-- `^#\s+(.+)$` at a place. -/
def headingAt : Text → Option Text
  | '#' :: cs => (afterSpaces cs).findSome? fun rest =>
      if rest.takeWhile isDot = [] then none else some (rest.takeWhile isDot)
  | _ => none

/-- `exec` of a pattern that begins with `^` and reads lines: what it gives at the first start of
a line where it fits. -/
def searchLines {α : Type*} (pattern : Text → Option α) : Bool → Text → Option α
  | _, [] => none
  | isStart, c :: cs =>
    match if isStart then pattern (c :: cs) else none with
    | some found => some found
    | none => searchLines pattern (!isDot c) cs

def titleFrom (markdown fallback : Text) : Text :=
  let title := trimLine ((searchLines headingAt true markdown).getD fallback)
  if title = [] then fallback else title

/-- `replace(/^#\s+.+\n+/, '')` -/
def withoutHeading : Text → Text
  | '#' :: cs => ((afterSpaces cs).findSome? fun rest =>
      if rest.takeWhile isDot = [] || (rest.dropWhile isDot).head? ≠ some '\n' then none
      else some ((rest.dropWhile isDot).dropWhile (· = '\n'))).getD ('#' :: cs)
  | cs => cs

/-- `.*\}` and `\s*-->`: the first as long as it can be with the second behind it, and what is
after both. -/
def closeEntry : Text → Option (Text × Text)
  | [] => none
  | c :: cs =>
    if isDot c then
      match closeEntry cs with
      | some (json, after) => some (c :: json, after)
      | none =>
        if c = '}' then
          (stripPrefix "-->".toList (cs.dropWhile JsString.isSpace)).map fun after => ([c], after)
        else none
    else none

/-- `ENTRY_COMMENT` at a place: what it says, and what is after it. -/
def entryAt (cs : Text) : Option (Text × Text) := do
  let cs ← stripPrefix "<!--".toList cs
  let cs ← stripPrefix "sone-entry".toList (cs.dropWhile JsString.isSpace)
  let body ← stripPrefix ['{'] (cs.dropWhile JsString.isSpace)
  let (json, after) ← closeEntry body
  if cs.head?.any JsString.isSpace then some ('{' :: json, after.dropWhile (· = '\n')) else none

/-- `replace(ENTRY_COMMENT, '')` -/
def withoutEntry : Bool → Text → Text
  | _, [] => []
  | isStart, c :: cs =>
    match if isStart then entryAt (c :: cs) else none with
    | some (_, after) => after
    | none => c :: withoutEntry (!isDot c) cs

def bodyWithoutTitle (markdown : Text) : Text := withoutEntry true (withoutHeading markdown)

structure ImportedEntry where
  isCanvas : Bool
  icon : Option JsValue
  cover : Option JsValue
  width : Option JsValue
  template : Bool
  locked : Bool

/-- What an object says of an entry, where it says anything. -/
def importedEntry (raw : YMap JsValue) : Option ImportedEntry :=
  let entry : ImportedEntry :=
    { isCanvas := ((raw.get "kind").bind JsValue.string?) = some "canvas"
      icon := raw.get "icon"
      cover := raw.get "cover"
      width := raw.get "width"
      template := (raw.get "template").any JsValue.isTrue
      locked := (raw.get "locked").any JsValue.isTrue }
  if entry.isCanvas || entry.icon.isSome || entry.cover.isSome || entry.width.isSome ||
    entry.template || entry.locked then some entry else none

def entryFrom (js : Js) (markdown : Text) : Option ImportedEntry :=
  ((searchLines entryAt true markdown).bind fun found => parsedFields js found.1).bind importedEntry

/-- Whether `entryFrom` says that a file is a board. -/
def saysCanvas (js : Js) (markdown : Text) : Bool :=
  (entryFrom js markdown).any ImportedEntry.isCanvas

/-! ### The title is read -/

/-- **A title** that a heading can have: one line, neither empty nor with space around it. -/
structure IsTitle (title : Text) : Prop where
  ne_nil : title ≠ []
  trim : trimLine title = title
  isDot : title.all isDot = true

section Title

variable {title cs rest fallback : Text} {c : Char}

theorem isDot_of_not_isSpace (h : JsString.isSpace c = false) : isDot c = true := by
  by_contra hdot
  rw [Bool.not_eq_true, isDot, decide_eq_false_iff_not, not_not] at hdot
  have hall : ∀ n ∈ [0x0a, 0x0d, 0x2028, 0x2029], n ∈ [0x09, 0x0a, 0x0b, 0x0c, 0x0d, 0x20, 0xa0,
      0x1680, 0x2028, 0x2029, 0x202f, 0x205f, 0x3000, 0xfeff] := by decide
  rw [JsString.isSpace, Bool.or_eq_false_iff, decide_eq_false_iff_not] at h
  exact h.1 (hall _ hdot)

theorem trimLine_sublist (cs : Text) : (trimLine cs).Sublist cs :=
  ( trimEnd_prefix _).sublist.trans (dropWhile_sublist _)

theorem trimLine_trimLine (cs : Text) : trimLine (trimLine cs) = trimLine cs := by
  rcases markOf_eq_none_or cs with ⟨-, htrim⟩ | ⟨c, rest, -, hdrop, htrim, hc⟩
  · rw [htrim]
    rfl
  · have hsuffix : c :: trimEnd rest <:+ trimEnd (c :: rest) := by rw [trimEnd_cons hc]
    rw [htrim, trimLine, dropWhile_cons_of_neg (by simp [hc]), trimEnd_of_suffix hsuffix]

theorem isTitle_trimLine (hne : trimLine cs ≠ []) (hdot : cs.all isDot = true) :
    IsTitle (trimLine cs) where
  ne_nil := hne
  trim := trimLine_trimLine cs
  isDot := by
    rw [List.all_eq_true] at hdot ⊢
    exact fun c hc => hdot c ((trimLine_sublist cs).mem hc)

theorem IsTitle.head (h : IsTitle title) :
    ∃ c cs, title = c :: cs ∧ JsString.isSpace c = false := by
  rcases markOf_eq_none_or title with ⟨-, htrim⟩ | ⟨c, cs, -, -, htrim, hc⟩
  · exact absurd (h.trim.symm.trans htrim) h.ne_nil
  · exact ⟨c, trimEnd cs, h.trim.symm.trans htrim, hc⟩

theorem IsTitle.getLast (h : IsTitle title) : ∀ c ∈ title.getLast?, JsString.isSpace c = false := by
  intro c hc
  have hends : trimEnd title = title := by
    obtain ⟨first, cs, htitle, hfirst⟩ := h.head
    have htrim := h.trim
    rwa [trimLine, htitle, dropWhile_cons_of_neg (by simp [hfirst]), ← htitle] at htrim
  rw [trimEnd] at hends
  rw [← List.head?_reverse, ← hends, reverse_reverse] at hc
  exact head_dropWhile c hc

theorem afterSpaces_spaces {spaces : Text} (hspaces : ∀ c ∈ spaces, JsString.isSpace c = true)
    (hne : spaces ≠ []) (hc : JsString.isSpace c = false) :
    ∃ others, afterSpaces (spaces ++ c :: cs) = (c :: cs) :: others := by
  have htake : (spaces ++ c :: cs).takeWhile JsString.isSpace = spaces := by
    rw [takeWhile_append_of_pos hspaces, takeWhile_cons_of_neg (by simp [hc]),
      append_nil]
  obtain ⟨n, hn⟩ := Nat.exists_eq_succ_of_ne_zero (mt length_eq_zero_iff.mp hne)
  rw [afterSpaces, htake, hn, range_succ_eq_map, map_cons, Nat.sub_zero]
  exact ⟨_, by rw [← hn, drop_left]⟩

theorem searchLines_headingAt {spaces : Text} (hspaces : ∀ c ∈ spaces, JsString.isSpace c = true)
    (hne : spaces ≠ []) (hc : JsString.isSpace c = false) :
    searchLines headingAt true ('#' :: (spaces ++ c :: cs)) = some ((c :: cs).takeWhile isDot) := by
  obtain ⟨others, hafter⟩ := @afterSpaces_spaces cs c spaces hspaces hne hc
  have hline : (c :: cs).takeWhile isDot ≠ [] := by
    rw [takeWhile_cons_of_pos (isDot_of_not_isSpace hc)]
    simp
  rw [searchLines, if_pos rfl, headingAt, hafter, List.findSome?_cons, if_neg hline]

theorem titleFrom_of_heading {spaces : Text} (hspaces : ∀ c ∈ spaces, JsString.isSpace c = true)
    (hne : spaces ≠ []) (hc : JsString.isSpace c = false) :
    titleFrom ('#' :: (spaces ++ c :: cs)) fallback = trimLine ((c :: cs).takeWhile isDot) ∧
      IsTitle (trimLine ((c :: cs).takeWhile isDot)) := by
  have htitle : trimLine ((c :: cs).takeWhile isDot) ≠ [] := by
    rw [takeWhile_cons_of_pos (isDot_of_not_isSpace hc)]
    intro hnil
    have hmark := head?_trimLine (c :: cs.takeWhile isDot)
    rw [hnil, markOf_of_head? rfl hc] at hmark
    cases hmark
  refine ⟨?_, isTitle_trimLine htitle (all_takeWhile ..)⟩
  rw [titleFrom, searchLines_headingAt hspaces hne hc]
  exact if_neg htitle

/-- **A title is read back** from the heading it was written as. -/
theorem titleFrom_heading (h : IsTitle title) (hrest : atLineEnd rest = true) :
    titleFrom ('#' :: ' ' :: (title ++ rest)) fallback = title := by
  obtain ⟨c, cs, rfl, hc⟩ := h.head
  have hline : (c :: (cs ++ rest)).takeWhile isDot = c :: cs := by
    rw [← cons_append, takeWhile_append_of_pos (List.all_eq_true.mp h.isDot)]
    cases rest with
    | nil => simp
    | cons d rest =>
      have hd : isDot d = false := by simpa [atLineEnd] using hrest
      rw [takeWhile_cons_of_neg (by simp [hd]), append_nil]
  have hspace : ∀ c ∈ [' '], JsString.isSpace c = true := forall_mem_singleton.mpr rfl
  have hread := @titleFrom_of_heading (cs ++ rest) fallback c [' '] hspace (by simp) hc
  rw [hline, h.trim] at hread
  exact hread.1

theorem searchLines_some {α : Type*} {pattern : Text → Option α} {isStart : Bool} {found : α}
    (h : searchLines pattern isStart cs = some found) : ∃ cs, pattern cs = some found := by
  induction cs generalizing isStart with
  | nil => simp [searchLines] at h
  | cons c cs ih =>
    rw [searchLines] at h
    split at h
    · rename_i other hother
      obtain rfl := Option.some.inj h
      cases isStart with
      | true => exact ⟨_, hother⟩
      | false => simp at hother
    · exact ih h

/-- **What is read as a title** is one, unless it is what is taken where there is none. -/
theorem titleFrom_isTitle (markdown : Text) (hfallback : fallback.all isDot = true) :
    IsTitle (titleFrom markdown fallback) ∨ titleFrom markdown fallback = fallback := by
  have hdot : ((searchLines headingAt true markdown).getD fallback).all isDot = true := by
    cases hline : searchLines headingAt true markdown with
    | none => exact hfallback
    | some line =>
      obtain ⟨cs, hcs⟩ := searchLines_some hline
      rw [headingAt.eq_def] at hcs
      split at hcs
      · obtain ⟨rest, -, hrest⟩ := List.exists_of_findSome?_eq_some hcs
        split at hrest
        · cases hrest
        · exact Option.some.inj hrest ▸ all_takeWhile ..
      · cases hcs
  rw [titleFrom]
  by_cases hnil : trimLine ((searchLines headingAt true markdown).getD fallback) = []
  · exact .inr (if_pos hnil)
  · refine .inl ?_
    simp only [if_neg hnil]
    exact isTitle_trimLine hnil hdot

/-! ### Blanks at the ends of lines -/

theorem isSpace_of_isTrailing (h : isTrailing c = true) : JsString.isSpace c = true := by
  rw [isTrailing, Bool.or_eq_true, decide_eq_true_eq, decide_eq_true_eq] at h
  rcases h with rfl | rfl <;> decide

theorem dropWhile_isTrailing_of_not_isSpace (h : JsString.isSpace c = false) :
    (c :: cs).dropWhile isTrailing = c :: cs := by
  refine dropWhile_cons_of_neg fun htrailing => ?_
  rw [isSpace_of_isTrailing htrailing] at h
  cases h

theorem stripLineEnds_cons_of_not_isSpace (h : JsString.isSpace c = false) :
    stripLineEnds (c :: cs) = c :: stripLineEnds cs := by
  have htrailing : isTrailing c = false := by
    by_contra htrailing
    rw [Bool.not_eq_false] at htrailing
    rw [isSpace_of_isTrailing htrailing] at h
    cases h
  rw [stripLineEnds, htrailing]
  rfl

theorem stripLineEnds_spaces {spaces : Text} (hspaces : ∀ c ∈ spaces, JsString.isSpace c = true)
    (hc : JsString.isSpace c = false) :
    ∃ left, (∀ c ∈ left, JsString.isSpace c = true) ∧ (spaces ≠ [] → left ≠ []) ∧
      stripLineEnds (spaces ++ c :: cs) = left ++ c :: stripLineEnds cs := by
  induction spaces with
  | nil => exact ⟨[], by simp, by simp, stripLineEnds_cons_of_not_isSpace hc⟩
  | cons space spaces ih =>
    obtain ⟨hspace, hspaces⟩ := forall_mem_cons.mp hspaces
    obtain ⟨left, hleft, hne, hstrip⟩ := ih hspaces
    rw [cons_append, stripLineEnds, hstrip]
    by_cases hends : isTrailing space && atLineEnd ((spaces ++ c :: cs).dropWhile isTrailing)
    · rw [if_pos hends]
      refine ⟨left, hleft, fun _ => hne ?_, rfl⟩
      rintro rfl
      -- the line does not end before what is no space
      rw [nil_append, dropWhile_isTrailing_of_not_isSpace hc, Bool.and_eq_true] at hends
      have hdot := isDot_of_not_isSpace hc
      exact absurd hends.2 (by simp [atLineEnd, hdot])
    · rw [if_neg hends]
      exact ⟨space :: left, forall_mem_cons.mpr ⟨hspace, hleft⟩, fun _ => by simp, rfl⟩

/-- **A line without blanks at its end** is kept. -/
theorem stripLineEnds_append (hdot : cs.all isDot = true)
    (hlast : ∀ c ∈ cs.getLast?, JsString.isSpace c = false) :
    stripLineEnds (cs ++ rest) = cs ++ stripLineEnds rest := by
  induction cs with
  | nil => rfl
  | cons c cs ih =>
    rw [all_cons, Bool.and_eq_true] at hdot
    have hkept : (isTrailing c && atLineEnd ((cs ++ rest).dropWhile isTrailing)) = false := by
      by_contra hboth
      rw [Bool.not_eq_false, Bool.and_eq_true] at hboth
      obtain ⟨htrailing, hends⟩ := hboth
      rcases eq_nil_or_concat cs with hnil | ⟨before, last, hconcat⟩
      · subst hnil
        have hspace := isSpace_of_isTrailing htrailing
        rw [hlast c rfl] at hspace
        cases hspace
      · rw [concat_eq_append] at hconcat
        subst hconcat
        have hspace : JsString.isSpace last = false :=
          hlast last (by rw [Option.mem_def, ← cons_append, List.getLast?_concat])
        -- the blanks after `c` end before the last character of the line
        obtain ⟨d, others, hdrop, hd⟩ : ∃ d others,
            (before ++ last :: rest).dropWhile isTrailing = d :: others ∧ d ∈ before ++ [last] := by
          clear ih hlast hdot hends
          induction before with
          | nil => exact ⟨last, rest, dropWhile_isTrailing_of_not_isSpace hspace, by simp⟩
          | cons b before ih =>
            obtain ⟨d, others, hdrop, hd⟩ := ih
            by_cases hb : isTrailing b = true
            · refine ⟨d, others, ?_, mem_cons_of_mem _ hd⟩
              rw [cons_append, dropWhile_cons_of_pos hb, hdrop]
            · exact ⟨b, before ++ last :: rest, by
                rw [cons_append, dropWhile_cons_of_neg hb], by simp⟩
        rw [append_assoc, singleton_append, hdrop, atLineEnd, List.head?_cons] at hends
        have hd := List.all_eq_true.mp hdot.2 d hd
        exact absurd hends (by simp [hd])
    rw [cons_append, stripLineEnds, hkept, if_neg (by simp), ih hdot.2 fun d hd => ?_]
    · rfl
    · refine hlast d ?_
      cases cs with
      | nil => cases hd
      | cons e cs => rwa [List.getLast?_cons_cons]

/-! ### The look is read -/

theorem searchLines_line {α : Type*} {pattern : Text → Option α} (hdot : cs.all isDot = true) :
    searchLines pattern false (cs ++ rest) = searchLines pattern false rest := by
  induction cs with
  | nil => rfl
  | cons c cs ih =>
    rw [all_cons, Bool.and_eq_true] at hdot
    rw [cons_append, searchLines, hdot.1]
    exact ih hdot.2

theorem entryAt_of_head? (h : cs.head? ≠ some '<') : entryAt cs = none := by
  cases hstrip : stripPrefix "<!--".toList cs with
  | none =>
    rw [entryAt, hstrip]
    rfl
  | some rest => exact absurd (head?_of_stripPrefix hstrip) h

theorem searchLines_entryAt_heading (hdot : cs.all isDot = true) :
    searchLines entryAt true ('#' :: (cs ++ '\n' :: rest)) =
      searchLines entryAt true ('\n' :: rest) := by
  have hheading : searchLines entryAt true ('#' :: (cs ++ '\n' :: rest)) =
      searchLines entryAt false (cs ++ '\n' :: rest) := by
    rw [searchLines, if_pos rfl, entryAt_of_head? (by simp)]
    rfl
  have hbreak : searchLines entryAt true ('\n' :: rest) =
      searchLines entryAt false ('\n' :: rest) := by
    rw [searchLines, searchLines, if_pos rfl, entryAt_of_head? (by simp)]
    rfl
  rw [hheading, searchLines_line hdot, hbreak]

end Title

end Sone
