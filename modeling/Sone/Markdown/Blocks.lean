import Sone.Markdown.Inline
import Sone.Tree.Outline
import Mathlib.Algebra.GroupWithZero.Nat

/-!
# Markdown into blocks

`rawBlocks` reads a file line by line. Each turn of its loop looks at the line it is at, tries
one pattern after another, and takes the lines of the first that fits; what fits none is a
paragraph, which runs to a blank line or to one that `isBlockStart` says begins something else.

The patterns of the loop and those of `isBlockStart` are two lists. Where a line begins
something by the second and fits none of the first, the paragraph takes no line and the loop
stays where it is. `Hangs` says what such a line looks like, `IsClear` that a text has none
outside its fences, and `markdownToBlocks_ends_iff` that the reader ends on exactly those texts.
-/

namespace Sone

open List Option

/-! ### Lines -/

/-- A line, or any run of characters. -/
abbrev Text := List Char

def trimEnd (cs : Text) : Text := (cs.reverse.dropWhile JsString.isSpace).reverse

/-- `s.trim()` -/
def trimLine (cs : Text) : Text := trimEnd (cs.dropWhile JsString.isSpace)

/-- `line.trim() === ''` -/
def isBlank (line : Text) : Bool := trimLine line = []

def stripPrefix (start cs : Text) : Option Text :=
  if start.isPrefixOf cs then some (cs.drop start.length) else none

def stripSuffix (stop cs : Text) : Option Text :=
  if stop.isSuffixOf cs then some (cs.take (cs.length - stop.length)) else none

/-- `replace(/\r\n?/g, '\n')` -/
def normaliseBreaks : Text → Text
  | '\r' :: '\n' :: cs => '\n' :: normaliseBreaks cs
  | '\r' :: cs => '\n' :: normaliseBreaks cs
  | c :: cs => c :: normaliseBreaks cs
  | [] => []

def linesOf (markdown : Text) : List Text := (normaliseBreaks markdown).splitOn '\n'

/-- `lines.join('\n')` -/
def joinLines (lines : List Text) : Text := ['\n'].intercalate lines

/-! ### Patterns -/

/-- `\s+(.*)$` -/
def spacedRest (cs : Text) : Option Text :=
  if cs.head?.any JsString.isSpace && (cs.dropWhile JsString.isSpace).all isDot then
    some (cs.dropWhile JsString.isSpace)
  else none

/-- `/^<!--\s*NAME\s+(\{.*\})\s*-->$/` -/
def soneComment (name : String) (line : Text) : Option Text := do
  let cs ← stripPrefix "<!--".toList line
  let cs ← stripPrefix name.toList (cs.dropWhile JsString.isSpace)
  let body ← stripSuffix "-->".toList (cs.dropWhile JsString.isSpace)
  let shape := trimEnd body
  if cs.head?.any JsString.isSpace && shape.head? = some '{' && shape.getLast? = some '}' &&
    shape.all isDot then some shape else none

/-- `BLOCK_COMMENT` -/
def blockComment : Text → Option Text := soneComment "sone-block"

/-- `DIVIDER_SHAPE` -/
def dividerShape : Text → Option Text := soneComment "sone-divider"

/-- `SONE_FENCE`: `/^```sone-([A-Za-z][\w-]*)\s*$/` -/
def soneFence (line : Text) : Option Text := do
  let cs ← stripPrefix "```sone-".toList line
  let inName := fun c => isWordChar c || c = '-'
  if cs.head?.any Char.isAlpha && (cs.dropWhile inName).all JsString.isSpace then
    some (cs.takeWhile inName)
  else none

/-- `/^```(\w*)\s*$/` -/
def codeFence (line : Text) : Option Text := do
  let cs ← stripPrefix "```".toList line
  if (cs.dropWhile isWordChar).all JsString.isSpace then some (cs.takeWhile isWordChar) else none

/-- `line.trim().startsWith('<!--') && line.trim().endsWith('-->')` -/
def isComment (line : Text) : Bool :=
  "<!--".toList.isPrefixOf (trimLine line) && "-->".toList.isSuffixOf (trimLine line)

/-- How many `#` a line begins with. -/
def hashes (line : Text) : ℕ := (line.takeWhile (· = '#')).length

/-- `/^(#{1,6})\s+(.*)$/` -/
def headingLine (line : Text) : Option (ℕ × Text) :=
  if 1 ≤ hashes line ∧ hashes line ≤ 6 then
    (spacedRest (line.drop (hashes line))).map fun text => (hashes line, text)
  else none

/-- `/^(-{3,}|\*{3,}|_{3,})\s*$/` -/
def isRule (line : Text) : Bool :=
  ['-', '*', '_'].any fun c =>
    3 ≤ (line.takeWhile (· = c)).length && (line.dropWhile (· = c)).all JsString.isSpace

/-- `/^!\[([^\]]*)\]\((.*?)\)\s*$/` -/
def imageLine (line : Text) : Option (Text × Text) := do
  let cs ← stripPrefix ['!', '['] line
  let after ← stripPrefix [']', '('] (cs.dropWhile (· ≠ ']'))
  let target ← stripSuffix [')'] (trimEnd after)
  if target.all isDot then some (cs.takeWhile (· ≠ ']'), target) else none

/-- `/^attachments\/(.+)$/` -/
def attachmentOf (target : Text) : Option Text := do
  let name ← stripPrefix "attachments/".toList target
  if name ≠ [] && name.all isDot then some name else none

/-- `[-*+]` -/
def isBulletMark (c : Char) : Bool := c ∈ ['-', '*', '+']

/-- `^\s*[-*+]`: what is after the marker. -/
def afterBullet (line : Text) : Option Text :=
  match line.dropWhile JsString.isSpace with
  | c :: cs => if isBulletMark c then some cs else none
  | [] => none

/-- `^\s*\d+[.)]`: what is after the marker. -/
def afterNumber (line : Text) : Option Text :=
  let cs := line.dropWhile JsString.isSpace
  match cs.dropWhile Char.isDigit with
  | c :: rest => if cs.head?.any Char.isDigit && (c = '.' || c = ')') then some rest else none
  | [] => none

/-- `/^(\s*)[-*+]\s+\[([ xX])\]\s+(.*)$/`: whether it is ticked, and the text. -/
def todoLine (line : Text) : Option (Bool × Text) := do
  let cs ← afterBullet line
  if cs.head?.any JsString.isSpace then
    match cs.dropWhile JsString.isSpace with
    | '[' :: x :: ']' :: cs =>
      if x ∈ [' ', 'x', 'X'] then (spacedRest cs).map fun text => (x ≠ ' ', text) else none
    | _ => none
  else none

/-- `/^(\s*)[-*+]\s+(.*)$/` -/
def bulletLine (line : Text) : Option Text := (afterBullet line).bind spacedRest

/-- `/^(\s*)\d+[.)]\s+(.*)$/` -/
def numberedLine (line : Text) : Option Text := (afterNumber line).bind spacedRest

/-- `line.startsWith('>')` -/
def isQuote (line : Text) : Bool := line.head? = some '>'

def isBlockStart (line : Text) : Bool :=
  (1 ≤ hashes line && hashes line ≤ 6 && (line.drop (hashes line)).head?.any JsString.isSpace) ||
  "```".toList.isPrefixOf line ||
  ((afterBullet line).any fun cs => cs.head?.any JsString.isSpace) ||
  ((afterNumber line).any fun cs => cs.head?.any JsString.isSpace) ||
  isQuote line ||
  (((stripPrefix "<!--".toList (trimLine line)).bind fun cs =>
    stripSuffix "-->".toList (trimEnd cs)).any fun body => body.all isDot) ||
  isRule (trimLine line)

/-- `indentOf` of the spaces before a marker: two to a level, and a tab is two. -/
def indentOf (line : Text) : ℕ :=
  ((line.takeWhile JsString.isSpace).map fun c => if c = '\t' then 2 else 1).sum / 2

/-! ### Blocks -/

structure ParsedBlock where
  type : String
  text : Text
  rich : Option (List InlineOp)
  props : YMap JsValue
  indent : ℕ

def propsOf (fields : List (String × JsValue)) : YMap JsValue :=
  fields.foldl (fun props field => props.set field.1 field.2) .empty

def textValue (cs : Text) : JsValue := .string (String.ofList cs)

/-- `readFence`: the body, and what is left after the closing mark. -/
def readFence (lines : List Text) : List Text × List Text :=
  let isOpen := fun line => decide (trimLine line ≠ "```".toList)
  match lines.dropWhile isOpen with
  | [] => ((lines.reverse.dropWhile isBlank).reverse, [])
  | _ :: rest => (lines.takeWhile isOpen, rest)

/-- The fields of what `JSON.parse` gives, where it is an object. -/
def parsedFields (js : Js) (json : Text) : Option (YMap JsValue) :=
  match js.parseJson (String.ofList json) with
  | some (.object fields) => some (propsOf fields)
  | _ => none

/-- `/^\*\*(.*)\*\*$/` replaced by what is between. -/
def unbold (text : Text) : Text :=
  match (stripPrefix ['*', '*'] text).bind (stripSuffix ['*', '*']) with
  | some body => if body.all isDot then body else text
  | none => text

/-- `/^\[((?:\\.|[^\]\\])*)\]\((attachments\/[^)\s]+|[^)\s]+)\)$/`: the label and the target. -/
def fileLink (text : Text) : Option (Text × Text) := do
  let cs ← stripPrefix ['['] text
  let after ← stripPrefix [']', '('] (takeLabel cs).2
  let target ← stripSuffix [')'] after
  if target ≠ [] && target.all fun c => c != ')' && !JsString.isSpace c then
    some ((takeLabel cs).1, target)
  else none

def applyBlockComment (b : ParsedBlock) (shape : YMap JsValue) : ParsedBlock :=
  let type := (shape.get "type").bind JsValue.string?
  let rest := shape.delete "type"
  let b : ParsedBlock :=
    if type = some "toggle" ∧ b.type = "paragraph" then
      { b with type := "toggle", text := unbold b.text }
    else b
  let b : ParsedBlock :=
    if type = some "file" ∧ b.type = "paragraph" then
      match fileLink (trimLine b.text) with
      | none => b
      | some (label, target) =>
        let props := match attachmentOf target with
          | none => b.props
          | some name => b.props.set "attachmentRef" (textValue name)
        { b with
          type := "file"
          text := []
          props := if ((rest.get "filename").bind JsValue.string?).isSome then props
            else props.set "filename" (textValue label) }
    else b
  { b with
    props := rest.rows.foldl (fun props entry =>
      if entry.2.isNullish then props else props.set entry.1 entry.2) b.props }

/-- `CALLOUT_TONES`, with `CALLOUT_TONE_LABELS`. -/
def calloutTones : List (String × String) :=
  [("note", "Note"), ("info", "Info"), ("tip", "Tip"), ("warning", "Warning"), ("error", "Error"),
    ("alarm", "Alarm"), ("exclaim", "Important"), ("question", "Question"),
    ("success", "Success"), ("memo", "Memo"), ("example", "Example"), ("quote", "Quote")]

def calloutToneFromLabel (js : Js) (label : Text) : Option String :=
  (calloutTones.find? fun tone =>
    js.lowerCase tone.2 = js.lowerCase (String.ofList (trimLine label))).map (·.1)

/-- `/^\*\*([^*]+)\*\*$/` -/
def boldLine (line : Text) : Option Text := do
  let body ← (stripPrefix ['*', '*'] line).bind (stripSuffix ['*', '*'])
  if body ≠ [] && '*' ∉ body then some body else none

/-- `/^(?:—|-{1,2})\s+(.+)$/`, of a trimmed line. -/
def sourceLine (line : Text) : Option Text := do
  let cs ← (stripPrefix ['—'] line).orElse fun _ =>
    (stripPrefix ['-', '-'] line).orElse fun _ => stripPrefix ['-'] line
  let source ← spacedRest cs
  if source = [] then none else some source

/-- A list of lines without the blank ones at its ends. -/
def trimLines (lines : List Text) : List Text :=
  ((lines.dropWhile (· = [])).reverse.dropWhile (· = [])).reverse

def quoteOrCallout (js : Js) (parts : List Text) : ParsedBlock :=
  let trimmed := trimLines (parts.map trimLine)
  match (boldLine (trimmed.headD [])).bind (calloutToneFromLabel js) with
  | some tone =>
    { type := "callout"
      text := trimLine (joinLines ((trimmed.drop 1).dropWhile (· = [])))
      rich := none
      props := propsOf (if tone = "note" then [] else [("tone", .string tone)])
      indent := 0 }
  | none =>
    match if 1 < trimmed.length then sourceLine (trimmed.getLastD []) else none with
    | some source =>
      { type := "quote"
        text := trimLine (joinLines ((trimmed.dropLast.reverse.dropWhile (· = [])).reverse))
        rich := none
        props := propsOf [("source", textValue (trimLine source))]
        indent := 0 }
    | none =>
      { type := "quote", text := trimLine (joinLines trimmed), rich := none, props := .empty,
        indent := 0 }

/-! ### The loop -/

/-- Where `rawBlocks` is: the lines that are left, and the blocks there are. -/
structure BlockReader where
  rest : List Text
  blocks : List ParsedBlock

namespace BlockReader

/-- A comment: what it says is applied to the block above. -/
def comment (js : Js) (line : Text) (blocks : List ParsedBlock) : List ParsedBlock :=
  match (blockComment (trimLine line)).bind (parsedFields js), blocks.getLast? with
  | some fields, some last => blocks.dropLast ++ [applyBlockComment last fields]
  | _, _ => blocks

/-- A block of our own: its type is in the fence, its props in the first line of the body. -/
def soneBlock (js : Js) (type : Text) (body : List Text) : ParsedBlock :=
  match js.parseJson (String.ofList (body.headD "{}".toList)) with
  | none => ⟨"paragraph", joinLines body, none, .empty, 0⟩
  | some value =>
    { type := String.ofList type
      text := joinLines body.tail
      rich := none
      props := match value with
        | .object fields => propsOf fields
        | _ => .empty
      indent := 0 }

def shapeDivider (js : Js) (props : YMap JsValue) (shape : Text) : YMap JsValue :=
  match parsedFields js shape with
  | none => props
  | some fields =>
    ["rule", "ornament", "ornamentAt"].foldl (fun props key =>
      match (fields.get key).bind JsValue.string? with
      | some value => props.set key (.string value)
      | none => props.delete key) props

def divider (js : Js) (line : Text) (rest : List Text) : ParsedBlock × List Text :=
  let props : YMap JsValue :=
    propsOf (if (trimLine line).head? = some '*' then [("ornament", .string "asterism")] else [])
  match dividerShape (trimLine (rest.headD [])) with
  | none => (⟨"divider", [], none, props, 0⟩, rest)
  | some shape => (⟨"divider", [], none, shapeDivider js props shape, 0⟩, rest.tail)

/-- A picture on a line of its own. -/
def image (alt target : Text) : ParsedBlock where
  type := "image"
  text := []
  rich := none
  props := propsOf (match attachmentOf target with
    | some name => [("alt", textValue alt), ("attachmentRef", textValue name)]
    | none => [("alt", textValue alt), ("url", textValue target)])
  indent := 0

/-- `/^>\s?/` taken off. -/
def unquoteLine (line : Text) : Text :=
  match line.tail with
  | c :: cs => if JsString.isSpace c then cs else c :: cs
  | [] => []

/-- One turn of the loop, at a line with those after it. -/
def turn (js : Js) (blocks : List ParsedBlock) (line : Text) (rest : List Text) : BlockReader :=
  if isBlank line then ⟨rest, blocks⟩
  else if isComment line then ⟨rest, comment js line blocks⟩
  else if let some type := soneFence (trimLine line) then
    ⟨(readFence rest).2, blocks ++ [soneBlock js type (readFence rest).1]⟩
  else if let some language := codeFence (trimLine line) then
    ⟨(readFence rest).2, blocks ++ [⟨"code", joinLines (readFence rest).1, none,
      propsOf (if language = [] then [] else [("language", textValue language)]), 0⟩]⟩
  else if let some (level, text) := headingLine line then
    ⟨rest, blocks ++ [⟨"heading", text, none,
      propsOf [("level", .number (.finite (max 1 (level - 1) : ℕ)))], 0⟩]⟩
  else if isRule (trimLine line) then
    ⟨(divider js line rest).2, blocks ++ [(divider js line rest).1]⟩
  else if let some (alt, target) := imageLine (trimLine line) then
    ⟨rest, blocks ++ [image alt target]⟩
  else if let some (checked, text) := todoLine line then
    ⟨rest, blocks ++ [⟨"todo", text, none, propsOf [("checked", .boolean checked)],
      indentOf line⟩]⟩
  else if let some text := bulletLine line then
    ⟨rest, blocks ++ [⟨"bulletList", text, none, .empty, indentOf line⟩]⟩
  else if let some text := numberedLine line then
    ⟨rest, blocks ++ [⟨"numberedList", text, none, .empty, indentOf line⟩]⟩
  else if isQuote line then
    ⟨(line :: rest).dropWhile isQuote,
      blocks ++ [quoteOrCallout js (((line :: rest).takeWhile isQuote).map unquoteLine)]⟩
  else
    -- a paragraph goes on to a blank line or a block's start, and this line may be one
    let goesOn := fun line => !isBlank line && !isBlockStart line
    ⟨(line :: rest).dropWhile goesOn,
      blocks ++ [⟨"paragraph", joinLines ((line :: rest).takeWhile goesOn), none, .empty, 0⟩]⟩

/-- One turn, of a reader that has a line left. -/
def next (js : Js) (r : BlockReader) : BlockReader :=
  match r.rest with
  | [] => r
  | line :: rest => turn js r.blocks line rest

/-- The loop, for as many turns as `fuel` says. -/
def run (js : Js) : ℕ → BlockReader → Option (List ParsedBlock)
  | 0, r => if r.rest = [] then some r.blocks else none
  | fuel + 1, r => if r.rest = [] then some r.blocks else run js fuel (r.next js)

end BlockReader

/-- `PROSE_BLOCKS` -/
def proseBlocks : List String :=
  ["paragraph", "heading", "bulletList", "numberedList", "todo", "quote", "callout", "toggle"]

/-- What `markdownToBlocks` does with one block: the marks of its prose are read. -/
def readMarks (b : ParsedBlock) : ParsedBlock :=
  if b.type ∈ proseBlocks then
    let rich := markdownToOps b.text
    { b with
      text := opsToText rich
      rich := if rich.any fun op => op.attributes ≠ [] then some rich else b.rich }
  else b

/-- `markdownToBlocks`, where the loop ends within `fuel` turns. -/
def markdownToBlocks (js : Js) (fuel : ℕ) (markdown : Text) : Option (List ParsedBlock) :=
  (BlockReader.run js fuel ⟨linesOf markdown, []⟩).map (·.map readMarks)

/-! ### Where a pattern fits -/

def markOf (line : Text) : Option Char := (line.dropWhile JsString.isSpace).head?

theorem trimEnd_cons {c : Char} {cs : Text} (hc : JsString.isSpace c = false) :
    trimEnd (c :: cs) = c :: trimEnd cs := by
  rw [trimEnd, trimEnd, reverse_cons, dropWhile_append]
  split
  · rename_i hempty
    rw [List.isEmpty_iff.mp hempty]
    simp [List.dropWhile, hc]
  · rw [reverse_append]
    rfl

theorem trimEnd_prefix (cs : Text) : trimEnd cs <+: cs := by
  have h := reverse_prefix.mpr (@dropWhile_suffix _ cs.reverse JsString.isSpace)
  rwa [reverse_reverse] at h

theorem trimEnd_of_suffix {cs rest : Text} (h : rest <:+ trimEnd cs) : trimEnd rest = rest := by
  have hprefix := reverse_prefix.mpr h
  rw [trimEnd, reverse_reverse] at hprefix
  cases hrest : rest.reverse with
  | nil => rw [reverse_eq_nil_iff.mp hrest]; rfl
  | cons c before =>
    rw [hrest] at hprefix
    obtain ⟨after, hafter⟩ := hprefix
    have hc : JsString.isSpace c = false := eq_false_of_dropWhile hafter.symm
    rw [trimEnd, hrest, dropWhile_cons_of_neg (by simp [hc]), ← hrest,
      reverse_reverse]

theorem markOf_eq_none_or (line : Text) :
    (markOf line = none ∧ trimLine line = []) ∨
      ∃ c cs, markOf line = some c ∧ line.dropWhile JsString.isSpace = c :: cs ∧
        trimLine line = c :: trimEnd cs ∧ JsString.isSpace c = false := by
  cases hline : line.dropWhile JsString.isSpace with
  | nil =>
    rw [markOf, trimLine, hline]
    exact .inl ⟨rfl, rfl⟩
  | cons c cs =>
    have hc : JsString.isSpace c = false := eq_false_of_dropWhile hline
    refine .inr ⟨c, cs, ?_, rfl, ?_, hc⟩
    · rw [markOf, hline]
      rfl
    · rw [trimLine, hline, trimEnd_cons hc]

theorem head?_trimLine (line : Text) : (trimLine line).head? = markOf line := by
  rcases markOf_eq_none_or line with ⟨hmark, htrim⟩ | ⟨c, cs, hmark, -, htrim, -⟩
  · rw [hmark, htrim]
    rfl
  · rw [hmark, htrim]
    rfl

theorem markOf_of_head? {line : Text} {c : Char} (h : line.head? = some c)
    (hc : JsString.isSpace c = false) : markOf line = some c := by
  obtain ⟨cs, rfl⟩ := List.head?_eq_some_iff.mp h
  rw [markOf, dropWhile_cons_of_neg (by simp [hc])]
  rfl

theorem isBlank_iff (line : Text) : isBlank line = true ↔ markOf line = none := by
  rw [← head?_trimLine, List.head?_eq_none_iff, isBlank, decide_eq_true_eq]

theorem head?_of_stripPrefix {c : Char} {start cs rest : Text}
    (h : stripPrefix (c :: start) cs = some rest) : cs.head? = some c := by
  rw [stripPrefix] at h
  split at h
  · rename_i hstart
    obtain ⟨rest', rfl⟩ := isPrefixOf_iff_prefix.mp hstart
    rfl
  · simp at h

theorem suffix_of_stripPrefix {start cs rest : Text} (h : stripPrefix start cs = some rest) :
    rest <:+ cs := by
  rw [stripPrefix] at h
  split at h
  · exact some.inj h ▸ drop_suffix _ _
  · simp at h

theorem suffix_of_stripSuffix {stop cs rest : Text} (h : stripSuffix stop cs = some rest) :
    stop <:+ cs := by
  rw [stripSuffix] at h
  split at h
  · exact isSuffixOf_iff_suffix.mp ‹_›
  · simp at h

theorem isComment_of_ends {line cs : Text}
    (hcs : stripPrefix "<!--".toList (trimLine line) = some cs) (hstop : "-->".toList <:+ cs) :
    isComment line = true := by
  have hsuffix := hstop.trans (suffix_of_stripPrefix hcs)
  rw [stripPrefix] at hcs
  split at hcs
  · rename_i hstart
    rw [isComment, hstart, isSuffixOf_iff_suffix.mpr hsuffix]
    rfl
  · simp at hcs

theorem markOf_of_isComment {line : Text} (h : isComment line = true) :
    markOf line = some '<' := by
  obtain ⟨hstart, -⟩ := (Bool.and_eq_true_iff ..).mp h
  obtain ⟨rest, hrest⟩ := isPrefixOf_iff_prefix.mp hstart
  rw [← head?_trimLine, ← hrest]
  rfl

theorem markOf_of_codeFence {line language : Text}
    (h : codeFence (trimLine line) = some language) : markOf line = some '`' := by
  obtain ⟨cs, hcs, -⟩ := bind_eq_some_iff.mp h
  exact (head?_trimLine line).symm.trans (head?_of_stripPrefix hcs)

theorem markOf_of_soneFence {line type : Text} (h : soneFence (trimLine line) = some type) :
    markOf line = some '`' := by
  obtain ⟨cs, hcs, -⟩ := bind_eq_some_iff.mp h
  exact (head?_trimLine line).symm.trans (head?_of_stripPrefix hcs)

theorem markOf_of_imageLine {line : Text} {parts : Text × Text}
    (h : imageLine (trimLine line) = some parts) : markOf line = some '!' := by
  obtain ⟨cs, hcs, -⟩ := bind_eq_some_iff.mp h
  exact (head?_trimLine line).symm.trans (head?_of_stripPrefix hcs)

theorem markOf_of_isRule {line : Text} (h : isRule (trimLine line) = true) :
    ∃ c ∈ ['-', '*', '_'], markOf line = some c ∧
      3 ≤ ((trimLine line).takeWhile (· = c)).length := by
  obtain ⟨c, hc, hrule⟩ := List.any_eq_true.mp h
  obtain ⟨hlen, -⟩ := (Bool.and_eq_true_iff ..).mp hrule
  have hlen := of_decide_eq_true hlen
  refine ⟨c, hc, ?_, hlen⟩
  rw [← head?_trimLine]
  cases htrim : trimLine line with
  | nil => simp [htrim] at hlen
  | cons d cs =>
    by_cases hd : d = c
    · rw [hd]
      rfl
    · rw [htrim, takeWhile_cons_of_neg (by simpa using hd)] at hlen
      simp at hlen

theorem markOf_of_hashes {line : Text} (h : 1 ≤ hashes line) : markOf line = some '#' := by
  cases line with
  | nil => simp [hashes] at h
  | cons c cs =>
    by_cases hc : c = '#'
    · exact markOf_of_head? (by rw [hc]; rfl) (by decide)
    · rw [hashes, takeWhile_cons_of_neg (by simpa using hc)] at h
      simp at h

theorem markOf_of_headingLine {line : Text} {parts : ℕ × Text}
    (h : headingLine line = some parts) : markOf line = some '#' := by
  rw [headingLine] at h
  split at h
  · rename_i hhashes
    exact markOf_of_hashes hhashes.1
  · simp at h

theorem markOf_of_afterBullet {line after : Text} (h : afterBullet line = some after) :
    ∃ c, isBulletMark c = true ∧ markOf line = some c ∧
      line.dropWhile JsString.isSpace = c :: after := by
  rw [afterBullet] at h
  split at h
  · rename_i c cs hline
    split at h
    · rename_i hc
      obtain rfl := some.inj h
      exact ⟨c, hc, by rw [markOf, hline]; rfl, hline⟩
    · simp at h
  · simp at h

theorem markOf_of_afterNumber {line after : Text} (h : afterNumber line = some after) :
    ∃ c, c.isDigit = true ∧ markOf line = some c := by
  rw [afterNumber] at h
  split at h
  · split at h
    · rename_i hc
      obtain ⟨hdigit, -⟩ := (Bool.and_eq_true_iff ..).mp hc
      cases hhead : (line.dropWhile JsString.isSpace).head? with
      | none => simp [hhead] at hdigit
      | some c => exact ⟨c, by simpa [hhead] using hdigit, hhead⟩
    · simp at h
  · simp at h

theorem afterBullet_of_todoLine {line : Text} {parts : Bool × Text}
    (h : todoLine line = some parts) : ∃ after, afterBullet line = some after := by
  obtain ⟨cs, hcs, -⟩ := bind_eq_some_iff.mp h
  exact ⟨cs, hcs⟩

theorem markOf_of_isQuote {line : Text} (h : isQuote line = true) : markOf line = some '>' :=
  markOf_of_head? (of_decide_eq_true h) (by decide)

/-! ### Lines that hold the reader up -/

/-- A line that fits some pattern of the loop. -/
def isRecognised (line : Text) : Bool :=
  isBlank line || isComment line || (soneFence (trimLine line)).isSome ||
  (codeFence (trimLine line)).isSome || (headingLine line).isSome || isRule (trimLine line) ||
  (imageLine (trimLine line)).isSome || (todoLine line).isSome || (bulletLine line).isSome ||
  (numberedLine line).isSome || isQuote line

/-- Three backticks, and after them neither one word nor a name of ours. -/
structure OddFence (line : Text) : Prop where
  start : "```".toList <+: line
  code : codeFence (trimLine line) = none
  sone : soneFence (trimLine line) = none

/-- After a marker and spaces, a text with a character in it that ends a line for a pattern but
not for the file: U+2028 or U+2029. -/
structure BrokenText (after : Text) : Prop where
  spaced : after.head?.any JsString.isSpace = true
  broken : (after.dropWhile JsString.isSpace).all isDot = false

/-- **A line that holds the reader up**: an odd fence, or a heading or a list item whose text is
broken. -/
inductive Hangs (line : Text) : Prop where
  | fence (h : OddFence line)
  | heading (one : 1 ≤ hashes line) (six : hashes line ≤ 6)
      (text : BrokenText (line.drop (hashes line)))
  | bullet (after : Text) (marker : afterBullet line = some after) (text : BrokenText after)
      (todo : todoLine line = none)
  | number (after : Text) (marker : afterNumber line = some after) (text : BrokenText after)

theorem BrokenText.spacedRest_eq_none {after : Text} (h : BrokenText after) :
    spacedRest after = none := by
  rw [spacedRest, if_neg]
  rw [h.broken]
  simp

theorem brokenText_of_spacedRest_eq_none {after : Text}
    (hspaced : after.head?.any JsString.isSpace = true) (h : spacedRest after = none) :
    BrokenText after := by
  refine ⟨hspaced, ?_⟩
  by_contra hbroken
  rw [spacedRest, hspaced, (Bool.not_eq_false _).mp hbroken] at h
  simp at h

theorem isRecognised_eq_false_iff (line : Text) :
    isRecognised line = false ↔ isBlank line = false ∧ isComment line = false ∧
      soneFence (trimLine line) = none ∧ codeFence (trimLine line) = none ∧
      headingLine line = none ∧ isRule (trimLine line) = false ∧
      imageLine (trimLine line) = none ∧ todoLine line = none ∧ bulletLine line = none ∧
      numberedLine line = none ∧ isQuote line = false := by
  simp only [isRecognised, Bool.or_eq_false_iff, isSome_eq_false_iff,
    isNone_iff_eq_none, and_assoc]

theorem markOf_of_isRecognised {line : Text} (h : isRecognised line = true) :
    markOf line ∈ [none, some '<', some '!', some '>'] ∨
    (markOf line = some '`' ∧
      ((soneFence (trimLine line)).isSome ∨ (codeFence (trimLine line)).isSome)) ∨
    (markOf line = some '#' ∧ (headingLine line).isSome) ∨
    (∃ c ∈ ['-', '*', '_'], markOf line = some c ∧
      3 ≤ ((trimLine line).takeWhile (· = c)).length) ∨
    (∃ c, isBulletMark c = true ∧ markOf line = some c ∧
      ((todoLine line).isSome ∨ (bulletLine line).isSome)) ∨
    ∃ c, c.isDigit = true ∧ markOf line = some c ∧ (numberedLine line).isSome := by
  simp only [isRecognised, Bool.or_eq_true] at h
  rcases h with ((((((((((h | h) | h) | h) | h) | h) | h) | h) | h) | h) | h)
  · exact .inl (by simp [(isBlank_iff line).mp h])
  · exact .inl (by simp [markOf_of_isComment h])
  · obtain ⟨type, htype⟩ := isSome_iff_exists.mp h
    exact .inr (.inl ⟨markOf_of_soneFence htype, .inl h⟩)
  · obtain ⟨language, hlanguage⟩ := isSome_iff_exists.mp h
    exact .inr (.inl ⟨markOf_of_codeFence hlanguage, .inr h⟩)
  · obtain ⟨parts, hparts⟩ := isSome_iff_exists.mp h
    exact .inr (.inr (.inl ⟨markOf_of_headingLine hparts, h⟩))
  · exact .inr (.inr (.inr (.inl (markOf_of_isRule h))))
  · obtain ⟨parts, hparts⟩ := isSome_iff_exists.mp h
    exact .inl (by simp [markOf_of_imageLine hparts])
  · obtain ⟨parts, hparts⟩ := isSome_iff_exists.mp h
    obtain ⟨after, hafter⟩ := afterBullet_of_todoLine hparts
    obtain ⟨c, hc, hmark, -⟩ := markOf_of_afterBullet hafter
    exact .inr (.inr (.inr (.inr (.inl ⟨c, hc, hmark, .inl h⟩))))
  · obtain ⟨text, htext⟩ := isSome_iff_exists.mp h
    obtain ⟨after, hafter, -⟩ := bind_eq_some_iff.mp htext
    obtain ⟨c, hc, hmark, -⟩ := markOf_of_afterBullet hafter
    exact .inr (.inr (.inr (.inr (.inl ⟨c, hc, hmark, .inr h⟩))))
  · obtain ⟨text, htext⟩ := isSome_iff_exists.mp h
    obtain ⟨after, hafter, -⟩ := bind_eq_some_iff.mp htext
    obtain ⟨c, hc, hmark⟩ := markOf_of_afterNumber hafter
    exact .inr (.inr (.inr (.inr (.inr ⟨c, hc, hmark, h⟩))))
  · exact .inl (by simp [markOf_of_isQuote h])

theorem isBulletMark_iff (c : Char) : isBulletMark c = true ↔ c = '-' ∨ c = '*' ∨ c = '+' := by
  simp [isBulletMark]

/-- **What holds the reader up** fits no pattern of the loop. -/
theorem Hangs.isRecognised_eq_false {line : Text} (h : Hangs line) :
    isRecognised line = false := by
  by_contra hrec
  have hcases := markOf_of_isRecognised ((Bool.not_eq_false _).mp hrec)
  cases h with
  | fence h =>
    have hmark : markOf line = some '`' := by
      obtain ⟨rest, rfl⟩ := h.start
      rfl
    rw [hmark, h.code, h.sone] at hcases
    simp only [Option.some.injEq] at hcases
    rcases hcases with h | ⟨-, h⟩ | ⟨h, -⟩ | ⟨c, hc, rfl, -⟩ | ⟨c, hc, rfl, -⟩ | ⟨c, hc, rfl, -⟩
    · simp at h
    · simp at h
    · exact absurd h (by decide)
    · simp at hc
    · exact absurd hc (by decide)
    · exact absurd hc (by decide)
  | heading one six text =>
    have hnone : headingLine line = none := by
      rw [headingLine, if_pos ⟨one, six⟩, text.spacedRest_eq_none]
      rfl
    rw [markOf_of_hashes one, hnone] at hcases
    simp only [Option.some.injEq] at hcases
    rcases hcases with h | ⟨h, -⟩ | ⟨-, h⟩ | ⟨c, hc, rfl, -⟩ | ⟨c, hc, rfl, -⟩ | ⟨c, hc, rfl, -⟩
    · simp at h
    · exact absurd h (by decide)
    · simp at h
    · simp at hc
    · exact absurd hc (by decide)
    · exact absurd hc (by decide)
  | bullet after marker text todo =>
    obtain ⟨c, hc, hmark, hline⟩ := markOf_of_afterBullet marker
    have hnone : bulletLine line = none := by
      rw [bulletLine, marker]
      exact text.spacedRest_eq_none
    -- the marker is followed by a space, so the line is no rule
    have hrule : ((trimLine line).takeWhile (· = c)).length < 3 := by
      have hnospace : JsString.isSpace c = false := by
        rw [isBulletMark_iff] at hc
        rcases hc with rfl | rfl | rfl <;> decide
      have hhead : (trimEnd after).head? ≠ some c := by
        intro hhead
        obtain ⟨cs, hcs⟩ := List.head?_eq_some_iff.mp hhead
        obtain ⟨rest, hrest⟩ := trimEnd_prefix after
        have hspaced := text.spaced
        rw [← hrest, hcs] at hspaced
        simp [hnospace] at hspaced
      rw [trimLine, hline, trimEnd_cons hnospace, takeWhile_cons_of_pos (by simp)]
      cases hafter : trimEnd after with
      | nil => simp
      | cons d cs =>
        rw [hafter] at hhead
        rw [takeWhile_cons_of_neg (by simpa using hhead)]
        simp
    rw [hmark, hnone, todo] at hcases
    rw [isBulletMark_iff] at hc
    simp only [Option.some.injEq] at hcases
    rcases hcases with h | ⟨rfl, -⟩ | ⟨rfl, -⟩ | ⟨d, hd, rfl, hlen⟩ | ⟨d, hd, rfl, h⟩ |
      ⟨d, hd, rfl, -⟩
    · rcases hc with rfl | rfl | rfl <;> simp at h
    · simp at hc
    · simp at hc
    · omega
    · simp at h
    · rcases hc with rfl | rfl | rfl <;> exact absurd hd (by decide)
  | number after marker text =>
    obtain ⟨c, hc, hmark⟩ := markOf_of_afterNumber marker
    have hnone : numberedLine line = none := by
      rw [numberedLine, marker]
      exact text.spacedRest_eq_none
    rw [hmark, hnone] at hcases
    simp only [Option.some.injEq] at hcases
    rcases hcases with h | ⟨rfl, -⟩ | ⟨rfl, -⟩ | ⟨d, hd, rfl, -⟩ | ⟨d, hd, rfl, -⟩ | ⟨d, -, -, h⟩
    · simp only [mem_cons, Option.some.injEq, not_mem_nil, or_false, reduceCtorEq,
        false_or] at h
      rcases h with rfl | rfl | rfl <;> exact absurd hc (by decide)
    · exact absurd hc (by decide)
    · exact absurd hc (by decide)
    · simp only [mem_cons, not_mem_nil, or_false] at hd
      rcases hd with rfl | rfl | rfl <;> exact absurd hc (by decide)
    · rw [isBulletMark_iff] at hd
      rcases hd with rfl | rfl | rfl <;> exact absurd hc (by decide)
    · simp at h

/-- **A line holds the reader up** exactly where it begins a block and fits no pattern. -/
theorem hangs_iff (line : Text) :
    Hangs line ↔ isRecognised line = false ∧ isBlockStart line = true := by
  constructor
  · intro h
    refine ⟨h.isRecognised_eq_false, ?_⟩
    simp only [isBlockStart, Bool.or_eq_true]
    cases h with
    | fence h => exact .inl (.inl (.inl (.inl (.inl (.inr
        (List.isPrefixOf_iff_prefix.mpr h.start))))))
    | heading one six text =>
      refine .inl (.inl (.inl (.inl (.inl (.inl ?_)))))
      rw [text.spaced, decide_eq_true one, decide_eq_true six]
      rfl
    | bullet after marker text todo =>
      refine .inl (.inl (.inl (.inl (.inr ?_))))
      rw [marker]
      exact text.spaced
    | number after marker text =>
      refine .inl (.inl (.inl (.inr ?_)))
      rw [marker]
      exact text.spaced
  · rintro ⟨hnone, hstart⟩
    obtain ⟨-, hcomment, hsone, hcode, hheading, hrule, -, htodo, hbullet, hnumber, hquote⟩ :=
      (isRecognised_eq_false_iff line).mp hnone
    simp only [isBlockStart, Bool.or_eq_true] at hstart
    rcases hstart with (((((h | h) | h) | h) | h) | h) | h
    · simp only [Bool.and_eq_true, decide_eq_true_eq] at h
      obtain ⟨⟨one, six⟩, hspaced⟩ := h
      rw [headingLine, if_pos ⟨one, six⟩, map_eq_none_iff] at hheading
      exact .heading one six (brokenText_of_spacedRest_eq_none hspaced hheading)
    · exact .fence ⟨List.isPrefixOf_iff_prefix.mp h, hcode, hsone⟩
    · cases hafter : afterBullet line with
      | none => simp [hafter] at h
      | some after =>
        rw [hafter] at h
        rw [bulletLine, hafter] at hbullet
        exact .bullet after hafter (brokenText_of_spacedRest_eq_none h hbullet) htodo
    · cases hafter : afterNumber line with
      | none => simp [hafter] at h
      | some after =>
        rw [hafter] at h
        rw [numberedLine, hafter] at hnumber
        exact .number after hafter (brokenText_of_spacedRest_eq_none h hnumber)
    · exact absurd h (hquote ▸ Bool.false_ne_true)
    · refine absurd ?_ (Bool.eq_false_iff.mp hcomment)
      cases hcs : stripPrefix "<!--".toList (trimLine line) with
      | none =>
        rw [hcs] at h
        simp at h
      | some cs =>
        rw [hcs] at h
        cases hbody : stripSuffix "-->".toList (trimEnd cs) with
        | none =>
          rw [bind_some, hbody] at h
          simp at h
        | some body =>
          refine isComment_of_ends hcs ?_
          have htrim : trimEnd cs = cs :=
            trimEnd_of_suffix (suffix_of_stripPrefix hcs : cs <:+ trimEnd _)
          exact htrim ▸ suffix_of_stripSuffix hbody
    · exact absurd h (hrule ▸ Bool.false_ne_true)

/-! ### One turn -/

def opensFence (line : Text) : Bool :=
  (soneFence (trimLine line)).isSome || (codeFence (trimLine line)).isSome

def goesOn (line : Text) : Bool := !isBlank line && !isBlockStart line

/-- **What a turn takes**, of the lines there are. -/
inductive Takes (line : Text) (rest : List Text) : List Text → Prop where
  | one (recognised : isRecognised line = true) (fence : opensFence line = false) :
      Takes line rest rest
  | fence (opens : opensFence line = true) : Takes line rest (readFence rest).2
  | shaped (shape : Text) (after : List Text) (recognised : isRecognised line = true)
      (fence : opensFence line = false) (next : rest = shape :: after)
      (comment : isComment shape = true) : Takes line rest after
  | quote (quote : isQuote line = true) : Takes line rest (rest.dropWhile isQuote)
  | paragraph (recognised : isRecognised line = false) (goes : goesOn line = true) :
      Takes line rest (rest.dropWhile goesOn)
  | nothing (hangs : Hangs line) : Takes line rest (line :: rest)

theorem isComment_of_dividerShape {line shape : Text}
    (h : dividerShape (trimLine line) = some shape) : isComment line = true := by
  obtain ⟨cs, hcs, h⟩ := bind_eq_some_iff.mp h
  obtain ⟨after, hafter, h⟩ := bind_eq_some_iff.mp h
  obtain ⟨body, hbody, -⟩ := bind_eq_some_iff.mp h
  exact isComment_of_ends hcs ((((suffix_of_stripSuffix hbody).trans
    (dropWhile_suffix _)).trans (suffix_of_stripPrefix hafter)).trans
      (dropWhile_suffix _))

theorem opensFence_eq_false_of_none {line : Text} (hsone : soneFence (trimLine line) = none)
    (hcode : codeFence (trimLine line) = none) : opensFence line = false := by
  rw [opensFence, hsone, hcode]
  rfl

theorem opensFence_eq_false {line : Text} (h : markOf line ≠ some '`') :
    opensFence line = false := by
  refine opensFence_eq_false_of_none ?_ ?_
  · exact eq_none_iff_forall_ne_some.mpr fun type htype => h (markOf_of_soneFence htype)
  · exact eq_none_iff_forall_ne_some.mpr fun name hname => h (markOf_of_codeFence hname)

/-- **A turn of the loop** takes what its line's pattern takes. -/
theorem BlockReader.takes_turn (js : Js) (blocks : List ParsedBlock) (line : Text)
    (rest : List Text) : Takes line rest (turn js blocks line rest).rest := by
  rw [turn]
  split
  · rename_i hblank
    exact .one (by simp [isRecognised, hblank])
      (opensFence_eq_false (by simp [(isBlank_iff line).mp hblank]))
  rename_i hblank
  split
  · rename_i hcomment
    exact .one (by simp [isRecognised, hcomment])
      (opensFence_eq_false (by simp [markOf_of_isComment hcomment]))
  rename_i hcomment
  split
  · rename_i type htype
    exact .fence (by simp [opensFence, htype])
  rename_i hsone
  split
  · rename_i language hlanguage
    exact .fence (by simp [opensFence, hlanguage])
  rename_i hcode
  have hsone : soneFence (trimLine line) = none := eq_none_iff_forall_ne_some.mpr hsone
  have hcode : codeFence (trimLine line) = none := eq_none_iff_forall_ne_some.mpr hcode
  have hfence := opensFence_eq_false_of_none hsone hcode
  split
  · rename_i parts hheading
    exact .one (by simp [isRecognised, hheading]) hfence
  rename_i hheading
  split
  · rename_i hrule
    have hrec : isRecognised line = true := by simp [isRecognised, hrule]
    simp only [divider]
    split
    · exact .one hrec hfence
    · rename_i shape hshape
      cases rest with
      | nil => cases markOf_of_isComment (isComment_of_dividerShape hshape)
      | cons next after =>
        exact .shaped next after hrec hfence rfl (isComment_of_dividerShape hshape)
  rename_i hrule
  split
  · rename_i parts himage
    exact .one (by simp [isRecognised, himage]) hfence
  rename_i himage
  split
  · rename_i parts htodo
    exact .one (by simp [isRecognised, htodo]) hfence
  rename_i htodo
  split
  · rename_i text hbullet
    exact .one (by simp [isRecognised, hbullet]) hfence
  rename_i hbullet
  split
  · rename_i text hnumber
    exact .one (by simp [isRecognised, hnumber]) hfence
  rename_i hnumber
  split
  · rename_i hquote
    rw [dropWhile_cons_of_pos hquote]
    exact .quote hquote
  rename_i hquote
  have hnone : isRecognised line = false := by
    rw [isRecognised_eq_false_iff]
    exact ⟨by simpa using hblank, by simpa using hcomment, hsone, hcode,
      eq_none_iff_forall_ne_some.mpr fun parts => hheading parts.1 parts.2,
      by simpa using hrule,
      eq_none_iff_forall_ne_some.mpr fun parts => himage parts.1 parts.2,
      eq_none_iff_forall_ne_some.mpr fun parts => htodo parts.1 parts.2,
      eq_none_iff_forall_ne_some.mpr hbullet,
      eq_none_iff_forall_ne_some.mpr hnumber, by simpa using hquote⟩
  by_cases hstart : isBlockStart line = true
  · simp only [dropWhile_cons, hstart, Bool.not_true, Bool.and_false, Bool.false_eq_true,
      if_false]
    exact .nothing ((hangs_iff line).mpr ⟨hnone, hstart⟩)
  · have hgoes : goesOn line = true := by simp [goesOn, hblank, hstart]
    change Takes line rest ((line :: rest).dropWhile goesOn)
    rw [dropWhile_cons_of_pos hgoes]
    exact .paragraph hnone hgoes

/-! ### A scan of the text -/

inductive LineMode where
  | between
  | paragraph
  | fence
deriving DecidableEq, Repr

def nextMode : LineMode → Text → LineMode
  | .fence, line => if trimLine line = "```".toList then .between else .fence
  | mode, line =>
    if mode = .paragraph ∧ goesOn line = true then .paragraph
    else if opensFence line then .fence
    else if isRecognised line then .between
    else .paragraph

theorem nextMode_between (line : Text) : nextMode .between line =
    if opensFence line then .fence else if isRecognised line then .between else .paragraph := rfl

theorem nextMode_paragraph {line : Text} (h : goesOn line = false) :
    nextMode .paragraph line = nextMode .between line := by
  rw [nextMode_between, nextMode, if_neg (by simp [h])]
  exact nofun

/-- **From a mode**, no line outside a fence holds the reader up. -/
def IsClearFrom (mode : LineMode) (lines : List Text) : Prop :=
  ∀ (before : List Text) (line : Text) (after : List Text), lines = before ++ line :: after →
    before.foldl nextMode mode ≠ .fence → ¬Hangs line

/-- **A text is clear**: no line outside a fence holds the reader up. -/
def IsClear (lines : List Text) : Prop := IsClearFrom .between lines

theorem isClearFrom_nil (mode : LineMode) : IsClearFrom mode [] :=
  fun before line after h => by simp at h

theorem isClearFrom_cons {mode : LineMode} {line : Text} {rest : List Text} :
    IsClearFrom mode (line :: rest) ↔
      (mode ≠ .fence → ¬Hangs line) ∧ IsClearFrom (nextMode mode line) rest := by
  constructor
  · intro h
    refine ⟨h [] line rest rfl, fun before line' after hrest hmode => ?_⟩
    exact h (line :: before) line' after (by rw [hrest, cons_append]) hmode
  · rintro ⟨hline, hrest⟩ before line' after heq hmode
    cases before with
    | nil =>
      obtain ⟨rfl, rfl⟩ := List.cons.inj heq
      exact hline hmode
    | cons first before =>
      obtain ⟨rfl, rfl⟩ := List.cons.inj heq
      exact hrest before line' after rfl hmode

theorem not_hangs_of_goesOn {line : Text} (h : goesOn line = true) : ¬Hangs line := by
  intro hhangs
  rw [goesOn, ((hangs_iff line).mp hhangs).2] at h
  simp at h

theorem not_hangs_of_isRecognised {line : Text} (h : isRecognised line = true) : ¬Hangs line :=
  fun hhangs => absurd h (hhangs.isRecognised_eq_false ▸ Bool.false_ne_true)

theorem isRecognised_of_isQuote {line : Text} (h : isQuote line = true) :
    isRecognised line = true := by simp [isRecognised, h]

theorem isRecognised_of_opensFence {line : Text} (h : opensFence line = true) :
    isRecognised line = true := by
  rw [opensFence, Bool.or_eq_true] at h
  rcases h with h | h
  · simp [isRecognised, h]
  · simp [isRecognised, h]

theorem isClearFrom_one {line : Text} {rest : List Text} (hrec : isRecognised line = true)
    (hfence : opensFence line = false) :
    IsClearFrom .between (line :: rest) ↔ IsClearFrom .between rest := by
  rw [isClearFrom_cons, nextMode_between, hfence, hrec]
  simp [not_hangs_of_isRecognised hrec]

theorem isClearFrom_fence (rest : List Text) :
    IsClearFrom .fence rest ↔ IsClearFrom .between (readFence rest).2 := by
  induction rest with
  | nil => exact iff_of_true (isClearFrom_nil _) (isClearFrom_nil _)
  | cons line rest ih =>
    rw [isClearFrom_cons, nextMode]
    by_cases hclose : trimLine line = "```".toList
    · rw [if_pos hclose, readFence, dropWhile_cons_of_neg (by simp [hclose])]
      simp
    · rw [if_neg hclose, ih, readFence, readFence,
        dropWhile_cons_of_pos (by simpa using hclose)]
      split <;> simp_all

theorem isClearFrom_quote (rest : List Text) :
    IsClearFrom .between rest ↔ IsClearFrom .between (rest.dropWhile isQuote) := by
  induction rest with
  | nil => rfl
  | cons line rest ih =>
    by_cases hquote : isQuote line = true
    · rw [dropWhile_cons_of_pos hquote, ← ih]
      exact isClearFrom_one (isRecognised_of_isQuote hquote)
        (opensFence_eq_false (by simp [markOf_of_isQuote hquote]))
    · rw [dropWhile_cons_of_neg hquote]

theorem isClearFrom_paragraph (rest : List Text) :
    IsClearFrom .paragraph rest ↔ IsClearFrom .between (rest.dropWhile goesOn) := by
  induction rest with
  | nil => exact iff_of_true (isClearFrom_nil _) (isClearFrom_nil _)
  | cons line rest ih =>
    by_cases hgoes : goesOn line = true
    · have hmode : nextMode .paragraph line = .paragraph := by
        rw [nextMode, if_pos ⟨rfl, hgoes⟩]
        exact nofun
      rw [dropWhile_cons_of_pos hgoes, ← ih, isClearFrom_cons, hmode]
      simp [not_hangs_of_goesOn hgoes]
    · rw [dropWhile_cons_of_neg hgoes, isClearFrom_cons, isClearFrom_cons,
        nextMode_paragraph ((Bool.not_eq_true _).mp hgoes)]
      simp

/-- **A turn that takes a line** leaves what is clear exactly where the text was. -/
theorem Takes.isClearFrom_iff {line : Text} {rest left : List Text} (h : Takes line rest left)
    (hangs : ¬Hangs line) :
    IsClearFrom .between (line :: rest) ↔ IsClearFrom .between left := by
  cases h with
  | one hrec hfence => exact isClearFrom_one hrec hfence
  | fence hopens =>
    rw [isClearFrom_cons, nextMode_between, if_pos hopens, isClearFrom_fence]
    simp [hangs]
  | shaped shape after hrec hfence hnext hcomment =>
    rw [isClearFrom_one hrec hfence, hnext]
    exact isClearFrom_one (by simp [isRecognised, hcomment])
      (opensFence_eq_false (by simp [markOf_of_isComment hcomment]))
  | quote hquote =>
    rw [← isClearFrom_quote]
    exact isClearFrom_one (isRecognised_of_isQuote hquote)
      (opensFence_eq_false (by simp [markOf_of_isQuote hquote]))
  | paragraph hrec hgoes =>
    have hfence : opensFence line = false := by
      by_contra hopens
      rw [isRecognised_of_opensFence ((Bool.not_eq_false _).mp hopens)] at hrec
      cases hrec
    rw [isClearFrom_cons, nextMode_between, hfence, hrec, ← isClearFrom_paragraph]
    simp [hangs]
  | nothing hhangs => exact absurd hhangs hangs

theorem Takes.length_le {line : Text} {rest left : List Text} (h : Takes line rest left)
    (hangs : ¬Hangs line) : left.length ≤ rest.length := by
  cases h with
  | one => exact le_rfl
  | fence =>
    rw [readFence]
    split
    · exact Nat.zero_le _
    · rename_i first after hrest
      have hle := (@dropWhile_suffix _ rest
        (fun line => decide (trimLine line ≠ "```".toList))).length_le
      rw [hrest, length_cons] at hle
      exact Nat.le_of_succ_le hle
  | shaped shape after hrec hfence hnext => simp [hnext]
  | quote => exact (dropWhile_suffix _).length_le
  | paragraph => exact (dropWhile_suffix _).length_le
  | nothing hhangs => exact absurd hhangs hangs

theorem Takes.eq_of_hangs {line : Text} {rest left : List Text} (h : Takes line rest left)
    (hangs : Hangs line) : left = line :: rest := by
  have hnone := hangs.isRecognised_eq_false
  cases h with
  | one hrec => exact absurd hangs (not_hangs_of_isRecognised hrec)
  | fence hopens =>
    exact absurd hangs (not_hangs_of_isRecognised (isRecognised_of_opensFence hopens))
  | shaped _ _ hrec => exact absurd hangs (not_hangs_of_isRecognised hrec)
  | quote hquote => exact absurd hangs (not_hangs_of_isRecognised (isRecognised_of_isQuote hquote))
  | paragraph _ hgoes => exact absurd hangs (not_hangs_of_goesOn hgoes)
  | nothing => rfl

namespace BlockReader

variable {js : Js} {r : BlockReader}

theorem rest_next_of_hangs {line : Text} {rest : List Text} (hrest : r.rest = line :: rest)
    (hangs : Hangs line) : (r.next js).rest = r.rest := by
  rw [next, hrest]
  exact (takes_turn js r.blocks line rest).eq_of_hangs hangs

theorem isClear_next (hclear : IsClear r.rest) :
    IsClear (r.next js).rest ∧ (r.rest ≠ [] → (r.next js).rest.length < r.rest.length) := by
  cases hrest : r.rest with
  | nil =>
    rw [next, hrest]
    simpa [hrest] using hclear
  | cons line rest =>
    rw [hrest] at hclear
    have hangs : ¬Hangs line := (isClearFrom_cons.mp hclear).1 (by simp)
    have htakes := takes_turn js r.blocks line rest
    rw [next, hrest]
    refine ⟨(htakes.isClearFrom_iff hangs).mp hclear, fun _ => ?_⟩
    exact Nat.lt_succ_of_le (htakes.length_le hangs)

/-- **The loop ends** exactly where the text is clear. -/
theorem exists_run_iff : (∃ fuel, (run js fuel r).isSome) ↔ IsClear r.rest := by
  constructor
  · rintro ⟨fuel, hrun⟩
    induction fuel generalizing r with
    | zero =>
      rw [run] at hrun
      split at hrun
      · rename_i hrest
        exact hrest ▸ isClearFrom_nil _
      · simp at hrun
    | succ fuel ih =>
      rw [run] at hrun
      split at hrun
      · rename_i hrest
        exact hrest ▸ isClearFrom_nil _
      · have hnext := ih hrun
        cases hrest : r.rest with
        | nil => exact isClearFrom_nil _
        | cons line rest =>
          by_cases hangs : Hangs line
          · rw [rest_next_of_hangs hrest hangs, hrest] at hnext
            exact hnext
          · rw [next, hrest] at hnext
            exact ((takes_turn js r.blocks line rest).isClearFrom_iff hangs).mpr hnext
  · intro hclear
    induction hlen : r.rest.length using Nat.strong_induction_on generalizing r with
    | _ n ih =>
      by_cases hrest : r.rest = []
      · exact ⟨0, by rw [run, if_pos hrest]; rfl⟩
      · obtain ⟨hnext, hless⟩ := @isClear_next js r hclear
        obtain ⟨fuel, hfuel⟩ := ih _ (hlen ▸ hless hrest) hnext rfl
        exact ⟨fuel + 1, by rwa [run, if_neg hrest]⟩

end BlockReader

/-- **The reader ends**, each turn of its loop taking a line, on exactly the texts in which no
line outside a fence holds it up. -/
theorem markdownToBlocks_ends_iff (js : Js) (markdown : Text) :
    ((∃ fuel, (markdownToBlocks js fuel markdown).isSome) ∧
      ∀ (n : ℕ) (r : BlockReader), r = (BlockReader.next js)^[n] ⟨linesOf markdown, []⟩ →
        r.rest ≠ [] → (r.next js).rest.length < r.rest.length) ↔
      IsClear (linesOf markdown) := by
  have hends : (∃ fuel, (markdownToBlocks js fuel markdown).isSome) ↔
      IsClear (linesOf markdown) := by
    simp only [markdownToBlocks, isSome_map]
    exact BlockReader.exists_run_iff
  refine ⟨fun h => hends.mp h.1, fun hclear => ⟨hends.mpr hclear, ?_⟩⟩
  rintro n r rfl
  have hturns : IsClear ((BlockReader.next js)^[n] ⟨linesOf markdown, []⟩).rest := by
    induction n with
    | zero => exact hclear
    | succ n ih =>
      rw [Function.iterate_succ_apply']
      exact (BlockReader.isClear_next ih).1
  exact (BlockReader.isClear_next hturns).2

/-- **A fence of C++** holds the reader up: there is no number of turns after which it ends. -/
theorem not_ends_of_cpp_fence : ¬∃ fuel,
    (markdownToBlocks .ascii fuel "Notes:\n\n```c++\nint x;\n```\n".toList).isSome := by
  simp only [markdownToBlocks, isSome_map]
  rw [BlockReader.exists_run_iff]
  intro hclear
  refine hclear ["Notes:".toList, []] "```c++".toList ["int x;".toList, "```".toList, []]
    (by decide +kernel) (by decide +kernel) (.fence ⟨?_, by decide +kernel, by decide +kernel⟩)
  exact ⟨"c++".toList, rfl⟩

end Sone
