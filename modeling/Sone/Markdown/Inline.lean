import Sone.Doc.Text
import Mathlib.Data.List.Chain

/-!
# Inline text in Markdown

A page's prose is a list of ops, each a text with its marks. `markdownToOps` is the small reader
for the spellings it is exported in.

The reader goes over the text once. A delimiter opens a mark only where a later one could close
it (`hasCloser`), and what is still open at the end is taken off again. A link's words are read
by a reader of their own, so its recursion is counted by `fuel`. One more than the length of the
text is always enough (`ends_readInline`), and what is read is some of its characters in their
order.
-/

namespace Sone

open List

/-! ### Ops -/

inductive InlineMark where
  | strong
  | em
  | strikethrough
  | inlineCode
deriving DecidableEq, Repr

structure LinkAttrs where
  href : List Char
  title : Option (List Char)
deriving DecidableEq, Repr

inductive InlineAttribute where
  | mark (name : InlineMark)
  | link (attrs : LinkAttrs)
deriving DecidableEq, Repr

/-- `InlineOp`: a text with its marks, in the order in which they were set. -/
structure InlineOp where
  insert : List Char
  attributes : List InlineAttribute
deriving DecidableEq, Repr

namespace InlineAttribute

def sameName : InlineAttribute → InlineAttribute → Bool
  | mark a, mark b => a = b
  | link _, link _ => true
  | _, _ => false

/-- `attributes[name] = value`: in its place if it is there, else at the end. -/
def set (attributes : List InlineAttribute) (a : InlineAttribute) : List InlineAttribute :=
  if attributes.any (sameName a) then attributes.map fun b => if sameName a b then a else b
  else attributes ++ [a]

end InlineAttribute

def opsToText (ops : List InlineOp) : List Char := ops.flatMap (·.insert)

/-! ### Reading -/

/-- `\w` -/
def isWordChar (c : Char) : Bool := c.isAlphanum || c = '_'

/-- `.`: any character but one that ends a line. -/
def isDot (c : Char) : Bool := c.toNat ∉ [0x0a, 0x0d, 0x2028, 0x2029]

/-- `((?:\\.|[^\]\\])*)`: a label, and what is left after it. -/
def takeLabel : List Char → List Char × List Char
  | '\\' :: c :: cs =>
    if isDot c then
      let (label, rest) := takeLabel cs
      ('\\' :: c :: label, rest)
    else ([], '\\' :: c :: cs)
  | c :: cs =>
    if c = ']' || c = '\\' then ([], c :: cs)
    else
      let (label, rest) := takeLabel cs
      (c :: label, rest)
  | [] => ([], [])

/-- `((?:\\.|[^"\\])*)`: a title, and what is left after it. -/
def takeTitle : List Char → List Char × List Char
  | '\\' :: c :: cs =>
    if isDot c then
      let (title, rest) := takeTitle cs
      ('\\' :: c :: title, rest)
    else ([], '\\' :: c :: cs)
  | c :: cs =>
    if c = '"' || c = '\\' then ([], c :: cs)
    else
      let (title, rest) := takeTitle cs
      (c :: title, rest)
  | [] => ([], [])

/-- `replace(/\\"/g, '"')` -/
def unquote : List Char → List Char
  | '\\' :: '"' :: cs => '"' :: unquote cs
  | c :: cs => c :: unquote cs
  | [] => []

/-- `(?:\s+"((?:\\.|[^"\\])*)")?\)`: the title if there is one, and what is left after the link. -/
def takeLinkEnd : List Char → Option (Option (List Char) × List Char)
  | ')' :: cs => some (none, cs)
  | c :: cs =>
    if JsString.isSpace c then
      match cs.dropWhile JsString.isSpace with
      | '"' :: cs =>
        match takeTitle cs with
        | (title, '"' :: ')' :: cs) => some (some title, cs)
        | _ => none
      | _ => none
    else none
  | [] => none

/-- A link at the head of a text, after its `[`: its words, its attributes and what is left. -/
def takeLink (cs : List Char) : Option (List Char × LinkAttrs × List Char) :=
  match takeLabel cs with
  | (label, ']' :: '(' :: cs) =>
    let stop := fun c => c != ')' && !JsString.isSpace c
    match takeLinkEnd (cs.dropWhile stop) with
    | some (title, rest) =>
      let written := match title with
        | none | some [] => none
        | some title => some (unquote title)
      some (label, ⟨cs.takeWhile stop, written⟩, rest)
    | none => none
  | _ => none

/-- `hasCloser`, from a place whose character before is `prev`: a later delimiter after a
character that is no space and no backslash. After one that does not close, the search goes on
behind it. -/
def closes (delim : List Char) : ℕ → Char → List Char → Bool
  | 0, _, _ => false
  | fuel + 1, prev, cs =>
    if delim.isPrefixOf cs then
      if !JsString.isSpace prev && prev != '\\' then true
      else match cs.drop delim.length with
        | [] => false
        | rest => closes delim fuel (delim.getLastD prev) rest
    else match cs with
      | [] => false
      | c :: cs => closes delim fuel c cs

/-- `hasCloser`: at least one character is between. -/
def hasCloser (delim : List Char) : List Char → Bool
  | [] => false
  | c :: cs => closes delim (cs.length + 1) c cs

/-- `canOpen`, of a delimiter with what is after it. -/
def canOpen (delim rest : List Char) : Bool :=
  match rest with
  | [] => false
  | c :: cs => !JsString.isSpace c && hasCloser delim (c :: cs)

structure InlineReader where
  ops : List InlineOp
  /-- The marks that are open, in the order in which they were opened. -/
  marks : List InlineMark
  buffer : List Char
  /-- How much has been written since a mark opened. -/
  since : InlineMark → ℕ

namespace InlineReader

def flush (r : InlineReader) : InlineReader :=
  if r.buffer = [] then r
  else
    { ops := r.ops ++ [⟨r.buffer, r.marks.map .mark⟩]
      marks := r.marks
      buffer := []
      since := fun m => if m ∈ r.marks then r.since m + r.buffer.length else r.since m }

def toggle (r : InlineReader) (m : InlineMark) : InlineReader :=
  let r := r.flush
  if m ∈ r.marks then
    { r with marks := r.marks.filter (· ≠ m), since := Function.update r.since m 0 }
  else { r with marks := r.marks ++ [m], since := Function.update r.since m 0 }

/-- `buffer += c` -/
def push (r : InlineReader) (c : Char) : InlineReader := { r with buffer := r.buffer ++ [c] }

def hasContent (r : InlineReader) (m : InlineMark) : Bool := 0 < r.since m || r.buffer ≠ []

/-- Whether a delimiter of a mark is taken, after the character `prev` and before `rest`. -/
def takes (r : InlineReader) (m : InlineMark) (delim : List Char) (prev : Option Char)
    (rest : List Char) : Bool :=
  if m ∈ r.marks then prev.any (fun p => !JsString.isSpace p) && r.hasContent m
  else canOpen delim rest

/-- The ops of a link: those of its words, each with the open marks and the link. -/
def addLink (r : InlineReader) (inner : List InlineOp) (attrs : LinkAttrs) : InlineReader :=
  let r := r.flush
  { r with
    ops := r.ops ++ inner.map fun op =>
      ⟨op.insert, (op.attributes.foldl InlineAttribute.set (r.marks.map .mark)) |>
        fun attributes => InlineAttribute.set attributes (.link attrs)⟩ }

/-- What is done with an op once the text is over: a mark that is still open was never one, and
an op with the marks of the one before is one with it. -/
def finish (r : InlineReader) : List InlineOp :=
  let r := r.flush
  let cleaned := r.ops.map fun op =>
    { op with attributes := op.attributes.filter fun a => a ∉ r.marks.map .mark }
  cleaned.foldl (fun merged op =>
    match merged.getLast? with
    | some last =>
      if last.attributes = op.attributes then
        merged.dropLast ++ [{ last with insert := last.insert ++ op.insert }]
      else merged ++ [op]
    | none => [op]) []

def start : InlineReader := ⟨[], [], [], fun _ => 0⟩

end InlineReader

/-- `/\w/.test` of a character that may be missing. -/
def wordAt (c : Option Char) : Bool := c.any isWordChar

/-- The loop of `markdownToOps`: the reader, the character before the rest and the rest. -/
def readInline : ℕ → InlineReader → Option Char → List Char → Option (List InlineOp)
  | 0, _, _, _ => none
  | _ + 1, r, _, [] => some r.finish
  | fuel + 1, r, prev, c :: cs =>
    match c, cs with
    | '\\', d :: cs => readInline fuel (r.push d) (some d) cs
    | _, _ =>
      if .inlineCode ∈ r.marks then
        readInline fuel (if c = '`' then r.toggle .inlineCode else r.push c) (some c) cs
      else if c = '`' ∧ '`' ∈ cs then readInline fuel (r.toggle .inlineCode) (some c) cs
      else
        match if c = '[' then takeLink cs else none with
        | some (label, attrs, rest) =>
          match readInline fuel .start none label with
          | some inner => readInline fuel (r.addLink inner attrs) (some ')') rest
          | none => none
        | none =>
          let double := fun d => c = d ∧ cs.head? = some d
          if double '*' ∧ r.takes .strong [c, c] prev cs.tail = true then
            readInline fuel (r.toggle .strong) (some c) cs.tail
          else if double '~' ∧ r.takes .strikethrough [c, c] prev cs.tail = true then
            readInline fuel (r.toggle .strikethrough) (some c) cs.tail
          else if (c = '*' ∨ c = '_') ∧ ¬(c = '_' ∧ wordAt prev ∧ wordAt cs.head?) ∧
              r.takes .em [c] prev cs = true then
            readInline fuel (r.toggle .em) (some c) cs
          else readInline fuel (r.push c) (some c) cs

/-! ### The reader ends, and makes nothing up -/

theorem append_takeLabel (cs : List Char) : (takeLabel cs).1 ++ (takeLabel cs).2 = cs := by
  fun_induction takeLabel cs with
  | case1 c cs hc label rest heq ih => simpa [heq] using ih
  | case2 => rfl
  | case3 => rfl
  | case4 c cs hne hc label rest heq ih => simpa [heq] using ih
  | case5 => rfl

theorem takeTitle_suffix (cs : List Char) : (takeTitle cs).2 <:+ cs := by
  fun_induction takeTitle cs with
  | case1 c cs hc title rest heq ih => exact (heq ▸ ih).trans (suffix_append ['\\', c] cs)
  | case2 => exact suffix_rfl
  | case3 => exact suffix_rfl
  | case4 c cs hne hc title rest heq ih => exact (heq ▸ ih).trans (suffix_cons c cs)
  | case5 => exact suffix_rfl

theorem suffix_of_takeLinkEnd {cs rest : List Char} {title : Option (List Char)}
    (h : takeLinkEnd cs = some (title, rest)) : rest <:+ cs := by
  cases cs with
  | nil => simp [takeLinkEnd] at h
  | cons c cs =>
    refine IsSuffix.trans ?_ (suffix_cons c cs)
    by_cases hc : c = ')'
    · subst hc
      obtain ⟨-, rfl⟩ := Prod.mk.inj (Option.some.inj h)
      exact suffix_rfl
    · rw [takeLinkEnd.eq_2 _ _ hc] at h
      split at h
      · split at h
        · rename_i body hbody
          split at h
          · rename_i title' rest' htitle
            obtain ⟨-, rfl⟩ := Prod.mk.inj (Option.some.inj h)
            have htail := takeTitle_suffix body
            have hdrop := dropWhile_suffix JsString.isSpace (l := cs)
            rw [htitle] at htail
            rw [hbody] at hdrop
            exact (suffix_append ['"', ')'] rest').trans
              (htail.trans (.trans (suffix_cons _ _) hdrop))
          · cases h
        · cases h
      · cases h

theorem exists_of_takeLink {cs label rest : List Char} {attrs : LinkAttrs}
    (h : takeLink cs = some (label, attrs, rest)) :
    ∃ between, cs = label ++ ']' :: '(' :: between ∧ rest <:+ between := by
  rw [takeLink] at h
  split at h
  · rename_i label' after hlabel
    simp only at h
    split at h
    · rename_i title rest' hend
      simp only [Option.some.injEq, Prod.mk.injEq] at h
      obtain ⟨rfl, -, rfl⟩ := h
      have happend := append_takeLabel cs
      rw [hlabel] at happend
      exact ⟨after, happend.symm, (suffix_of_takeLinkEnd hend).trans (dropWhile_suffix _)⟩
    · cases h
  · cases h

namespace InlineReader

def text (r : InlineReader) : List Char := opsToText r.ops ++ r.buffer

variable (r : InlineReader)

theorem text_flush : r.flush.text = r.text := by
  rw [flush]
  split
  · rfl
  · simp [text, opsToText]

theorem buffer_flush : r.flush.buffer = [] := by
  rw [flush]
  split
  · assumption
  · rfl

theorem text_toggle (m : InlineMark) : (r.toggle m).text = r.text := by
  rw [← text_flush r, toggle]
  split <;> rfl

theorem text_push (c : Char) : (r.push c).text = r.text ++ [c] :=
  (append_assoc _ _ _).symm

theorem text_addLink (inner : List InlineOp) (attrs : LinkAttrs) :
    (r.addLink inner attrs).text = r.text ++ opsToText inner := by
  rw [← text_flush r]
  simp [addLink, text, opsToText, buffer_flush, flatMap_map]

theorem opsToText_finish : opsToText r.finish = r.text := by
  have hsum : ∀ (ops : List InlineOp) (read : List Char),
      ops.foldl (fun read op => read ++ op.insert) read = read ++ opsToText ops := by
    intro ops
    induction ops with
    | nil => exact fun read => (append_nil read).symm
    | cons op ops ih => exact fun read => (ih _).trans (append_assoc _ _ _)
  rw [finish, ← foldl_hom opsToText (fun merged op => ?_), hsum]
  · rw [← text_flush r]
    simp [text, opsToText, buffer_flush, flatMap_map]
  · cases hlast : merged.getLast? with
    | none => simp [getLast?_eq_none_iff.mp hlast, opsToText]
    | some last =>
      obtain ⟨before, rfl⟩ := getLast?_eq_some_iff.mp hlast
      simp only
      split <;> simp [opsToText]

theorem isChain_finish : r.finish.IsChain fun op next => op.attributes ≠ next.attributes := by
  rw [finish]
  refine foldlRecOn (motive := List.IsChain _) _ _ .nil fun merged hchain op _ => ?_
  cases hlast : merged.getLast? with
  | none => exact .singleton op
  | some last =>
    obtain ⟨before, rfl⟩ := getLast?_eq_some_iff.mp hlast
    rw [isChain_append] at hchain
    simp only
    split
    · rw [dropLast_concat, isChain_append]
      exact ⟨hchain.1, .singleton _, by simpa using hchain.2.2⟩
    · rename_i hne
      rw [isChain_append, isChain_append]
      exact ⟨hchain, .singleton op, by simpa using hne⟩

variable {r} {cs rest : List Char} {result : Option (List InlineOp)}

/-- A reader **comes to its end**: it adds some of the characters that are left to its text, in
their order, and neighbours differ in their marks. -/
def Ends (r : InlineReader) (cs : List Char) (result : Option (List InlineOp)) : Prop :=
  ∃ ops read, result = some ops ∧ opsToText ops = r.text ++ read ∧ read <+ cs ∧
    ops.IsChain fun op next => op.attributes ≠ next.attributes

theorem Ends.push {c : Char} (h : (r.push c).Ends rest result) (hsub : c :: rest <+ cs) :
    r.Ends cs result := by
  obtain ⟨ops, read, hops, htext, hread, hchain⟩ := h
  exact ⟨ops, c :: read, hops, by rw [htext, text_push, append_assoc]; rfl,
    (hread.cons_cons c).trans hsub, hchain⟩

theorem Ends.toggle {m : InlineMark} (h : (r.toggle m).Ends rest result) (hsub : rest <+ cs) :
    r.Ends cs result := by
  obtain ⟨ops, read, hops, htext, hread, hchain⟩ := h
  exact ⟨ops, read, hops, by rw [htext, text_toggle], hread.trans hsub, hchain⟩

theorem Ends.addLink {label : List Char} {inner : List InlineOp} {attrs : LinkAttrs}
    (h : (r.addLink inner attrs).Ends rest result) (hinner : opsToText inner <+ label)
    (hsub : label ++ rest <+ cs) : r.Ends cs result := by
  obtain ⟨ops, read, hops, htext, hread, hchain⟩ := h
  exact ⟨ops, opsToText inner ++ read, hops, by rw [htext, text_addLink, append_assoc],
    (hinner.append hread).trans hsub, hchain⟩

end InlineReader

/-- **One more than the length** is fuel enough for a reader to come to its end. -/
theorem ends_readInline {fuel : ℕ} {r : InlineReader} {prev : Option Char} {cs : List Char}
    (h : cs.length < fuel) : r.Ends cs (readInline fuel r prev cs) := by
  induction fuel generalizing r prev cs with
  | zero => exact absurd h (Nat.not_lt_zero _)
  | succ fuel ih =>
    cases cs with
    | nil => exact ⟨_, [], rfl, by rw [r.opsToText_finish, append_nil], .slnil, r.isChain_finish⟩
    | cons c cs =>
      rw [length_cons] at h
      have hpush : r.Ends (c :: cs) (readInline fuel (r.push c) (some c) cs) :=
        (ih (by omega)).push (Sublist.refl _)
      have htoggle : ∀ m, r.Ends (c :: cs) (readInline fuel (r.toggle m) (some c) cs) :=
        fun m => (ih (by omega)).toggle (sublist_cons_self c cs)
      have htail : ∀ m, r.Ends (c :: cs) (readInline fuel (r.toggle m) (some c) cs.tail) :=
        fun m => (ih (by rw [length_tail]; omega)).toggle
          ((tail_sublist cs).trans (sublist_cons_self c cs))
      rw [readInline.eq_def]
      simp only
      split
      · rename_i d cs
        rw [length_cons] at h
        exact (ih (by omega)).push (sublist_cons_self _ _)
      · split
        · split
          · exact htoggle _
          · exact hpush
        split
        · exact htoggle _
        split
        · rename_i label attrs rest hlink
          split at hlink
          · obtain ⟨between, hcs, hrest⟩ := exists_of_takeLink hlink
            have hlen := hrest.length_le
            rw [hcs, length_append, length_cons, length_cons] at h
            obtain ⟨inner, read, hinner, htext, hread, -⟩ := @ih .start none label (by omega)
            rw [hinner, hcs]
            have hlabel : opsToText inner <+ label := by
              rw [htext]
              exact hread
            exact (ih (by omega)).addLink hlabel
              (.cons c (.append_left (.cons _ (.cons _ hrest.sublist)) label))
          · cases hlink
        · split
          · exact htail _
          split
          · exact htail _
          split
          · exact htoggle _
          · exact hpush

def markdownToOps (markdown : List Char) : List InlineOp :=
  (readInline (markdown.length + 1) .start none markdown).getD []

end Sone
