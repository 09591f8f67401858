import Sone.Doc.Text

/-!
# Numbered lists

`computeListNumbers` (`editor/src/listNumbers.ts`) numbers the items of lists. It walks the document
with one counter for each level, which it clears where a column begins. `pageToMarkdown`
(`server/src/export/markdown.ts`) has one counter for all levels.

An item's number is to be its place in its own run (`Entry.place`), among the blocks of its own
container. `computeListNumbers_iff` says in which documents it is: the counters are not put back
where a container ends. `exportParts_iff` says of which lists of blocks the export has the same
numbers.
-/

namespace Sone.ListNumbers

open List Option Function

/-! ### The editor -/

/-- **A node of the document**: inline content, or a block with its `readIndent`. All blocks
have ids. -/
inductive DocNode
  | inline (nodeSize : ℕ)
  | block (typeName : String) (indent nodeSize : ℕ) (children : List DocNode)

def DocNode.nodeSize : DocNode → ℕ
  | inline nodeSize => nodeSize
  | block _ _ nodeSize _ => nodeSize

structure NumberedItem where
  pos : ℕ
  indent : ℕ
  number : ℕ
  deriving DecidableEq

/-- The counts of the levels, and zero where the array has none. -/
abbrev Counters := ℕ → ℕ

/-- `counters.length = length`, which throws where no array is as long. -/
def setLength (counters : Counters) (length : ℕ) : Option Counters :=
  if length < 4294967296 then some fun level => if level < length then counters level else 0
  else none

mutual

/-- `doc.descendants`, of a node at a position: the items in it, and the counters after it. -/
def visitNode (pos : ℕ) (counters : Counters) : DocNode → Option (List NumberedItem × Counters)
  | .inline _ => some ([], counters)
  | .block typeName indent _ children =>
    if typeName = "column" then visitNodes (pos + 1) (fun _ => 0) children
    else if typeName = "numberedList" then
      (setLength counters (indent + 1)).bind fun counters =>
        let number := counters indent + 1
        (visitNodes (pos + 1) (Function.update counters indent number) children).map fun inside =>
          (⟨pos, indent, number⟩ :: inside.1, inside.2)
    else (setLength counters indent).bind fun counters => visitNodes (pos + 1) counters children

/-- `doc.descendants`, of the children of a node. -/
def visitNodes (pos : ℕ) (counters : Counters) :
    List DocNode → Option (List NumberedItem × Counters)
  | [] => some ([], counters)
  | node :: nodes =>
    (visitNode pos counters node).bind fun first =>
      (visitNodes (pos + node.nodeSize) first.2 nodes).map fun rest =>
        (first.1 ++ rest.1, rest.2)

end

def computeListNumbers (doc : List DocNode) : Option (List NumberedItem) :=
  (visitNodes 0 (fun _ => 0) doc).map Prod.fst

/-! ### Runs -/

/-- A block, as far as runs go: whether it is a numbered item, and its level. -/
abbrev Sibling := Bool × ℕ

/-- **The items of a run** that is open at a level, among the blocks of a container up to there,
the last of them first. A block at a shallower level ends it, which has what follows under it, and
so does one at the level that is no item. -/
def runLength (level : ℕ) : List Sibling → ℕ
  | [] => 0
  | (numbered, indent) :: before =>
    if indent < level then 0
    else if indent = level then (if numbered then runLength level before + 1 else 0)
    else runLength level before

/-- A block of a document, and those before it in its container. -/
structure Entry where
  typeName : String
  indent : ℕ
  pos : ℕ
  before : List Sibling

namespace Entry

variable (e : Entry)

def isNumbered : Bool := e.typeName = "numberedList"

/-- **The place** of an item in its run. -/
def place : ℕ := runLength e.indent e.before + 1

end Entry

def DocNode.siblings : DocNode → List Sibling
  | inline _ => []
  | block typeName indent _ _ => [(typeName = "numberedList", indent)]

mutual

/-- The blocks of a node, in the order of the document. -/
def entriesOf (before : List Sibling) (pos : ℕ) : DocNode → List Entry
  | .inline _ => []
  | .block typeName indent _ children =>
    ⟨typeName, indent, pos, before⟩ :: entriesOfAll [] (pos + 1) children

/-- The blocks of siblings, in the order of the document. -/
def entriesOfAll (before : List Sibling) (pos : ℕ) : List DocNode → List Entry
  | [] => []
  | node :: nodes =>
    entriesOf before pos node ++ entriesOfAll (node.siblings ++ before) (pos + node.nodeSize) nodes

end

def itemsOf (entries : List Entry) : List NumberedItem :=
  (entries.filter Entry.isNumbered).map fun e => ⟨e.pos, e.indent, e.place⟩

/-- **What the walk meets last** at a level, among the blocks before, the last of them first: the
place of an item, and zero for what is no item, is shallower or is a column. -/
def lastPlace (level : ℕ) : List Entry → ℕ
  | [] => 0
  | e :: history =>
    if e.typeName = "column" ∨ e.indent < level then 0
    else if e.indent = level then (if e.isNumbered then e.place else 0)
    else lastPlace level history

/-- **The walk keeps to the runs**: what it meets last before an item, at its level, has the place
of the last item of the run, or none where the item begins it. -/
def KeepsRuns : List Entry → List Entry → Prop
  | _, [] => True
  | history, e :: entries =>
    (e.isNumbered = true → lastPlace e.indent history = runLength e.indent e.before) ∧
      KeepsRuns (e :: history) entries

/-- No level is too deep for an array. -/
def Entry.FitsArray (e : Entry) : Prop :=
  e.typeName = "column" ∨ (if e.isNumbered then e.indent + 1 else e.indent) < 4294967296

/-! ### The walk, block by block -/

/-- The walk over the blocks of a document. -/
def visitEntries : Counters → List Entry → Option (List NumberedItem × Counters)
  | counters, [] => some ([], counters)
  | counters, e :: entries =>
    if e.typeName = "column" then visitEntries (fun _ => 0) entries
    else if e.typeName = "numberedList" then
      (setLength counters (e.indent + 1)).bind fun counters =>
        let number := counters e.indent + 1
        (visitEntries (Function.update counters e.indent number) entries).map fun rest =>
          (⟨e.pos, e.indent, number⟩ :: rest.1, rest.2)
    else (setLength counters e.indent).bind fun counters => visitEntries counters entries

theorem visitEntries_append (counters : Counters) (es fs : List Entry) :
    visitEntries counters (es ++ fs) = (visitEntries counters es).bind fun first =>
      (visitEntries first.2 fs).map fun rest => (first.1 ++ rest.1, rest.2) := by
  induction es generalizing counters with
  | nil => simp [visitEntries]
  | cons e es ih =>
    rw [cons_append, visitEntries, visitEntries]
    split_ifs
    · exact ih _
    · rcases setLength counters (e.indent + 1) with _ | counters
      · rfl
      · simp only [bind_some, ih, Option.map_bind, bind_map]
        congr 1
        funext first
        simp [comp_def]
    · rcases setLength counters e.indent with _ | counters
      · rfl
      · exact ih _

mutual

theorem visitNode_eq (before : List Sibling) (pos : ℕ) (counters : Counters) (node : DocNode) :
    visitNode pos counters node = visitEntries counters (entriesOf before pos node) := by
  rcases node with _ | ⟨typeName, indent, _, children⟩
  · rfl
  · simp only [visitNode, entriesOf, visitEntries, visitNodes_eq []]

theorem visitNodes_eq (before : List Sibling) (pos : ℕ) (counters : Counters)
    (nodes : List DocNode) :
    visitNodes pos counters nodes = visitEntries counters (entriesOfAll before pos nodes) := by
  rcases nodes with _ | ⟨node, nodes⟩
  · rfl
  · rw [visitNodes, entriesOfAll, visitEntries_append, visitNode_eq before]
    simp only [visitNodes_eq (node.siblings ++ before)]

end

theorem eq_lastPlace_cons {counters : Counters} {history : List Entry} {e : Entry}
    (hcounters : ∀ level, counters level = lastPlace level history)
    (hcolumn : e.typeName ≠ "column") (level : ℕ) :
    (if e.isNumbered then Function.update (fun level => if level < e.indent + 1 then counters level
      else 0) e.indent e.place level else if level < e.indent then counters level else 0) =
      lastPlace level (e :: history) := by
  have hnot : level ≤ e.indent → ¬(e.typeName = "column" ∨ e.indent < level) := fun hle =>
    not_or.mpr ⟨hcolumn, hle.not_gt⟩
  rw [lastPlace]
  rcases lt_trichotomy level e.indent with hlt | rfl | hlt
  · rw [if_neg (hnot hlt.le), if_neg hlt.ne', ← hcounters, update_of_ne hlt.ne,
      if_pos (Nat.lt_succ_of_lt hlt), if_pos hlt, ite_self]
  · rw [if_neg (hnot le_rfl), if_pos rfl, update_self, if_neg (lt_irrefl _)]
  · rw [if_pos (Or.inr hlt), update_of_ne hlt.ne',
      if_neg (show ¬level < e.indent + 1 by omega), if_neg hlt.not_gt, ite_self]

/-- **The walk** gives the items their places exactly where it keeps to the runs. -/
theorem visitEntries_iff {counters : Counters} {history : List Entry} (entries : List Entry)
    (hcounters : ∀ level, counters level = lastPlace level history) :
    (visitEntries counters entries).map Prod.fst = some (itemsOf entries) ↔
      (∀ e ∈ entries, e.FitsArray) ∧ KeepsRuns history entries := by
  induction entries generalizing counters history with
  | nil => exact iff_of_true rfl ⟨nofun, trivial⟩
  | cons e entries ih =>
    rw [forall_mem_cons, KeepsRuns, visitEntries, Entry.FitsArray]
    by_cases hcolumn : e.typeName = "column"
    · have hnot : e.isNumbered = false := by simp [Entry.isNumbered, hcolumn]
      rw [if_pos hcolumn, itemsOf, filter_cons_of_neg (by simp [hnot]), ← itemsOf,
        @ih (fun _ => 0) (e :: history) fun level => by rw [lastPlace, if_pos (.inl hcolumn)]]
      simp [hcolumn, hnot]
    have hnext := eq_lastPlace_cons hcounters hcolumn
    rcases hnumbered : e.isNumbered with _ | _
    · have hname : e.typeName ≠ "numberedList" := of_decide_eq_false hnumbered
      simp only [hnumbered, Bool.false_eq_true, if_false] at hnext
      rw [if_neg hcolumn, if_neg hname, itemsOf, filter_cons_of_neg (by simp [hnumbered]),
        ← itemsOf, setLength]
      by_cases hfits : e.indent < 4294967296
      · rw [if_pos hfits, bind_some, ih hnext]
        simp [hfits]
      · rw [if_neg hfits]
        simp [hcolumn, hfits]
    · have hname : e.typeName = "numberedList" := of_decide_eq_true hnumbered
      simp only [hnumbered, if_true] at hnext
      rw [if_neg hcolumn, if_pos hname, itemsOf, filter_cons_of_pos hnumbered, map_cons,
        ← itemsOf, setLength]
      by_cases hfits : e.indent + 1 < 4294967296
      · rw [if_pos hfits, bind_some]
        simp only [Nat.lt_succ_self, if_true, Option.map_map, hcounters e.indent]
        by_cases hplace : lastPlace e.indent history = runLength e.indent e.before
        · have hrest := ih hnext
          rw [Entry.place] at hrest
          simpa [hplace, hfits, Entry.place, map_eq_some_iff] using hrest
        · refine iff_of_false (fun heq => hplace ?_) fun h => hplace (h.2.1 trivial)
          obtain ⟨rest, -, hitems⟩ := map_eq_some_iff.mp heq
          have hfirst := (NumberedItem.mk.inj (List.cons.inj hitems).1).2.2
          exact Nat.succ_injective hfirst
      · rw [if_neg hfits]
        simp [hcolumn, hfits]

/-- **When the editor numbers lists by their runs**: no level is too deep for an array, and
before every item the walk has met last, at its level, what its run has last. -/
theorem computeListNumbers_iff (doc : List DocNode) :
    computeListNumbers doc = some (itemsOf (entriesOfAll [] 0 doc)) ↔
      (∀ e ∈ entriesOfAll [] 0 doc, e.FitsArray) ∧ KeepsRuns [] (entriesOfAll [] 0 doc) := by
  rw [computeListNumbers, visitNodes_eq []]
  exact visitEntries_iff _ fun _ => rfl

def afterColumns : List DocNode :=
  [.block "columns" 0 8 [.block "column" 0 6 [.block "numberedList" 0 2 []]],
    .block "numberedList" 0 2 []]

/-- **The numbering of a column goes on** behind it. -/
theorem computeListNumbers_afterColumns : ¬∀ doc : List DocNode,
    computeListNumbers doc = some (itemsOf (entriesOfAll [] 0 doc)) := fun h =>
  absurd (h afterColumns) (by decide)

/-! ### The export -/

/-- **A block of a flat list**, with what the export writes of it: the blanks before an item and
the text behind its number, and what is written of a block that is no item. A column only stands in
columns. -/
structure FlatBlock where
  typeName : String
  indent : ℕ
  nodeSize : ℕ
  blanks : List Char
  text : List Char
  written : List Char
  noColumn : typeName ≠ "column"

namespace FlatBlock

variable (b : FlatBlock)

def isNumbered : Bool := b.typeName = "numberedList"

def node : DocNode := .block b.typeName b.indent b.nodeSize []

/-- What is written of the block, with the number that an item has. -/
def part (numbering : ℕ) : List Char :=
  if b.isNumbered then b.blanks ++ (Nat.toDigits 10 numbering ++ ('.' :: ' ' :: b.text))
  else b.written

end FlatBlock

/-- The loop of `pageToMarkdown`. -/
def exportParts : ℕ → List FlatBlock → List (List Char)
  | _, [] => []
  | numbering, b :: blocks =>
    let numbering := if b.isNumbered then numbering + 1 else 0
    b.part numbering :: exportParts numbering blocks

/-- What would be written with numbers that are given. -/
def partsWith : List FlatBlock → List ℕ → List (List Char)
  | [], _ => []
  | b :: blocks, numbers =>
    if b.isNumbered then b.part (numbers.headD 0) :: partsWith blocks numbers.tail
    else b.part 0 :: partsWith blocks numbers

/-- The place of the block before, where it is an item. -/
def previousPlace : List Sibling → ℕ
  | (true, indent) :: before => runLength indent before + 1
  | _ => 0

/-- **Numbers go on** from block to block: an item right behind another is at the place after it in
its own run, and every other one begins its run. -/
def GoesOn : List Sibling → List FlatBlock → Prop
  | _, [] => True
  | before, b :: blocks =>
    (b.isNumbered = true → previousPlace before = runLength b.indent before) ∧
      GoesOn ((b.isNumbered, b.indent) :: before) blocks

def flatEntries : List Sibling → ℕ → List FlatBlock → List Entry
  | _, _, [] => []
  | before, pos, b :: blocks =>
    ⟨b.typeName, b.indent, pos, before⟩ ::
      flatEntries ((b.isNumbered, b.indent) :: before) (pos + b.nodeSize) blocks

theorem entriesOfAll_flat (before : List Sibling) (pos : ℕ) (blocks : List FlatBlock) :
    entriesOfAll before pos (blocks.map FlatBlock.node) = flatEntries before pos blocks := by
  induction blocks generalizing before pos with
  | nil => rfl
  | cons b blocks ih =>
    rw [map_cons, entriesOfAll, flatEntries, ih]
    rfl

theorem keepsRuns_flat {before : List Sibling} {history : List Entry} (pos : ℕ)
    (blocks : List FlatBlock) (h : ∀ level, lastPlace level history = runLength level before) :
    KeepsRuns history (flatEntries before pos blocks) := by
  induction blocks generalizing before history pos with
  | nil => trivial
  | cons b blocks ih =>
    refine ⟨fun _ => h b.indent, ih _ fun level => ?_⟩
    rw [lastPlace, runLength]
    simp only [b.noColumn, false_or, h]
    split_ifs with hshallow hlevel hnumbered hname hname
    · rfl
    · exact congrArg (runLength · before + 1) hlevel
    · exact absurd hnumbered hname
    · exact absurd hname hnumbered
    · rfl
    · rfl

theorem FlatBlock.part_inj {b : FlatBlock} (hnumbered : b.isNumbered = true) {n m : ℕ} :
    b.part n = b.part m ↔ n = m := by
  refine ⟨fun h => ?_, congrArg b.part⟩
  rw [part, part, if_pos hnumbered, if_pos hnumbered, append_cancel_left_eq,
    append_cancel_right_eq] at h
  have hvalue := congrArg (Nat.ofDigitChars 10 · 0) h
  simpa only [Nat.ofDigitChars_ten_toDigits] using hvalue

/-- **The export** has the numbers of the runs exactly where they go on from block to block. -/
theorem exportParts_eq_iff {before : List Sibling} {numbering : ℕ} (pos : ℕ)
    (blocks : List FlatBlock) (h : numbering = previousPlace before) :
    partsWith blocks ((itemsOf (flatEntries before pos blocks)).map (·.number)) =
      exportParts numbering blocks ↔ GoesOn before blocks := by
  induction blocks generalizing before numbering pos with
  | nil => exact iff_of_true rfl trivial
  | cons b blocks ih =>
    have hentry : (⟨b.typeName, b.indent, pos, before⟩ : Entry).isNumbered = b.isNumbered := rfl
    rw [flatEntries, partsWith, exportParts, GoesOn, itemsOf, filter_cons, hentry]
    rcases hnumbered : b.isNumbered with _ | _
    · simpa [itemsOf] using @ih ((false, b.indent) :: before) 0 (pos + b.nodeSize) rfl
    · simp only [if_true, map_cons, headD_cons, tail_cons, List.cons.injEq,
        FlatBlock.part_inj hnumbered, Entry.place, h, Nat.succ_inj, forall_const]
      rw [eq_comm]
      exact and_congr_right fun hplace => ih (pos + b.nodeSize) (congrArg Nat.succ hplace)

theorem fits_of_visitEntries {counters : Counters} {entries : List Entry}
    {r : List NumberedItem × Counters} (h : visitEntries counters entries = some r) :
    ∀ e ∈ entries, e.FitsArray := by
  induction entries generalizing counters r with
  | nil => exact nofun
  | cons e entries ih =>
    rw [visitEntries] at h
    rw [forall_mem_cons, Entry.FitsArray, Entry.isNumbered]
    split_ifs at h with hcolumn hname
    · exact ⟨.inl hcolumn, ih h⟩
    · obtain ⟨_, hlength, hrest⟩ := bind_eq_some_iff.mp h
      obtain ⟨_, hrest, -⟩ := map_eq_some_iff.mp hrest
      exact ⟨.inr (by simpa [hname] using (ite_none_right_eq_some.mp hlength).1), ih hrest⟩
    · obtain ⟨_, hlength, hrest⟩ := bind_eq_some_iff.mp h
      exact ⟨.inr (by simpa [hname] using (ite_none_right_eq_some.mp hlength).1), ih hrest⟩

/-- **When the export has the editor's numbers**: no level is too deep for an array, and the numbers
go on from block to block. -/
theorem exportParts_iff (blocks : List FlatBlock) :
    (computeListNumbers (blocks.map FlatBlock.node)).map
        (fun items => partsWith blocks (items.map (·.number))) = some (exportParts 0 blocks) ↔
      (∀ e ∈ flatEntries [] 0 blocks, e.FitsArray) ∧ GoesOn [] blocks := by
  have hwalk := @visitEntries_iff (fun _ => 0) [] (flatEntries [] 0 blocks) fun _ => rfl
  have hparts := @exportParts_eq_iff [] 0 0 blocks rfl
  rw [and_iff_left (keepsRuns_flat 0 blocks fun _ => rfl)] at hwalk
  rw [computeListNumbers, visitNodes_eq [], entriesOfAll_flat]
  by_cases hfits : ∀ e ∈ flatEntries [] 0 blocks, e.FitsArray
  · rw [hwalk.mpr hfits, map_some, Option.some.injEq, hparts, and_iff_right hfits]
  · refine iff_of_false (fun heq => hfits ?_) fun h => hfits h.1
    obtain ⟨_, hitems, -⟩ := map_eq_some_iff.mp heq
    obtain ⟨_, hvisit, -⟩ := map_eq_some_iff.mp hitems
    exact fits_of_visitEntries hvisit

def itemUnderItem : List FlatBlock := [0, 1, 0].map fun indent =>
  ⟨"numberedList", indent, 2, List.replicate (2 * indent) ' ', ['x'], [], by decide⟩

/-- **The export counts on** through an item that is under another. -/
theorem exportParts_itemUnderItem : ¬∀ blocks : List FlatBlock,
    (computeListNumbers (blocks.map FlatBlock.node)).map
      (fun items => partsWith blocks (items.map (·.number))) = some (exportParts 0 blocks) :=
  fun h => absurd (h itemUnderItem) (by decide)

end Sone.ListNumbers
