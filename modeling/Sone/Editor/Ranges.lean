import Mathlib.Algebra.GroupWithZero.Nat
import Sone.Doc.BlockForest
import Sone.Tree.Indents

/-!
# Blocks and their descendants, in the editor

To the editor a block's descendants are the siblings after it that are indented more, by the
indents as they are (`blockRangeAt` of `blockOps.ts`), and a collapsed toggle hides as much
(`hiddenBlockPositions` of `collapse.ts`). To the server they are what `readBlockTree` lists
under it, for which a block is read at most one level below the one before it, and never below
the deepest level (`Indents.levels`).

`sameTree_iff`: the two agree on the blocks of a container exactly where their indents are even
(`Indents.IsEven`). Indents that jump need not be, and neither are those that go on below the
deepest level.
-/

namespace Sone

open List Option

namespace Editor

open BlockTree (blockId visitNode visitNodes Stack clampIndent popStack blockOf ContainerOpen)
open OutlineEntry (IsOutline InSubtree AreGroups)
open Indents (InRun IsEven levels groupStart)

/-- `readIndent` of the editor's `schema.ts`: no level is too deep. -/
def readIndent (js : Js) (attrs : YMap JsValue) : ℕ :=
  match attrs.get BlockAttrs.indent with
  | none | some .undefined | some .null | some (.string "") => 0
  | some raw =>
    match js.parseInt (js.toText raw) with
    | some parsed => parsed.toNat
    | none => 0

/-- **A block among its siblings**: a node of the editor's document, with the attributes of the
element it stands for. -/
structure BlockNode (js : Js) where
  nodeName : String
  attrs : YMap JsValue
  children : List XmlNode
  id : String
  hasId : blockId js attrs = some id
  nodeSize : ℕ
  nodeSize_pos : 0 < nodeSize

variable {js : Js}

namespace BlockNode

def toXml (node : BlockNode js) : XmlNode := .element node.nodeName node.attrs node.children

def indent (node : BlockNode js) : ℕ := readIndent js node.attrs

def isCollapsed (node : BlockNode js) : Bool :=
  match node.attrs.get "collapsed" with
  | some (.boolean true) => node.nodeName = "toggle"
  | _ => false

end BlockNode

def sizeBefore (nodes : List (BlockNode js)) (k : ℕ) : ℕ :=
  ((nodes.take k).map BlockNode.nodeSize).sum

/-! ### What the editor does -/

structure BlockRange where
  index : ℕ
  /-- One past the last descendant. -/
  endIndex : ℕ
  fromPos : ℕ
  toPos : ℕ
  indent : ℕ
  deriving DecidableEq, Repr

/-- The loop of `blockRangeAt`, over the siblings from the one at `endIndex`. -/
def endOfRun (indent : ℕ) : List (BlockNode js) → ℕ → ℕ
  | [], endIndex => endIndex
  | candidate :: rest, endIndex =>
    if candidate.indent ≤ indent then endIndex else endOfRun indent rest (endIndex + 1)

def blockRangeAt (parent : List (BlockNode js)) (parentStart index : ℕ) : Option BlockRange :=
  parent[index]?.map fun node =>
    let endIndex := endOfRun node.indent (parent.drop (index + 1)) (index + 1)
    let fromPos := parentStart + sizeBefore parent index
    { index
      endIndex
      fromPos
      toPos := fromPos + sizeBefore (parent.drop index) (endIndex - index)
      indent := node.indent }

/-- The loop of `hiddenBlockPositions`, with the indent of the toggle in whose run it is. -/
def hiddenFrom : ℕ → Option ℕ → List (BlockNode js) → List ℕ
  | _, _, [] => []
  | offset, hidingFrom, node :: rest =>
    if hidingFrom.any (· < node.indent) then
      offset :: hiddenFrom (offset + node.nodeSize) hidingFrom rest
    else
      -- a run has ended, if there was one
      hiddenFrom (offset + node.nodeSize) (if node.isCollapsed then some node.indent else none) rest

def hiddenBlockPositions (doc : List (BlockNode js)) : List ℕ := hiddenFrom 0 none doc

/-- A range **covers** a sibling. -/
def BlockRange.Covers (range : BlockRange) (parent : List (BlockNode js)) (parentStart k : ℕ) :
    Prop :=
  k < parent.length ∧ range.fromPos ≤ parentStart + sizeBefore parent k ∧
    parentStart + sizeBefore parent (k + 1) ≤ range.toPos

/-! ### What the server reads -/

/-- What is read of the children of a container, child by child. -/
def visitGroups (js : Js) (parentId : Option String) (baseDepth : ℕ) :
    Stack → List XmlNode → List (List TreeBlock)
  | _, [] => []
  | stack, node :: nodes =>
    (visitNode js parentId baseDepth stack node).1 ::
      visitGroups js parentId baseDepth (visitNode js parentId baseDepth stack node).2 nodes

/-- **The blocks of a container**, and what was read before it. -/
structure Siblings (js : Js) where
  nodes : List (BlockNode js)
  before : List (OutlineEntry String)
  parentId : Option String
  baseDepth : ℕ
  outline : IsOutline before
  container : ContainerOpen before parentId baseDepth
  nodup : ((before ++ (visitNodes js parentId baseDepth [] (nodes.map BlockNode.toXml)).map
    TreeBlock.entry).map OutlineEntry.key).Nodup

namespace Siblings

def ofPage (nodes : List (BlockNode js))
    (nodup : (BlockTree.idsOfNodes js (nodes.map BlockNode.toXml)).Nodup) : Siblings js where
  nodes
  before := []
  parentId := none
  baseDepth := 0
  outline := .nil
  container := .inl ⟨rfl, rfl⟩
  nodup := by
    rw [nil_append, List.map_map]
    exact nodup.sublist (BlockTree.ids_visitNodes_sublist none 0 [] _)

variable (s : Siblings js)

def groups : List (List TreeBlock) :=
  visitGroups js s.parentId s.baseDepth [] (s.nodes.map BlockNode.toXml)

/-- `readBlockTree`, when it is done with the container. -/
def read : List (OutlineEntry String) :=
  s.before ++ (visitNodes js s.parentId s.baseDepth [] (s.nodes.map BlockNode.toXml)).map
    TreeBlock.entry

/-- Where a sibling is among the blocks that are read. -/
def place (k : ℕ) : ℕ := s.before.length + groupStart s.groups k

/-- The indents of the siblings, as the editor reads them. -/
def indents : List ℕ := s.nodes.map BlockNode.indent

/-- **The editor and the server mean one tree**: a range covers the blocks that are read of a
sibling exactly where these are read as descendants, and what is hidden is what has a collapsed
toggle among the ancestors it is read with. -/
structure SameTree : Prop where
  range : ∀ parentStart i range, blockRangeAt s.nodes parentStart i = some range → ∀ b,
    InSubtree s.read (s.place i) b ↔
      ∃ k, range.Covers s.nodes parentStart k ∧ s.place k ≤ b ∧ b < s.place (k + 1)
  hidden : ∀ j < s.nodes.length, sizeBefore s.nodes j ∈ hiddenBlockPositions s.nodes ↔
    ∃ i node, s.nodes[i]? = some node ∧ node.isCollapsed = true ∧ i ≠ j ∧
      InSubtree s.read (s.place i) (s.place j)

end Siblings

/-! ### The runs of the editor -/

variable {nodes : List (BlockNode js)} {i j k : ℕ}

theorem sizeBefore_cons_succ {node : BlockNode js} :
    sizeBefore (node :: nodes) (k + 1) = node.nodeSize + sizeBefore nodes k := by
  simp [sizeBefore]

theorem sizeBefore_add (n : ℕ) :
    sizeBefore nodes (k + n) = sizeBefore nodes k + sizeBefore (nodes.drop k) n := by
  simp [sizeBefore, take_add]

theorem sizeBefore_lt (nodes : List (BlockNode js)) (hij : i < j) (hi : i < nodes.length) :
    sizeBefore nodes i < sizeBefore nodes j := by
  obtain ⟨n, rfl⟩ : ∃ n, j = i + (n + 1) := ⟨j - i - 1, by omega⟩
  obtain ⟨node, rest, hdrop⟩ : ∃ node rest, nodes.drop i = node :: rest :=
    ⟨_, _, drop_eq_getElem_cons hi⟩
  have hpos := node.nodeSize_pos
  rw [sizeBefore_add, hdrop, sizeBefore_cons_succ]
  omega

theorem sizeBefore_le (nodes : List (BlockNode js)) (hij : i ≤ j) :
    sizeBefore nodes i ≤ sizeBefore nodes j := by
  obtain ⟨n, rfl⟩ := Nat.exists_eq_add_of_le hij
  rw [sizeBefore_add]
  exact Nat.le_add_right _ _

theorem lt_endOfRun_iff {indent endIndex : ℕ} :
    k < endOfRun indent nodes endIndex ↔ k < endIndex ∨
      (k < endIndex + nodes.length ∧ ∀ m node, m ≤ k - endIndex → nodes[m]? = some node →
        indent < node.indent) := by
  induction nodes generalizing endIndex with
  | nil => simp [endOfRun]
  | cons first nodes ih =>
    rw [endOfRun]
    split
    · rename_i hends
      refine ⟨.inl, ?_⟩
      rintro (hlt | ⟨-, hall⟩)
      · exact hlt
      · have := hall 0 first (by omega) rfl
        omega
    · rename_i hgoes
      rw [ih, length_cons]
      constructor
      · rintro (hlt | ⟨hlt, hall⟩)
        · rcases Nat.lt_or_ge k endIndex with hk | hk
          · exact .inl hk
          · refine .inr ⟨by omega, fun m node hm hnode => ?_⟩
            obtain rfl : m = 0 := by omega
            obtain rfl : first = node := by simpa using hnode
            omega
        · rcases Nat.lt_or_ge k endIndex with hk | hk
          · exact .inl hk
          · refine .inr ⟨by omega, fun m node hm hnode => ?_⟩
            cases m with
            | zero =>
              obtain rfl : first = node := by simpa using hnode
              omega
            | succ m => exact hall m node (by omega) (by simpa using hnode)
      · rintro (hlt | ⟨hlt, hall⟩)
        · exact .inl (by omega)
        · by_cases hk : k < endIndex + 1
          · exact .inl hk
          · exact .inr ⟨by omega, fun m node hm hnode =>
              hall (m + 1) node (by omega) (by simpa using hnode)⟩

/-- **A range covers the run** of its block, by the indents as they are. -/
theorem covers_blockRangeAt_iff {parentStart : ℕ} {range : BlockRange}
    (h : blockRangeAt nodes parentStart i = some range) :
    range.Covers nodes parentStart k ↔ InRun (nodes.map BlockNode.indent) i k := by
  obtain ⟨node, hnode, rfl⟩ := map_eq_some_iff.mp h
  have hi : i < nodes.length := (List.getElem?_eq_some_iff.mp hnode).1
  obtain ⟨stop, hstop⟩ : ∃ stop, endOfRun node.indent (nodes.drop (i + 1)) (i + 1) = stop :=
    ⟨_, rfl⟩
  have hend := fun k => @lt_endOfRun_iff js (nodes.drop (i + 1)) k node.indent (i + 1)
  rw [hstop, length_drop] at hend
  have hlt : i < stop := (hend i).mpr (.inl (by omega))
  simp only [BlockRange.Covers, hstop, Nat.add_assoc, ← sizeBefore_add, Nat.add_sub_cancel' hlt.le,
    Nat.add_le_add_iff_left]
  have hplaces : (k < nodes.length ∧ sizeBefore nodes i ≤ sizeBefore nodes k ∧
      sizeBefore nodes (k + 1) ≤ sizeBefore nodes stop) ↔ k < nodes.length ∧ i ≤ k ∧ k < stop := by
    refine and_congr_right fun hk => ⟨?_, ?_⟩
    · rintro ⟨hfrom, hto⟩
      constructor
      · by_contra hki
        have := sizeBefore_lt nodes (show k < i by omega) hk
        omega
      · by_contra hks
        have hle := sizeBefore_le nodes (show stop ≤ k by omega)
        have := sizeBefore_lt nodes (show k < k + 1 by omega) hk
        omega
    · exact fun ⟨hik, hks⟩ => ⟨sizeBefore_le nodes hik, sizeBefore_le nodes hks⟩
  rw [hplaces, hend]
  constructor
  · rintro ⟨hk, hik, hks⟩
    refine ⟨hik, by rwa [length_map], fun m r t him hmk hr ht => ?_⟩
    rw [List.getElem?_map, hnode, map_some, Option.some.injEq] at hr
    rw [List.getElem?_map] at ht
    obtain ⟨other, hother, rfl⟩ := map_eq_some_iff.mp ht
    rcases hks with hks | ⟨-, hall⟩
    · omega
    · have := hall (m - (i + 1)) other (by omega)
        (by rw [List.getElem?_drop, Nat.add_sub_cancel' (by omega), hother])
      omega
  · rintro ⟨hik, hk, hrun⟩
    rw [length_map] at hk
    refine ⟨hk, hik, ?_⟩
    by_cases hfirst : k < i + 1
    · exact .inl hfirst
    · refine .inr ⟨by omega, fun m other hm hother => ?_⟩
      rw [List.getElem?_drop] at hother
      exact hrun (i + 1 + m) _ _ (by omega) (by omega) (by rw [List.getElem?_map, hnode]; rfl)
        (by rw [List.getElem?_map, hother]; rfl)

theorem le_of_mem_hiddenFrom {offset position : ℕ} {hidingFrom : Option ℕ}
    (h : position ∈ hiddenFrom offset hidingFrom nodes) : offset ≤ position := by
  induction nodes generalizing offset hidingFrom with
  | nil => simp [hiddenFrom] at h
  | cons node nodes ih =>
    rw [hiddenFrom] at h
    split at h
    · rcases mem_cons.mp h with rfl | h
      · exact le_rfl
      · have := ih h
        omega
    · have := ih h
      omega

/-- A block **is under a collapsed toggle** among its siblings, by the indents as they are. -/
def IsFolded (nodes : List (BlockNode js)) (j : ℕ) : Prop :=
  ∃ i node, nodes[i]? = some node ∧ node.isCollapsed = true ∧ i ≠ j ∧
    InRun (nodes.map BlockNode.indent) i j

theorem not_isFolded_zero : ¬ IsFolded nodes 0 :=
  fun ⟨_, _, _, _, hne, hrun⟩ => hne (Nat.le_zero.mp hrun.1)

theorem isFolded_cons_succ {first : BlockNode js} (hj : j < nodes.length) :
    IsFolded (first :: nodes) (j + 1) ↔
      (first.isCollapsed = true ∧ ∀ m node, m ≤ j → nodes[m]? = some node →
        first.indent < node.indent) ∨ IsFolded nodes j := by
  have hzero : InRun ((first :: nodes).map BlockNode.indent) 0 (j + 1) ↔
      ∀ m node, m ≤ j → nodes[m]? = some node → first.indent < node.indent := by
    rw [map_cons, Indents.inRun_cons_zero, length_map, and_iff_right hj]
    simp only [List.getElem?_map, map_eq_some_iff]
    exact ⟨fun hall m node hm hnode => hall m _ hm ⟨node, hnode, rfl⟩,
      fun hall m _ hm ⟨node, hnode, hs⟩ => hs ▸ hall m node hm hnode⟩
  constructor
  · rintro ⟨i, node, hnode, hcollapsed, hne, hrun⟩
    cases i with
    | zero =>
      obtain rfl : first = node := by simpa using hnode
      exact .inl ⟨hcollapsed, hzero.mp hrun⟩
    | succ i =>
      rw [map_cons, Indents.inRun_cons_succ] at hrun
      exact .inr ⟨i, node, by simpa using hnode, hcollapsed, by omega, hrun⟩
  · rintro (⟨hcollapsed, hall⟩ | ⟨i, node, hnode, hcollapsed, hne, hrun⟩)
    · exact ⟨0, first, rfl, hcollapsed, by omega, hzero.mpr hall⟩
    · refine ⟨i + 1, node, by simpa using hnode, hcollapsed, by omega, ?_⟩
      rwa [map_cons, Indents.inRun_cons_succ]

/-- **What the loop hides**: the run it is in, and those of the collapsed toggles. -/
theorem mem_hiddenFrom_iff {offset : ℕ} {hidingFrom : Option ℕ} (hj : j < nodes.length) :
    offset + sizeBefore nodes j ∈ hiddenFrom offset hidingFrom nodes ↔
      (∃ h ∈ hidingFrom, ∀ m node, m ≤ j → nodes[m]? = some node → h < node.indent) ∨
        IsFolded nodes j := by
  induction nodes generalizing j offset hidingFrom with
  | nil => simp at hj
  | cons first nodes ih =>
    have hhides : hidingFrom.any (· < first.indent) = true ↔
        ∃ h ∈ hidingFrom, h < first.indent := by
      cases hidingFrom <;> simp
    cases j with
    | zero =>
      have hlater : ∀ now, offset ∉ hiddenFrom (offset + first.nodeSize) now nodes := by
        intro now hmem
        have := le_of_mem_hiddenFrom hmem
        have := first.nodeSize_pos
        omega
      have hhead : (∃ h ∈ hidingFrom, ∀ m node, m ≤ 0 → (first :: nodes)[m]? = some node →
          h < node.indent) ↔ ∃ h ∈ hidingFrom, h < first.indent := by
        refine exists_congr fun h => and_congr_right fun _ =>
          ⟨fun hall => hall 0 first le_rfl rfl, ?_⟩
        intro hlt m node hm hnode
        obtain rfl : m = 0 := Nat.le_zero.mp hm
        obtain rfl : first = node := by simpa using hnode
        exact hlt
      rw [hhead, or_iff_left not_isFolded_zero, ← hhides, hiddenFrom]
      simp only [sizeBefore, take_zero, map_nil, sum_nil, Nat.add_zero]
      split
      · rename_i hhidden
        exact iff_of_true mem_cons_self hhidden
      · rename_i hshown
        exact iff_of_false (hlater _) hshown
    | succ j =>
      have hj' : j < nodes.length := by simpa using hj
      have hplace : offset + sizeBefore (first :: nodes) (j + 1) =
          offset + first.nodeSize + sizeBefore nodes j := by
        rw [sizeBefore_cons_succ, Nat.add_assoc]
      have hne : offset + first.nodeSize + sizeBefore nodes j ≠ offset := by
        have := first.nodeSize_pos
        omega
      rw [hplace, hiddenFrom, isFolded_cons_succ hj']
      split
      · rename_i hhidden
        obtain ⟨h, hh, hlt⟩ := hhides.mp hhidden
        obtain rfl : hidingFrom = some h := hh
        rw [mem_cons, or_iff_right hne, ih hj']
        simp only [mem_some_iff, exists_eq_left']
        constructor
        · rintro (hall | hfolded)
          · refine .inl fun m node hm hnode => ?_
            cases m with
            | zero =>
              obtain rfl : first = node := by simpa using hnode
              exact hlt
            | succ m => exact hall m node (by omega) (by simpa using hnode)
          · exact .inr (.inr hfolded)
        · rintro (hall | ⟨-, hall⟩ | hfolded)
          · exact .inl fun m node hm hnode =>
              hall (m + 1) node (by omega) (by simpa using hnode)
          · -- what is under the toggle is in the run it is in itself
            exact .inl fun m node hm hnode => hlt.trans (hall m node hm hnode)
          · exact .inr hfolded
      · rename_i hshown
        have hno : ¬ ∃ h ∈ hidingFrom, ∀ m node, m ≤ j + 1 → (first :: nodes)[m]? = some node →
            h < node.indent :=
          fun ⟨h, hh, hall⟩ => hshown (hhides.mpr ⟨h, hh, hall 0 first (by omega) rfl⟩)
        rw [ih hj', or_iff_right hno]
        split
        · rename_i hcollapsed
          simp [hcollapsed]
        · rename_i hopen
          simp [hopen]

theorem mem_hiddenBlockPositions_iff (hj : j < nodes.length) :
    sizeBefore nodes j ∈ hiddenBlockPositions nodes ↔ IsFolded nodes j := by
  have h := @mem_hiddenFrom_iff js nodes j 0 none hj
  rwa [Nat.zero_add, or_iff_right (by simp)] at h

/-! ### The levels of the server -/

theorem readIndent_eq (attrs : YMap JsValue) :
    BlockTree.readIndent js attrs = min (readIndent js attrs) maxBlockDepth := by
  unfold BlockTree.readIndent readIndent
  generalize attrs.get BlockAttrs.indent = raw
  split
  · rfl
  · rfl
  · rfl
  · rfl
  · rename_i raw _ _ _
    cases hparsed : js.parseInt (js.toText raw) with
    | none => simp [hparsed]
    | some parsed => simp [hparsed]

/-- A stack that holds one block of each level. -/
def IsLadder : Stack → Prop
  | [] => True
  | top :: rest => top.2 = rest.length ∧ IsLadder rest

theorem clampIndent_eq {stack : Stack} (h : IsLadder stack) (raw : ℕ) :
    clampIndent stack raw = min raw stack.length := by
  cases stack with
  | nil => rfl
  | cons top rest =>
    rw [clampIndent, List.head?_cons, map_some, getD_some, h.1, length_cons]

theorem IsLadder.popStack {stack : Stack} (h : IsLadder stack) {indent : ℕ}
    (hle : indent ≤ stack.length) :
    IsLadder (popStack stack indent) ∧ (BlockTree.popStack stack indent).length = indent := by
  induction stack with
  | nil => exact ⟨trivial, (Nat.le_zero.mp hle).symm⟩
  | cons top rest ih =>
    rw [BlockTree.popStack, dropWhile_cons]
    split
    · rename_i hdrop
      exact ih h.2 (h.1 ▸ of_decide_eq_true hdrop)
    · rename_i hstay
      rw [decide_eq_true_eq, h.1] at hstay
      rw [length_cons] at hle ⊢
      exact ⟨h, by omega⟩

variable {parentId : Option String} {baseDepth : ℕ} {stack : Stack}

theorem flatten_visitGroups (stack : Stack) (content : List XmlNode) :
    (visitGroups js parentId baseDepth stack content).flatten =
      visitNodes js parentId baseDepth stack content := by
  induction content generalizing stack with
  | nil => rfl
  | cons node content ih => rw [visitGroups, flatten_cons, ih, visitNodes]

/-- **What is read of a sibling** is a block on its level, and deeper ones. -/
theorem areGroups_visitGroups (h : IsLadder stack) :
    AreGroups ((visitGroups js parentId baseDepth stack (nodes.map BlockNode.toXml)).map
        (List.map TreeBlock.entry))
      ((levels maxBlockDepth stack.length (nodes.map BlockNode.indent)).map (baseDepth + ·)) := by
  induction nodes generalizing stack with
  | nil => exact List.Forall₂.nil
  | cons node nodes ih =>
    obtain ⟨level, hlevel⟩ : ∃ level, clampIndent stack (BlockTree.readIndent js node.attrs) =
      level := ⟨_, rfl⟩
    have hmin : level = min (min node.indent maxBlockDepth) stack.length := by
      rw [← hlevel, clampIndent_eq h, readIndent_eq, BlockNode.indent]
    obtain ⟨habove, hlength⟩ := h.popStack (show level ≤ stack.length by omega)
    rw [map_cons, visitGroups, map_cons, map_cons, levels, map_cons, ← hmin]
    have hnext : IsLadder ((node.id, level) :: BlockTree.popStack stack level) :=
      ⟨hlength.symm, habove⟩
    obtain ⟨block, inside, hvisit, hdepth, hinside⟩ : ∃ block inside,
        visitNode js parentId baseDepth stack node.toXml =
          (block :: inside, (node.id, level) :: BlockTree.popStack stack level) ∧
        block.depth = baseDepth + level ∧ ∀ b ∈ inside, baseDepth + level < b.depth := by
      rw [BlockNode.toXml, visitNode]
      simp only [node.hasId, hlevel]
      refine ⟨_, _, rfl, congrArg (baseDepth + ·) hlength, fun b hb => ?_⟩
      split at hb
      · split at hb
        · simp at hb
        · have hle := BlockTree.le_depth_visitNodes _ _ [] node.children b hb
          rw [blockOf, hlength] at hle
          exact hle
      · simp at hb
    rw [hvisit]
    refine List.Forall₂.cons ⟨_, _, rfl, hdepth, fun e he => ?_⟩ ?_
    · obtain ⟨b, hb, rfl⟩ := List.mem_map.mp he
      exact hinside b hb
    · have hrest := ih hnext
      rwa [length_cons, hlength] at hrest

namespace Siblings

variable {s : Siblings js}

theorem read_eq : s.read = s.before ++ (s.groups.map (List.map TreeBlock.entry)).flatten := by
  rw [read, ← map_flatten, groups, flatten_visitGroups]

theorem length_groups : (s.groups.map (List.map TreeBlock.entry)).length = s.nodes.length := by
  rw [groups, (@areGroups_visitGroups js s.nodes s.parentId s.baseDepth [] trivial).length_eq,
    length_map, Indents.length_levels, length_map]

/-- **The descendants of a sibling**, as they are read, are what is read of the siblings of its
run, by the levels. -/
theorem inSubtree_place_iff (hi : i < s.nodes.length) {b : ℕ} :
    InSubtree s.read (s.place i) b ↔ ∃ k, InRun (levels maxBlockDepth 0 s.indents) i k ∧
      s.place k ≤ b ∧ b < s.place (k + 1) := by
  have hgroups := @areGroups_visitGroups js s.nodes s.parentId s.baseDepth [] trivial
  have hstart : ∀ k, groupStart (s.groups.map (List.map TreeBlock.entry)) k =
      groupStart s.groups k := by
    intro k
    rw [groupStart, groupStart, ← map_take, ← map_flatten, length_map]
  have houtline : IsOutline s.read :=
    (BlockTree.isOutline_visitNodes s.parentId s.baseDepth [] s.before s.outline s.container trivial
      _)
  have hnodup : (s.read.map OutlineEntry.key).Nodup := s.nodup
  rw [read_eq] at houtline hnodup ⊢
  have h := houtline.inSubtree_start_iff hnodup hgroups (length_groups ▸ hi) (b := b)
  simp only [hstart, Indents.inRun_map_add] at h
  exact h

theorem place_lt_succ (hj : j < s.nodes.length) : s.place j < s.place (j + 1) := by
  have hgroups := @areGroups_visitGroups js s.nodes s.parentId s.baseDepth [] trivial
  have hj' : j < (s.groups.map (List.map TreeBlock.entry)).length := by rwa [length_groups]
  obtain ⟨head, rest, hcons, -⟩ := hgroups.get hj' (hgroups.length_eq ▸ hj')
  obtain ⟨g, hg⟩ : ∃ g, s.groups[j]? = some g :=
    ⟨_, List.getElem?_eq_getElem (by simpa using hj')⟩
  have hsame : g.map TreeBlock.entry = head :: rest := by
    rw [← hcons, get_eq_getElem, getElem_map]
    exact congrArg _ ((List.getElem?_eq_some_iff.mp hg).2).symm
  have hlength := congrArg List.length hsame
  rw [length_map, length_cons] at hlength
  rw [place, place, Indents.groupStart_succ hg]
  omega

theorem place_mem_iff (hk : k < s.nodes.length) (hj : j < s.nodes.length) :
    (s.place k ≤ s.place j ∧ s.place j < s.place (k + 1)) ↔ k = j := by
  constructor
  · rintro ⟨hle, hlt⟩
    by_contra hne
    rcases Nat.lt_or_gt_of_ne hne with hkj | hjk
    · have hmono : s.place (k + 1) ≤ s.place j :=
        Nat.add_le_add_left (Indents.groupStart_mono (by omega)) _
      omega
    · have hmono : s.place (j + 1) ≤ s.place k :=
        Nat.add_le_add_left (Indents.groupStart_mono (by omega)) _
      have := place_lt_succ hj
      omega
  · rintro rfl
    exact ⟨le_rfl, place_lt_succ hk⟩

theorem inSubtree_place_place_iff (hi : i < s.nodes.length) (hj : j < s.nodes.length) :
    InSubtree s.read (s.place i) (s.place j) ↔ InRun (levels maxBlockDepth 0 s.indents) i j := by
  have hlength : (levels maxBlockDepth 0 s.indents).length = s.nodes.length := by
    rw [Indents.length_levels, indents, length_map]
  rw [inSubtree_place_iff hi]
  constructor
  · rintro ⟨k, hrun, hplace⟩
    obtain rfl := (place_mem_iff (hlength ▸ hrun.2.1) hj).mp hplace
    exact hrun
  · exact fun hrun => ⟨j, hrun, (place_mem_iff hj hj).mpr rfl⟩

/-- **The ranges cover what is read as descendants** exactly where the indents are even. -/
theorem isEven_iff_range : IsEven maxBlockDepth s.indents ↔
    ∀ parentStart i range, blockRangeAt s.nodes parentStart i = some range → ∀ b,
      InSubtree s.read (s.place i) b ↔
        ∃ k, range.Covers s.nodes parentStart k ∧ s.place k ≤ b ∧ b < s.place (k + 1) := by
  rw [← Indents.inRun_levels_iff_isEven]
  constructor
  · intro hsame parentStart i range hrange b
    obtain ⟨node, hnode, -⟩ := map_eq_some_iff.mp hrange
    rw [inSubtree_place_iff (List.getElem?_eq_some_iff.mp hnode).1]
    simp only [covers_blockRangeAt_iff hrange, hsame]
    rfl
  · intro hcovers i j
    by_cases hj : i ≤ j ∧ j < s.nodes.length
    · have hi : i < s.nodes.length := by omega
      obtain ⟨range, hrange⟩ : ∃ range, blockRangeAt s.nodes 0 i = some range := by
        rw [blockRangeAt, List.getElem?_eq_getElem hi]
        exact ⟨_, rfl⟩
      rw [← inSubtree_place_place_iff hi hj.2, hcovers 0 i range hrange]
      constructor
      · rintro ⟨k, hk, hplace⟩
        obtain rfl := (place_mem_iff hk.1 hj.2).mp hplace
        exact (covers_blockRangeAt_iff hrange).mp hk
      · exact fun hrun => ⟨j, (covers_blockRangeAt_iff hrange).mpr hrun,
          (place_mem_iff hj.2 hj.2).mpr rfl⟩
    · refine iff_of_false (fun h => hj ⟨h.1, ?_⟩) (fun h => hj ⟨h.1, ?_⟩)
      · simpa [Indents.length_levels, indents] using h.2.1
      · simpa [indents] using h.2.1

theorem sameTree_of_isEven (heven : IsEven maxBlockDepth s.indents) : s.SameTree := by
  refine ⟨isEven_iff_range.mp heven, fun j hj => ?_⟩
  have hsame := Indents.inRun_levels_iff_isEven.mpr heven
  rw [mem_hiddenBlockPositions_iff hj, IsFolded]
  refine exists_congr fun i => exists_congr fun node => and_congr_right fun hnode =>
    and_congr_right fun _ => and_congr_right fun _ => ?_
  rw [inSubtree_place_place_iff (List.getElem?_eq_some_iff.mp hnode).1 hj, hsame]
  rfl

/-- **The editor and the server mean one tree** exactly where the indents are even. -/
theorem sameTree_iff (s : Siblings js) : s.SameTree ↔ IsEven maxBlockDepth s.indents :=
  ⟨fun h => isEven_iff_range.mpr h.range, sameTree_of_isEven⟩

end Siblings

/-! ### Indents that jump -/

/-- The language where the digits a text starts with are a number. -/
def digits : Js := { Js.ascii with
  parseInt := fun text =>
    let ds := text.toList.takeWhile Char.isDigit
    if ds = [] then none else some (ds.foldl (fun n c => 10 * n + (c.toNat - 48)) 0 : ℕ) }

def attrsOf (id indent : String) (collapsed : Bool) : YMap JsValue :=
  ((YMap.empty.set BlockAttrs.id (.string id)).set BlockAttrs.indent (.string indent)).set
    "collapsed" (.boolean collapsed)

def blockAt (nodeName id indent : String) (collapsed : Bool)
    (hasId : blockId digits (attrsOf id indent collapsed) = some id) : BlockNode digits where
  nodeName
  attrs := attrsOf id indent collapsed
  children := []
  id
  hasId
  nodeSize := 2
  nodeSize_pos := by decide

/-- A collapsed toggle two levels further in than the block before it, and a block beside it. -/
def jumpingBlocks : Siblings digits :=
  .ofPage [blockAt "paragraph" "a" "0" false (by decide +kernel),
    blockAt "toggle" "b" "2" true (by decide +kernel),
    blockAt "paragraph" "c" "2" false (by decide +kernel)] (by decide +kernel)

/-- **The editor and the server can mean different trees**: the server reads both indents of 2
one level further in than what is before them, so that the last block is under the toggle, which
neither covers nor hides it. -/
theorem not_sameTree_jumpingBlocks : ¬ ∀ (js : Js) (s : Siblings js), s.SameTree := by
  intro hall
  have heven := Siblings.isEven_iff_range.mpr (hall digits jumpingBlocks).range
  have hindents : jumpingBlocks.indents = [0, 2, 2] := by decide +kernel
  rw [hindents] at heven
  have hlt := heven.jump 1 2 2 2 (by decide) rfl rfl (.inr (.inl (by decide)))
    fun m t hm hle ht => ?_
  · exact absurd hlt (by decide)
  · obtain rfl : m = 2 := by omega
    obtain rfl : 2 = t := by simpa using ht
    exact .inr (.inl (by decide))

end Editor

end Sone
