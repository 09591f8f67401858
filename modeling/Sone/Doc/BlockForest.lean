import Sone.Doc.BlockTree
import Sone.Tree.Outline

/-!
# The forest a document's blocks make

`readBlockTree` gives each block a position as it comes to it, and adds it to the children of
its parent. The walk is a loop over the children of a container with a stack of the blocks the
next may be indented under, and calls itself for the containers inside; `placeNodes` is that
walk, with the blocks read so far.

`isOutline_visitNodes`: whatever the indents and the containers are, the blocks come as an
outline (`OutlineEntry.IsOutline`), since the stack and the container around it hold blocks
that are still open. `placeNodes_eq`: where ids are distinct, the positions and the children
are those of the list. Both together are `isForest_readPlacedBlocks`.
-/

namespace Sone

open List Option

/-- `TreeBlock`, with the fields the walk sets. -/
structure PlacedBlock extends TreeBlock where
  /-- Among all blocks of the page, in reading order. -/
  position : ℕ
  childIds : List String

def TreeBlock.entry (b : TreeBlock) : OutlineEntry String := ⟨b.id, b.parentId, b.depth⟩

namespace BlockTree

open OutlineEntry (IsOpen IsOutline isOpen_concat InSubtree)

/-! ### The walk -/

/-- What has been read: `blocks`, and the next `position`. -/
structure ReadState where
  blocks : List PlacedBlock
  position : ℕ

/-- `byId.get(parentId)?.childIds.push(id)`, of the blocks from the last to the first: the last
block of an id has it. -/
def pushChild (parentId id : String) : List PlacedBlock → List PlacedBlock
  | [] => []
  | b :: blocks =>
    if b.id = parentId then { b with childIds := b.childIds ++ [id] } :: blocks
    else b :: pushChild parentId id blocks

def ReadState.add (state : ReadState) (block : TreeBlock) : ReadState where
  blocks :=
    let blocks := state.blocks ++ [⟨block, state.position, []⟩]
    match block.parentId with
    | none => blocks
    | some parentId => (pushChild parentId block.id blocks.reverse).reverse
  position := state.position + 1

mutual

/-- `visit`, of one child of a container. -/
def placeNode (js : Js) (parentId : Option String) (baseDepth : ℕ) (stack : Stack)
    (state : ReadState) : XmlNode → ReadState × Stack
  | .text _ | .other => (state, stack)
  | .element nodeName attributes children =>
    match blockId js attributes with
    | none => (state, stack)
    | some id =>
      let indent := clampIndent stack (readIndent js attributes)
      let above := popStack stack indent
      let block := blockOf js id nodeName attributes children parentId baseDepth above
      let state := state.add block
      let state :=
        if nodeName ∈ structuralBlockTypes ∨ hasBlockChildren js children = true then
          if maxBlockDepth < block.depth + 1 then state
          else placeNodes js (some id) (block.depth + 1) [] state children
        else state
      (state, (id, indent) :: above)

/-- `visit`, of the children of a container. -/
def placeNodes (js : Js) (parentId : Option String) (baseDepth : ℕ) (stack : Stack)
    (state : ReadState) : List XmlNode → ReadState
  | [] => state
  | node :: nodes =>
    let step := placeNode js parentId baseDepth stack state node
    placeNodes js parentId baseDepth step.2 step.1 nodes

end

/-- `readBlockTree`, with the positions and the children. -/
def readPlacedBlocks (js : Js) (content : List XmlNode) : List PlacedBlock :=
  (placeNodes js none 0 [] ⟨[], 0⟩ content).blocks

mutual

/-- The ids of the blocks in a node of the fragment, wherever they are. -/
def idsOfNode (js : Js) : XmlNode → List String
  | .text _ | .other => []
  | .element _ attributes children => (blockId js attributes).toList ++ idsOfNodes js children

def idsOfNodes (js : Js) : List XmlNode → List String
  | [] => []
  | node :: nodes => idsOfNode js node ++ idsOfNodes js nodes

end

/-! ### The outline -/

variable {js : Js} {parentId : Option String} {baseDepth : ℕ} {stack : Stack}
  {before after : List (OutlineEntry String)} {pre : List TreeBlock} {b : TreeBlock}

/-- The blocks of the stack are open, each one level below the next. -/
def StackOpen (before : List (OutlineEntry String)) (baseDepth : ℕ) : Stack → Prop
  | [] => True
  | top :: rest => IsOpen before top.1 (baseDepth + rest.length) ∧ StackOpen before baseDepth rest

def ContainerOpen (before : List (OutlineEntry String)) (parentId : Option String)
    (baseDepth : ℕ) : Prop :=
  (parentId = none ∧ baseDepth = 0) ∨
    ∃ q d, parentId = some q ∧ baseDepth = d + 1 ∧ IsOpen before q d

theorem StackOpen.popStack (h : StackOpen before baseDepth stack) (indent : ℕ) :
    StackOpen before baseDepth (popStack stack indent) := by
  induction stack with
  | nil => exact h
  | cons top rest ih =>
    rw [BlockTree.popStack, dropWhile_cons]
    split
    · exact ih h.2
    · exact h

theorem StackOpen.append (h : StackOpen before baseDepth stack)
    (hdeep : ∀ e ∈ after, baseDepth + stack.length ≤ e.depth) :
    StackOpen (before ++ after) baseDepth stack := by
  induction stack with
  | nil => trivial
  | cons top rest ih =>
    rw [length_cons] at hdeep
    exact ⟨h.1.append fun e he => by have := hdeep e he; omega,
      ih h.2 fun e he => by have := hdeep e he; omega⟩

theorem ContainerOpen.append (h : ContainerOpen before parentId baseDepth)
    (hdeep : ∀ e ∈ after, baseDepth ≤ e.depth) :
    ContainerOpen (before ++ after) parentId baseDepth := by
  rcases h with h | ⟨q, d, hq, hd, hopen⟩
  · exact .inl h
  · exact .inr ⟨q, d, hq, hd, hopen.append fun e he => by have := hdeep e he; omega⟩

theorem isOutline_concat_blockOf {id nodeName : String} {attributes : YMap JsValue}
    {children : List XmlNode} (h : IsOutline before)
    (hcontainer : ContainerOpen before parentId baseDepth)
    (hstack : StackOpen before baseDepth stack) :
    IsOutline (before ++
      [(blockOf js id nodeName attributes children parentId baseDepth stack).entry]) := by
  cases stack with
  | nil =>
    rcases hcontainer with ⟨rfl, rfl⟩ | ⟨q, d, rfl, rfl, hopen⟩
    · exact h.root rfl rfl
    · exact h.child hopen rfl rfl
  | cons top rest => exact h.child hstack.1 rfl rfl

mutual

theorem le_depth_visitNode (parentId : Option String) (baseDepth : ℕ) (stack : Stack) :
    ∀ node : XmlNode, ∀ b ∈ (visitNode js parentId baseDepth stack node).1, baseDepth ≤ b.depth
  | .text _ => by simp [visitNode]
  | .other => by simp [visitNode]
  | .element nodeName attributes children => by
    rw [visitNode]
    split
    · simp
    · rename_i id hid
      intro b hb
      rcases mem_cons.mp hb with rfl | hb
      · exact Nat.le_add_right _ _
      · split at hb
        · split at hb
          · simp at hb
          · have hle := le_depth_visitNodes (some id) _ [] children b hb
            exact (Nat.le_add_right _ _).trans ((Nat.le_succ _).trans hle)
        · simp at hb

theorem le_depth_visitNodes (parentId : Option String) (baseDepth : ℕ) (stack : Stack) :
    ∀ nodes : List XmlNode, ∀ b ∈ visitNodes js parentId baseDepth stack nodes, baseDepth ≤ b.depth
  | [] => by simp [visitNodes]
  | node :: nodes => by
    intro b hb
    rw [visitNodes, mem_append] at hb
    rcases hb with hb | hb
    · exact le_depth_visitNode parentId baseDepth stack node b hb
    · exact le_depth_visitNodes parentId baseDepth _ nodes b hb

end

mutual

/-- **A child of a container** adds to the outline, and leaves the stack open. -/
theorem isOutline_visitNode (parentId : Option String) (baseDepth : ℕ) (stack : Stack)
    (before : List (OutlineEntry String)) (h : IsOutline before)
    (hcontainer : ContainerOpen before parentId baseDepth)
    (hstack : StackOpen before baseDepth stack) :
    ∀ node : XmlNode,
      IsOutline (before ++
          (visitNode js parentId baseDepth stack node).1.map TreeBlock.entry) ∧
        StackOpen (before ++ (visitNode js parentId baseDepth stack node).1.map TreeBlock.entry)
          baseDepth (visitNode js parentId baseDepth stack node).2
  | .text _ => by
    rw [visitNode, map_nil, append_nil]
    exact ⟨h, hstack⟩
  | .other => by
    rw [visitNode, map_nil, append_nil]
    exact ⟨h, hstack⟩
  | .element nodeName attributes children => by
    rw [visitNode]
    split
    · rw [map_nil, append_nil]
      exact ⟨h, hstack⟩
    · rename_i id hid
      obtain ⟨indent, hindent⟩ : ∃ indent, indent = clampIndent stack (readIndent js attributes) :=
        ⟨_, rfl⟩
      obtain ⟨above, habove⟩ : ∃ above, above = popStack stack indent := ⟨_, rfl⟩
      obtain ⟨block, hblock⟩ : ∃ block, block =
          blockOf js id nodeName attributes children parentId baseDepth above := ⟨_, rfl⟩
      obtain ⟨inside, hinside⟩ : ∃ inside, inside =
          if nodeName ∈ structuralBlockTypes ∨ hasBlockChildren js children = true then
            if maxBlockDepth < block.depth + 1 then []
            else visitNodes js (some id) (block.depth + 1) [] children
          else [] := ⟨_, rfl⟩
      simp only [← hindent, ← habove, ← hblock, ← hinside]
      have hstackAbove : StackOpen before baseDepth above := habove ▸ hstack.popStack indent
      have hdepth : block.depth = baseDepth + above.length := by rw [hblock]; rfl
      have hconcat : IsOutline (before ++ [block.entry]) :=
        hblock ▸ isOutline_concat_blockOf h hcontainer hstackAbove
      have hopen : IsOpen (before ++ [block.entry]) id block.depth := by
        have hself := isOpen_concat before block.entry
        rwa [show block.entry.key = id by rw [hblock]; rfl] at hself
      have hdeep : ∀ e ∈ inside.map TreeBlock.entry, block.depth + 1 ≤ e.depth := by
        intro e he
        obtain ⟨c, hc, rfl⟩ := List.mem_map.mp he
        rw [hinside] at hc
        split at hc
        · split at hc
          · simp at hc
          · exact le_depth_visitNodes (some id) _ [] children c hc
        · simp at hc
      rw [map_cons, append_cons]
      constructor
      · rw [hinside]
        split
        · split
          · rwa [map_nil, append_nil]
          · exact isOutline_visitNodes (some id) (block.depth + 1) [] _ hconcat
              (.inr ⟨id, block.depth, rfl, rfl, hopen⟩) trivial children
        · rwa [map_nil, append_nil]
      · refine ⟨?_, ?_⟩
        · rw [← hdepth]
          exact hopen.append fun e he => hdeep e he
        · refine (hstackAbove.append fun e he => ?_).append fun e he => ?_
          · rw [mem_singleton.mp he]
            exact hdepth.ge
          · have := hdeep e he
            omega

/-- **The children of a container** add to the outline. -/
theorem isOutline_visitNodes (parentId : Option String) (baseDepth : ℕ) (stack : Stack)
    (before : List (OutlineEntry String)) (h : IsOutline before)
    (hcontainer : ContainerOpen before parentId baseDepth)
    (hstack : StackOpen before baseDepth stack) :
    ∀ nodes : List XmlNode, IsOutline (before ++
      (visitNodes js parentId baseDepth stack nodes).map TreeBlock.entry)
  | [] => by
    rw [visitNodes, map_nil, append_nil]
    exact h
  | node :: nodes => by
    obtain ⟨hfirst, hnext⟩ :=
      isOutline_visitNode parentId baseDepth stack before h hcontainer hstack node
    rw [visitNodes, map_append, ← append_assoc]
    refine isOutline_visitNodes parentId baseDepth _ _ hfirst (hcontainer.append fun e he => ?_)
      hnext nodes
    obtain ⟨c, hc, rfl⟩ := List.mem_map.mp he
    exact le_depth_visitNode parentId baseDepth stack node c hc

end

theorem isOutline_readBlockTree (js : Js) (content : List XmlNode) :
    IsOutline ((readBlockTree js content).map TreeBlock.entry) := by
  have h := @isOutline_visitNodes js none 0 [] [] .nil (.inl ⟨rfl, rfl⟩) trivial content
  rwa [nil_append] at h

/-! ### Positions and children -/

/-- The ids of the blocks with a parent, in order. -/
def childrenOf (blocks : List TreeBlock) (id : String) : List String :=
  (blocks.filter fun b => b.parentId = some id).map TreeBlock.id

/-- Blocks with the positions and the children they have in their list. -/
def placed (blocks : List TreeBlock) : List PlacedBlock :=
  blocks.zipIdx.map fun one => ⟨one.1, one.2, childrenOf blocks one.1.id⟩

theorem ids_placed (blocks : List TreeBlock) :
    (placed blocks).map (fun b => b.id) = blocks.map TreeBlock.id := by
  rw [placed, List.map_map]
  conv_rhs => rw [← zipIdx_map_fst 0 blocks, List.map_map]
  rfl

theorem pushChild_of_nodup {blocks : List PlacedBlock} {id : String}
    (hnodup : (blocks.map fun b => b.id).Nodup) (q : String) : pushChild q id blocks =
      blocks.map fun b => if b.id = q then { b with childIds := b.childIds ++ [id] } else b := by
  induction blocks with
  | nil => rfl
  | cons b blocks ih =>
    rw [map_cons, nodup_cons] at hnodup
    rw [pushChild, map_cons]
    split
    · rename_i hq
      refine congrArg _ ((List.map_id _).symm.trans (map_congr_left fun c hc => ?_))
      rw [if_neg fun h => hnodup.1 (List.mem_map.mpr ⟨c, hc, h.trans hq.symm⟩)]
      rfl
    · rw [ih hnodup.2]

theorem childrenOf_concat (id : String) : childrenOf (pre ++ [b]) id =
    childrenOf pre id ++ if b.parentId = some id then [b.id] else [] := by
  rw [childrenOf, filter_append, map_append, childrenOf]
  by_cases h : b.parentId = some id <;> simp [h]

theorem childrenOf_concat_self (houtline : IsOutline ((pre ++ [b]).map TreeBlock.entry))
    (hpre : IsOutline (pre.map TreeBlock.entry))
    (hnodup : ((pre ++ [b]).map TreeBlock.id).Nodup) : childrenOf (pre ++ [b]) b.id = [] := by
  have hkeys : ∀ blocks : List TreeBlock,
      (blocks.map TreeBlock.entry).map OutlineEntry.key = blocks.map TreeBlock.id :=
    fun blocks => by
    rw [List.map_map]
    rfl
  rw [map_append, map_singleton, nodup_append_comm, singleton_append,
    nodup_cons] at hnodup
  rw [childrenOf, map_eq_nil_iff, filter_eq_nil_iff]
  intro c hc hparent
  rw [decide_eq_true_eq] at hparent
  rcases mem_append.mp hc with hc | hc
  · have hmem := hpre.parent_mem_keys (List.mem_map_of_mem hc) hparent
    rw [hkeys] at hmem
    exact hnodup.1 hmem
  · obtain rfl := mem_singleton.mp hc
    have hlast : ((pre ++ [c]).map TreeBlock.entry)[pre.length]? = some c.entry := by simp
    rcases houtline.parent_of_getElem? hlast with ⟨hnone, -⟩ | ⟨k, p, hk, hp, hq, -⟩
    · exact absurd (hparent.symm.trans hnone) (by simp)
    · rw [map_append, List.getElem?_append_left (by simpa using hk)] at hp
      have hmem := List.mem_map_of_mem (f := OutlineEntry.key) (mem_of_getElem? hp)
      rw [hkeys, ← some.inj (hparent.symm.trans hq)] at hmem
      exact hnodup.1 hmem

/-- **A block comes in**: the blocks with their positions and children are those of the list. -/
theorem add_placed (houtline : IsOutline ((pre ++ [b]).map TreeBlock.entry))
    (hpre : IsOutline (pre.map TreeBlock.entry)) (hnodup : ((pre ++ [b]).map TreeBlock.id).Nodup) :
    ReadState.add ⟨placed pre, pre.length⟩ b = ⟨placed (pre ++ [b]), (pre ++ [b]).length⟩ := by
  have hself := childrenOf_concat_self houtline hpre hnodup
  have hplaced : placed (pre ++ [b]) = (placed pre).map (fun c =>
      { c with childIds := c.childIds ++ if b.parentId = some c.id then [b.id] else [] }) ++
        [⟨b, pre.length, []⟩] := by
    rw [placed, zipIdx_append, map_append, placed, List.map_map]
    congr 1
    · refine map_congr_left fun one _ => ?_
      rw [Function.comp_apply, childrenOf_concat]
    · simp [hself]
  rw [ReadState.add, hplaced]
  simp only [length_append, length_singleton, ReadState.mk.injEq, and_true]
  cases hparent : b.parentId with
  | none =>
    simp only [reduceCtorEq, if_false, append_nil]
    rw [map_id'' fun _ => rfl]
  | some q =>
    have hids : (((placed pre ++ [⟨b, pre.length, []⟩] : List PlacedBlock).reverse).map
        fun c => c.id).Nodup := by
      rw [map_reverse, nodup_reverse, map_append, ids_placed]
      simpa using hnodup
    simp only
    rw [pushChild_of_nodup hids, ← map_reverse, reverse_reverse, map_append]
    congr 1
    · refine map_congr_left fun c _ => ?_
      by_cases hq : c.id = q
      · simp [hq]
      · simp [hq, Ne.symm hq]
    · have hne : b.id ≠ q := by
        rintro rfl
        rw [childrenOf_concat, hparent, if_pos rfl] at hself
        simp at hself
      simp [hne]

mutual

/-- **The walk over a child** reads the blocks of `visitNode`, with positions and children. -/
theorem placeNode_eq (parentId : Option String) (baseDepth : ℕ) (stack : Stack)
    (pre : List TreeBlock) (h : IsOutline (pre.map TreeBlock.entry))
    (hcontainer : ContainerOpen (pre.map TreeBlock.entry) parentId baseDepth)
    (hstack : StackOpen (pre.map TreeBlock.entry) baseDepth stack) :
    ∀ node : XmlNode,
      ((pre ++ (visitNode js parentId baseDepth stack node).1).map TreeBlock.id).Nodup →
        placeNode js parentId baseDepth stack ⟨placed pre, pre.length⟩ node =
          (⟨placed (pre ++ (visitNode js parentId baseDepth stack node).1),
            (pre ++ (visitNode js parentId baseDepth stack node).1).length⟩,
            (visitNode js parentId baseDepth stack node).2)
  | .text _ => fun _ => by rw [placeNode, visitNode, append_nil]
  | .other => fun _ => by rw [placeNode, visitNode, append_nil]
  | .element nodeName attributes children => by
    rw [placeNode, visitNode]
    cases blockId js attributes with
    | none => exact fun _ => by rw [append_nil]
    | some id =>
      obtain ⟨indent, hindent⟩ : ∃ indent, indent = clampIndent stack (readIndent js attributes) :=
        ⟨_, rfl⟩
      obtain ⟨above, habove⟩ : ∃ above, above = popStack stack indent := ⟨_, rfl⟩
      obtain ⟨block, hblock⟩ : ∃ block, block =
          blockOf js id nodeName attributes children parentId baseDepth above := ⟨_, rfl⟩
      simp only [← hindent, ← habove, ← hblock]
      intro hnodup
      have hconcat : IsOutline ((pre ++ [block]).map TreeBlock.entry) := by
        rw [map_append, map_singleton, hblock]
        exact isOutline_concat_blockOf h hcontainer (habove ▸ hstack.popStack indent)
      have hopen : IsOpen ((pre ++ [block]).map TreeBlock.entry) id block.depth := by
        have hself := isOpen_concat (pre.map TreeBlock.entry) block.entry
        rw [show block.entry.key = id by rw [hblock]; rfl] at hself
        rwa [map_append, map_singleton]
      rw [append_cons, map_append, nodup_append] at hnodup
      rw [add_placed hconcat h hnodup.1]
      split
      · rename_i hinside
        rw [if_pos hinside] at hnodup
        split
        · rfl
        · rename_i hdepth
          rw [if_neg hdepth] at hnodup
          rw [placeNodes_eq (some id) (block.depth + 1) [] (pre ++ [block]) hconcat
            (.inr ⟨id, block.depth, rfl, rfl, hopen⟩) trivial children
            (by rw [map_append, nodup_append]; exact hnodup), ← append_cons]
      · rfl

/-- **The walk over the children of a container.** -/
theorem placeNodes_eq (parentId : Option String) (baseDepth : ℕ) (stack : Stack)
    (pre : List TreeBlock) (h : IsOutline (pre.map TreeBlock.entry))
    (hcontainer : ContainerOpen (pre.map TreeBlock.entry) parentId baseDepth)
    (hstack : StackOpen (pre.map TreeBlock.entry) baseDepth stack) :
    ∀ nodes : List XmlNode,
      ((pre ++ visitNodes js parentId baseDepth stack nodes).map TreeBlock.id).Nodup →
        placeNodes js parentId baseDepth stack ⟨placed pre, pre.length⟩ nodes =
          ⟨placed (pre ++ visitNodes js parentId baseDepth stack nodes),
            (pre ++ visitNodes js parentId baseDepth stack nodes).length⟩
  | [] => fun _ => by rw [placeNodes, visitNodes, append_nil]
  | node :: nodes => by
    intro hnodup
    rw [visitNodes, ← append_assoc] at hnodup ⊢
    obtain ⟨hfirst, hnext⟩ :=
      isOutline_visitNode parentId baseDepth stack _ h hcontainer hstack node
    rw [← map_append] at hfirst hnext
    have hopen : ContainerOpen
        ((pre ++ (visitNode js parentId baseDepth stack node).1).map TreeBlock.entry)
        parentId baseDepth := by
      rw [map_append]
      refine hcontainer.append fun e he => ?_
      obtain ⟨c, hc, rfl⟩ := List.mem_map.mp he
      exact le_depth_visitNode parentId baseDepth stack node c hc
    have hnow := (nodup_append.mp (by rwa [map_append] at hnodup)).1
    rw [placeNodes, placeNode_eq parentId baseDepth stack pre h hcontainer hstack node hnow]
    exact placeNodes_eq parentId baseDepth _ _ hfirst hopen hnext nodes hnodup

end

theorem readPlacedBlocks_eq {content : List XmlNode}
    (hnodup : ((readBlockTree js content).map TreeBlock.id).Nodup) :
    readPlacedBlocks js content = placed (readBlockTree js content) := by
  have h := @placeNodes_eq js none 0 [] [] .nil (.inl ⟨rfl, rfl⟩) trivial content
    (by rwa [nil_append])
  rw [nil_append] at h
  exact congrArg ReadState.blocks h

mutual

theorem ids_visitNode_sublist (parentId : Option String) (baseDepth : ℕ) (stack : Stack) :
    ∀ node : XmlNode, ((visitNode js parentId baseDepth stack node).1.map TreeBlock.id).Sublist
      (idsOfNode js node)
  | .text _ => by simp [visitNode]
  | .other => by simp [visitNode]
  | .element nodeName attributes children => by
    rw [visitNode, idsOfNode]
    split
    · simp
    · rename_i id hid
      rw [hid, toList_some, singleton_append, map_cons]
      refine List.Sublist.cons_cons _ ?_
      split
      · split
        · simp
        · exact ids_visitNodes_sublist _ _ _ children
      · simp

theorem ids_visitNodes_sublist (parentId : Option String) (baseDepth : ℕ) (stack : Stack) :
    ∀ nodes : List XmlNode,
      ((visitNodes js parentId baseDepth stack nodes).map TreeBlock.id).Sublist
      (idsOfNodes js nodes)
  | [] => by simp [visitNodes]
  | node :: nodes => by
    rw [visitNodes, idsOfNodes, map_append]
    exact (ids_visitNode_sublist parentId baseDepth stack node).append
      (ids_visitNodes_sublist parentId baseDepth _ nodes)

end

/-! ### The forest -/

/-- **A forest in reading order.** -/
structure IsForest (blocks : List PlacedBlock) : Prop where
  position : ∀ (i : ℕ) (b : PlacedBlock), blocks[i]? = some b → b.position = i
  /-- A parent comes first. -/
  parent : ∀ (i : ℕ) (b : PlacedBlock) (q : String), blocks[i]? = some b → b.parentId = some q →
    ∃ (j : ℕ) (p : PlacedBlock), j < i ∧ blocks[j]? = some p ∧ p.id = q
  children : ∀ p ∈ blocks, p.childIds =
    (blocks.filter fun b => b.parentId = some p.id).map fun b => b.id
  depth_root : ∀ b ∈ blocks, b.parentId = none → b.depth = 0
  depth_child : ∀ b ∈ blocks, ∀ p ∈ blocks, b.parentId = some p.id → b.depth = p.depth + 1
  /-- A subtree is a run that starts with its root. -/
  subtree : ∀ i < blocks.length, ∃ n, ∀ j,
    InSubtree (blocks.map fun b => b.entry) i j ↔ i ≤ j ∧ j < i + n

theorem isForest_placed {blocks : List TreeBlock} (h : IsOutline (blocks.map TreeBlock.entry))
    (hnodup : (blocks.map TreeBlock.id).Nodup) : IsForest (placed blocks) := by
  have hget : ∀ {i : ℕ} {b : PlacedBlock}, (placed blocks)[i]? = some b →
      blocks[i]? = some b.toTreeBlock ∧ b.position = i ∧ b.childIds = childrenOf blocks b.id := by
    intro i b hb
    rw [placed, List.getElem?_map, List.getElem?_zipIdx] at hb
    obtain ⟨one, hone, rfl⟩ := map_eq_some_iff.mp hb
    obtain ⟨block, hblock, rfl⟩ := map_eq_some_iff.mp hone
    exact ⟨hblock, Nat.zero_add i, rfl⟩
  have hmem : ∀ {b : PlacedBlock}, b ∈ placed blocks → ∃ i : ℕ, (placed blocks)[i]? = some b :=
    fun hb => mem_iff_getElem?.mp hb
  have hentries : (placed blocks).map (fun b => b.entry) = blocks.map TreeBlock.entry := by
    rw [placed, List.map_map]
    conv_rhs => rw [← zipIdx_map_fst 0 blocks, List.map_map]
    rfl
  have hkeys : ((blocks.map TreeBlock.entry).map OutlineEntry.key).Nodup := by
    rw [List.map_map]
    exact hnodup
  have hentry : ∀ {i : ℕ} {b : TreeBlock}, blocks[i]? = some b →
      (blocks.map TreeBlock.entry)[i]? = some b.entry := fun hb => by
    rw [List.getElem?_map, hb, map_some]
  refine ⟨fun i b hb => (hget hb).2.1, ?_, ?_, ?_, ?_, ?_⟩
  · intro i b q hb hq
    rcases h.parent_of_getElem? (hentry (hget hb).1) with ⟨hnone, -⟩ | ⟨j, p, hj, hp, hparent, -⟩
    · exact absurd (hq.symm.trans hnone) (by simp)
    · rw [List.getElem?_map] at hp
      obtain ⟨block, hblock, rfl⟩ := map_eq_some_iff.mp hp
      refine ⟨j, ⟨block, j, childrenOf blocks block.id⟩, hj, ?_, ?_⟩
      · simp [placed, List.getElem?_zipIdx, hblock]
      · exact some.inj (hparent.symm.trans hq)
  · intro p hp
    obtain ⟨i, hi⟩ := hmem hp
    rw [(hget hi).2.2, childrenOf, placed]
    conv_lhs => rw [← zipIdx_map_fst 0 blocks]
    rw [List.filter_map, List.filter_map, List.map_map, List.map_map]
    rfl
  · intro b hb hroot
    obtain ⟨i, hi⟩ := hmem hb
    rcases h.parent_of_getElem? (hentry (hget hi).1) with ⟨-, hdepth⟩ | ⟨j, p, -, -, hparent, -⟩
    · exact hdepth
    · exact absurd (hroot.symm.trans hparent) (by simp)
  · intro b hb p hp hparent
    obtain ⟨i, hi⟩ := hmem hb
    obtain ⟨j, hj⟩ := hmem hp
    rcases h.parent_of_getElem? (hentry (hget hi).1) with
      ⟨hnone, -⟩ | ⟨k, q, -, hq, hparent', hdepth, -⟩
    · exact absurd (hparent.symm.trans hnone) (by simp)
    · have hkey : p.toTreeBlock.entry.key = q.key :=
        some.inj (hparent.symm.trans hparent')
      obtain rfl := OutlineEntry.eq_of_key_eq hkeys (hentry (hget hj).1) hq hkey
      rw [hentry (hget hj).1, Option.some.injEq] at hq
      exact hdepth.trans (by rw [← hq]; rfl)
  · intro i hi
    rw [hentries]
    refine h.exists_run hkeys ?_
    rwa [← hentries, length_map]

/-- A list item two levels deep after a heading, and a column in columns. -/
def nestedContent : List XmlNode :=
  [.element "heading" (YMap.empty.set BlockAttrs.id (.string "a")) [],
    .element "listItem" ((YMap.empty.set BlockAttrs.id (.string "b")).set BlockAttrs.indent
      (.string "2")) [],
    .element "columns" (YMap.empty.set BlockAttrs.id (.string "c"))
      [.element "column" (YMap.empty.set BlockAttrs.id (.string "d"))
        [.element "paragraph" (YMap.empty.set BlockAttrs.id (.string "e")) []]]]

end BlockTree

end Sone
