import Sone.Doc.BlockTree

/-!
# Places in a fragment

What stands in a fragment stands in an element, and that in another, up to the page. A `Frame` is
such an element without what is in it, and a place is a list of frames from the outside in; `fill`
puts nodes there.

The walk of `readBlockTree` comes to a place (`Reached`) where every element around it is a block
and none is too deep. `visitNodes_fill`: the blocks of the page are then those that come before,
those of the element at the place, and those that come after, and of the element these take only
its id and its indent. `visitNodes_fill_of_not_reached`: elsewhere nothing is read of the element.
-/

namespace Sone

open List

namespace BlockTree

/-! ### Frames -/

/-- **An element around a place**, with its siblings. -/
structure Frame where
  before : List XmlNode
  nodeName : String
  attributes : YMap JsValue
  after : List XmlNode

def Frame.around (f : Frame) (children : List XmlNode) : List XmlNode :=
  f.before ++ .element f.nodeName f.attributes children :: f.after

/-- A fragment, of the elements around a place and the nodes at it. -/
def fill (frames : List Frame) (nodes : List XmlNode) : List XmlNode :=
  frames.foldr Frame.around nodes

/-- The ancestors for the next child of a container, after a child. -/
def nextStack (js : Js) (stack : Stack) : XmlNode → Stack
  | .text _ | .other => stack
  | .element _ attributes _ =>
    match blockId js attributes with
    | none => stack
    | some id =>
      let indent := clampIndent stack (readIndent js attributes)
      (id, indent) :: popStack stack indent

def stackAfter (js : Js) (stack : Stack) (nodes : List XmlNode) : Stack :=
  nodes.foldl (nextStack js) stack

/-- The ancestors a block is under by its indent. -/
def stackAbove (js : Js) (stack : Stack) (attributes : YMap JsValue) : Stack :=
  popStack stack (clampIndent stack (readIndent js attributes))

/-- `block.depth`, of the block of a frame in a container. -/
def Frame.depth (js : Js) (baseDepth : ℕ) (f : Frame) : ℕ :=
  baseDepth + (stackAbove js (stackAfter js [] f.before) f.attributes).length

/-- No element around a place is so deep that what is inside is ignored. -/
def WithinLimit (js : Js) : ℕ → List Frame → Prop
  | _, [] => True
  | baseDepth, f :: frames =>
    f.depth js baseDepth + 1 ≤ maxBlockDepth ∧ WithinLimit js (f.depth js baseDepth + 1) frames

/-- **The walk comes to a place**: all around it are blocks, and none is too deep. -/
def Reached (js : Js) (baseDepth : ℕ) (frames : List Frame) : Prop :=
  (∀ f ∈ frames, (blockId js f.attributes).isSome = true) ∧ WithinLimit js baseDepth frames

variable {js : Js} {parentId : Option String} {baseDepth : ℕ} {stack : Stack}
  {nodes before after : List XmlNode}

/-! ### The walk along a list -/

theorem getElem?_middle_of_ne {α : Type*} {pre rest : List α} {a a' : α} {j : ℕ}
    (h : j ≠ pre.length) : (pre ++ a :: rest)[j]? = (pre ++ a' :: rest)[j]? := by
  rcases Nat.lt_or_gt_of_ne h with hlt | hgt
  · rw [List.getElem?_append_left hlt, List.getElem?_append_left hlt]
  · rw [List.getElem?_append_right hgt.le, List.getElem?_append_right hgt.le,
      List.getElem?_cons, List.getElem?_cons, if_neg (by omega), if_neg (by omega)]

theorem snd_visitNode (node : XmlNode) :
    (visitNode js parentId baseDepth stack node).2 = nextStack js stack node := by
  cases node with
  | element nodeName attributes children =>
    rw [visitNode, nextStack]
    cases blockId js attributes <;> rfl
  | text t => rfl
  | other => rfl

theorem visitNodes_append (before nodes : List XmlNode) :
    visitNodes js parentId baseDepth stack (before ++ nodes) =
      visitNodes js parentId baseDepth stack before ++
        visitNodes js parentId baseDepth (stackAfter js stack before) nodes := by
  induction before generalizing stack with
  | nil => rfl
  | cons node before ih =>
    rw [cons_append, visitNodes, visitNodes, ih, snd_visitNode, append_assoc]
    rfl

theorem visitNodes_middle (before after : List XmlNode) (node : XmlNode) :
    visitNodes js parentId baseDepth stack (before ++ node :: after) =
      visitNodes js parentId baseDepth stack before ++
        ((visitNode js parentId baseDepth (stackAfter js stack before) node).1 ++
          visitNodes js parentId baseDepth (nextStack js (stackAfter js stack before) node)
            after) := by
  rw [visitNodes_append, visitNodes, snd_visitNode]

theorem inlineNodes_append (depth : ℕ) (before nodes : List XmlNode) :
    inlineNodes js depth (before ++ nodes) =
      inlineNodes js depth before ++ inlineNodes js depth nodes := by
  induction before with
  | nil => simp [inlineNodes]
  | cons node before ih => rw [cons_append, inlineNodes, inlineNodes, ih, String.append_assoc]

theorem inlineNodes_middle (depth : ℕ) (before after : List XmlNode) (node : XmlNode) :
    inlineNodes js depth (before ++ node :: after) =
      inlineNodes js depth before ++ (inlineNode js depth node ++ inlineNodes js depth after) := by
  rw [inlineNodes_append, inlineNodes]

/-! ### A block at a place -/

section Block

variable {frames : List Frame} {nodeName id : String} {indent : ℕ} {attributes : YMap JsValue}
  {children : List XmlNode}

/-- **The text of what is around a block** has nothing of the block. -/
theorem inlineNodes_fill_block (hid : blockId js attributes = some id) (depth : ℕ) :
    inlineNodes js depth (fill frames (before ++ .element nodeName attributes children :: after)) =
      inlineNodes js depth (fill frames (before ++ after)) := by
  induction frames generalizing depth with
  | nil =>
    have hnode : inlineNode js depth (.element nodeName attributes children) = "" := by
      rw [inlineNode, hid, if_pos (Option.isSome_some)]
    change inlineNodes js depth (before ++ _ :: after) = inlineNodes js depth (before ++ after)
    rw [inlineNodes_middle, hnode, inlineNodes_append, String.empty_append]
  | cons f frames ih =>
    change inlineNodes js depth (f.around (fill frames _)) =
      inlineNodes js depth (f.around (fill frames _))
    rw [Frame.around, inlineNodes_middle, Frame.around, inlineNodes_middle, inlineNode, inlineNode,
      ih]

theorem hasBlockChildren_around (f : Frame) (nodes : List XmlNode) :
    hasBlockChildren js (f.around nodes) = hasBlockChildren js (f.around []) := by
  simp [hasBlockChildren, Frame.around]

theorem hasBlockChildren_fill_block (hid : blockId js attributes = some id) :
    hasBlockChildren js (fill frames (before ++ .element nodeName attributes children :: after)) =
      ((frames.head?.map fun f => hasBlockChildren js (f.around [])).getD true) := by
  cases frames with
  | nil => simp [fill, hasBlockChildren, hid]
  | cons f frames => exact hasBlockChildren_around f _

theorem visitNode_element (hid : blockId js attributes = some id) :
    (visitNode js parentId baseDepth stack (.element nodeName attributes children)).1 =
      blockOf js id nodeName attributes children parentId baseDepth
          (stackAbove js stack attributes) ::
        if nodeName ∈ structuralBlockTypes ∨ hasBlockChildren js children = true then
          if maxBlockDepth < baseDepth + (stackAbove js stack attributes).length + 1 then []
          else visitNodes js (some id) (baseDepth + (stackAbove js stack attributes).length + 1) []
            children
        else [] := by
  rw [visitNode, hid]
  rfl

theorem nextStack_element (hid : blockId js attributes = some id) :
    nextStack js stack (.element nodeName attributes children) =
      (id, clampIndent stack (readIndent js attributes)) :: stackAbove js stack attributes := by
  rw [nextStack, hid]
  rfl

theorem visitNodes_around {f : Frame} (hid : blockId js f.attributes = some id) :
    visitNodes js parentId baseDepth [] (f.around children) =
      visitNodes js parentId baseDepth [] f.before ++
        (blockOf js id f.nodeName f.attributes children parentId baseDepth
            (stackAbove js (stackAfter js [] f.before) f.attributes) ::
          (if f.nodeName ∈ structuralBlockTypes ∨ hasBlockChildren js children = true then
            if maxBlockDepth < f.depth js baseDepth + 1 then []
            else visitNodes js (some id) (f.depth js baseDepth + 1) [] children
          else []) ++
          visitNodes js parentId baseDepth
            (nextStack js (stackAfter js [] f.before) (.element f.nodeName f.attributes []))
            f.after) := by
  rw [Frame.around, visitNodes_middle, visitNode_element hid, nextStack_element hid,
    nextStack_element hid]
  rfl

theorem visitNodes_around_of_none {f : Frame} (hid : blockId js f.attributes = none) :
    visitNodes js parentId baseDepth [] (f.around children) =
      visitNodes js parentId baseDepth [] f.before ++
        visitNodes js parentId baseDepth (stackAfter js [] f.before) f.after := by
  rw [Frame.around, visitNodes_middle, visitNode, nextStack, hid]
  rfl

theorem blockOf_congr {children' : List XmlNode}
    (h : inlineNodes js 0 children = inlineNodes js 0 children') :
    blockOf js id nodeName attributes children parentId baseDepth stack =
      blockOf js id nodeName attributes children' parentId baseDepth stack := by
  rw [blockOf, h, ← blockOf]

/-- **The blocks of a page**, of a block at a place the walk comes to. -/
theorem visitNodes_fill (nodeName id : String) (indent : ℕ) (before after : List XmlNode)
    (h : Reached js baseDepth frames) :
    ∃ pre post parentId' baseDepth' stack', ∀ attributes children,
      blockId js attributes = some id → readIndent js attributes = indent →
        visitNodes js parentId baseDepth []
            (fill frames (before ++ .element nodeName attributes children :: after)) =
          pre ++ ((visitNode js parentId' baseDepth' stack'
            (.element nodeName attributes children)).1 ++ post) := by
  induction frames generalizing parentId baseDepth with
  | nil =>
    obtain ⟨stack', hstack'⟩ : ∃ stack', stack' = stackAfter js [] before := ⟨_, rfl⟩
    refine ⟨visitNodes js parentId baseDepth [] before, visitNodes js parentId baseDepth
      ((id, clampIndent stack' indent) :: popStack stack' (clampIndent stack' indent)) after,
      parentId, baseDepth, stack', fun attributes children hid hindent => ?_⟩
    change visitNodes js parentId baseDepth [] (before ++ _ :: after) = _
    rw [visitNodes_middle, nextStack_element hid, ← hstack', stackAbove, hindent]
  | cons f frames ih =>
    obtain ⟨hblocks, hdeep, hlimit⟩ := h
    obtain ⟨hblock, hblocks⟩ := forall_mem_cons.mp hblocks
    obtain ⟨frameId, hframe⟩ := Option.isSome_iff_exists.mp hblock
    obtain ⟨pre, post, parentId', baseDepth', stack', hinside⟩ :=
      @ih (some frameId) (f.depth js baseDepth + 1) ⟨hblocks, hlimit⟩
    have hcontainer : (frames.head?.map fun g => hasBlockChildren js (g.around [])).getD true =
        true := by
      cases frames with
      | nil => rfl
      | cons next frames =>
        have hnext := (forall_mem_cons.mp hblocks).1
        simp [hasBlockChildren, Frame.around, hnext]
    -- the text of the frame is that of the place without the block
    refine ⟨visitNodes js parentId baseDepth [] f.before ++
      blockOf js frameId f.nodeName f.attributes (fill frames (before ++ after)) parentId baseDepth
        (stackAbove js (stackAfter js [] f.before) f.attributes) :: pre,
      post ++ visitNodes js parentId baseDepth
        (nextStack js (stackAfter js [] f.before) (.element f.nodeName f.attributes [])) f.after,
      parentId', baseDepth', stack', fun attributes children hid hindent => ?_⟩
    change visitNodes js parentId baseDepth [] (f.around (fill frames _)) = _
    rw [visitNodes_around hframe, hasBlockChildren_fill_block hid, if_pos (.inr hcontainer),
      if_neg (by omega), hinside attributes children hid hindent,
      blockOf_congr (inlineNodes_fill_block hid 0)]
    simp only [append_assoc, cons_append]

/-- **Elsewhere nothing is read** of the block. -/
theorem visitNodes_fill_of_not_reached (nodeName id : String) (before after : List XmlNode)
    (h : ¬ Reached js baseDepth frames) :
    ∃ blocks, ∀ attributes children, blockId js attributes = some id →
      visitNodes js parentId baseDepth []
        (fill frames (before ++ .element nodeName attributes children :: after)) = blocks := by
  induction frames generalizing parentId baseDepth with
  | nil => exact absurd ⟨by simp, trivial⟩ h
  | cons f frames ih =>
    cases hframe : blockId js f.attributes with
    | none =>
      -- the frame is passed over with all that is in it
      refine ⟨visitNodes js parentId baseDepth [] f.before ++
        visitNodes js parentId baseDepth (stackAfter js [] f.before) f.after, ?_⟩
      exact fun attributes children _ => visitNodes_around_of_none hframe
    | some frameId =>
      -- the frame is listed, and its inside is ignored or has no more of the block
      obtain ⟨inside, hinside⟩ : ∃ inside, ∀ attributes children, blockId js attributes = some id →
          (if maxBlockDepth < f.depth js baseDepth + 1 then []
            else visitNodes js (some frameId) (f.depth js baseDepth + 1) []
              (fill frames (before ++ .element nodeName attributes children :: after))) =
            inside := by
        by_cases hdeep : maxBlockDepth < f.depth js baseDepth + 1
        · exact ⟨[], fun _ _ _ => if_pos hdeep⟩
        · have hinside : ¬ Reached js (f.depth js baseDepth + 1) frames := by
            rintro ⟨hblocks, hlimit⟩
            refine h ⟨forall_mem_cons.mpr ⟨?_, hblocks⟩, by omega, hlimit⟩
            rw [hframe, Option.isSome_some]
          obtain ⟨blocks, hblocks⟩ := @ih (some frameId) _ hinside
          refine ⟨blocks, fun attributes children hid => ?_⟩
          rw [if_neg hdeep, hblocks attributes children hid]
      refine ⟨visitNodes js parentId baseDepth [] f.before ++
        (blockOf js frameId f.nodeName f.attributes (fill frames (before ++ after)) parentId
            baseDepth (stackAbove js (stackAfter js [] f.before) f.attributes) ::
          (if f.nodeName ∈ structuralBlockTypes ∨
            (frames.head?.map fun g => hasBlockChildren js (g.around [])).getD true = true then
            inside else []) ++
          visitNodes js parentId baseDepth
            (nextStack js (stackAfter js [] f.before) (.element f.nodeName f.attributes []))
            f.after), fun attributes children hid => ?_⟩
      change visitNodes js parentId baseDepth [] (f.around (fill frames _)) = _
      rw [visitNodes_around hframe, hasBlockChildren_fill_block hid,
        hinside attributes children hid, blockOf_congr (inlineNodes_fill_block hid 0)]

end Block

end BlockTree

end Sone
