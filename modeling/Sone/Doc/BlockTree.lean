import Sone.Doc.Text
import Sone.Doc.Schema

/-!
# The block tree of a document

`doc/blockTree.ts`: a page's body is a fragment, and a block is an element of it that has an
id. `readBlockTree` lists the blocks in reading order. A block is under another in two ways: it
is indented under one before it, or it is inside a container; and what has no id is passed over.
`parentId_mem_readBlockTree`: the parent of a block is a block that is listed.

`mentionsIn` and `linksIn` walk the same fragment for the people and the pages that are named
in it, each once in a block.
-/

namespace Sone

open List

/-- `MAX_BLOCK_DEPTH` -/
def maxBlockDepth : ℕ := 32

structure TreeBlock where
  id : String
  type : String
  parentId : Option String
  /-- How deep it is, by its indent and by the containers around it. -/
  depth : ℕ
  props : JsValue
  /-- The text in it, without marks. -/
  text : String

namespace BlockTree

variable (js : Js)

/-- `element.getAttribute(BLOCK_ATTRS.id)`, where it is truthy: whatever has an id is a block. -/
def blockId (attributes : YMap JsValue) : Option String :=
  ((attributes.get BlockAttrs.id).filter JsValue.truthy).map fun
    | .string s => s
    | value => js.toText value

def coerceAttribute (raw : String) : JsValue :=
  match raw with
  | "true" => .boolean true
  | "false" => .boolean false
  | "null" => .null
  | "" => .string ""
  | _ =>
    match js.toNumber (.string raw) with
    | .finite n =>
      -- only what round-trips is a number
      if js.toText (.number (.finite n)) = raw then .number (.finite n) else .string raw
    | _ => .string raw

/-- The attribute as a property, if it is one. What is assigned to `__proto__` is not kept. -/
def derivedProp (key : String) (value : JsValue) : Option JsValue :=
  if key ∈ [BlockAttrs.id, BlockAttrs.props, BlockAttrs.indent, "__proto__"] then none
  else match value with
    | .string s => some (coerceAttribute js s)
    | value => some value

def parseProps (raw : Option JsValue) : List (String × JsValue) :=
  match raw with
  | some (.string s) =>
    match js.parseJson s with
    | some (.object fields) => fields
    | _ => []
  | _ => []

/-- `readAllProps`: what the `props` attribute has wins. -/
def readAllProps (attributes : YMap JsValue) : JsValue :=
  .object (((YMap.empty.assign attributes.rows (derivedProp js)).assign
    (parseProps js (attributes.get BlockAttrs.props)) fun _ value => some value).rows)

/-- `MENTION_NODE` -/
def mentionNode : String := "mention"

def mentionLabel (attributes : YMap JsValue) : String :=
  ((attributes.get "label").bind JsValue.string?).getD ""

mutual

/-- What a node contributes to the text of the element it is in. -/
def inlineNode (depth : ℕ) : XmlNode → String
  | .text t => t.toString
  | .other => ""
  | .element nodeName attributes children =>
    if (blockId js attributes).isSome then ""
    else if nodeName = mentionNode then "@" ++ mentionLabel attributes
    else if maxBlockDepth < depth + 1 then ""
    else inlineNodes (depth + 1) children

/-- `inlineText`, of the children of an element. -/
def inlineNodes (depth : ℕ) : List XmlNode → String
  | [] => ""
  | node :: nodes => inlineNode depth node ++ inlineNodes depth nodes

end

def readIndent (attributes : YMap JsValue) : ℕ :=
  match attributes.get BlockAttrs.indent with
  | none | some .undefined | some .null | some (.string "") => 0
  | some raw =>
    match js.parseInt (js.toText raw) with
    | some n => min n.toNat maxBlockDepth
    | none => 0

def hasBlockChildren (children : List XmlNode) : Bool :=
  children.any fun
    | .element _ attributes _ => (blockId js attributes).isSome
    | _ => false

/-- The ancestors implied by indentation, innermost first. -/
abbrev Stack := List (String × ℕ)

/-- One level below the innermost at most. -/
def clampIndent (stack : Stack) (rawIndent : ℕ) : ℕ :=
  min rawIndent ((stack.head?.map fun top => top.2 + 1).getD 0)

/-- The ancestors a block of an indent is under. -/
def popStack (stack : Stack) (indent : ℕ) : Stack := stack.dropWhile fun top => indent ≤ top.2

def blockOf (id nodeName : String) (attributes : YMap JsValue) (children : List XmlNode)
    (parentId : Option String) (baseDepth : ℕ) (stack : Stack) : TreeBlock where
  id := id
  type := nodeName
  parentId := (stack.head?.map Prod.fst).or parentId
  depth := baseDepth + stack.length
  props := readAllProps js attributes
  text := inlineNodes js 0 children

mutual

/-- `visit`, of one child of a container: its blocks, and the ancestors for the next. -/
def visitNode (parentId : Option String) (baseDepth : ℕ) (stack : Stack) :
    XmlNode → List TreeBlock × Stack
  | .text _ | .other => ([], stack)
  | .element nodeName attributes children =>
    match blockId js attributes with
    | none => ([], stack)
    | some id =>
      let indent := clampIndent stack (readIndent js attributes)
      let above := popStack stack indent
      let block := blockOf js id nodeName attributes children parentId baseDepth above
      let inside :=
        if nodeName ∈ structuralBlockTypes ∨ hasBlockChildren js children = true then
          if maxBlockDepth < block.depth + 1 then []
          else visitNodes (some id) (block.depth + 1) [] children
        else []
      (block :: inside, (id, indent) :: above)

/-- `visit`, of the children of a container. -/
def visitNodes (parentId : Option String) (baseDepth : ℕ) (stack : Stack) :
    List XmlNode → List TreeBlock
  | [] => []
  | node :: nodes =>
    (visitNode parentId baseDepth stack node).1 ++
      visitNodes parentId baseDepth (visitNode parentId baseDepth stack node).2 nodes

end

/-- `readBlockTree`: the blocks, each at its position. -/
def readBlockTree (content : List XmlNode) : List TreeBlock := visitNodes js none 0 [] content

/-! ### Mentions and links -/

/-- The block a node is in, given the one around it: attributes that are strings count. -/
def withinOf (attributes : YMap JsValue) (blockId : Option String) : Option String :=
  (((attributes.get BlockAttrs.id).bind JsValue.string?).filter (· ≠ "")).or blockId

/-- A mention as the walk finds it: who, in which block, and where in the fragment. -/
structure FoundMention where
  userId : String
  blockId : String
  path : List ℕ

mutual

/-- `walk` of `mentionsIn`, at one node. -/
def mentionNodeAt (blockId : Option String) (depth : ℕ) (path : List ℕ) :
    XmlNode → List FoundMention
  | .text _ | .other => []
  | .element nodeName attributes children =>
    let within := withinOf attributes blockId
    if nodeName = mentionNode then
      match ((attributes.get "userId").bind JsValue.string?).filter (· ≠ ""), within with
      | some userId, some block => [⟨userId, block, path⟩]
      | _, _ => []
    else if maxBlockDepth < depth + 1 then []
    else mentionNodesFrom within (depth + 1) path 0 children

/-- `walk` of `mentionsIn`. -/
def mentionNodesFrom (blockId : Option String) (depth : ℕ) (path : List ℕ) (i : ℕ) :
    List XmlNode → List FoundMention
  | [] => []
  | node :: nodes =>
    mentionNodeAt blockId depth (path ++ [i]) node ++
      mentionNodesFrom blockId depth path (i + 1) nodes

end

structure FoundLink where
  pageId : String
  blockId : String
  toBlockId : Option String
  deriving DecidableEq

/-- `PAGE_HREF`, from the character after `p/`. -/
def pageAfter (cs : List Char) : Option String := do
  let rest ← takeUuid cs
  match rest with
  | [] | '/' :: _ | '?' :: _ | '#' :: _ => some (String.ofList (cs.take 36))
  | _ => none

/-- `PAGE_HREF`, at a place a segment starts. -/
def pageSegment : List Char → Option String
  | 'p' :: '/' :: cs | 'P' :: '/' :: cs => pageAfter cs
  | _ => none

/-- `PAGE_HREF`, at the first slash it matches after. -/
def pageInPath : List Char → Option String
  | [] => none
  | '/' :: cs => (pageSegment cs).or (pageInPath cs)
  | _ :: cs => pageInPath cs

def pageFromHref (href : String) : Option (String × Option String) :=
  let path := href.toList.takeWhile (· ≠ '#')
  let fragment := (href.toList.dropWhile (· ≠ '#')).drop 1
  let address := path.takeWhile (· ≠ '?')
  ((pageSegment address).or (pageInPath address)).map fun page =>
    (String.ofList (page.toList.map Char.toLower), match fragment with
      | 'b' :: '-' :: c :: cs => some (String.ofList (c :: cs))
      | _ => none)

def linksOfText (blockId : String) (t : YText) : List FoundLink :=
  t.toDelta.filterMap fun op =>
    ((((op.attributes.get "link").filter JsValue.isObject).bind fun mark =>
      (mark.get "href").string?).bind pageFromHref).map fun target =>
        ⟨target.1, blockId, target.2⟩

mutual

/-- `walk` of `linksIn`, at one node. -/
def linkNodeAt (blockId : Option String) (depth : ℕ) : XmlNode → List FoundLink
  | .text t =>
    match blockId with
    | some block => linksOfText block t
    | none => []
  | .other => []
  | .element _ attributes children =>
    if maxBlockDepth < depth + 1 then []
    else linkNodesFrom (withinOf attributes blockId) (depth + 1) children

/-- `walk` of `linksIn`. -/
def linkNodesFrom (blockId : Option String) (depth : ℕ) : List XmlNode → List FoundLink
  | [] => []
  | node :: nodes => linkNodeAt blockId depth node ++ linkNodesFrom blockId depth nodes

end

def onceBy {α κ : Type*} [DecidableEq κ] (key : α → κ) : List κ → List α → List α
  | _, [] => []
  | seen, a :: rest =>
    if key a ∈ seen then onceBy key seen rest else a :: onceBy key (key a :: seen) rest

/-- `mentionsIn`, of the blocks that are listed. -/
def mentionsIn (content : List XmlNode) : List FoundMention :=
  onceBy (fun one => one.userId ++ String.singleton (Char.ofNat 0) ++ one.blockId) []
    ((mentionNodesFrom none 0 [] 0 content).filter fun one =>
      one.blockId ∈ (readBlockTree js content).map TreeBlock.id)

/-- `linksIn`, of the blocks that are listed. -/
def linksIn (content : List XmlNode) : List FoundLink :=
  onceBy (fun link => link.pageId ++ " " ++ link.blockId) []
    ((linkNodesFrom none 0 content).filter fun link =>
      link.blockId ∈ (readBlockTree js content).map TreeBlock.id)

/-! ### Parents are blocks -/

variable {js} {parentId : Option String} {baseDepth : ℕ} {stack : Stack}

theorem mem_popStack {indent : ℕ} {entry : String × ℕ} (h : entry ∈ popStack stack indent) :
    entry ∈ stack :=
  (dropWhile_sublist _).mem h

theorem parentId_blockOf {id nodeName : String} {attributes : YMap JsValue}
    {children : List XmlNode} {q : String}
    (h : q ∈ (blockOf js id nodeName attributes children parentId baseDepth stack).parentId) :
    q ∈ stack.map Prod.fst ∨ q ∈ parentId := by
  cases stack with
  | nil => exact .inr h
  | cons top rest =>
    obtain rfl : top.1 = q := Option.some.inj h
    exact .inl mem_cons_self

mutual

theorem parentId_mem_visitNode (parentId : Option String) (baseDepth : ℕ) (stack : Stack) :
    ∀ node : XmlNode,
      (∀ b ∈ (visitNode js parentId baseDepth stack node).1, ∀ q ∈ b.parentId,
        q ∈ (visitNode js parentId baseDepth stack node).1.map TreeBlock.id ∨
          q ∈ stack.map Prod.fst ∨ q ∈ parentId) ∧
      ∀ q ∈ (visitNode js parentId baseDepth stack node).2.map Prod.fst,
        q ∈ (visitNode js parentId baseDepth stack node).1.map TreeBlock.id ∨
          q ∈ stack.map Prod.fst
  | .text _ => by simp [visitNode]
  | .other => by simp [visitNode]
  | .element nodeName attributes children => by
    rw [visitNode]
    split
    · simp
    · rename_i id hid
      obtain ⟨indent, hindent⟩ : ∃ indent, indent = clampIndent stack (readIndent js attributes) :=
        ⟨_, rfl⟩
      obtain ⟨above, habove⟩ : ∃ above, above = popStack stack indent := ⟨_, rfl⟩
      have hstack : ∀ q ∈ above.map Prod.fst, q ∈ stack.map Prod.fst := by
        intro q hq
        obtain ⟨entry, hentry, rfl⟩ := List.mem_map.mp hq
        exact List.mem_map_of_mem (mem_popStack (habove ▸ hentry))
      simp only [← hindent, ← habove]
      have hinside := parentId_mem_visitNodes (some id)
        ((blockOf js id nodeName attributes children parentId baseDepth above).depth + 1) []
        children
      constructor
      · intro b hb q hq
        rcases mem_cons.mp hb with rfl | hb
        · exact .inr ((parentId_blockOf hq).imp_left (hstack q))
        · refine .inl ?_
          split at hb
          · rename_i hcontainer
            split at hb
            · simp at hb
            · rename_i hdeep
              rw [if_pos hcontainer, if_neg hdeep, map_cons, mem_cons]
              rcases hinside b hb q hq with h | h | h
              · exact .inr h
              · simp at h
              · exact .inl (Option.some.inj h).symm
          · simp at hb
      · intro q hq
        rw [map_cons, mem_cons] at hq ⊢
        rcases hq with rfl | hq
        · exact .inl (by simp [blockOf])
        · exact .inr (hstack q hq)

theorem parentId_mem_visitNodes (parentId : Option String) (baseDepth : ℕ) (stack : Stack) :
    ∀ nodes : List XmlNode, ∀ b ∈ visitNodes js parentId baseDepth stack nodes, ∀ q ∈ b.parentId,
      q ∈ (visitNodes js parentId baseDepth stack nodes).map TreeBlock.id ∨
        q ∈ stack.map Prod.fst ∨ q ∈ parentId
  | [] => by simp [visitNodes]
  | node :: nodes => by
    intro b hb q hq
    obtain ⟨hfirst, hnext⟩ := parentId_mem_visitNode parentId baseDepth stack node
    rw [visitNodes, mem_append] at hb
    rw [visitNodes, map_append, mem_append]
    rcases hb with hb | hb
    · exact (hfirst b hb q hq).imp_left .inl
    · rcases parentId_mem_visitNodes parentId baseDepth _ nodes b hb q hq with h | h | h
      · exact .inl (.inr h)
      · exact (hnext q h).imp .inl .inl
      · exact .inr (.inr h)

end

theorem parentId_mem_readBlockTree {content : List XmlNode} {b : TreeBlock}
    (hb : b ∈ readBlockTree js content) {q : String} (hq : q ∈ b.parentId) :
    q ∈ (readBlockTree js content).map TreeBlock.id := by
  rcases parentId_mem_visitNodes none 0 [] content b hb q hq with h | h | h
  · exact h
  · simp at h
  · simp at h

end BlockTree

end Sone
