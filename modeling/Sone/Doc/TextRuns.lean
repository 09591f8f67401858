import Sone.Doc.Places

/-!
# Where the text of a page goes

The text of a page is in its blocks: `inlineText` of a block goes through elements without an id
and stops at those that have one, since what is in them is the text of a block of its own. So a
run of text is for the innermost element around it with an id, which the walk of `readBlockTree`
has to list.

`OwnedRun` is such a run, without its text. It counts once where the listed blocks are the same
but for one, the block of that element, in whose text the run stands at one place (`CountsOnce`);
it counts nowhere where no text has anything of it (`CountsNowhere`). One or the other is always
so: the run counts once where every element around the innermost block is a block itself and no
mention is between, within the depth that is read (`IsRead`). A block in an element without an id
is not listed, and its text is lost.
-/

namespace Sone

open List

namespace BlockTree

/-- **A run of text in a block**: the innermost element around it with an id, the elements around
that, and those between it and the run. -/
structure OwnedRun (js : Js) where
  above : List Frame
  owner : Frame
  id : String
  owner_id : blockId js owner.attributes = some id
  between : List Frame
  between_id : ∀ f ∈ between, blockId js f.attributes = none
  before : List XmlNode
  after : List XmlNode

namespace OwnedRun

variable {js : Js}

def children (r : OwnedRun js) (t : YText) : List XmlNode :=
  fill r.between (r.before ++ .text t :: r.after)

def fragment (r : OwnedRun js) (t : YText) : List XmlNode :=
  fill r.above (r.owner.around (r.children t))

def IsOwn (r : OwnedRun js) (t : YText) (block : TreeBlock) : Prop :=
  ∃ parentId baseDepth stack, block =
    blockOf js r.id r.owner.nodeName r.owner.attributes (r.children t) parentId baseDepth stack

/-- **The run counts once**: one of the listed blocks is that of the innermost element, with the
run at one place of its text, and no other text depends on the run. -/
def CountsOnce (r : OwnedRun js) : Prop :=
  ∃ (k : ℕ) (a b : String),
    (∀ t, ∃ block, (readBlockTree js (r.fragment t))[k]? = some block ∧ r.IsOwn t block ∧
      block.text = a ++ t.toString ++ b) ∧
    ∀ j ≠ k, ∀ t t', (readBlockTree js (r.fragment t))[j]?.map TreeBlock.text =
      (readBlockTree js (r.fragment t'))[j]?.map TreeBlock.text

/-- **The run counts nowhere**: no text depends on it. -/
def CountsNowhere (r : OwnedRun js) : Prop :=
  ∀ t t', (readBlockTree js (r.fragment t)).map TreeBlock.text =
    (readBlockTree js (r.fragment t')).map TreeBlock.text

/-- **The run is within the depth limit** of both walks. -/
structure WithinDepth (r : OwnedRun js) : Prop where
  above : WithinLimit js 0 r.above
  between : r.between.length ≤ maxBlockDepth

/-- **The run is read.** -/
structure IsRead (r : OwnedRun js) : Prop where
  /-- Around the innermost block there are only blocks. -/
  blocks : ∀ f ∈ r.above, (blockId js f.attributes).isSome = true
  /-- What is in a mention is not read: it has a label. -/
  mentions : ∀ f ∈ r.between, f.nodeName ≠ mentionNode
  depth : r.WithinDepth

end OwnedRun

variable {js : Js}

/-! ### The text of the innermost block -/

section Between

variable {between : List Frame} {before after : List XmlNode} {depth : ℕ}

/-- **A run that is spelled** stands at one place of the text. -/
theorem inlineNodes_fill_text (hid : ∀ f ∈ between, blockId js f.attributes = none)
    (hmention : ∀ f ∈ between, f.nodeName ≠ mentionNode)
    (hdepth : depth + between.length ≤ maxBlockDepth) :
    ∃ a b, ∀ t, inlineNodes js depth (fill between (before ++ .text t :: after)) =
      a ++ t.toString ++ b := by
  induction between generalizing depth with
  | nil =>
    refine ⟨inlineNodes js depth before, inlineNodes js depth after, fun t => ?_⟩
    change inlineNodes js depth (before ++ .text t :: after) = _
    rw [inlineNodes_middle, inlineNode, String.append_assoc]
  | cons f between ih =>
    obtain ⟨hf, hid⟩ := forall_mem_cons.mp hid
    obtain ⟨hname, hmention⟩ := forall_mem_cons.mp hmention
    rw [length_cons] at hdepth
    obtain ⟨a, b, hinside⟩ := ih hid hmention (show depth + 1 + between.length ≤ _ by omega)
    refine ⟨inlineNodes js depth f.before ++ a, b ++ inlineNodes js depth f.after, fun t => ?_⟩
    -- the frame is no block, no mention and not too deep, so its text is gone into
    change inlineNodes js depth (f.around (fill between _)) = _
    rw [Frame.around, inlineNodes_middle, inlineNode, hf, if_neg (by simp), if_neg hname,
      if_neg (by omega), hinside]
    simp only [String.append_assoc]

theorem inlineNodes_fill_text_of_not
    (h : ¬ ((∀ f ∈ between, f.nodeName ≠ mentionNode) ∧
      depth + between.length ≤ maxBlockDepth)) (hdepth : depth ≤ maxBlockDepth) (t t' : YText) :
    inlineNodes js depth (fill between (before ++ .text t :: after)) =
      inlineNodes js depth (fill between (before ++ .text t' :: after)) := by
  induction between generalizing depth with
  | nil => exact absurd ⟨by simp, by simpa using hdepth⟩ h
  | cons f between ih =>
    change inlineNodes js depth (f.around (fill between _)) =
      inlineNodes js depth (f.around (fill between _))
    rw [Frame.around, inlineNodes_middle, Frame.around, inlineNodes_middle, inlineNode, inlineNode]
    by_cases hname : f.nodeName = mentionNode
    · rw [if_pos hname, if_pos hname]
    · by_cases hdeep : maxBlockDepth < depth + 1
      · rw [if_pos hdeep, if_pos hdeep]
      · have hinside : ¬ ((∀ g ∈ between, g.nodeName ≠ mentionNode) ∧
            depth + 1 + between.length ≤ maxBlockDepth) := by
          rintro ⟨hmention, hlength⟩
          refine h ⟨forall_mem_cons.mpr ⟨hname, hmention⟩, ?_⟩
          rw [length_cons]
          omega
        rw [ih hinside (by omega)]

theorem visitNodes_fill_text {parentId : Option String}
    (hid : ∀ f ∈ between, blockId js f.attributes = none) (t t' : YText) :
    visitNodes js parentId depth [] (fill between (before ++ .text t :: after)) =
      visitNodes js parentId depth [] (fill between (before ++ .text t' :: after)) := by
  cases between with
  | nil =>
    change visitNodes js parentId depth [] (before ++ .text t :: after) =
      visitNodes js parentId depth [] (before ++ .text t' :: after)
    rw [visitNodes_middle, visitNodes_middle]
    rfl
  | cons f between =>
    have hf := (forall_mem_cons.mp hid).1
    change visitNodes js parentId depth [] (f.around (fill between _)) =
      visitNodes js parentId depth [] (f.around (fill between _))
    rw [visitNodes_around_of_none hf, visitNodes_around_of_none hf]

theorem hasBlockChildren_fill_text (t t' : YText) :
    hasBlockChildren js (fill between (before ++ .text t :: after)) =
      hasBlockChildren js (fill between (before ++ .text t' :: after)) := by
  cases between with
  | nil => simp [fill, hasBlockChildren]
  | cons f between =>
    change hasBlockChildren js (f.around (fill between _)) =
      hasBlockChildren js (f.around (fill between _))
    rw [hasBlockChildren_around, ← hasBlockChildren_around]

end Between

/-! ### Once or nowhere -/

namespace OwnedRun

variable (r : OwnedRun js)

/-- **The blocks of the innermost element** are its own and some that do not depend on the run. -/
theorem visitNode_owner (parentId : Option String) (baseDepth : ℕ) (stack : Stack) :
    ∃ inside, ∀ t, (visitNode js parentId baseDepth stack
        (.element r.owner.nodeName r.owner.attributes (r.children t))).1 =
      blockOf js r.id r.owner.nodeName r.owner.attributes (r.children t) parentId baseDepth
        (stackAbove js stack r.owner.attributes) :: inside := by
  refine ⟨(visitNode js parentId baseDepth stack
    (.element r.owner.nodeName r.owner.attributes (r.children {}))).1.tail, fun t => ?_⟩
  have hcontainer : hasBlockChildren js (r.children t) = hasBlockChildren js (r.children {}) :=
    hasBlockChildren_fill_text t {}
  have hinside : ∀ parentId depth, visitNodes js parentId depth [] (r.children t) =
      visitNodes js parentId depth [] (r.children {}) :=
    fun parentId depth => visitNodes_fill_text r.between_id t {}
  rw [visitNode_element r.owner_id, visitNode_element r.owner_id, tail_cons, hcontainer,
    hinside]

theorem readBlockTree_fragment (h : Reached js 0 r.above) :
    ∃ pre rest parentId baseDepth stack, ∀ t, readBlockTree js (r.fragment t) =
      pre ++ blockOf js r.id r.owner.nodeName r.owner.attributes (r.children t) parentId baseDepth
        stack :: rest := by
  obtain ⟨pre, post, parentId, baseDepth, stack, hfill⟩ := @visitNodes_fill js none 0 r.above
    r.owner.nodeName r.id (readIndent js r.owner.attributes) r.owner.before r.owner.after h
  obtain ⟨inside, hinside⟩ := r.visitNode_owner parentId baseDepth stack
  refine ⟨pre, inside ++ post, parentId, baseDepth, stackAbove js stack r.owner.attributes,
    fun t => ?_⟩
  rw [readBlockTree, fragment, Frame.around, hfill _ _ r.owner_id rfl, hinside, cons_append]

variable {r}

theorem IsRead.countsOnce (h : r.IsRead) : r.CountsOnce := by
  obtain ⟨pre, rest, parentId, baseDepth, stack, hread⟩ :=
    r.readBlockTree_fragment ⟨h.blocks, h.depth.above⟩
  obtain ⟨a, b, htext⟩ := @inlineNodes_fill_text js r.between r.before r.after 0 r.between_id
    h.mentions (by rw [Nat.zero_add]; exact h.depth.between)
  refine ⟨pre.length, a, b, fun t => ?_, fun j hj t t' => ?_⟩
  · refine ⟨_, ?_, ⟨parentId, baseDepth, stack, rfl⟩, htext t⟩
    rw [hread, List.getElem?_append_right le_rfl, Nat.sub_self]
    rfl
  · rw [hread, hread, getElem?_middle_of_ne hj]

/-- **Any other run** counts nowhere. -/
theorem countsNowhere_of_not_isRead (h : ¬ r.IsRead) : r.CountsNowhere := by
  intro t t'
  by_cases habove : Reached js 0 r.above
  · have hbetween : ¬ ((∀ f ∈ r.between, f.nodeName ≠ mentionNode) ∧
        0 + r.between.length ≤ maxBlockDepth) := by
      rintro ⟨hmention, hlength⟩
      exact h ⟨habove.1, hmention, habove.2, by omega⟩
    have htext : inlineNodes js 0 (r.children t) = inlineNodes js 0 (r.children t') :=
      inlineNodes_fill_text_of_not hbetween (Nat.zero_le _) t t'
    obtain ⟨pre, rest, parentId, baseDepth, stack, hread⟩ := r.readBlockTree_fragment habove
    rw [hread, hread, blockOf_congr htext]
  · obtain ⟨blocks, hblocks⟩ := @visitNodes_fill_of_not_reached js none 0 r.above
      r.owner.nodeName r.id r.owner.before r.owner.after habove
    rw [readBlockTree, fragment, Frame.around, hblocks _ _ r.owner_id, readBlockTree, fragment,
      Frame.around, hblocks _ _ r.owner_id]

theorem CountsNowhere.not_countsOnce (h : r.CountsNowhere) : ¬ r.CountsOnce := by
  rintro ⟨k, a, b, htext, -⟩
  obtain ⟨block, hblock, -, hempty⟩ := htext (YText.insert "")
  obtain ⟨block', hblock', -, hone⟩ := htext (YText.insert "x")
  have hsame : block.text = block'.text := by
    have hmap := congrArg (·[k]?) (h (YText.insert "") (YText.insert "x"))
    simpa [List.getElem?_map, hblock, hblock'] using hmap
  rw [hempty, hone, YText.toString_insert, YText.toString_insert] at hsame
  have hlength := congrArg String.length hsame
  simp at hlength

/-- **The text of a page**: a run in a block counts once, for the innermost block around it,
exactly where it is read, and otherwise nowhere. -/
theorem countsOnce_iff_isRead (r : OwnedRun js) :
    (r.CountsOnce ↔ r.IsRead) ∧ (r.CountsOnce ∨ r.CountsNowhere) := by
  by_cases h : r.IsRead
  · exact ⟨iff_of_true h.countsOnce h, .inl h.countsOnce⟩
  · have hnowhere := countsNowhere_of_not_isRead h
    exact ⟨iff_of_false hnowhere.not_countsOnce h, .inr hnowhere⟩

/-- A paragraph in an element without an id, in a paragraph. -/
def wrapped : OwnedRun .ascii where
  above := [⟨[], "paragraph", YMap.empty.set BlockAttrs.id (.string "a"), []⟩,
    ⟨[], "section", YMap.empty, []⟩]
  owner := ⟨[], "paragraph", YMap.empty.set BlockAttrs.id (.string "b"), []⟩
  id := "b"
  owner_id := rfl
  between := []
  between_id := by simp
  before := []
  after := []

/-- **Not every run within the depth limit counts once**: the text of a block is lost where it is
in an element without an id. -/
theorem not_countsOnce_of_withinDepth :
    ¬ ∀ r : OwnedRun .ascii, r.WithinDepth → r.CountsOnce := by
  intro hall
  have hnowhere : wrapped.CountsNowhere := countsNowhere_of_not_isRead fun h =>
    absurd (h.blocks ⟨[], "section", YMap.empty, []⟩ (by simp [wrapped])) (by decide)
  refine hnowhere.not_countsOnce (hall wrapped ⟨?_, by decide⟩)
  exact ⟨by decide, by decide, trivial⟩

end OwnedRun

end BlockTree

end Sone
