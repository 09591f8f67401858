import Mathlib.Data.List.Chain
import Mathlib.Data.List.TakeWhile

/-!
# Block operations that respect subtrees

The commands of `editor/src/blockOps.ts`. What is under a block are the siblings after it that are
indented more, so a list of siblings is what stands before a block, its run and what stands after,
and every command puts something in place of the run.

A block's parent is the last block before it that is indented less. What is after a run has it there
or before the run, as long as nothing in the run is indented less than its first block
(`keepsParents`). Only outdenting changes that: the later siblings of the block become its children
(`parentOf_outdented`).
-/

namespace Sone.BlockOps

open List Option Nat

/-- A block among its siblings, and what no command looks at. -/
structure Block (α : Type) where
  indent : ℕ
  id : Option String
  content : α
  deriving DecidableEq

/-- `BlockRange`, as far as it is looked at. -/
structure BlockRange where
  index : ℕ
  endIndex : ℕ
  indent : ℕ

variable {α : Type} (parent : List (Block α)) (index : ℕ)

def blockRangeAt : Option BlockRange :=
  parent[index]?.map fun node =>
    { index
      endIndex := index + 1 +
        ((parent.drop (index + 1)).takeWhile fun candidate => node.indent < candidate.indent).length
      indent := node.indent }

def nodesIn (range : BlockRange) : List (Block α) := (parent.take range.endIndex).drop range.index

def Block.shift (delta : ℤ) (node : Block α) : Block α :=
  { node with indent := (node.indent + delta).toNat }

@[simp]
theorem Block.indent_shift (delta : ℤ) (node : Block α) :
    (node.shift delta).indent = (node.indent + delta).toNat :=
  rfl

def shiftIndents (range : BlockRange) (delta : ℤ) : List (Block α) :=
  (nodesIn parent range).map (Block.shift delta)

/-- `tr.replaceWith`, from one place between siblings to another. -/
def replaceWith (start stop : ℕ) (nodes : List (Block α)) : List (Block α) :=
  parent.take start ++ nodes ++ parent.drop stop

def indentBlockSubtree : Option (List (Block α)) :=
  (blockRangeAt parent index).bind fun range =>
    if range.index = 0 then none
    else parent[range.index - 1]?.bind fun previous =>
      if range.indent > previous.indent then none
      else some (replaceWith parent range.index range.endIndex (shiftIndents parent range 1))

def outdentBlockSubtree : Option (List (Block α)) :=
  (blockRangeAt parent index).bind fun range =>
    if range.indent = 0 then none
    else some (replaceWith parent range.index range.endIndex (shiftIndents parent range (-1)))

/-- The loop of `moveBlockUp`, over the blocks before, the last of them first. -/
def walkBack (indent : ℕ) : List (Block α) → ℕ
  | [] => 0
  | node :: before =>
    if before = [] ∨ node.indent ≤ indent then before.length else walkBack indent before

/-- `moveBlockUp`, and where the block is then. -/
def moveBlockUp : Option (List (Block α) × ℕ) :=
  (blockRangeAt parent index).bind fun range =>
    if range.index = 0 then none
    else (blockRangeAt parent (walkBack range.indent (parent.take range.index).reverse)).bind
      fun previous =>
        if previous.indent ≠ range.indent then none
        else some (replaceWith parent previous.index range.endIndex
          (nodesIn parent range ++ nodesIn parent previous), previous.index)

/-- `moveBlockDown`, and where the block is then. -/
def moveBlockDown : Option (List (Block α) × ℕ) :=
  (blockRangeAt parent index).bind fun range =>
    (blockRangeAt parent range.endIndex).bind fun next =>
      if next.indent ≠ range.indent then none
      else some (replaceWith parent range.index next.endIndex
        (nodesIn parent next ++ nodesIn parent range), range.index + (nodesIn parent next).length)

def duplicateBlockSubtree : Option (List (Block α)) :=
  (blockRangeAt parent index).map fun range =>
    replaceWith parent range.endIndex range.endIndex
      ((nodesIn parent range).map fun node => { node with id := none })

/-- `deleteBlockSubtree`, with the paragraph that stands where no block is left. -/
def deleteBlockSubtree (paragraph : Block α) : Option (List (Block α)) :=
  (blockRangeAt parent index).map fun range =>
    replaceWith parent range.index range.endIndex
      (if range.endIndex - range.index ≥ parent.length then [paragraph] else [])

/-! ### Runs -/

/-- **A block with all under it.** -/
structure IsSubtree (level : ℕ) (run : List (Block α)) : Prop where
  head : ∃ b under, run = b :: under ∧ b.indent = level ∧ ∀ c ∈ under, level < c.indent

/-- **A run** is a block with all under it, and what comes after it is not. -/
structure IsRun (level : ℕ) (run after : List (Block α)) : Prop extends IsSubtree level run where
  stops : ∀ c ∈ after.head?, c.indent ≤ level

def parentOf (before : List (Block α)) (c : Block α) : Option (Block α) :=
  before.reverse.find? fun p => p.indent < c.indent

/-- No block is more than one level deeper than the one before it. -/
def IsShape (blocks : List (Block α)) : Prop := blocks.IsChain fun a b => b.indent ≤ a.indent + 1

/-- What is after a run **keeps its parents** when something else is in its place. -/
def KeepsParents (before run run' after : List (Block α)) : Prop :=
  ∀ front c rest, after = front ++ c :: rest →
    parentOf (before ++ run' ++ front) c = parentOf (before ++ run ++ front) c

/-- What a command **puts in place** of a run: no more than that changes. -/
structure Puts (before run run' after blocks : List (Block α)) : Prop where
  eq : blocks = before ++ (run' ++ after)
  isShape : IsShape blocks
  parents : KeepsParents before run run' after

variable {parent index} {before run run' after : List (Block α)} {level other : ℕ} {c : Block α}

theorem exists_isRun (h : index < parent.length) : ∃ before run after level,
    parent = before ++ (run ++ after) ∧ before.length = index ∧ IsRun level run after := by
  refine ⟨parent.take index, parent[index] :: (parent.drop (index + 1)).takeWhile
    fun c => parent[index].indent < c.indent, (parent.drop (index + 1)).dropWhile
      fun c => parent[index].indent < c.indent, parent[index].indent, ?_, by simp [h.le], ?_, ?_⟩
  · simp
  · exact ⟨_, _, rfl, rfl, fun c hc => by simpa using mem_takeWhile_imp hc⟩
  · intro c hc
    have hstop := head?_dropWhile_not (fun c : Block α => decide (parent[index].indent < c.indent))
      (parent.drop (index + 1))
    rw [mem_def.mp hc] at hstop
    exact not_lt.mp (of_decide_eq_false hstop)

theorem IsSubtree.le (h : IsSubtree level run) : ∀ x ∈ run, level ≤ x.indent := by
  obtain ⟨b, under, rfl, rfl, hunder⟩ := h
  exact forall_mem_cons.mpr ⟨le_rfl, fun x hx => (hunder x hx).le⟩

theorem IsSubtree.head? (h : IsSubtree level run) : ∀ x ∈ run.head?, x.indent = level := by
  obtain ⟨b, under, rfl, rfl, -⟩ := h
  simp

theorem IsSubtree.ne_nil (h : IsSubtree level run) : run ≠ [] := by
  obtain ⟨b, under, rfl, -⟩ := h
  exact cons_ne_nil _ _

theorem IsSubtree.map {f : Block α → Block α} (h : IsSubtree level run)
    (hf : ∀ x, level ≤ x.indent → (f x).indent + level = x.indent + other) :
    IsSubtree other (run.map f) := by
  obtain ⟨b, under, rfl, rfl, hunder⟩ := h
  refine ⟨f b, under.map f, rfl, ?_, fun c hc => ?_⟩
  · have := hf b le_rfl
    omega
  · obtain ⟨y, hy, rfl⟩ := mem_map.mp hc
    have := hf y (hunder y hy).le
    have := hunder y hy
    omega

theorem blockRangeAt_append (h : IsRun level run after) :
    blockRangeAt (before ++ (run ++ after)) before.length =
      some ⟨before.length, before.length + run.length, level⟩ := by
  obtain ⟨⟨b, under, rfl, rfl, hunder⟩, hstops⟩ := h
  have hdrop : (before ++ (b :: under ++ after)).drop (before.length + 1) = under ++ after := by
    rw [drop_append]
    simp
  have hafter : after.takeWhile (fun c => b.indent < c.indent) = [] := by
    rcases after with _ | ⟨c, after⟩
    · rfl
    · simpa [takeWhile_cons] using hstops
  have hhead : (before ++ (b :: under ++ after))[before.length]? = some b := by simp
  rw [blockRangeAt, hhead, map_some, hdrop,
    takeWhile_append_of_pos fun c hc => decide_eq_true (hunder c hc), hafter, append_nil]
  simp only [length_cons]
  congr 2
  omega

theorem nodesIn_append : nodesIn (before ++ (run ++ after))
    ⟨before.length, before.length + run.length, level⟩ = run := by
  simp [nodesIn, ← append_assoc, ← length_append]

theorem replaceWith_append (nodes : List (Block α)) : replaceWith (before ++ (run ++ after))
    before.length (before.length + run.length) nodes = before ++ (nodes ++ after) := by
  rw [replaceWith, take_left, ← append_assoc before run, ← length_append, drop_left, append_assoc]

/-! ### Parents -/

theorem parentOf_append (before front : List (Block α)) (c : Block α) :
    parentOf (before ++ front) c = (parentOf front c).or (parentOf before c) := by
  rw [parentOf, reverse_append, find?_append]
  rfl

theorem parentOf_skip (h : ∀ x ∈ run, c.indent ≤ x.indent) :
    parentOf (before ++ run) c = parentOf before c := by
  rw [parentOf_append, parentOf, find?_eq_none.mpr, none_or]
  exact fun x hx => by simpa using h x (mem_reverse.mp hx)

theorem le_of_parentOf_eq_none {front rest : List (Block α)} (hafter : after = front ++ c :: rest)
    (hstops : ∀ x ∈ after.head?, x.indent ≤ level) (hnone : parentOf front c = none) :
    c.indent ≤ level ∧ ∀ x ∈ front, c.indent ≤ x.indent := by
  have hfront : ∀ x ∈ front, c.indent ≤ x.indent := fun x hx => by
    simpa using find?_eq_none.mp hnone x (mem_reverse.mpr hx)
  rcases front with _ | ⟨y, front⟩
  · exact ⟨hstops c (by simp [hafter]), hfront⟩
  · exact ⟨(hfront y mem_cons_self).trans (hstops y (by simp [hafter])), hfront⟩

theorem keepsParents (hrun : ∀ x ∈ run, level ≤ x.indent) (hrun' : ∀ x ∈ run', level ≤ x.indent)
    (hstops : ∀ x ∈ after.head?, x.indent ≤ level) : KeepsParents before run run' after := by
  intro front c rest hafter
  rw [parentOf_append, parentOf_append _ front]
  rcases hfront : parentOf front c with _ | p
  · obtain ⟨hle, -⟩ := le_of_parentOf_eq_none hafter hstops hfront
    rw [parentOf_skip fun x hx => hle.trans (hrun' x hx),
      parentOf_skip fun x hx => hle.trans (hrun x hx)]
  · rfl

/-- **Outdenting adopts**: the later siblings of the block become its children. -/
theorem parentOf_outdented (hrun : ∀ x ∈ run, level + 1 ≤ x.indent) (hrun' : IsSubtree level run')
    (hstops : ∀ x ∈ after.head?, x.indent ≤ level + 1) (front : List (Block α)) (c : Block α)
    (rest : List (Block α)) (hafter : after = front ++ c :: rest) :
    parentOf (before ++ run' ++ front) c =
      if c.indent = level + 1 ∧ ∀ x ∈ front, c.indent ≤ x.indent then run'.head?
      else parentOf (before ++ run ++ front) c := by
  rw [parentOf_append, parentOf_append _ front]
  rcases hfront : parentOf front c with _ | p
  · obtain ⟨hle, hfront⟩ := le_of_parentOf_eq_none hafter hstops hfront
    rcases hle.eq_or_lt with heq | hlt
    · obtain ⟨b, under, rfl, rfl, hunder⟩ := hrun'
      rw [if_pos ⟨heq, hfront⟩, append_cons, parentOf_skip fun x hx => heq.trans_le (hunder x hx),
        parentOf_append]
      simp [parentOf, heq]
    · have hlt := Nat.lt_succ_iff.mp hlt
      rw [if_neg fun h => absurd h.1 (by omega),
        parentOf_skip fun x hx => hlt.trans (hrun'.le x hx),
        parentOf_skip fun x hx => hlt.trans (Nat.le_of_succ_le (hrun x hx))]
  · rw [if_neg]
    · rfl
    · intro h
      have hp := mem_reverse.mp (mem_of_find?_eq_some hfront)
      have hlt : p.indent < c.indent := by simpa using find?_some hfront
      exact absurd hlt (h.2 p hp).not_gt

/-! ### Shapes -/

theorem isShape_run (h : IsShape (before ++ (run ++ after))) : IsShape run :=
  (isChain_append.mp (isChain_append.mp h).2.1).1

theorem isShape_put (h : IsShape (before ++ (run ++ after))) (hrun' : IsShape run')
    (hne : run' ≠ []) (hhead : ∀ x ∈ before.getLast?, ∀ y ∈ run'.head?, y.indent ≤ x.indent + 1)
    (hlow : ∀ x ∈ run', level ≤ x.indent + 1) (hstops : ∀ x ∈ after.head?, x.indent ≤ level) :
    IsShape (before ++ (run' ++ after)) := by
  rw [IsShape, isChain_append, isChain_append] at h
  rw [IsShape, isChain_append, isChain_append, head?_append_of_ne_nil _ hne]
  exact ⟨h.1, ⟨hrun', h.2.1.2.1, fun x hx y hy =>
    (hstops y hy).trans (hlow x (mem_of_mem_getLast? hx))⟩, hhead⟩

theorem isShape_append (hrun : IsShape run) (hrun' : IsShape run')
    (hlow : ∀ x ∈ run, level ≤ x.indent) (hhead : ∀ x ∈ run'.head?, x.indent = level) :
    IsShape (run ++ run') :=
  isChain_append.mpr ⟨hrun, hrun', fun x hx y hy => by
    rw [hhead y hy]
    exact (hlow x (mem_of_mem_getLast? hx)).trans (le_succ _)⟩

theorem IsSubtree.level_le {rest : List (Block α)} (h : IsSubtree level run)
    (hshape : IsShape (before ++ (run ++ rest))) : ∀ x ∈ before.getLast?, level ≤ x.indent + 1 := by
  obtain ⟨b, under, rfl, rfl, -⟩ := h
  exact fun x hx => (isChain_append.mp hshape).2.2 x hx b rfl

theorem isShape_map {f : Block α → Block α} (h : IsShape run) (hle : ∀ x ∈ run, level ≤ x.indent)
    (hf : ∀ x, level ≤ x.indent → (f x).indent + level = x.indent + other) :
    IsShape (run.map f) := by
  rw [IsShape, isChain_map]
  refine h.imp_of_mem_imp fun x y hx hy hxy => ?_
  have := hf x (hle x hx)
  have := hf y (hle y hy)
  omega

theorem isShape_shifted {f : Block α → Block α} (hshape : IsShape (before ++ (run ++ after)))
    (hrun : IsRun level run after)
    (hf : ∀ x, level ≤ x.indent → (f x).indent + level = x.indent + other)
    (hbefore : ∀ x ∈ before.getLast?, other ≤ x.indent + 1) (hle : level ≤ other + 1) :
    IsShape (before ++ (run.map f ++ after)) := by
  have hsub := hrun.map hf
  refine isShape_put hshape (isShape_map (isShape_run hshape) hrun.le hf) hsub.ne_nil
    (fun x hx y hy => ?_) (fun x hx => ?_) hrun.stops
  · exact (hsub.head? y hy).trans_le (hbefore x hx)
  · exact hle.trans (Nat.succ_le_succ (hsub.le x hx))

/-- Two runs of one level **change places**. -/
theorem puts_swap {next : List (Block α)} (hshape : IsShape (before ++ (run ++ (next ++ after))))
    (hrun : IsRun level run (next ++ after)) (hnext : IsRun level next after) :
    Puts before (run ++ next) (next ++ run) after (before ++ (next ++ (run ++ after))) := by
  have hlevel := hrun.level_le hshape
  have hparts := hshape
  rw [IsShape, isChain_append, isChain_append, isChain_append] at hparts
  obtain ⟨-, ⟨hrunShape, ⟨hnextShape, -⟩, -⟩, -⟩ := hparts
  refine ⟨by simp, ?_, keepsParents (fun x hx => (mem_append.mp hx).elim (hrun.le x) (hnext.le x))
    (fun x hx => (mem_append.mp hx).elim (hnext.le x) (hrun.le x)) hnext.stops⟩
  rw [← append_assoc next]
  rw [← append_assoc run] at hshape
  refine isShape_put hshape (isShape_append hnextShape hrunShape hnext.le hrun.head?)
    (append_ne_nil_of_left_ne_nil hnext.ne_nil _) (fun x hx y hy => ?_)
    (fun x hx => ((mem_append.mp hx).elim (hnext.le x) (hrun.le x)).trans (le_succ _))
    hnext.stops
  rw [head?_append_of_ne_nil _ hnext.ne_nil] at hy
  exact (hnext.head? y hy).trans_le (hlevel x hx)

theorem moveBlockDown_append {next : List (Block α)} (hrun : IsRun level run (next ++ after))
    (hnext : IsRun level next after) :
    moveBlockDown (before ++ (run ++ (next ++ after))) before.length =
      some (before ++ (next ++ (run ++ after)), before.length + next.length) := by
  have hnodes := @nodesIn_append _ before run (next ++ after) level
  have hrange := @blockRangeAt_append _ (before ++ run) next after level hnext
  have hnext := @nodesIn_append _ (before ++ run) next after level
  have hreplace := @replaceWith_append _ before (run ++ next) after (next ++ run)
  rw [append_assoc, length_append] at hrange hnext
  rw [append_assoc, append_assoc, length_append, ← Nat.add_assoc] at hreplace
  rw [moveBlockDown, blockRangeAt_append hrun, bind_some, hrange, bind_some,
    if_neg (by simp), hnodes, hnext, hreplace]

theorem walkBack_spec (indent : ℕ) {before : List (Block α)} (h : before ≠ []) :
    ∃ above node rest, before = above ++ node :: rest ∧ walkBack indent before = rest.length ∧
      ∀ x ∈ above, indent < x.indent := by
  induction before with
  | nil => exact absurd rfl h
  | cons node before ih =>
    rw [walkBack]
    split_ifs with hstop
    · exact ⟨[], node, before, rfl, rfl, nofun⟩
    · rw [not_or, not_le] at hstop
      obtain ⟨above, found, rest, rfl, hlength, habove⟩ := ih hstop.1
      exact ⟨node :: above, found, rest, rfl, hlength, forall_mem_cons.mpr ⟨hstop.2, habove⟩⟩

/-! ### The commands -/

/-- **What the commands do** at a block: what they put in place of its run, or of its run and the
one beside it. -/
structure RespectsSubtree (parent : List (Block α)) (index : ℕ) (before run after : List (Block α))
    (level : ℕ) : Prop where
  eq : parent = before ++ (run ++ after)
  length_eq : before.length = index
  isRun : IsRun level run after
  indents : ∀ blocks, indentBlockSubtree parent index = some blocks →
    Puts before run (run.map (Block.shift 1)) after blocks
  outdents : ∀ blocks, outdentBlockSubtree parent index = some blocks →
    blocks = before ++ (run.map (Block.shift (-1)) ++ after) ∧ IsShape blocks ∧
      ∀ front c rest, after = front ++ c :: rest →
        parentOf (before ++ run.map (Block.shift (-1)) ++ front) c =
          if c.indent = level ∧ ∀ x ∈ front, c.indent ≤ x.indent
          then (run.map (Block.shift (-1))).head? else parentOf (before ++ run ++ front) c
  movesUp : ∀ blocks place, moveBlockUp parent index = some (blocks, place) →
    ∃ front prev, before = front ++ prev ∧ IsRun level prev (run ++ after) ∧
      Puts front (prev ++ run) (run ++ prev) after blocks ∧ KeepsParents front [] run prev ∧
        moveBlockDown blocks place = some (parent, index)
  movesDown : ∀ blocks place, moveBlockDown parent index = some (blocks, place) →
    ∃ next rest, after = next ++ rest ∧ IsRun level next rest ∧
      Puts before (run ++ next) (next ++ run) rest blocks ∧ KeepsParents before run [] next
  duplicates : ∀ blocks, duplicateBlockSubtree parent index = some blocks →
    Puts before run (run ++ run.map fun node => { node with id := none }) after blocks
  deletes : ∀ paragraph blocks, deleteBlockSubtree parent index paragraph = some blocks →
    Puts before run [] after blocks ∨ before = [] ∧ after = [] ∧ blocks = [paragraph]

theorem moveBlockUp_append {blocks : List (Block α)} {place : ℕ}
    (hshape : IsShape (before ++ (run ++ after))) (hrun : IsRun level run after)
    (h : moveBlockUp (before ++ (run ++ after)) before.length = some (blocks, place)) :
    ∃ front prev, before = front ++ prev ∧ IsRun level prev (run ++ after) ∧
      Puts front (prev ++ run) (run ++ prev) after blocks ∧ KeepsParents front [] run prev ∧
        moveBlockDown blocks place = some (before ++ (run ++ after), before.length) := by
  rw [moveBlockUp, blockRangeAt_append hrun, bind_some] at h
  split_ifs at h with hfirst
  obtain ⟨above, node, rest, hbefore, hwalk, habove⟩ :=
    walkBack_spec level (mt reverse_eq_nil_iff.mp (mt length_eq_zero_iff.mpr hfirst))
  obtain rfl : before = rest.reverse ++ node :: above.reverse := by
    simpa using congrArg reverse hbefore
  rw [take_left, hwalk, ← length_reverse] at h
  obtain ⟨previous, hprevious, h⟩ := bind_eq_some_iff.mp h
  split_ifs at h with hlevel
  obtain rfl : node.indent = level := by
    obtain ⟨found, hfound, rfl⟩ := map_eq_some_iff.mp hprevious
    obtain rfl : node = found := by simpa using hfound
    exact not_not.mp hlevel
  have hprev : IsRun node.indent (node :: above.reverse) (run ++ after) := by
    refine ⟨⟨_, _, rfl, rfl, fun c hc => habove c (mem_reverse.mp hc)⟩, fun c hc => ?_⟩
    rw [head?_append_of_ne_nil _ hrun.ne_nil] at hc
    exact (hrun.head? c hc).le
  rw [append_assoc] at hshape hprevious h
  obtain rfl := Option.some.inj ((blockRangeAt_append hprev).symm.trans hprevious)
  have hnodes := @nodesIn_append _ (rest.reverse ++ node :: above.reverse) run after node.indent
  have hreplace := @replaceWith_append _ rest.reverse (node :: above.reverse ++ run) after
    (run ++ node :: above.reverse)
  rw [append_assoc] at hnodes
  rw [append_assoc, append_assoc, length_append, ← Nat.add_assoc, ← length_append] at hreplace
  rw [hnodes, nodesIn_append, hreplace] at h
  obtain ⟨rfl, rfl⟩ := Prod.mk.inj (Option.some.inj h)
  have hrun' : IsRun node.indent run (node :: above.reverse ++ after) :=
    ⟨hrun.toIsSubtree, fun c hc => (hprev.head? c (by
      rwa [head?_append_of_ne_nil _ hprev.ne_nil] at hc)).le⟩
  have hprev' : IsRun node.indent (node :: above.reverse) after := ⟨hprev.toIsSubtree, hrun.stops⟩
  refine ⟨rest.reverse, node :: above.reverse, rfl, hprev, puts_swap hshape hprev hrun,
    keepsParents nofun hrun.le fun x hx => (hprev.head? x hx).le, ?_⟩
  rw [moveBlockDown_append hrun' hprev', append_assoc, length_append]

theorem moveBlockDown_eq_some {blocks : List (Block α)} {place : ℕ}
    (hshape : IsShape (before ++ (run ++ after))) (hrun : IsRun level run after)
    (h : moveBlockDown (before ++ (run ++ after)) before.length = some (blocks, place)) :
    ∃ next rest, after = next ++ rest ∧ IsRun level next rest ∧
      Puts before (run ++ next) (next ++ run) rest blocks ∧ KeepsParents before run [] next := by
  obtain ⟨range, hrange, hlevel⟩ : ∃ range : BlockRange, blockRangeAt (before ++ (run ++ after))
      (before.length + run.length) = some range ∧ range.indent = level := by
    rw [moveBlockDown, blockRangeAt_append hrun, bind_some] at h
    obtain ⟨range, hrange, h⟩ := bind_eq_some_iff.mp h
    split_ifs at h with hlevel
    exact ⟨range, hrange, not_not.mp hlevel⟩
  have hafter : 0 < after.length := by
    obtain ⟨node, hnode, -⟩ := map_eq_some_iff.mp hrange
    have hlt := (List.getElem?_eq_some_iff.mp hnode).1
    rw [length_append, length_append] at hlt
    omega
  obtain ⟨front, next, rest, next_level, rfl, hfront, hnext⟩ := exists_isRun hafter
  obtain rfl := length_eq_zero_iff.mp hfront
  rw [nil_append, ← append_assoc, ← length_append, blockRangeAt_append hnext] at hrange
  obtain rfl : next_level = level := by rw [← hlevel, ← Option.some.inj hrange]
  rw [nil_append] at hshape hrun h
  rw [moveBlockDown_append hrun hnext] at h
  obtain ⟨rfl, rfl⟩ := Prod.mk.inj (Option.some.inj h)
  exact ⟨next, rest, rfl, hnext, puts_swap hshape hrun hnext,
    keepsParents hrun.le nofun fun x hx => (hnext.head? x hx).le⟩

theorem puts_duplicated {copy : Block α → Block α} (hshape : IsShape (before ++ (run ++ after)))
    (hrun : IsRun level run after) (hcopy : ∀ x, (copy x).indent = x.indent) :
    Puts before run (run ++ run.map copy) after (before ++ (run ++ run.map copy ++ after)) := by
  have hrunShape := isShape_run hshape
  have hf : ∀ x, level ≤ x.indent → (copy x).indent + level = x.indent + level := fun x _ => by
    rw [hcopy]
  have hle : ∀ x ∈ run ++ run.map copy, level ≤ x.indent := fun x hx =>
    (mem_append.mp hx).elim (hrun.le x) ((hrun.map hf).le x)
  refine ⟨rfl, isShape_put hshape (isShape_append hrunShape (isShape_map hrunShape hrun.le hf)
    hrun.le (hrun.map hf).head?) (append_ne_nil_of_left_ne_nil hrun.ne_nil _)
    (fun x hx y hy => ?_) (fun x hx => (hle x hx).trans (le_succ _)) hrun.stops,
    keepsParents hrun.le hle hrun.stops⟩
  rw [head?_append_of_ne_nil _ hrun.ne_nil] at hy
  exact (hrun.head? y hy).trans_le (hrun.level_le hshape x hx)

def outline : List (Block Unit) := [⟨0, "a", ()⟩, ⟨1, "b", ()⟩, ⟨1, "c", ()⟩]

end Sone.BlockOps
