import Sone.Doc.Text
import Sone.Order.Subsequence
import Mathlib.Data.List.Infix
import Mathlib.Data.List.SplitBy
import Mathlib.Algebra.BigOperators.Group.List.Basic
import Mathlib.Algebra.GroupWithZero.Nat

/-!
# The words that changed

`diffWords` (`core/doc/diff.ts`) compares two texts word by word: a table is filled from its end
with the lengths of longest common subsequences, and a walk from its beginning takes equal words
and otherwise goes where the table says that more is in common. What it meets is put together in
parts, one for each run of words of one kind.

`walk_eq` takes the two apart: the walk is a list of words with their kinds (`script`), and
`Merged` says how the parts are those words. `diffWords_spec`: the parts are the two texts again, no
two neighbours are of one kind, and nothing more could have stayed the same.
-/

namespace Sone.Diff

open List Option

/-! ### Words and parts -/

/-- A word, or the blanks between two. -/
abbrev Word := List Char

/-- `words`: `text.split(/(\s+)/).filter((part) => part !== '')` -/
def words (text : List Char) : List Word :=
  text.splitBy fun c d => JsString.isSpace c = JsString.isSpace d

/-- The `kind` of a `WordChange`. -/
inductive ChangeKind where
  | same
  | added
  | removed
  deriving DecidableEq, Repr

structure WordChange where
  kind : ChangeKind
  text : List Char
  deriving DecidableEq, Repr

/-- `LIMIT` -/
def wordLimit : ℕ := 400

/-- The body of the inner loop, for all `j`: the row of a word, from the row of the word after. -/
def lengthsRow (x : Word) : List Word → List ℕ → List ℕ
  | [], _ => [0]
  | y :: b, below =>
    let row := lengthsRow x b below.tail
    (if x = y then below.tail.headD 0 + 1 else max (below.headD 0) (row.headD 0)) :: row

/-- `lengths`, from its last row up. -/
def lengths (b : List Word) : List Word → List (List ℕ)
  | [] => [List.replicate (b.length + 1) 0]
  | x :: a => lengthsRow x b ((lengths b a).headD []) :: lengths b a

/-- `lengths[i]![j] ?? 0` -/
def lengthAt (table : List (List ℕ)) (i j : ℕ) : ℕ := ((table[i]?.getD [])[j]?).getD 0

/-- `push`: a word, in the last part if it is of its kind. -/
def push (out : List WordChange) (kind : ChangeKind) (text : Word) : List WordChange :=
  match out.getLast? with
  | some last =>
    if last.kind = kind then out.dropLast ++ [{ last with text := last.text ++ text }]
    else out ++ [⟨kind, text⟩]
  | none => [⟨kind, text⟩]

/-- The loops of `diffWords`, with the words from `i` and from `j` on. -/
def walk (table : List (List ℕ)) (i j : ℕ) :
    List Word → List Word → List WordChange → List WordChange
  | [], b, out => b.foldl (fun out y => push out .added y) out
  | x :: a, [], out => (x :: a).foldl (fun out x => push out .removed x) out
  | x :: a, y :: b, out =>
    if x = y then walk table (i + 1) (j + 1) a b (push out .same x)
    else if lengthAt table i (j + 1) ≤ lengthAt table (i + 1) j then
      walk table (i + 1) j a (y :: b) (push out .removed x)
    else walk table i (j + 1) (x :: a) b (push out .added y)
termination_by a b => a.length + b.length

def diffWords (before after : List Char) : List WordChange :=
  if wordLimit < (words before).length ∨ wordLimit < (words after).length then
    [⟨.removed, before⟩, ⟨.added, after⟩]
  else
    walk (lengths (words after) (words before)) 0 0 (words before) (words after) []

/-! ### The table -/

section Table

variable {x : Word} {a b : List Word}

theorem lengthsRow_eq (x : Word) (a b : List Word) :
    lengthsRow x b (b.tails.map (commonLength a)) = b.tails.map (commonLength (x :: a)) := by
  induction b with
  | nil => simp [lengthsRow]
  | cons y b ih =>
    have htails : ∀ l : List Word, (b.tails.map (commonLength l)).headD 0 = commonLength l b := by
      intro l
      cases b <;> rfl
    rw [tails_cons, map_cons, map_cons, lengthsRow, tail_cons, ih, htails,
      htails, headD_cons]
    congr 1
    split_ifs with heq
    · rw [heq, commonLength_cons_self]
    · rw [commonLength_cons_of_ne heq]

theorem lengths_eq (a b : List Word) :
    lengths b a = a.tails.map fun s => b.tails.map (commonLength s) := by
  induction a with
  | nil =>
    have hzero : (commonLength [] : List Word → ℕ) = fun _ => 0 :=
      funext commonLength_nil_left
    rw [lengths, List.tails, map_singleton, hzero, map_const', length_tails]
  | cons x a ih =>
    have hhead : (a.tails.map fun s => b.tails.map (commonLength s)).headD [] =
        b.tails.map (commonLength a) := by
      cases a <;> rfl
    rw [lengths, ih, hhead, lengthsRow_eq, tails_cons, map_cons]

theorem lengthAt_lengths {i j : ℕ} (hi : i ≤ a.length) (hj : j ≤ b.length) :
    lengthAt (lengths b a) i j = commonLength (a.drop i) (b.drop j) := by
  have htails : ∀ {l : List Word} {n : ℕ}, n ≤ l.length → l.tails[n]? = some (l.drop n) := by
    intro l n hn
    rw [List.getElem?_eq_getElem (by rw [length_tails]; omega), getElem_tails]
  rw [lengthAt, lengths_eq, List.getElem?_map, htails hi, map_some, getD_some,
    List.getElem?_map, htails hj, map_some, getD_some]

end Table

/-! ### The walk -/

/-- The words the loops put out, in their order. -/
def script (table : List (List ℕ)) (i j : ℕ) : List Word → List Word → List (ChangeKind × Word)
  | [], b => b.map (ChangeKind.added, ·)
  | x :: a, [] => (x :: a).map (ChangeKind.removed, ·)
  | x :: a, y :: b =>
    if x = y then (.same, x) :: script table (i + 1) (j + 1) a b
    else if lengthAt table i (j + 1) ≤ lengthAt table (i + 1) j then
      (.removed, x) :: script table (i + 1) j a (y :: b)
    else (.added, y) :: script table i (j + 1) (x :: a) b
termination_by a b => a.length + b.length

def wordsOf (p : ChangeKind → Bool) (steps : List (ChangeKind × Word)) : List Word :=
  (steps.filter fun step => p step.1).map (·.2)

def ChangeKind.isOld (kind : ChangeKind) : Bool := kind ≠ .added

def ChangeKind.isNew (kind : ChangeKind) : Bool := kind ≠ .removed

section Walk

variable {table : List (List ℕ)} {i j : ℕ} {a b : List Word} {out : List WordChange}

theorem walk_eq (table : List (List ℕ)) (i j : ℕ) (a b : List Word) (out : List WordChange) :
    walk table i j a b out =
      (script table i j a b).foldl (fun out step => push out step.1 step.2) out := by
  induction i, j, a, b using script.induct table generalizing out with
  | case1 i j b => rw [walk, script, foldl_map]
  | case2 i j x a => rw [walk, script, foldl_map]
  | case3 i j a y b ih => rw [walk, script, if_pos rfl, if_pos rfl, ih, foldl_cons]
  | case4 i j x a y b hne hle ih =>
    rw [walk, script, if_neg hne, if_neg hne, if_pos hle, if_pos hle, ih, foldl_cons]
  | case5 i j x a y b hne hle ih =>
    rw [walk, script, if_neg hne, if_neg hne, if_neg hle, if_neg hle, ih, foldl_cons]

theorem wordsOf_cons (p : ChangeKind → Bool) (kind : ChangeKind) (x : Word)
    (steps : List (ChangeKind × Word)) :
    wordsOf p ((kind, x) :: steps) =
      if p kind then x :: wordsOf p steps else wordsOf p steps := by
  rw [wordsOf, filter_cons]
  split_ifs <;> rfl

theorem wordsOf_map (p : ChangeKind → Bool) (kind : ChangeKind) (a : List Word) :
    wordsOf p (a.map (kind, ·)) = if p kind then a else [] := by
  rw [wordsOf, List.filter_map, List.map_map]
  split_ifs with h
  · simp [Function.comp_def, h]
  · simp [Function.comp_def, h]

theorem wordsOf_append (p : ChangeKind → Bool) (steps rest : List (ChangeKind × Word)) :
    wordsOf p (steps ++ rest) = wordsOf p steps ++ wordsOf p rest := by
  rw [wordsOf, filter_append, map_append]
  rfl

/-- **What stayed or went** are the words of the old text, what stayed or came those of the new. -/
theorem wordsOf_script (table : List (List ℕ)) (i j : ℕ) (a b : List Word) :
    wordsOf ChangeKind.isOld (script table i j a b) = a ∧
      wordsOf ChangeKind.isNew (script table i j a b) = b := by
  induction i, j, a, b using script.induct table with
  | case1 i j b =>
    rw [script, wordsOf_map, wordsOf_map]
    exact ⟨rfl, rfl⟩
  | case2 i j x a =>
    rw [script, wordsOf_map, wordsOf_map]
    exact ⟨rfl, rfl⟩
  | case3 i j a y b ih =>
    rw [script, if_pos rfl, wordsOf_cons, wordsOf_cons, ih.1, ih.2]
    exact ⟨rfl, rfl⟩
  | case4 i j x a y b hne hle ih =>
    rw [script, if_neg hne, if_pos hle, wordsOf_cons, wordsOf_cons, ih.1, ih.2]
    exact ⟨rfl, rfl⟩
  | case5 i j x a y b hne hle ih =>
    rw [script, if_neg hne, if_neg hle, wordsOf_cons, wordsOf_cons, ih.1, ih.2]
    exact ⟨rfl, rfl⟩

/-- A table has the lengths for the words from two places on. -/
def Tabulates (table : List (List ℕ)) (i j : ℕ) (a b : List Word) : Prop :=
  ∀ k ≤ a.length, ∀ l ≤ b.length,
    lengthAt table (i + k) (j + l) = commonLength (a.drop k) (b.drop l)

theorem tabulates_lengths (a b : List Word) : Tabulates (lengths b a) 0 0 a b := by
  intro k hk l hl
  rw [Nat.zero_add, Nat.zero_add, lengthAt_lengths hk hl]

theorem Tabulates.left {x : Word} (h : Tabulates table i j (x :: a) b) :
    Tabulates table (i + 1) j a b := by
  intro k hk l hl
  have hstep := h (k + 1) (Nat.succ_le_succ hk) l hl
  rwa [drop_succ_cons, ← Nat.add_assoc, Nat.add_right_comm] at hstep

theorem Tabulates.right {y : Word} (h : Tabulates table i j a (y :: b)) :
    Tabulates table i (j + 1) a b := by
  intro k hk l hl
  have hstep := h k hk (l + 1) (Nat.succ_le_succ hl)
  rwa [drop_succ_cons, ← Nat.add_assoc, Nat.add_right_comm] at hstep

/-- **The walk follows the table**: as many words stay as the recurrence says. -/
theorem length_wordsOf_same_script (h : Tabulates table i j a b) :
    (wordsOf (· = .same) (script table i j a b)).length = commonLength a b := by
  induction i, j, a, b using script.induct table with
  | case1 i j b => rw [script, wordsOf_map, if_neg (by decide), commonLength_nil_left]; rfl
  | case2 i j x a => rw [script, wordsOf_map, if_neg (by decide), commonLength_nil_right]; rfl
  | case3 i j a y b ih =>
    rw [script, if_pos rfl, wordsOf_cons, if_pos (by decide), length_cons, ih h.left.right,
      commonLength_cons_self]
  | case4 i j x a y b hne hle ih =>
    rw [script, if_neg hne, if_pos hle, wordsOf_cons, if_neg (by decide), ih h.left,
      commonLength_cons_of_ne hne]
    have hdown := h 1 (by simp) 0 (Nat.zero_le _)
    have hacross := h 0 (Nat.zero_le _) 1 (by simp)
    simp only [Nat.add_zero, drop_succ_cons, drop_zero] at hdown hacross
    rw [hdown, hacross] at hle
    exact (max_eq_left hle).symm
  | case5 i j x a y b hne hle ih =>
    rw [script, if_neg hne, if_neg hle, wordsOf_cons, if_neg (by decide), ih h.right,
      commonLength_cons_of_ne hne]
    have hdown := h 1 (by simp) 0 (Nat.zero_le _)
    have hacross := h 0 (Nat.zero_le _) 1 (by simp)
    simp only [Nat.add_zero, drop_succ_cons, drop_zero] at hdown hacross
    rw [hdown, hacross, not_le] at hle
    exact (max_eq_right hle.le).symm

end Walk

/-! ### The parts -/

structure Run where
  kind : ChangeKind
  words : List Word

def Run.steps (run : Run) : List (ChangeKind × Word) := run.words.map (run.kind, ·)

def Run.part (run : Run) : WordChange := ⟨run.kind, run.words.flatten⟩

/-- **The parts are runs of the words**, and no run goes on in the next. -/
structure Merged (runs : List Run) (out : List WordChange) (steps : List (ChangeKind × Word)) :
    Prop where
  parts : out = runs.map Run.part
  steps : steps = runs.flatMap Run.steps
  chain : runs.IsChain fun run next => run.kind ≠ next.kind

section Parts

variable {runs : List Run} {out : List WordChange} {steps : List (ChangeKind × Word)}

/-- **A word that is put out** goes on with the last run, or begins one. -/
theorem Merged.push (h : Merged runs out steps) (kind : ChangeKind) (x : Word) :
    ∃ runs', Merged runs' (Diff.push out kind x) (steps ++ [(kind, x)]) := by
  obtain ⟨rfl, rfl, hchain⟩ := h
  rcases runs.eq_nil_or_concat' with rfl | ⟨front, last, rfl⟩
  · exact ⟨[⟨kind, [x]⟩], by simp [Diff.push, Run.part], by simp [Run.steps], .singleton _⟩
  · have hlast : ((front ++ [last]).map Run.part).getLast? = some last.part := by
      rw [map_append, map_singleton, List.getLast?_concat]
    obtain ⟨hfront, -, hlink⟩ := isChain_append.mp hchain
    by_cases hkind : last.kind = kind
    · refine ⟨front ++ [⟨kind, last.words ++ [x]⟩], ?_, ?_, ?_⟩
      · rw [Diff.push, hlast]
        simp [Run.part, hkind]
      · simp [Run.steps, hkind]
      · refine isChain_append.mpr ⟨hfront, .singleton _, ?_⟩
        simpa [hkind] using hlink
    · refine ⟨front ++ [last] ++ [⟨kind, [x]⟩], ?_, by simp [Run.steps], ?_⟩
      · rw [Diff.push, hlast]
        simp [Run.part, hkind]
      · exact isChain_append.mpr ⟨hchain, .singleton _, by simpa using hkind⟩

theorem exists_merged (steps : List (ChangeKind × Word)) :
    ∃ runs, Merged runs (steps.foldl (fun out step => Diff.push out step.1 step.2) []) steps := by
  induction steps using List.reverseRecOn with
  | nil => exact ⟨[], rfl, rfl, .nil⟩
  | append_singleton steps step ih =>
    obtain ⟨runs, hruns⟩ := ih
    rw [foldl_concat]
    exact hruns.push step.1 step.2

def textOf (p : ChangeKind → Bool) (parts : List WordChange) : List Char :=
  ((parts.filter fun part => p part.kind).map (·.text)).flatten

def countSame (parts : List WordChange) : ℕ :=
  ((parts.filter fun part => part.kind = .same).map fun part => (words part.text).length).sum

theorem wordsOf_steps (p : ChangeKind → Bool) (runs : List Run) :
    wordsOf p (runs.flatMap Run.steps) =
      (runs.filter fun run => p run.kind).flatMap (·.words) := by
  induction runs with
  | nil => rfl
  | cons run runs ih =>
    rw [flatMap_cons, wordsOf_append, ih, Run.steps, wordsOf_map, filter_cons]
    split_ifs <;> simp

theorem Merged.textOf_eq (h : Merged runs out steps) (p : ChangeKind → Bool) :
    textOf p out = (wordsOf p steps).flatten := by
  rw [h.parts, h.steps, wordsOf_steps, textOf, List.filter_map, List.map_map, flatMap_def,
    flatten_flatten, List.map_map]
  rfl

theorem words_flatten {text : List Char} {ws : List Word} (h : ws <:+: words text) :
    words ws.flatten = ws := by
  have hne : [] ∉ ws := fun hnil => nil_notMem_splitBy _ _ (h.subset hnil)
  have hchain := isChain_getLast_head_splitBy
    (fun c d => decide (JsString.isSpace c = JsString.isSpace d)) text
  have hwords : ∀ w ∈ ws, w ∈ words text := fun w hw => h.subset hw
  obtain ⟨front, back, hsplit⟩ := h
  rw [← words, ← hsplit, isChain_append, isChain_append] at hchain
  exact splitBy_flatten hne (fun w hw => isChain_of_mem_splitBy (hwords w hw))
    hchain.1.2.1

/-- **As many words stay in the parts** as were put out to stay. -/
theorem Merged.countSame_eq (h : Merged runs out steps) {text : List Char}
    (hold : wordsOf ChangeKind.isOld steps = words text) :
    countSame out = (wordsOf (· = .same) steps).length := by
  have hruns : ∀ run ∈ runs, run.kind = .same → words run.words.flatten = run.words := by
    intro run hrun hkind
    obtain ⟨front, back, rfl⟩ := append_of_mem hrun
    refine @words_flatten text _ ?_
    rw [← hold, h.steps, flatMap_append, flatMap_cons, wordsOf_append, wordsOf_append,
      Run.steps, wordsOf_map, hkind, if_pos (by decide)]
    exact ⟨_, _, by rw [append_assoc]⟩
  rw [h.parts, h.steps, wordsOf_steps, countSame, List.filter_map, List.map_map,
    length_flatMap]
  congr 1
  refine map_congr_left fun run hrun => ?_
  obtain ⟨hmem, hkind⟩ := mem_filter.mp hrun
  exact congrArg List.length (hruns run hmem (of_decide_eq_true hkind))

theorem Merged.isChain (h : Merged runs out steps) :
    out.IsChain fun part next => part.kind ≠ next.kind := by
  rw [h.parts, isChain_map]
  exact h.chain

end Parts

theorem flatten_words (text : List Char) : (words text).flatten = text :=
  flatten_splitBy _ _

theorem diffWords_of_le {before after : List Char} (hbefore : (words before).length ≤ wordLimit)
    (hafter : (words after).length ≤ wordLimit) :
    ∃ runs, Merged runs (diffWords before after)
      (script (lengths (words after) (words before)) 0 0 (words before) (words after)) := by
  rw [diffWords, if_neg (by omega), walk_eq]
  exact exists_merged _

theorem textOf_diffWords (before after : List Char) :
    textOf ChangeKind.isOld (diffWords before after) = before ∧
      textOf ChangeKind.isNew (diffWords before after) = after := by
  by_cases hlimit : wordLimit < (words before).length ∨ wordLimit < (words after).length
  · rw [diffWords, if_pos hlimit]
    simp [textOf, ChangeKind.isOld, ChangeKind.isNew]
  · rw [not_or, not_lt, not_lt] at hlimit
    obtain ⟨runs, hruns⟩ := diffWords_of_le hlimit.1 hlimit.2
    rw [hruns.textOf_eq, hruns.textOf_eq, (wordsOf_script ..).1, (wordsOf_script ..).2,
      flatten_words, flatten_words]
    exact ⟨rfl, rfl⟩

/-- **What `diffWords` finds.** What stayed and what went is the old text, what stayed and what came
the new one. Within the limit no two neighbours are of one kind, and as many words stay as a longest
common subsequence of the two has. -/
theorem diffWords_spec (before after : List Char) :
    (textOf ChangeKind.isOld (diffWords before after) = before ∧
      textOf ChangeKind.isNew (diffWords before after) = after) ∧
    ((words before).length ≤ wordLimit → (words after).length ≤ wordLimit →
      (diffWords before after).IsChain (fun part next => part.kind ≠ next.kind) ∧
      IsGreatest {n | ∃ s : List Word, s.Sublist (words before) ∧ s.Sublist (words after) ∧
        s.length = n} (countSame (diffWords before after))) := by
  refine ⟨textOf_diffWords before after, fun hbefore hafter => ?_⟩
  obtain ⟨runs, hruns⟩ := diffWords_of_le hbefore hafter
  refine ⟨hruns.isChain, ?_⟩
  rw [hruns.countSame_eq (wordsOf_script ..).1,
    length_wordsOf_same_script (tabulates_lengths (words before) (words after))]
  exact isGreatest_commonLength (words before) (words after)

theorem diffWords_spec_sample :
    (diffWords "a b c".toList "a c".toList).IsChain (fun part next => part.kind ≠ next.kind) ∧
      IsGreatest {n | ∃ s : List Word, s.Sublist (words "a b c".toList) ∧
        s.Sublist (words "a c".toList) ∧ s.length = n}
        (countSame (diffWords "a b c".toList "a c".toList)) :=
  (diffWords_spec "a b c".toList "a c".toList).2 (by decide) (by decide)

example : diffWords "a b c".toList "a c".toList =
    [⟨.same, "a ".toList⟩, ⟨.removed, "b ".toList⟩, ⟨.same, "c".toList⟩] := by decide +kernel

end Sone.Diff
