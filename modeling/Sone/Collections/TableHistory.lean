import Sone.Transition.Machine
import Mathlib.Data.List.Infix

/-!
# Undoing what a table did

`useTableHistory` keeps the last operations of a table with both of their directions, and a cursor
between those in effect and those undone. An operation is recorded when it has been done; a step
back or forward takes a while, and moves the cursor when it has succeeded.

Beside it stands what it is for: all operations in effect and all that are undone, without a bound
(`Done`). As long as nothing is recorded while a step is under way, the table is what the operations
in effect have made of it, and what is kept is the last of them (`follows_of_reachesWhen`).
-/

namespace Sone.TableHistory

open List

variable {σ : Type*}

/-- `HistoryEntry`, with what its directions make of a table. -/
structure HistoryEntry (σ : Type*) where
  forward : σ → σ
  backward : σ → σ

/-- `HISTORY_DEPTH` -/
def historyDepth : ℕ := 20

inductive Direction
  | undo
  | redo

/-- The stack and its cursor, the table, and the step under way: its direction, and the place and
the entry it read. -/
structure State (σ : Type*) where
  stack : List (HistoryEntry σ)
  cursor : ℕ
  table : σ
  busy : Option (Direction × ℕ × HistoryEntry σ)

/-- The operations that are in effect, and those that are undone, the next one first. -/
structure Done (σ : Type*) where
  inEffect : List (HistoryEntry σ)
  undone : List (HistoryEntry σ)

inductive Event (σ : Type*)
  /-- An operation has been done and is recorded. -/
  | push (entry : HistoryEntry σ)
  | starts (direction : Direction)
  | succeeds
  /-- Nothing of the step was done. -/
  | fails

/-- `push`: what was undone is discarded. -/
def push (s : State σ) (entry : HistoryEntry σ) : State σ :=
  let stack := s.stack.take s.cursor ++ [entry]
  -- `.slice(-HISTORY_DEPTH)`
  let kept := stack.drop (stack.length - historyDepth)
  { s with stack := kept, cursor := kept.length, table := entry.forward s.table }

/-- The place of the entry that a step reads. The source's −1 is none. -/
def place (s : State σ) : Direction → Option ℕ
  | .undo => if s.cursor = 0 then none else some (s.cursor - 1)
  | .redo => some s.cursor

/-- `step`, up to what it waits for, when the last render has read `busy` as it is. -/
def start (s : State σ) (direction : Direction) : State σ :=
  match s.busy, place s direction, (place s direction).bind (s.stack[·]?) with
  | none, some at', some entry => { s with busy := some (direction, at', entry) }
  | _, _, _ => s

def State.step (s : State σ) : Event σ → Option (State σ)
  | .push entry => some (push s entry)
  | .starts direction => some (start s direction)
  | .succeeds => s.busy.map fun
    | (.undo, at', entry) =>
      { s with table := entry.backward s.table, cursor := at', busy := none }
    | (.redo, at', entry) =>
      { s with table := entry.forward s.table, cursor := at' + 1, busy := none }
  | .fails => s.busy.map fun _ => { s with busy := none }

/-- **What is to happen**: a new operation discards what is undone, and a step that succeeds takes
back the last one, or does again the last that was taken back. -/
def Done.step (d : Done σ) (s : State σ) : Event σ → Done σ
  | .push entry => ⟨d.inEffect ++ [entry], []⟩
  | .succeeds => match s.busy with
    | some (.undo, _) => ⟨d.inEffect.dropLast, d.inEffect.getLast?.toList ++ d.undone⟩
    | some (.redo, _) => ⟨d.inEffect ++ d.undone.head?.toList, d.undone.tail⟩
    | none => d
  | .starts _ | .fails => d

def tableHistory (opened : σ) : Machine (State σ × Done σ) (Event σ) where
  init s := s = (⟨[], 0, opened, none⟩, ⟨[], []⟩)
  step s event := (s.1.step event).map fun s' => (s', s.2.step s.1 event)

def replay (table : σ) (entries : List (HistoryEntry σ)) : σ :=
  entries.foldl (fun table entry => entry.forward table) table

/-- Each of some operations is taken back where it was done. -/
def Undoes (table : σ) : List (HistoryEntry σ) → Prop
  | [] => True
  | entry :: entries =>
    entry.backward (entry.forward table) = table ∧ Undoes (entry.forward table) entries

/-- **An event is in order**: what is recorded is recorded between two steps, and its way back
leads back. -/
def InOrder (s : State σ × Done σ) : Event σ → Prop
  | .push entry => s.1.busy = none ∧ entry.backward (entry.forward s.1.table) = s.1.table
  | _ => True

/-- **The table follows**: it is what the operations in effect have made of it; the stack has the
last of these before the cursor, and what is undone behind it; and a step under way has read the
entry beside the cursor. -/
structure Follows (opened : σ) (s : State σ) (d : Done σ) : Prop where
  table : s.table = replay opened d.inEffect
  kept : s.stack.take s.cursor <:+ d.inEffect
  undone : s.stack.drop s.cursor = d.undone
  undoes : Undoes opened (d.inEffect ++ d.undone)
  busy : ∀ direction at' entry, s.busy = some (direction, at', entry) →
    s.stack[at']? = some entry ∧ match direction with
      | .undo => s.cursor = at' + 1
      | .redo => s.cursor = at'

variable {opened table : σ} {s s' : State σ} {d : Done σ} {event : Event σ}
  {entries more : List (HistoryEntry σ)}

theorem replay_append :
    replay table (entries ++ more) = replay (replay table entries) more := foldl_append

theorem undoes_append :
    Undoes table (entries ++ more) ↔ Undoes table entries ∧ Undoes (replay table entries) more := by
  induction entries generalizing table with
  | nil => exact (and_iff_right trivial).symm
  | cons entry entries ih => exact (and_congr_right fun _ => ih).trans and_assoc.symm

theorem Follows.push {entry : HistoryEntry σ} (h : Follows opened s d) (hbusy : s.busy = none)
    (hback : entry.backward (entry.forward s.table) = s.table) :
    Follows opened (push s entry) ⟨d.inEffect ++ [entry], []⟩ where
  table := by
    rw [replay_append, ← h.table]
    rfl
  kept := by
    rw [TableHistory.push, take_length]
    obtain ⟨front, hfront⟩ := h.kept
    exact (drop_suffix _ _).trans ⟨front, by rw [← append_assoc, hfront]⟩
  undone := drop_length
  undoes := by
    rw [append_nil, undoes_append, ← h.table]
    exact ⟨(undoes_append.mp h.undoes).1, hback, trivial⟩
  busy direction at' entry' hstep := by simp [TableHistory.push, hbusy] at hstep

theorem Follows.start (h : Follows opened s d) (direction : Direction) :
    Follows opened (start s direction) d := by
  unfold TableHistory.start
  split
  · rename_i at' entry _ hat hentry
    refine ⟨h.table, h.kept, h.undone, h.undoes, fun direction' at'' entry' hstep => ?_⟩
    obtain ⟨rfl, rfl, rfl⟩ : direction = direction' ∧ at' = at'' ∧ entry = entry' := by
      simpa using hstep
    rw [hat] at hentry
    refine ⟨hentry, ?_⟩
    cases direction with
    | undo =>
      simp only [place] at hat
      split_ifs at hat with hzero
      have hpred := Option.some.inj hat
      dsimp only
      omega
    | redo => exact Option.some.inj hat
  · exact h

theorem Follows.succeeds {step : Direction × ℕ × HistoryEntry σ} (h : Follows opened s d)
    (hbusy : s.busy = some step) (hstep : s.step .succeeds = some s') :
    Follows opened s' (d.step s .succeeds) := by
  obtain ⟨direction, at', entry⟩ := step
  obtain ⟨hentry, hcursor⟩ := h.busy direction at' entry hbusy
  obtain ⟨hlt, hget⟩ := List.getElem?_eq_some_iff.mp hentry
  have htake : s.stack.take (at' + 1) = s.stack.take at' ++ [entry] := by
    rw [take_succ_eq_append_getElem hlt, hget]
  have hdrop : s.stack.drop at' = entry :: s.stack.drop (at' + 1) := by
    rw [drop_eq_getElem_cons hlt, hget]
  simp only [State.step, hbusy, Option.map_some, Option.some.injEq] at hstep
  cases direction with
  | undo =>
    obtain rfl := hstep
    have hcursor : s.cursor = at' + 1 := hcursor
    obtain ⟨front, hfront⟩ := h.kept
    rw [hcursor, htake, ← append_assoc] at hfront
    -- what is taken back is the last operation in effect
    have hd : d.step s .succeeds = ⟨front ++ s.stack.take at', entry :: d.undone⟩ := by
      simp [Done.step, hbusy, ← hfront]
    have hundoes := h.undoes
    rw [← hfront, append_assoc, undoes_append] at hundoes
    have htable := h.table
    rw [← hfront, replay_append] at htable
    rw [hd]
    refine ⟨?_, suffix_append _ _, ?_, ?_, by simp⟩
    · rw [htable]
      exact hundoes.2.1
    · rw [hdrop, ← hcursor, h.undone]
    · rw [undoes_append]
      exact hundoes
  | redo =>
    obtain rfl := hstep
    have hcursor : s.cursor = at' := hcursor
    have hundone : d.undone = entry :: s.stack.drop (at' + 1) := by
      rw [← h.undone, hcursor, hdrop]
    have hd : d.step s .succeeds = ⟨d.inEffect ++ [entry], s.stack.drop (at' + 1)⟩ := by
      simp [Done.step, hbusy, hundone]
    obtain ⟨front, hfront⟩ := h.kept
    rw [hd]
    refine ⟨?_, ?_, rfl, ?_, by simp⟩
    · rw [replay_append, ← h.table]
      rfl
    · rw [htake, ← hfront, hcursor]
      exact ⟨front, by rw [append_assoc]⟩
    · rw [append_assoc, singleton_append, ← hundone]
      exact h.undoes

/-- **Undoing is as never having done.** In every run in which what is recorded is recorded between
two steps and can be taken back, the table is what the operations in effect have made of it. -/
theorem follows_of_reachesWhen (h : (tableHistory opened).ReachesWhen InOrder (s, d)) :
    Follows opened s d := by
  have hfollows : ∀ s, (tableHistory opened).ReachesWhen InOrder s → Follows opened s.1 s.2 := by
    intro s h
    refine @Machine.ReachesWhen.invariant _ _ _ _ _ (fun s => Follows opened s.1 s.2) h ?_ ?_
    · rintro _ rfl
      exact ⟨rfl, nil_suffix, rfl, trivial, by simp⟩
    · rintro s event s' hs hok hstep
      obtain ⟨after, hafter, rfl⟩ := Option.map_eq_some_iff.mp hstep
      rcases event with entry | direction | _ | _
      · obtain rfl := Option.some.inj hafter
        exact hs.push hok.1 hok.2
      · obtain rfl := Option.some.inj hafter
        exact hs.start direction
      · obtain ⟨step, hbusy, -⟩ := Option.map_eq_some_iff.mp hafter
        exact hs.succeeds hbusy hafter
      · obtain ⟨_, -, rfl⟩ := Option.map_eq_some_iff.mp hafter
        exact ⟨hs.table, hs.kept, hs.undone, hs.undoes, by simp⟩
  exact hfollows _ h

/-- A counter is raised, and that is undone. -/
theorem follows_of_reachesWhen_undone :
    ∃ s d, Follows 0 s d ∧ s.table = 0 ∧ s.cursor = 0 ∧ d.undone.length = 1 := by
  have hdone := (Machine.ReachesWhen.start rfl : (tableHistory 0).ReachesWhen InOrder _).next
    (show InOrder (⟨[], 0, 0, none⟩, ⟨[], []⟩) (.push ⟨(· + 1), (· - 1)⟩) from ⟨rfl, rfl⟩) rfl
  have hundone := (hdone.next (show InOrder _ (.starts .undo) from trivial) rfl).next
    (show InOrder _ .succeeds from trivial) rfl
  exact ⟨_, _, follows_of_reachesWhen hundone, rfl, rfl, rfl⟩

end Sone.TableHistory
