import Sone.Formula.Grammar

/-!
# Parsing ends

Every token costs eight of fuel: six for the levels above a primary, one for the primary and one
for the loop or the arguments it stands in. A parser takes no token twice, so eight for each of
its tokens and the height of its level is enough (`endsWith`). After a failure that is no
different: primaries take nothing then, and the loops that go on take an operator each.
-/

namespace Sone

variable {js : Js}

/-- The height of a level over the tokens. -/
def Precedence.height : Precedence → ℕ
  | .or => 6
  | .and => 5
  | .comparison => 4
  | .sum => 3
  | .product => 2
  | .primary => 1

theorem height_next {l : Precedence} (h : l ≠ .primary) :
    l.height = l.next.height + 1 ∧ 1 ≤ l.next.height := by
  cases l
  · exact ⟨rfl, by decide⟩
  · exact ⟨rfl, by decide⟩
  · exact ⟨rfl, by decide⟩
  · exact ⟨rfl, by decide⟩
  · exact ⟨rfl, by decide⟩
  · exact absurd rfl h

namespace FormulaParser

variable {s : FormulaParser}

theorem length_advance (h : s.peek.kind ≠ .finish) :
    s.rest.length = s.advance.rest.length + 1 := by
  rw [rest_eq_of_peek h, List.length_cons]

theorem length_advance_le : s.advance.rest.length ≤ s.rest.length := by
  rw [advance, List.length_tail]
  exact Nat.sub_le _ _

theorem length_close_le {place : ℕ} {e : Expr} :
    (s.close place e).2.rest.length ≤ s.rest.length := by
  rw [close]
  split
  · exact length_advance_le
  · exact le_rfl

end FormulaParser

/-- **With some fuel**, what has eight of it for each of its tokens comes to an end, with no more
tokens than it had. -/
structure EndsWith (js : Js) (fuel : ℕ) : Prop where
  parse : ∀ {l : Precedence} {s : FormulaParser}, 8 * s.rest.length + l.height ≤ fuel →
    ∃ r, parse js fuel l s = some r ∧ r.2.rest.length ≤ s.rest.length
  binary : ∀ {l : Precedence} {left : Expr} {s : FormulaParser}, l ≠ .primary →
    8 * s.rest.length + 1 ≤ fuel →
      ∃ r, parseBinary js fuel l left s = some r ∧ r.2.rest.length ≤ s.rest.length
  arguments : ∀ {args : List Expr} {s : FormulaParser}, 8 * s.rest.length + 7 ≤ fuel →
    ∃ r, parseArguments js fuel args s = some r ∧ r.2.rest.length ≤ s.rest.length

namespace EndsWith

variable {fuel : ℕ} {s : FormulaParser}

theorem map {α β : Type} {x : Option (α × FormulaParser)}
    {f : α × FormulaParser → β × FormulaParser} {n m : ℕ}
    (h : ∃ r, x = some r ∧ r.2.rest.length ≤ n) (hnm : n ≤ m)
    (hf : ∀ r, (f r).2.rest.length ≤ r.2.rest.length) :
    ∃ r, x.map f = some r ∧ r.2.rest.length ≤ m := by
  obtain ⟨r, rfl, hlen⟩ := h
  exact ⟨f r, rfl, (hf r).trans (hlen.trans hnm)⟩

theorem primary (ih : EndsWith js fuel) (h : 8 * s.rest.length ≤ fuel) :
    ∃ r, Sone.parse js (fuel + 1) .primary s = some r ∧ r.2.rest.length ≤ s.rest.length := by
  rw [Sone.parse]
  split
  · exact ⟨_, rfl, le_rfl⟩
  split
  · exact ⟨_, rfl, le_rfl⟩
  refine map (n := s.rest.length) ?_ le_rfl fun r => le_rfl
  have hadvance : s.enter.advance.rest.length ≤ s.rest.length := @FormulaParser.length_advance_le s
  split
  · exact ⟨_, rfl, hadvance⟩
  · exact ⟨_, rfl, hadvance⟩
  · exact ⟨_, rfl, hadvance⟩
  · rename_i word hword
    have hlen : s.rest.length = s.enter.advance.rest.length + 1 :=
      @FormulaParser.length_advance s (by rw [show s.peek.kind = _ from hword]; simp)
    split
    · exact ⟨_, rfl, hadvance⟩
    split
    · exact map (ih.parse (by rw [Precedence.height]; omega)) hadvance fun r => le_rfl
    split
    · have hargs := (@FormulaParser.length_advance_le s.enter.advance).trans hadvance
      split
      · exact ⟨_, rfl, FormulaParser.length_close_le.trans hargs⟩
      · refine map (ih.arguments ?_) hargs fun r => FormulaParser.length_close_le
        have := @FormulaParser.length_advance_le s.enter.advance
        omega
    · exact ⟨_, rfl, hadvance⟩
  · rename_i value hvalue
    have hlen : s.rest.length = s.enter.advance.rest.length + 1 :=
      @FormulaParser.length_advance s (by rw [show s.peek.kind = _ from hvalue]; simp)
    split
    · exact map (ih.parse (by rw [Precedence.height]; omega)) hadvance
        fun r => FormulaParser.length_close_le
    split
    · exact map (ih.parse (by rw [Precedence.height]; omega)) hadvance fun r => le_rfl
    · exact ⟨_, rfl, le_rfl⟩
  · exact ⟨_, rfl, le_rfl⟩

theorem operand (ih : EndsWith js fuel) {l : Precedence} (hl : l ≠ .primary)
    (h : 8 * s.rest.length + l.height ≤ fuel + 1) :
    ∃ r, Sone.parse js (fuel + 1) l s = some r ∧ r.2.rest.length ≤ s.rest.length := by
  obtain ⟨hheight, hpos⟩ := height_next hl
  obtain ⟨r, hr, hlen⟩ := @ih.parse l.next s (by omega)
  obtain ⟨r', hr', hlen'⟩ := @ih.binary l r.1 r.2 hl (by omega)
  rw [parse_operand hl, hr]
  exact ⟨r', hr', hlen'.trans hlen⟩

theorem loop (ih : EndsWith js fuel) {l : Precedence} {left : Expr} (hl : l ≠ .primary)
    (h : 8 * s.rest.length ≤ fuel) :
    ∃ r, parseBinary js (fuel + 1) l left s = some r ∧ r.2.rest.length ≤ s.rest.length := by
  rw [parseBinary]
  split
  · exact ⟨_, rfl, le_rfl⟩
  · rename_i op hop
    have hadvance : s.rest.length = s.advance.rest.length + 1 := by
      refine FormulaParser.length_advance fun hfinish => ?_
      rw [hfinish, operator_finish] at hop
      cases hop
    have hheight : l.next.height ≤ 5 := by cases l <;> simp [Precedence.next, Precedence.height]
    obtain ⟨r, hr, hlen⟩ := @ih.parse l.next s.advance (by omega)
    obtain ⟨r', hr', hlen'⟩ := @ih.binary l (.binary op left r.1) r.2 hl (by omega)
    rw [hr]
    exact ⟨r', hr', by omega⟩

theorem argumentList (ih : EndsWith js fuel) {args : List Expr}
    (h : 8 * s.rest.length + 6 ≤ fuel) :
    ∃ r, parseArguments js (fuel + 1) args s = some r ∧ r.2.rest.length ≤ s.rest.length := by
  obtain ⟨r, hr, hlen⟩ := @ih.parse .or s h
  rw [parseArguments, hr, Option.bind_some]
  split
  · rename_i hcomma
    have hadvance : r.2.rest.length = r.2.advance.rest.length + 1 := by
      refine FormulaParser.length_advance ?_
      rw [FormulaParser.isOp_iff.mp hcomma]
      simp
    obtain ⟨r', hr', hlen'⟩ := @ih.arguments (args ++ [r.1]) r.2.advance (by omega)
    exact ⟨r', hr', by omega⟩
  · exact ⟨_, rfl, hlen⟩

end EndsWith

theorem endsWith (fuel : ℕ) : EndsWith js fuel := by
  induction fuel with
  | zero =>
    refine ⟨fun {l s} h => ?_, fun _ h => by omega, fun h => by omega⟩
    cases l <;> simp [Precedence.height] at h
  | succ fuel ih =>
    refine ⟨fun {l s} h => ?_, fun hl h => ih.loop hl (by omega),
      fun h => ih.argumentList (by omega)⟩
    by_cases hl : l = .primary
    · subst hl
      exact ih.primary (by rw [Precedence.height] at h; omega)
    · exact ih.operand hl h

end Sone
