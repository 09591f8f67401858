import Mathlib.Data.List.Lemmas
import Mathlib.Data.List.Lex

/-!
# Lexicographic order on sequences of digits

Three facts about sequences in dictionary order over a linear order of digits, which is how
a positional numeral with a length header is compared.

* **Words of a prefix code.** Two words neither of which begins with the other compare the
  way any continuations of them compare (`append_lt_append_iff`).
* **Padding.** A sequence may be read as if the lowest digit followed it for ever
  (`headD`). Dropping an equal first digit keeps the order as long as the upper sequence
  does not end in the lowest digit (`tail_lt_of_lt`), and putting one back always does
  (`lt_cons_of_tail_lt`).
* **Carries.** A carry runs from the right through the digits that overflow and stops at the
  first that does not (`exists_of_carry_stops`), or it runs through all of them
  (`eq_map_of_carry_remains`).
-/

namespace Sone.Lexicographic

open List

universe u

variable {α : Type u} [LinearOrder α] {a b x y s : List α} {z c d : α}

/-! ### Words of a prefix code -/

theorem append_lt_append_iff (hab : ¬a <+: b) (hba : ¬b <+: a) :
    a ++ x < b ++ y ↔ a < b := by
  induction a generalizing b with
  | nil => exact absurd nil_prefix hab
  | cons c a ih =>
    rcases b with _ | ⟨d, b⟩
    · exact absurd nil_prefix hba
    · rw [cons_append, cons_append, cons_lt_cons_iff, cons_lt_cons_iff]
      refine or_congr_right (and_congr_right ?_)
      rintro rfl
      rw [cons_prefix_cons] at hab hba
      exact ih (fun h => hab ⟨rfl, h⟩) fun h => hba ⟨rfl, h⟩

theorem lt_of_first_difference (h : c < d) : s ++ c :: x < s ++ d :: y :=
  append_left_lt (cons_lt_cons_iff.mpr (.inl h))

theorem lt_append (hx : x ≠ []) : s < s ++ x := by
  obtain ⟨c, x, rfl⟩ := exists_cons_of_ne_nil hx
  have hlt : s ++ [] < s ++ c :: x := append_left_lt (nil_lt_cons c x)
  rwa [append_nil] at hlt

theorem lt_of_append_lt_append (h : s ++ x < s ++ y) : x < y := by
  induction s with
  | nil => exact h
  | cons c s ih =>
    rw [cons_append, cons_append, cons_lt_cons_iff] at h
    exact ih (h.resolve_left (lt_irrefl c)).2

theorem not_replicate_lt {n : ℕ} (hle : ∀ c ∈ s, c ≤ z) (hlen : s.length ≤ n) :
    ¬List.replicate n z < s := by
  induction s generalizing n with
  | nil => exact not_lt_nil _
  | cons c s ih =>
    obtain ⟨n, rfl⟩ := Nat.exists_eq_succ_of_ne_zero (Nat.ne_zero_of_lt hlen)
    rw [forall_mem_cons] at hle
    rw [replicate_succ, cons_lt_cons_iff]
    rintro (hlt | ⟨-, hlt⟩)
    · exact hlt.not_ge hle.1
    · exact ih hle.2 (Nat.le_of_succ_le_succ hlen) hlt

theorem not_lt_replicate {n : ℕ} (hle : ∀ c ∈ s, z ≤ c) (hlen : n ≤ s.length) :
    ¬s < List.replicate n z := by
  induction n generalizing s with
  | zero => exact not_lt_nil _
  | succ n ih =>
    obtain ⟨c, s, rfl⟩ := exists_cons_of_length_pos (Nat.zero_lt_of_lt hlen)
    rw [forall_mem_cons] at hle
    rw [replicate_succ, cons_lt_cons_iff]
    rintro (hlt | ⟨-, hlt⟩)
    · exact hlt.not_ge hle.1
    · exact ih hle.2 (Nat.le_of_succ_le_succ hlen) hlt

/-! ### Padding with the lowest digit -/

theorem tail_lt_of_lt (hlast : (d :: x).getLast? ≠ some z) (hhead : s.headD z = d)
    (hlt : s < d :: x) : s.tail < x := by
  rcases s with _ | ⟨c, s⟩
  · rcases x with _ | ⟨e, x⟩
    · -- the upper sequence would be the lowest digit alone
      exact absurd (by simpa using hhead.symm) hlast
    · exact nil_lt_cons e x
  · obtain rfl : c = d := hhead
    simpa using cons_lt_cons_iff.mp hlt

theorem lt_cons_of_tail_lt (hhead : s.headD z = d) (hlt : s.tail < x) : s < d :: x := by
  rcases s with _ | ⟨c, s⟩
  · exact nil_lt_cons d x
  · obtain rfl : c = d := hhead
    exact cons_lt_cons_iff.mpr (.inr ⟨rfl, hlt⟩)

theorem lt_of_headD_lt (hlt : s.headD z < d) : s < d :: x := by
  rcases s with _ | ⟨c, s⟩
  · exact nil_lt_cons d x
  · exact cons_lt_cons_iff.mpr (.inl hlt)

theorem headD_lt_of_lt (hle : z ≤ d) (hne : s.headD z ≠ d) (hlt : s < d :: x) :
    s.headD z < d := by
  rcases s with _ | ⟨c, s⟩
  · exact lt_of_le_of_ne hle hne
  · exact (cons_lt_cons_iff.mp hlt).resolve_right fun h => hne h.1

/-! ### Carries -/

section Carry

variable {β : Type u} {f : β → Bool → Bool × β} {ds es : List β}

theorem forall_mem_mapAccumr {P : β → Prop} {b : Bool} (hf : ∀ e ∈ ds, ∀ b, P (f e b).2) :
    ∀ e ∈ (ds.mapAccumr f b).2, P e := by
  induction ds with
  | nil => simp [List.mapAccumr]
  | cons e ds ih =>
    rw [forall_mem_cons] at hf
    exact forall_mem_cons.mpr ⟨hf.1 _, ih hf.2⟩

theorem eq_map_of_carry_remains (hf : ∀ e, f e false = (false, e))
    (h : ds.mapAccumr f true = (true, es)) :
    (∀ e ∈ ds, (f e true).1 = true) ∧ es = ds.map fun e => (f e true).2 := by
  induction ds generalizing es with
  | nil => simpa [List.mapAccumr] using h.symm
  | cons e ds ih =>
    rcases hrest : ds.mapAccumr f true with ⟨carry, es'⟩
    simp only [List.mapAccumr, hrest, Prod.mk.injEq] at h
    obtain ⟨hcarry, rfl⟩ := h
    rcases carry with _ | _
    · simp [hf] at hcarry
    · obtain ⟨hall, rfl⟩ := ih hrest
      exact ⟨forall_mem_cons.mpr ⟨hcarry, hall⟩, rfl⟩

theorem exists_of_carry_stops (hf : ∀ e, f e false = (false, e))
    (h : ds.mapAccumr f true = (false, es)) :
    ∃ front e back back', ds = front ++ e :: back ∧ (f e true).1 = false ∧
      es = front ++ (f e true).2 :: back' := by
  induction ds generalizing es with
  | nil => simp [List.mapAccumr] at h
  | cons e ds ih =>
    rcases hrest : ds.mapAccumr f true with ⟨carry, es'⟩
    simp only [List.mapAccumr, hrest, Prod.mk.injEq] at h
    obtain ⟨hcarry, rfl⟩ := h
    rcases carry with _ | _
    · obtain ⟨front, e', back, back', rfl, hstop, rfl⟩ := ih hrest
      exact ⟨e :: front, e', back, back', rfl, hstop, by simp [hf]⟩
    · exact ⟨[], e, ds, es', rfl, hcarry, rfl⟩

end Carry

end Sone.Lexicographic
