import Mathlib.Data.List.Basic

/-!
# The bits of a word

A word stands for a list of bits, its lowest ones with the highest of them first (`lowBits`).
Shifting a word to the left and filling it up appends bits, as long as there is room for those
asked for (`lowBits_shiftLeft_or`), and shifting to the right drops them (`lowBits_add`). So a loop
that goes on shifting into one word may let the upper bits go.
-/

namespace Sone.Bits

open List

variable {w w' a n : ℕ} {v x : BitVec w} {u : BitVec w'}

/-- The lowest bits of a word, the highest of them first. -/
def lowBits (v : BitVec w) : ℕ → List Bool
  | 0 => []
  | n + 1 => v.getLsbD n :: lowBits v n

@[simp] theorem length_lowBits : (lowBits v n).length = n := by
  induction n with
  | zero => rfl
  | succ n ih => rw [lowBits, length_cons, ih]

theorem lowBits_congr (h : ∀ i < n, v.getLsbD i = u.getLsbD i) : lowBits v n = lowBits u n := by
  induction n with
  | zero => rfl
  | succ n ih => rw [lowBits, lowBits, h n (by omega), ih fun i hi => h i (by omega)]

theorem lowBits_injective : Function.Injective fun v : BitVec w => lowBits v w := by
  intro v x h
  have hbits : ∀ n, lowBits v n = lowBits x n → ∀ i < n, v.getLsbD i = x.getLsbD i := by
    intro n
    induction n with
    | zero => exact fun _ i hi => absurd hi (by omega)
    | succ n ih =>
      intro h i hi
      obtain ⟨hlast, hrest⟩ := List.cons.inj h
      rcases Nat.lt_succ_iff_lt_or_eq.mp hi with hlt | rfl
      · exact ih hrest i hlt
      · exact hlast
  exact BitVec.eq_of_getLsbD_eq (hbits w h)

theorem lowBits_zero : lowBits (0#w) n = List.replicate n false := by
  induction n with
  | zero => rfl
  | succ n ih => rw [lowBits, ih, BitVec.getLsbD_zero, replicate_succ]

theorem lowBits_setWidth (h : n ≤ a) : lowBits (v.setWidth a) n = lowBits v n :=
  lowBits_congr fun i hi => by
    rw [BitVec.getLsbD_setWidth, decide_eq_true (by omega), Bool.true_and]

theorem lowBits_add : lowBits v (n + a) = lowBits (v >>> a) n ++ lowBits v a := by
  induction n with
  | zero => rw [Nat.zero_add]; rfl
  | succ n ih =>
    rw [Nat.add_right_comm, lowBits, lowBits, ih, BitVec.getLsbD_ushiftRight, Nat.add_comm n a]
    rfl

theorem lowBits_shiftLeft_or (hx : ∀ i, a ≤ i → x.getLsbD i = false) (hroom : n + a ≤ w) :
    lowBits (v <<< a ||| x) (n + a) = lowBits v n ++ lowBits x a := by
  rw [lowBits_add]
  congr 1
  · refine lowBits_congr fun i hi => ?_
    have hlt : a + i < w := by omega
    rw [BitVec.getLsbD_ushiftRight, BitVec.getLsbD_or, BitVec.getLsbD_shiftLeft,
      hx (a + i) (by omega), decide_eq_true hlt, decide_eq_false (by omega),
      Nat.add_sub_cancel_left]
    simp
  · refine lowBits_congr fun i hi => ?_
    simp [hi]

/-- **Words of one width** are told by all their bits, with fewer than a word behind them. -/
theorem eq_of_flatMap_append {α : Type*} {code : α → List Bool} (hcode : Function.Injective code)
    (hlength : ∀ x, (code x).length = w) {xs ys : List α} {p q : List Bool}
    (hp : p.length < w) (hq : q.length < w) (h : xs.flatMap code ++ p = ys.flatMap code ++ q) :
    xs = ys := by
  have hlen : ∀ {zs : List α} {z : α} {p q : List Bool},
      (z :: zs).flatMap code ++ p = q → w ≤ q.length := by
    rintro zs z p q rfl
    simp only [flatMap_cons, length_append, hlength]
    omega
  induction xs generalizing ys with
  | nil =>
    rcases ys with _ | ⟨y, ys⟩
    · rfl
    · exact absurd (hlen h.symm) (by simpa using hp)
  | cons x xs ih =>
    rcases ys with _ | ⟨y, ys⟩
    · exact absurd (hlen h) (by simpa using hq)
    · rw [flatMap_cons, flatMap_cons, append_assoc, append_assoc] at h
      obtain ⟨hhead, htail⟩ := append_inj h ((hlength x).trans (hlength y).symm)
      rw [hcode hhead, ih htail]

end Sone.Bits
