import Mathlib.Algebra.GroupWithZero.Nat
import Mathlib.Data.List.Basic

/-!
# Numbers as bytes, and where bytes occur

A file format lays out numbers of a fixed width, the least byte first (`LittleEndian.bytesOf`), one
after the other. A reader that knows the place of a number has it back, up to the width
(`LittleEndian.read_append`).

A reader that searches for a signature finds it wherever it occurs, also over the edge of two parts.
Where the second part begins, or the first one ends, with what the signature does not go on with,
there is no such edge (`isInfix_append_iff_of_head`, `isInfix_append_iff_of_last`).
-/

namespace Sone

open List

universe u

namespace LittleEndian

/-- The bytes of a number, the least first. What does not fit is cut off. -/
def bytesOf : ℕ → ℕ → List UInt8
  | 0, _ => []
  | width + 1, n => UInt8.ofNat n :: bytesOf width (n / 256)

def toNat : List UInt8 → ℕ
  | [] => 0
  | b :: bytes => b.toNat + 256 * toNat bytes

def read (width : ℕ) (bytes : List UInt8) (place : ℕ) : ℕ := toNat ((bytes.drop place).take width)

@[simp] theorem length_bytesOf (width n : ℕ) : (bytesOf width n).length = width := by
  induction width generalizing n with
  | zero => rfl
  | succ width ih => rw [bytesOf, length_cons, ih]

theorem toNat_bytesOf (width n : ℕ) : toNat (bytesOf width n) = n % 256 ^ width := by
  induction width generalizing n with
  | zero => rw [bytesOf, toNat, Nat.pow_zero, Nat.mod_one]
  | succ width ih =>
    have hbyte : (UInt8.ofNat n).toNat = n % 256 := UInt8.toNat_ofNat'
    rw [bytesOf, toNat, ih, hbyte, Nat.pow_succ', Nat.mod_mul]

theorem read_append (before : List UInt8) (width n : ℕ) (after : List UInt8) :
    read width (before ++ (bytesOf width n ++ after)) before.length = n % 256 ^ width := by
  rw [read, drop_left, take_left' (length_bytesOf width n), toNat_bytesOf]

/-- The bytes of fields, a width and a number each. -/
def layout (fields : List (ℕ × ℕ)) : List UInt8 :=
  fields.flatMap fun field => bytesOf field.1 field.2

theorem length_layout (fields : List (ℕ × ℕ)) :
    (layout fields).length = (fields.map Prod.fst).sum := by
  simp only [layout, length_flatMap, length_bytesOf]

theorem layout_append (fields fields' : List (ℕ × ℕ)) :
    layout (fields ++ fields') = layout fields ++ layout fields' := flatMap_append

/-- **A field is read back** at its place, which is behind the widths of those before it. -/
theorem read_layout (before : List UInt8) {fields : List (ℕ × ℕ)} (after : List UInt8) (i : ℕ)
    {width n : ℕ} (h : fields[i]? = some (width, n)) :
    read width (before ++ (layout fields ++ after))
      (before.length + ((fields.take i).map Prod.fst).sum) = n % 256 ^ width := by
  obtain ⟨hi, hfield⟩ := List.getElem?_eq_some_iff.mp h
  have hsplit : layout fields =
      layout (fields.take i) ++ (bytesOf width n ++ layout (fields.drop (i + 1))) := by
    conv_lhs => rw [← take_append_drop i fields, drop_eq_getElem_cons hi, hfield]
    rw [layout_append]
    rfl
  have hplace : before.length + ((fields.take i).map Prod.fst).sum =
      (before ++ layout (fields.take i)).length := by
    rw [length_append, length_layout]
  rw [hplace, hsplit]
  have hread := read_append (before ++ layout (fields.take i)) width n
    (layout (fields.drop (i + 1)) ++ after)
  simp only [append_assoc] at hread ⊢
  exact hread

end LittleEndian

/-! ### Occurrences -/

section Occurrences

variable {α : Type u} {w a b : List α}

theorem isInfix_append_iff_of_head (h : ∀ x ∈ b.head?, x ∉ w.tail) :
    w <:+: a ++ b ↔ w <:+: a ∨ w <:+: b := by
  rw [infix_append_iff_ne_nil]
  refine ⟨fun hw => ?_, fun hw => hw.elim .inl fun hw => .inr (.inl hw)⟩
  rcases hw with hw | hw | ⟨p, s, hp, hs, rfl, -, hprefix⟩
  · exact .inl hw
  · exact .inr hw
  · obtain ⟨x, s, rfl⟩ := exists_cons_of_ne_nil hs
    obtain ⟨y, p, rfl⟩ := exists_cons_of_ne_nil hp
    obtain ⟨rest, rfl⟩ := hprefix
    exact absurd (by simp) (h x rfl)

theorem isInfix_append_iff_of_last (h : ∀ x ∈ a.getLast?, x ∉ w.dropLast) :
    w <:+: a ++ b ↔ w <:+: a ∨ w <:+: b := by
  rw [infix_append_iff_ne_nil]
  refine ⟨fun hw => ?_, fun hw => hw.elim .inl fun hw => .inr (.inl hw)⟩
  rcases hw with hw | hw | ⟨p, s, hp, hs, rfl, ⟨rest, rfl⟩, -⟩
  · exact .inl hw
  · exact .inr hw
  · obtain ⟨p, x, rfl⟩ := eq_nil_or_concat' p |>.resolve_left hp
    have hmem : x ∈ ((p ++ [x]) ++ s).dropLast := by
      rw [dropLast_append_of_ne_nil hs]
      simp
    exact absurd hmem (h x (by simp))

end Occurrences

end Sone
