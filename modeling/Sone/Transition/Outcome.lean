/-!
# Computations that may fail

Where a computation made of others is ok, its parts are.
-/

namespace Sone

universe u v

variable {ε : Type u} {α β : Type v} {x : Except ε α} {b : β}

theorem bind_eq_ok_iff {f : α → Except ε β} :
    (x >>= f) = .ok b ↔ ∃ a, x = .ok a ∧ f a = .ok b := by
  cases x with
  | error e => simp [bind, Except.bind]
  | ok a => simp [bind, Except.bind]

theorem map_eq_ok_iff {f : α → β} : x.map f = .ok b ↔ ∃ a, x = .ok a ∧ f a = b := by
  cases x with
  | error e => simp [Except.map]
  | ok a => simp [Except.map]

theorem mapError_eq_ok_iff {ε' : Type u} {f : ε → ε'} {a : α} :
    x.mapError f = .ok a ↔ x = .ok a := by
  cases x with
  | error e =>
    constructor
    · intro h
      cases h
    · intro h
      cases h
  | ok a =>
    constructor
    · intro h
      cases h
      rfl
    · intro h
      cases h
      rfl

end Sone
