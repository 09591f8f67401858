import Sone.Doc.Text
import Sone.Order.KeyBetween
import Sone.Transition.Outcome
import Mathlib.Data.Rat.Lemmas

/-!
# Several keys between two keys

`generateNKeysBetween` appends key after key where there is no upper bound, prepends them where
there is no lower one, and between two bounds puts a key in the middle and goes on in the two
halves. Each way is a list put together around a key: `IsSpread.split` joins what lies below a key
and what lies above it, and `generateNKeysBetween_spec` is the induction over the number of keys
with it.
-/

namespace Sone.FractionalIndex

open List

/-- What `generateNKeysBetween` throws: its own error for the count, or that of a key. -/
inductive KeysFailure
  | count (count : JsNumber)
  | key (failure : Failure)
  deriving DecidableEq

def KeysFailure.message (js : Js) : KeysFailure → String
  | .count n => "count must be a non-negative integer: " ++ js.toText (.number n)
  | .key failure => failure.message

/-- The number, where `Number.isInteger(count) && count >= 0`. -/
def natural? : JsNumber → Option ℕ
  | .finite n => if n.den = 1 ∧ 0 ≤ n.num then some n.num.toNat else none
  | .nan | .infinity _ => none

theorem natural?_eq_some {count : JsNumber} {n : ℕ} :
    natural? count = some n ↔ count = .finite n := by
  constructor
  · intro h
    cases count with
    | finite q =>
      obtain ⟨⟨hden, hnum⟩, hn⟩ := Option.ite_none_right_eq_some.mp h
      have hq : (q.num : ℚ) = n := by
        rw [← Option.some.inj hn, ← Int.cast_natCast, Int.toNat_of_nonneg hnum]
      rw [← hq, Rat.coe_int_num_of_den_eq_one hden]
    | nan => simp [natural?] at h
    | infinity negative => simp [natural?] at h
  · rintro rfl
    simp [natural?]

/-- The loop at the tail: every key comes after the one before. -/
def keysAfter (cursor : Text) : ℕ → Except Failure (List Text)
  | 0 => return []
  | count + 1 => do
    let cursor ← generateKeyBetween (some cursor) none
    return cursor :: (← keysAfter cursor count)

/-- The loop at the head: every key comes before the one pushed last. -/
def keysBefore (cursor : Text) : ℕ → Except Failure (List Text)
  | 0 => return []
  | count + 1 => do
    let cursor ← generateKeyBetween none (some cursor)
    return cursor :: (← keysBefore cursor count)

/-- `generateNKeysBetween`, of a count that is one -/
def nKeysBetween (before after : Option Text) (count : ℕ) : Except Failure (List Text) :=
  if _hzero : count = 0 then return []
  else if count = 1 then return [← generateKeyBetween before after]
  else match before, after with
    | before, none => do
      let cursor ← generateKeyBetween before none
      return cursor :: (← keysAfter cursor (count - 1))
    | none, some after => do
      let cursor ← generateKeyBetween none (some after)
      return (cursor :: (← keysBefore cursor (count - 1))).reverse
    | some before, some after => do
      let mid := count / 2
      let midKey ← generateKeyBetween (some before) (some after)
      return (← nKeysBetween (some before) (some midKey) mid) ++
        midKey :: (← nKeysBetween (some midKey) (some after) (count - mid - 1))
termination_by count
decreasing_by all_goals omega

def generateNKeysBetween (before after : Option Text) (count : JsNumber) :
    Except KeysFailure (List Text) :=
  match natural? count with
  | none => .error (.count count)
  | some count => (nKeysBetween before after count).mapError .key

/-! ### Keys in order between two bounds -/

/-- **Keys spread between two bounds**: valid, strictly increasing, and strictly between them. -/
structure IsSpread (before after : Option Text) (keys : List Text) : Prop where
  valid : ∀ key ∈ keys, validate key = .ok ()
  increasing : keys.Pairwise (· < ·)
  above : ∀ b ∈ before, ∀ key ∈ keys, b < key
  below : ∀ a ∈ after, ∀ key ∈ keys, key < a

variable {before after : Option Text} {cursor middle : Text} {keys low high : List Text} {n : ℕ}

theorem IsSpread.nil : IsSpread before after [] := ⟨by simp, by simp, by simp, by simp⟩

/-- **Around a key**: what is spread below it and what is spread above it. -/
theorem IsSpread.split (hvalid : validate middle = .ok ()) (habove : ∀ b ∈ before, b < middle)
    (hbelow : ∀ a ∈ after, middle < a) (hlow : IsSpread before (some middle) low)
    (hhigh : IsSpread (some middle) after high) :
    IsSpread before after (low ++ middle :: high) where
  valid := by
    rw [forall_mem_append, forall_mem_cons]
    exact ⟨hlow.valid, hvalid, hhigh.valid⟩
  increasing := by
    rw [pairwise_append, pairwise_cons]
    refine ⟨hlow.increasing, ⟨hhigh.above _ rfl, hhigh.increasing⟩, fun k hk k' hk' => ?_⟩
    have hfirst := hlow.below _ rfl k hk
    rcases mem_cons.mp hk' with rfl | hk'
    · exact hfirst
    · exact hfirst.trans (hhigh.above _ rfl k' hk')
  above b hb := by
    rw [forall_mem_append, forall_mem_cons]
    exact ⟨hlow.above b hb, habove b hb, fun k hk => (habove b hb).trans (hhigh.above _ rfl k hk)⟩
  below a ha := by
    rw [forall_mem_append, forall_mem_cons]
    exact ⟨fun k hk => (hlow.below _ rfl k hk).trans (hbelow a ha), hbelow a ha, hhigh.below a ha⟩

theorem between_of_generateKeyBetween {key : Text} (h : generateKeyBetween before after = .ok key) :
    validate key = .ok () ∧ (∀ b ∈ before, b < key) ∧ ∀ a ∈ after, key < a := by
  obtain ⟨hbefore, hafter, hlt⟩ := bounds_of_generateKeyBetween h
  by_cases hne : before = none ∧ after = some smallestInteger
  · obtain ⟨rfl, rfl⟩ := hne
    rw [generateKeyBefore_smallest] at h
    simp at h
  · obtain ⟨found, hfound, hvalid⟩ := exists_key before after hbefore hafter hlt hne
    obtain rfl : key = found := Except.ok.inj (h.symm.trans hfound)
    exact hvalid

theorem isSpread_keysAfter (h : keysAfter cursor n = .ok keys) :
    keys.length = n ∧ IsSpread (some cursor) none keys := by
  induction n generalizing cursor keys with
  | zero =>
    obtain rfl := Except.ok.inj h
    exact ⟨rfl, .nil⟩
  | succ n ih =>
    obtain ⟨key, hkey, hsteps⟩ := bind_eq_ok_iff.mp h
    obtain ⟨rest, hrest, heq⟩ := bind_eq_ok_iff.mp hsteps
    obtain rfl := Except.ok.inj heq
    obtain ⟨hvalid, habove, hbelow⟩ := between_of_generateKeyBetween hkey
    obtain ⟨hlength, hspread⟩ := ih hrest
    exact ⟨by rw [length_cons, hlength], IsSpread.nil.split hvalid habove hbelow hspread⟩

theorem isSpread_keysBefore (h : keysBefore cursor n = .ok keys) :
    keys.length = n ∧ IsSpread none (some cursor) keys.reverse := by
  induction n generalizing cursor keys with
  | zero =>
    obtain rfl := Except.ok.inj h
    exact ⟨rfl, .nil⟩
  | succ n ih =>
    obtain ⟨key, hkey, hsteps⟩ := bind_eq_ok_iff.mp h
    obtain ⟨rest, hrest, heq⟩ := bind_eq_ok_iff.mp hsteps
    obtain rfl := Except.ok.inj heq
    obtain ⟨hvalid, habove, hbelow⟩ := between_of_generateKeyBetween hkey
    obtain ⟨hlength, hspread⟩ := ih hrest
    rw [length_cons, hlength, reverse_cons]
    exact ⟨rfl, hspread.split hvalid habove hbelow .nil⟩

/-- **Keys that are given** are as many as asked for, and spread between the bounds. -/
theorem isSpread_nKeysBetween (h : nKeysBetween before after n = .ok keys) :
    keys.length = n ∧ IsSpread before after keys := by
  induction n using Nat.strongRecOn generalizing before after keys with
  | ind n ih =>
    rw [nKeysBetween.eq_def] at h
    split_ifs at h with hzero hone
    · obtain rfl := Except.ok.inj h
      exact ⟨hzero.symm, .nil⟩
    · obtain ⟨key, hkey, heq⟩ := bind_eq_ok_iff.mp h
      obtain rfl := Except.ok.inj heq
      obtain ⟨hvalid, habove, hbelow⟩ := between_of_generateKeyBetween hkey
      exact ⟨hone.symm, IsSpread.nil.split hvalid habove hbelow .nil⟩
    · rcases after with _ | after
      · obtain ⟨key, hkey, hsteps⟩ := bind_eq_ok_iff.mp h
        obtain ⟨rest, hrest, heq⟩ := bind_eq_ok_iff.mp hsteps
        obtain rfl := Except.ok.inj heq
        obtain ⟨hvalid, habove, hbelow⟩ := between_of_generateKeyBetween hkey
        obtain ⟨hlength, hspread⟩ := isSpread_keysAfter hrest
        refine ⟨?_, IsSpread.nil.split hvalid habove hbelow hspread⟩
        rw [length_cons, hlength]
        omega
      · rcases before with _ | before
        · obtain ⟨key, hkey, hsteps⟩ := bind_eq_ok_iff.mp h
          obtain ⟨rest, hrest, heq⟩ := bind_eq_ok_iff.mp hsteps
          obtain rfl := Except.ok.inj heq
          obtain ⟨hvalid, habove, hbelow⟩ := between_of_generateKeyBetween hkey
          obtain ⟨hlength, hspread⟩ := isSpread_keysBefore hrest
          rw [length_reverse, length_cons, hlength, reverse_cons]
          exact ⟨by omega, hspread.split hvalid habove hbelow .nil⟩
        · obtain ⟨key, hkey, hsteps⟩ := bind_eq_ok_iff.mp h
          obtain ⟨low, hlow, hupper⟩ := bind_eq_ok_iff.mp hsteps
          obtain ⟨high, hhigh, heq⟩ := bind_eq_ok_iff.mp hupper
          obtain rfl := Except.ok.inj heq
          obtain ⟨hvalid, habove, hbelow⟩ := between_of_generateKeyBetween hkey
          -- the key in the middle parts the gap, and each part is filled on its own
          obtain ⟨hlowLength, hlowSpread⟩ := ih (n / 2) (by omega) hlow
          obtain ⟨hhighLength, hhighSpread⟩ := ih (n - n / 2 - 1) (by omega) hhigh
          refine ⟨?_, hlowSpread.split hvalid habove hbelow hhighSpread⟩
          rw [length_append, length_cons, hlowLength, hhighLength]
          omega

/-- **Between two keys** as many are given as asked for. -/
theorem exists_nKeysBetween {before after : Text} (hbefore : validate before = .ok ())
    (hafter : validate after = .ok ()) (hlt : before < after) (n : ℕ) :
    ∃ keys, nKeysBetween (some before) (some after) n = .ok keys := by
  induction n using Nat.strongRecOn generalizing before after with
  | ind n ih =>
    obtain ⟨key, hkey, hvalid, habove, hbelow⟩ := exists_key (some before) (some after)
      (by rintro b ⟨⟩; exact hbefore) (by rintro a ⟨⟩; exact hafter)
      (by rintro b ⟨⟩ a ⟨⟩; exact hlt) (by simp)
    rw [nKeysBetween.eq_def]
    split_ifs with hzero hone
    · exact ⟨[], rfl⟩
    · exact ⟨[key], by rw [hkey]; rfl⟩
    · obtain ⟨low, hlow⟩ := ih (n / 2) (by omega) hbefore hvalid (habove _ rfl)
      obtain ⟨high, hhigh⟩ := ih (n - n / 2 - 1) (by omega) hvalid hafter (hbelow _ rfl)
      refine ⟨low ++ key :: high, ?_⟩
      simp only [hkey, bind, Except.bind, hlow, hhigh]
      rfl

/-- **Several keys between two bounds.** Where the bounds are valid and in order, what
`generateNKeysBetween` returns is as many valid keys as asked for, strictly increasing and strictly
between the bounds; and between two bounds it returns, for every count. -/
theorem generateNKeysBetween_spec (before after : Option Text)
    (hbefore : ∀ b ∈ before, validate b = .ok ()) (hafter : ∀ a ∈ after, validate a = .ok ())
    (hlt : ∀ b ∈ before, ∀ a ∈ after, b < a) :
    (∀ count keys, generateNKeysBetween before after count = .ok keys →
      count = .finite keys.length ∧ IsSpread before after keys) ∧
    ∀ n : ℕ, before ≠ none → after ≠ none →
      ∃ keys, generateNKeysBetween before after (.finite n) = .ok keys ∧ keys.length = n := by
  constructor
  · intro count keys h
    rw [generateNKeysBetween] at h
    split at h
    · simp at h
    · rename_i n hcount
      obtain ⟨hlength, hspread⟩ := isSpread_nKeysBetween (mapError_eq_ok_iff.mp h)
      exact ⟨by rw [hlength]; exact natural?_eq_some.mp hcount, hspread⟩
  · intro n hsomeBefore hsomeAfter
    obtain ⟨before, rfl⟩ := Option.ne_none_iff_exists'.mp hsomeBefore
    obtain ⟨after, rfl⟩ := Option.ne_none_iff_exists'.mp hsomeAfter
    obtain ⟨keys, hkeys⟩ := exists_nKeysBetween (hbefore _ rfl) (hafter _ rfl) (hlt _ rfl _ rfl) n
    refine ⟨keys, ?_, (isSpread_nKeysBetween hkeys).1⟩
    rw [generateNKeysBetween, natural?_eq_some.mpr rfl]
    exact mapError_eq_ok_iff.mpr hkeys

/-- Five keys between the first two. -/
theorem generateNKeysBetween_spec_first :
    (∀ count keys, generateNKeysBetween (some "a0".toList) (some "a1".toList) count = .ok keys →
      count = .finite keys.length ∧ IsSpread (some "a0".toList) (some "a1".toList) keys) ∧
    ∃ keys, generateNKeysBetween (some "a0".toList) (some "a1".toList) (.finite 5) = .ok keys ∧
      keys.length = 5 := by
  have hspec := generateNKeysBetween_spec (some "a0".toList) (some "a1".toList)
    (by rintro b ⟨⟩; decide +kernel) (by rintro a ⟨⟩; decide +kernel)
    (by rintro b ⟨⟩ a ⟨⟩; decide +kernel)
  exact ⟨hspec.1, hspec.2 5 (by simp) (by simp)⟩

end Sone.FractionalIndex
