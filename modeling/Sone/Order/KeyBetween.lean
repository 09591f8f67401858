import Mathlib.Order.MinMax
import Sone.Order.FractionalIndex

/-!
# A key between two keys

* `midpoint` copies what the bounds share, with the lower bound padded by zeros, and finds a
  digit between them or descends. Every call is on bounds that are shorter together, so it
  ends on all inputs, and between a fraction and a greater one it finds a third
  (`midpoint_spec`).
* `generateKeyBetween` works on the integer parts when they differ or a bound is missing, and
  on the fractions when they are equal. Between two valid bounds it gives a valid key
  (`exists_generateKeyBetween`), and below the least key alone it throws.
* Keys it gives are valid (`validate_of_generateKeyBetween`), so the keys of one list are a
  dense order: between any two of them there is room for one more.
-/

namespace Sone.FractionalIndex

open List Option

open Lexicographic

/-! ### The midpoint of two fractions -/

/-- The loop of `midpoint` over the shared prefix: the length of what the upper bound shares
with the lower one, which goes on in zeros. There is no shared prefix without an upper bound,
whose missing character equals none. -/
def sharedPrefix (lower : Text) : Option Text → ℕ
  | none => 0
  | some upper => go lower upper
where
  /-- The loop from one position on. -/
  go : Text → Text → ℕ
    | _, [] => 0
    | lower, u :: upper => if lower.headD zero = u then go lower.tail upper + 1 else 0

/-- `lowerDigit` of `midpoint` -/
def lowerDigit : Text → ℤ
  | [] => 0
  | c :: _ => indexOf c

/-- `upperDigit` of `midpoint` -/
def upperDigit : Option Text → ℤ
  | some (c :: _) => indexOf c
  | _ => base

/-- `Math.round(0.5 * n)`: halves round up. -/
def roundHalf (n : ℤ) : ℤ := (n + 1) / 2

theorem sharedPrefix.go_le_length (lower upper : Text) : go lower upper ≤ upper.length := by
  induction upper generalizing lower with
  | nil => simp [go]
  | cons u upper ih =>
    rw [go]
    split_ifs
    · simpa using ih lower.tail
    · exact Nat.zero_le _

/-- `midpoint`: a fraction strictly between two. Each call is on bounds that are shorter
together, whatever characters they have. -/
def midpoint (lower : Text) (upper : Option Text) : Except Failure Text :=
  if upper.any (· ≤ lower) then .error (.lowerAboveUpper lower (upper.getD []))
  else
    let prefixLen := sharedPrefix lower upper
    if 0 < prefixLen then do
      -- copy the shared prefix, then work on the first differing position
      let rest ← midpoint (lower.drop prefixLen) (upper.map (·.drop prefixLen))
      return (upper.getD []).take prefixLen ++ rest
    else if 1 < upperDigit upper - lowerDigit lower then
      -- there is room for a digit strictly between the two
      .ok (concat (digitAt (roundHalf (lowerDigit lower + upperDigit upper))))
    else if upper.any (1 < ·.length) then do
      -- the bounds are adjacent digits: descend into the upper key
      let rest ← midpoint [] (upper.map (·.drop 1))
      return (upper.getD []).take 1 ++ rest
    else do
      -- the upper has no more digits: lengthen the lower
      let rest ← midpoint (lower.drop 1) none
      return concat (digitAt (lowerDigit lower)) ++ rest
termination_by lower.length + (upper.getD []).length
decreasing_by
  · rename_i hge hshared
    rcases upper with _ | upper
    · exact absurd hshared (Nat.lt_irrefl 0)
    · have hle := sharedPrefix.go_le_length lower upper
      have hpos : 0 < sharedPrefix.go lower upper := hshared
      simp only [sharedPrefix, map_some, getD_some, length_drop]
      omega
  · rename_i hge hshared hroom hlong
    rcases upper with _ | upper
    · exact absurd hlong (by simp)
    · have hlen : 1 < upper.length := by simpa using hlong
      simp only [map_some, getD_some, length_drop, length_nil]
      omega
  · rename_i hge hshared hroom hlong
    rcases lower with _ | ⟨c, lower⟩
    · rcases upper with _ | ⟨_ | ⟨u, upper⟩⟩
      · -- no lower digit and no upper bound leave room
        exact absurd (by decide +kernel : 1 < upperDigit none - lowerDigit []) hroom
      · exact absurd (by simp) hge
      · simp
    · simp only [drop_succ_cons, drop_zero, length_cons, getD_none,
        length_nil]
      omega

section Midpoint

variable {lower upper frac middle : Text} {c d : Char} {n : ℕ}

theorem IsDigits.append (h : IsDigits lower) (h' : IsDigits upper) : IsDigits (lower ++ upper) :=
  fun c hc => (mem_append.mp hc).elim (h c) (h' c)

theorem IsDigits.drop (h : IsDigits lower) : IsDigits (lower.drop n) :=
  fun c hc => h c (mem_of_mem_drop hc)

theorem IsDigits.take (h : IsDigits lower) : IsDigits (lower.take n) :=
  fun c hc => h c (mem_of_mem_take hc)

theorem IsDigits.headD_mem (h : IsDigits lower) : lower.headD zero ∈ digits := by
  rcases lower with _ | ⟨c, lower⟩
  · decide
  · exact h c mem_cons_self

theorem IsFraction.drop (h : IsFraction frac) : IsFraction (frac.drop n) where
  isDigits := h.isDigits.drop
  getLast_ne := by
    rw [List.getLast?_drop]
    split_ifs
    · simp
    · exact h.getLast_ne

theorem IsFraction.append (h : IsDigits lower) (h' : IsFraction frac) (hne : frac ≠ []) :
    IsFraction (lower ++ frac) where
  isDigits := h.append h'.isDigits
  getLast_ne := by
    rw [List.getLast?_append_of_ne_nil _ hne]
    exact h'.getLast_ne

theorem zero_le (hc : c ∈ digits) : zero ≤ c := by
  have hall : ∀ c ∈ digits, zero ≤ c := forall_mem_of_all (by decide +kernel)
  exact hall c hc

theorem ne_nil_of_lt (h : lower < middle) : middle ≠ [] := by
  rintro rfl
  exact not_lt_nil _ h

theorem drop_sharedPrefix_lt (hupper : IsFraction upper) (hlt : lower < upper) :
    lower.drop (sharedPrefix.go lower upper) < upper.drop (sharedPrefix.go lower upper) := by
  induction upper generalizing lower with
  | nil => exact absurd hlt (not_lt_nil _)
  | cons u upper ih =>
    rw [sharedPrefix.go]
    split_ifs with hhead
    · have htail := tail_lt_of_lt hupper.getLast_ne hhead hlt
      have hrest : IsFraction upper := hupper.drop (n := 1)
      simpa using ih hrest htail
    · exact hlt

theorem lt_take_sharedPrefix_append (hlt : lower.drop (sharedPrefix.go lower upper) < middle) :
    lower < upper.take (sharedPrefix.go lower upper) ++ middle := by
  induction upper generalizing lower with
  | nil => simpa [sharedPrefix.go] using hlt
  | cons u upper ih =>
    rw [sharedPrefix.go] at hlt ⊢
    split_ifs at hlt ⊢ with hhead
    · exact lt_cons_of_tail_lt hhead (ih (by simpa using hlt))
    · simpa using hlt

theorem lowerDigit_eq : lowerDigit lower = indexOf (lower.headD zero) := by
  rcases lower with _ | ⟨c, lower⟩
  · decide
  · rfl

theorem isFraction_singleton (hd : d ∈ digits) (hne : d ≠ zero) : IsFraction [d] where
  isDigits := by simpa [IsDigits] using hd
  getLast_ne := by simpa using hne

theorem headD_lt (hd : d ∈ digits) (hshared : ¬0 < sharedPrefix lower (some (d :: upper)))
    (hlt : lower < d :: upper) : lower.headD zero < d := by
  refine headD_lt_of_lt (zero_le hd) (fun hhead => hshared ?_) hlt
  rw [sharedPrefix, sharedPrefix.go, if_pos hhead]
  exact Nat.succ_pos _

theorem exists_digit_between {l u : ℤ} (hl : 0 ≤ l) (hu : u ≤ base) (hroom : 1 < u - l) :
    ∃ c ∈ digits, digitAt (roundHalf (l + u)) = some c ∧ l < indexOf c ∧ indexOf c < u := by
  have hlow : l < roundHalf (l + u) := by rw [roundHalf]; omega
  have hup : roundHalf (l + u) < u := by rw [roundHalf]; omega
  obtain ⟨c, hc, hat, hindex⟩ := exists_digitAt (hl.trans hlow.le) (hup.trans_le hu)
  exact ⟨c, hc, hat, hindex ▸ hlow, hindex ▸ hup⟩

theorem upperDigit_le_base {upper : Option Text} (h : ∀ u ∈ upper, IsFraction u) :
    upperDigit upper ≤ base := by
  rcases upper with _ | _ | ⟨d, upper⟩
  · exact le_rfl
  · exact le_rfl
  · exact (indexOf_lt_base ((h _ rfl).isDigits d mem_cons_self)).le

/-- **Between a fraction and a greater one, or none,** `midpoint` finds a third. -/
theorem midpoint_spec (lower : Text) (upper : Option Text) (hlower : IsDigits lower)
    (hupper : ∀ u ∈ upper, IsFraction u) (hlt : ∀ u ∈ upper, lower < u) :
    ∃ middle, midpoint lower upper = .ok middle ∧ IsFraction middle ∧ lower < middle ∧
      ∀ u ∈ upper, middle < u := by
  have hhead := hlower.headD_mem
  fun_induction midpoint lower upper with
  | case1 lower upper hge =>
    rcases upper with _ | upper
    · simp at hge
    · exact absurd (hlt upper rfl) (not_lt.mpr (by simpa using hge))
  | case2 lower upper hge prefixLen hshared ih =>
    rcases upper with _ | upper
    · exact absurd hshared (Nat.lt_irrefl 0)
    · have hfrac := hupper upper rfl
      obtain ⟨middle, hmid, hmiddle, hlow, hup⟩ := ih hlower.drop
        (by simpa using hfrac.drop)
        (by rintro _ ⟨⟩; exact drop_sharedPrefix_lt hfrac (hlt upper rfl)) hlower.drop.headD_mem
      refine ⟨upper.take prefixLen ++ middle, by rw [hmid]; rfl,
        hmiddle.append hfrac.isDigits.take (ne_nil_of_lt hlow),
        lt_take_sharedPrefix_append hlow, ?_⟩
      rintro _ ⟨⟩
      have hrest : upper.take prefixLen ++ middle < upper.take prefixLen ++ upper.drop prefixLen :=
        append_left_lt (hup _ rfl)
      rwa [take_append_drop] at hrest
  | case3 lower upper hge prefixLen hshared hroom =>
    rw [lowerDigit_eq] at hroom ⊢
    obtain ⟨c, hc, hat, hlow, hup⟩ := exists_digit_between (indexOf_nonneg hhead)
      (upperDigit_le_base hupper) hroom
    have hlow' := (indexOf_lt_iff hhead hc).mp hlow
    refine ⟨[c], by rw [hat]; rfl,
      isFraction_singleton hc ((zero_le hhead).trans_lt hlow').ne', lt_of_headD_lt hlow', ?_⟩
    rintro (_ | ⟨d, upper⟩) rfl
    · exact absurd (hlt _ rfl) (not_lt_nil _)
    · have hd : d ∈ digits := (hupper _ rfl).isDigits d mem_cons_self
      exact cons_lt_cons_iff.mpr (.inl ((indexOf_lt_iff hc hd).mp hup))
  | case4 lower upper hge prefixLen hshared hroom hlong ih =>
    rcases upper with _ | _ | ⟨d, upper⟩
    · simp at hlong
    · simp at hlong
    · have hfrac := hupper _ rfl
      have hd : d ∈ digits := hfrac.isDigits d mem_cons_self
      have hrest : IsFraction upper := hfrac.drop (n := 1)
      have hone : IsDigits [d] := by simpa [IsDigits] using hd
      have hpos : [] < upper := by
        rcases upper with _ | ⟨e, upper⟩
        · simp at hlong
        · exact nil_lt_cons e upper
      obtain ⟨middle, hmid, hmiddle, hlow, hup⟩ := ih (by simp [IsDigits])
        (by rintro _ ⟨⟩; exact hrest) (by rintro _ ⟨⟩; exact hpos) (by decide +kernel)
      refine ⟨d :: middle, by rw [hmid]; rfl, ?_, ?_, ?_⟩
      · exact hmiddle.append hone (ne_nil_of_lt hlow)
      · exact lt_of_headD_lt (headD_lt hd hshared (hlt _ rfl))
      · rintro _ ⟨⟩
        exact cons_lt_cons_iff.mpr (.inr ⟨rfl, hup _ rfl⟩)
  | case5 lower upper hge prefixLen hshared hroom hlong ih =>
    obtain ⟨middle, hmid, hmiddle, hlow, -⟩ := ih hlower.drop (by simp) (by simp)
      hlower.drop.headD_mem
    rw [hmid, lowerDigit_eq, digitAt_indexOf hhead]
    have hone : IsDigits [lower.headD zero] := by simpa [IsDigits] using hhead
    refine ⟨lower.headD zero :: middle, rfl, ?_, ?_, ?_⟩
    · exact hmiddle.append hone (ne_nil_of_lt hlow)
    · exact lt_cons_of_tail_lt rfl (by simpa using hlow)
    · rintro (_ | ⟨d, _ | ⟨e, upper⟩⟩) rfl
      · exact absurd (hlt _ rfl) (not_lt_nil _)
      · have hd : d ∈ digits := (hupper _ rfl).isDigits d mem_cons_self
        exact cons_lt_cons_iff.mpr (.inl (headD_lt hd hshared (hlt _ rfl)))
      · simp at hlong

end Midpoint

/-! ### A key between two -/

def generateKeyBetween (before after : Option Text) : Except Failure Text := do
  before.forM validate
  after.forM validate
  match before, after with
  | none, none => return firstIndex
  | none, some after =>
    -- at the head: step the integer part down, or descend below it
    let int ← integerPart after
    let frac := after.drop int.length
    if frac = [] then
      match ← decrementInteger int with
      | none => .error .exhaustedAtHead
      | some dec => return dec
    else return int ++ (← midpoint [] (some frac))
  | some before, none =>
    -- at the tail: step the integer part up
    let int ← integerPart before
    let frac := before.drop int.length
    match ← incrementInteger int with
    | none => return int ++ (← midpoint frac none)
    | some inc => return inc
  | some before, some after =>
    if after ≤ before then .error (.beforeAboveAfter before after)
    let beforeInt ← integerPart before
    let afterInt ← integerPart after
    if beforeInt = afterInt then
      return beforeInt ++
        (← midpoint (before.drop beforeInt.length) (some (after.drop afterInt.length)))
    match ← incrementInteger beforeInt with
    | none => .error .exhausted
    | some inc =>
      if inc < after then return inc
      return beforeInt ++ (← midpoint (before.drop beforeInt.length) none)

section Between

variable {int int' frac frac' : Text}

theorem validate_append (hint : IsInteger int) (hfrac : IsFraction frac) :
    validate (int ++ frac) = .ok () :=
  validate_eq_ok_iff.mpr ⟨int, frac, rfl, hint, hfrac⟩

theorem isFraction_nil : IsFraction [] := ⟨by simp [IsDigits], by simp⟩

theorem IsInteger.validate_eq (hint : IsInteger int) : validate int = .ok () := by
  simpa using validate_append hint isFraction_nil

/-- **Below a key** there is room, except below the smallest of all. -/
theorem exists_generateKeyBefore (hint : IsInteger int) (hfrac : IsFraction frac)
    (hne : int ++ frac ≠ smallestInteger) :
    ∃ key, generateKeyBetween none (some (int ++ frac)) = .ok key ∧ validate key = .ok () ∧
      key < int ++ frac := by
  have hdrop : (int ++ frac).drop int.length = frac := drop_left
  rw [generateKeyBetween]
  simp only [Option.forM, validate_append hint hfrac,
    integerPart_append hint, hdrop, pure, Except.pure, bind, Except.bind]
  by_cases hnil : frac = []
  · subst hnil
    rw [append_nil] at hne
    obtain ⟨-, hsmall⟩ | ⟨dec, hdec, hint', hlt⟩ := decrementInteger_spec hint
    · exact absurd hsmall hne
    · simp only [if_true, hdec]
      exact ⟨dec, rfl, hint'.validate_eq, by simpa using hlt⟩
  · obtain ⟨middle, hmid, hmiddle, -, hup⟩ := midpoint_spec [] (some frac) (by simp [IsDigits])
      (by rintro _ ⟨⟩; exact hfrac) (by rintro _ ⟨⟩; exact lt_append hnil)
    simp only [if_neg hnil, hmid]
    exact ⟨int ++ middle, rfl, validate_append hint hmiddle,
      append_left_lt (hup _ rfl)⟩

theorem generateKeyBefore_smallest :
    generateKeyBetween none (some smallestInteger) = .error .exhaustedAtHead := by
  rw [generateKeyBetween]
  simp only [Option.forM, (by decide +kernel : validate smallestInteger = .ok ()),
    (by decide +kernel : integerPart smallestInteger = .ok smallestInteger), drop_length,
    (by decide +kernel : decrementInteger smallestInteger = .ok none), pure, Except.pure, bind,
    Except.bind, if_true]

theorem not_lt_smallestInteger (hint : IsInteger int) (hfrac : IsDigits frac) :
    ¬int ++ frac < smallestInteger := by
  obtain ⟨head, ds, rfl, hlen, hds⟩ := hint
  rw [smallestInteger, cons_append, cons_lt_cons_iff]
  rintro (hlt | ⟨rfl, hlt⟩)
  · have hA : ∀ head ∈ heads, 'A' ≤ head := forall_mem_of_all (by decide +kernel)
    exact (hA head (mem_heads hlen)).not_gt hlt
  · have hlen' : ds.length + 1 = 27 := (Except.ok.inj hlen).symm
    refine not_lt_replicate (fun c hc => zero_le (hds.append hfrac c hc)) ?_ hlt
    rw [length_append]
    omega

/-- **Above a key** there always is room. -/
theorem exists_generateKeyAfter (hint : IsInteger int) (hfrac : IsFraction frac) :
    ∃ key, generateKeyBetween (some (int ++ frac)) none = .ok key ∧ validate key = .ok () ∧
      int ++ frac < key := by
  have hdrop : (int ++ frac).drop int.length = frac := drop_left
  rw [generateKeyBetween]
  simp only [Option.forM, validate_append hint hfrac,
    integerPart_append hint, hdrop, pure, Except.pure, bind, Except.bind]
  obtain ⟨hinc, -⟩ | ⟨inc, hinc, hint', hlt⟩ := incrementInteger_spec hint
  · obtain ⟨middle, hmid, hmiddle, hlow, -⟩ := midpoint_spec frac none hfrac.isDigits
      (by simp) (by simp)
    simp only [hinc, hmid]
    exact ⟨int ++ middle, rfl, validate_append hint hmiddle, append_left_lt hlow⟩
  · simp only [hinc]
    refine ⟨inc, rfl, hint'.validate_eq, ?_⟩
    have habove : int ++ frac < inc ++ [] :=
      (append_lt_append_of_integer hint hint' hlt.ne).mpr hlt
    rwa [append_nil] at habove

/-- **Between two keys** there always is room. -/
theorem exists_generateKeyBetween (hint : IsInteger int) (hfrac : IsFraction frac)
    (hint' : IsInteger int') (hfrac' : IsFraction frac') (hlt : int ++ frac < int' ++ frac') :
    ∃ key, generateKeyBetween (some (int ++ frac)) (some (int' ++ frac')) = .ok key ∧
      validate key = .ok () ∧ int ++ frac < key ∧ key < int' ++ frac' := by
  have hdrop : (int ++ frac).drop int.length = frac := drop_left
  have hdrop' : (int' ++ frac').drop int'.length = frac' := drop_left
  rw [generateKeyBetween]
  simp only [Option.forM, validate_append hint hfrac,
    validate_append hint' hfrac', integerPart_append hint, integerPart_append hint', hdrop, hdrop',
    if_neg hlt.not_ge, pure, Except.pure, bind, Except.bind]
  by_cases heq : int = int'
  · subst heq
    have hfracs : frac < frac' := lt_of_append_lt_append hlt
    obtain ⟨middle, hmid, hmiddle, hlow, hup⟩ := midpoint_spec frac (some frac') hfrac.isDigits
      (by rintro _ ⟨⟩; exact hfrac') (by rintro _ ⟨⟩; exact hfracs)
    simp only [if_true, hmid]
    exact ⟨int ++ middle, rfl, validate_append hint hmiddle, append_left_lt hlow,
      append_left_lt (hup _ rfl)⟩
  · have hints := (append_lt_append_of_integer hint hint' heq).mp hlt
    obtain ⟨-, hlargest⟩ | ⟨inc, hinc, hint'', hlt'⟩ := incrementInteger_spec hint
    · exact absurd (hlargest ▸ hints) hint'.not_largest_lt
    · have hlow : int ++ frac < inc ++ [] :=
        (append_lt_append_of_integer hint hint'' hlt'.ne).mpr hlt'
      rw [append_nil] at hlow
      simp only [if_neg heq, hinc]
      by_cases hup : inc < int' ++ frac'
      · simp only [if_pos hup]
        exact ⟨inc, rfl, hint''.validate_eq, hlow, hup⟩
      · -- the upper bound is the next integer part, so the fraction grows
        obtain ⟨middle, hmid, hmiddle, habove, -⟩ := midpoint_spec frac none hfrac.isDigits
          (by simp) (by simp)
        simp only [if_neg hup, hmid]
        exact ⟨int ++ middle, rfl, validate_append hint hmiddle, append_left_lt habove,
          (append_lt_append_of_integer hint hint' heq).mpr hints⟩

theorem generateKeyBetween_none : generateKeyBetween none none = .ok firstIndex := rfl

/-- **Room between two bounds**, either of which may be missing. -/
theorem exists_key (before after : Option Text) (hbefore : ∀ b ∈ before, validate b = .ok ())
    (hafter : ∀ a ∈ after, validate a = .ok ()) (hlt : ∀ b ∈ before, ∀ a ∈ after, b < a)
    (hne : ¬(before = none ∧ after = some smallestInteger)) :
    ∃ key, generateKeyBetween before after = .ok key ∧ validate key = .ok () ∧
      (∀ b ∈ before, b < key) ∧ ∀ a ∈ after, key < a := by
  rcases before with _ | before <;> rcases after with _ | after
  · exact ⟨firstIndex, generateKeyBetween_none, by decide +kernel, by simp, by simp⟩
  · obtain ⟨int, frac, rfl, hint, hfrac⟩ := validate_eq_ok_iff.mp (hafter after rfl)
    obtain ⟨key, hkey, hvalid, hup⟩ :=
      exists_generateKeyBefore hint hfrac fun heq => hne ⟨rfl, congrArg some heq⟩
    exact ⟨key, hkey, hvalid, by simp, by simpa using hup⟩
  · obtain ⟨int, frac, rfl, hint, hfrac⟩ := validate_eq_ok_iff.mp (hbefore before rfl)
    obtain ⟨key, hkey, hvalid, hlow⟩ := exists_generateKeyAfter hint hfrac
    exact ⟨key, hkey, hvalid, by simpa using hlow, by simp⟩
  · obtain ⟨int, frac, rfl, hint, hfrac⟩ := validate_eq_ok_iff.mp (hbefore before rfl)
    obtain ⟨int', frac', rfl, hint', hfrac'⟩ := validate_eq_ok_iff.mp (hafter after rfl)
    obtain ⟨key, hkey, hvalid, hlow, hup⟩ :=
      exists_generateKeyBetween hint hfrac hint' hfrac' (hlt _ rfl _ rfl)
    exact ⟨key, hkey, hvalid, by simpa using hlow, by simpa using hup⟩

theorem bounds_of_generateKeyBetween {before after : Option Text} {key : Text}
    (h : generateKeyBetween before after = .ok key) :
    (∀ b ∈ before, validate b = .ok ()) ∧ (∀ a ∈ after, validate a = .ok ()) ∧
      ∀ b ∈ before, ∀ a ∈ after, b < a := by
  have hbefore : before.forM validate = .ok () := by
    rw [generateKeyBetween.eq_def] at h
    rcases hv : before.forM validate with failure | _
    · simp [hv, bind, Except.bind] at h
    · rfl
  have hafter : after.forM validate = .ok () := by
    rw [generateKeyBetween.eq_def] at h
    rcases hv : after.forM validate with failure | _
    · simp [hbefore, hv, bind, Except.bind] at h
    · rfl
  refine ⟨?_, ?_, ?_⟩
  · rintro b rfl
    exact hbefore
  · rintro a rfl
    exact hafter
  · rintro b rfl a rfl
    by_contra hge
    simp [generateKeyBetween, hbefore, hafter, not_lt.mp hge, bind, Except.bind] at h

theorem validate_of_generateKeyBetween {before after : Option Text} {key : Text}
    (h : generateKeyBetween before after = .ok key) : validate key = .ok () := by
  obtain ⟨hbefore, hafter, hlt⟩ := bounds_of_generateKeyBetween h
  by_cases hne : before = none ∧ after = some smallestInteger
  · obtain ⟨rfl, rfl⟩ := hne
    rw [generateKeyBefore_smallest] at h
    exact absurd h (by simp)
  · obtain ⟨key', hkey, hvalid, -⟩ := exists_key before after hbefore hafter hlt hne
    obtain rfl : key = key' := Except.ok.inj (h.symm.trans hkey)
    exact hvalid

def Produced (key : Text) : Prop := ∃ before after, generateKeyBetween before after = .ok key

theorem Produced.validate_eq {key : Text} (h : Produced key) : validate key = .ok () := by
  obtain ⟨before, after, hrun⟩ := h
  exact validate_of_generateKeyBetween hrun

/-- **There is room everywhere.** Between valid bounds in order, either of which may be
missing, `generateKeyBetween` gives a valid key strictly between them, with the one exception
of the smallest key, below which it throws. Between two keys it has produced it gives a
third. -/
theorem generateKeyBetween_room :
    (∀ before after : Option Text,
      (∀ b ∈ before, validate b = .ok ()) → (∀ a ∈ after, validate a = .ok ()) →
      (∀ b ∈ before, ∀ a ∈ after, b < a) →
      if before = none ∧ after = some smallestInteger then
        generateKeyBetween before after = .error .exhaustedAtHead
      else
        ∃ key, generateKeyBetween before after = .ok key ∧ validate key = .ok () ∧
          (∀ b ∈ before, b < key) ∧ ∀ a ∈ after, key < a) ∧
    ∀ first second, Produced first → Produced second → first ≠ second →
      ∃ key, generateKeyBetween (some (min first second)) (some (max first second)) = .ok key ∧
        validate key = .ok () ∧ min first second < key ∧ key < max first second := by
  constructor
  · intro before after hbefore hafter hlt
    split_ifs with hne
    · obtain ⟨rfl, rfl⟩ := hne
      exact generateKeyBefore_smallest
    · exact exists_key before after hbefore hafter hlt hne
  · intro first second hfirst hsecond hne
    have hlow : validate (min first second) = .ok () := by
      rcases min_choice first second with h | h <;> rw [h]
      · exact hfirst.validate_eq
      · exact hsecond.validate_eq
    have hup : validate (max first second) = .ok () := by
      rcases max_choice first second with h | h <;> rw [h]
      · exact hfirst.validate_eq
      · exact hsecond.validate_eq
    obtain ⟨key, hkey, hvalid, habove, hbelow⟩ :=
      exists_key (some (min first second)) (some (max first second))
        (by rintro b ⟨⟩; exact hlow) (by rintro a ⟨⟩; exact hup)
        (by rintro b ⟨⟩ a ⟨⟩; exact min_lt_max.mpr hne) (by simp)
    exact ⟨key, hkey, hvalid, habove _ rfl, hbelow _ rfl⟩

/-- Between the first key and the one after it, and between the two as produced keys. -/
theorem generateKeyBetween_room_first :
    (∃ key, generateKeyBetween (some "a0".toList) (some "a1".toList) = .ok key ∧
      validate key = .ok () ∧ (∀ b ∈ some "a0".toList, b < key) ∧
        ∀ a ∈ some "a1".toList, key < a) ∧
    ∃ key, generateKeyBetween (some (min firstIndex "a1".toList))
        (some (max firstIndex "a1".toList)) = .ok key ∧
      validate key = .ok () ∧ min firstIndex "a1".toList < key ∧
        key < max firstIndex "a1".toList :=
  ⟨generateKeyBetween_room.1 (some "a0".toList) (some "a1".toList)
      (by rintro b ⟨⟩; decide +kernel) (by rintro a ⟨⟩; decide +kernel)
      (by rintro b ⟨⟩ a ⟨⟩; decide +kernel),
    generateKeyBetween_room.2 firstIndex "a1".toList ⟨none, none, rfl⟩
      ⟨some firstIndex, none, rfl⟩ (by decide +kernel)⟩

end Between

end Sone.FractionalIndex
