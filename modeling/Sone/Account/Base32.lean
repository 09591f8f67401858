import Sone.Doc.Text
import Sone.Wire.Bits

/-!
# The secret of a second factor as a text

`toBase32` and `fromBase32` of `auth/totp.ts`. Both shift what they read into one number of 32
bits and take from it what is full; neither masks what it has taken. The upper bits run out of the
number, and only the lowest twelve are read, so the texts are right however long the secret is.
-/

namespace Sone.Base32

open List

open Bits

/-! ### The code -/

/-- `BASE32` -/
def base32 : List Char := "ABCDEFGHIJKLMNOPQRSTUVWXYZ234567".toList

/-- `BASE32[value & 31]` -/
def digit (value : BitVec 32) : Char := base32.getD (value &&& 31).toNat 'A'

/-- The inner loop of `toBase32`: what it puts out, and the bits that are left. -/
def takeDigits (value : BitVec 32) : ℕ → List Char × ℕ
  | bits + 5 => (digit (value >>> bits) :: (takeDigits value bits).1, (takeDigits value bits).2)
  | bits => ([], bits)

/-- The loop of `toBase32`. -/
def toBase32Loop (value : BitVec 32) (bits : ℕ) : List UInt8 → List Char
  | [] => if 0 < bits then [digit (value <<< (5 - bits))] else []
  | byte :: bytes =>
    let next := value <<< 8 ||| byte.toBitVec.setWidth 32
    (takeDigits next (bits + 8)).1 ++ toBase32Loop next (takeDigits next (bits + 8)).2 bytes

def toBase32 (bytes : List UInt8) : List Char := toBase32Loop 0 0 bytes

/-- The loop of `fromBase32`. -/
def fromBase32Loop (value : BitVec 32) (bits : ℕ) : List Char → List UInt8
  | [] => []
  | character :: rest =>
    match base32.idxOf? character with
    | none => fromBase32Loop value bits rest
    | some index =>
      let next := value <<< 5 ||| BitVec.ofNat 32 index
      if 8 ≤ bits + 5 then
        UInt8.ofNat (next >>> (bits + 5 - 8) &&& 255).toNat ::
          fromBase32Loop next (bits + 5 - 8) rest
      else fromBase32Loop next (bits + 5) rest

/-- `fromBase32`, with `text.toUpperCase()`. -/
def fromBase32 (upperCase : List Char → List Char) (text : List Char) : List UInt8 :=
  fromBase32Loop 0 0 ((upperCase text).filter fun c =>
    ('A' ≤ c && c ≤ 'Z') || ('2' ≤ c && c ≤ '7'))

/-! ### What texts stand for -/

def byteBits (byte : UInt8) : List Bool := lowBits byte.toBitVec 8

def digitBits (d : BitVec 5) : List Bool := lowBits d 5

def charOf (d : BitVec 5) : Char := base32.getD d.toNat 'A'

theorem idxOf?_charOf : ∀ d : BitVec 5, base32.idxOf? (charOf d) = some d.toNat := by decide

theorem byteBits_injective : Function.Injective byteBits := fun _ _ h =>
  UInt8.toBitVec_inj.mp (lowBits_injective h)

theorem digit_eq (value : BitVec 32) : digit value = charOf (value.setWidth 5) := by
  rw [digit, charOf, BitVec.toNat_and, BitVec.toNat_setWidth]
  exact congrArg (base32.getD · 'A') (Nat.and_two_pow_sub_one_eq_mod _ 5)

section Encode

variable {value : BitVec 32} {bits : ℕ}

/-- **The inner loop** puts out all but fewer than five of the bits. -/
theorem takeDigits_spec : ∃ ds : List (BitVec 5), (takeDigits value bits).1 = ds.map charOf ∧
    (takeDigits value bits).2 < 5 ∧
      lowBits value bits = ds.flatMap digitBits ++ lowBits value (takeDigits value bits).2 := by
  fun_induction takeDigits value bits with
  | case1 bits ih =>
    obtain ⟨ds, hds, hleft, hbits⟩ := ih
    refine ⟨(value >>> bits).setWidth 5 :: ds, by rw [hds, digit_eq]; rfl, hleft, ?_⟩
    have hsplit : lowBits value (bits + 5) = lowBits (value >>> bits) 5 ++ lowBits value bits := by
      rw [Nat.add_comm, lowBits_add]
    rw [flatMap_cons, digitBits, lowBits_setWidth (Nat.le_refl 5), append_assoc, ← hbits]
    exact hsplit
  | case2 bits hless =>
    exact ⟨[], rfl, by_contra fun hle => hless (bits - 5) (by omega), rfl⟩

/-- **The loop of `toBase32`** puts out all bits, and then zeros up to a full digit. -/
theorem toBase32Loop_spec (bytes : List UInt8) (hlt : bits < 5) :
    ∃ (ds : List (BitVec 5)) (pad : ℕ), toBase32Loop value bits bytes = ds.map charOf ∧ pad < 5 ∧
      ds.flatMap digitBits =
        lowBits value bits ++ bytes.flatMap byteBits ++ List.replicate pad false := by
  induction bytes generalizing value bits with
  | nil =>
    rw [toBase32Loop]
    split_ifs with hpos
    · refine ⟨[(value <<< (5 - bits)).setWidth 5], 5 - bits, by rw [digit_eq]; rfl, by omega, ?_⟩
      have hshift := @lowBits_shiftLeft_or 32 (5 - bits) bits value 0#32
        (fun _ _ => BitVec.getLsbD_zero) (by omega)
      rw [BitVec.or_zero, lowBits_zero, Nat.add_sub_cancel' hlt.le] at hshift
      rw [flatMap_singleton, digitBits, lowBits_setWidth (Nat.le_refl 5), hshift]
      simp
    · obtain rfl : bits = 0 := by omega
      exact ⟨[], 0, rfl, by omega, rfl⟩
  | cons byte bytes ih =>
    rw [toBase32Loop]
    obtain ⟨ds, hds, hleft, hbits⟩ :=
      @takeDigits_spec (value <<< 8 ||| byte.toBitVec.setWidth 32) (bits + 8)
    obtain ⟨es, pad, hes, hpad, hrest⟩ := ih hleft
    refine ⟨ds ++ es, pad, by rw [hds, hes, map_append], hpad, ?_⟩
    have hbyte : ∀ i, 8 ≤ i → (byte.toBitVec.setWidth 32).getLsbD i = false := fun i hi => by
      rw [BitVec.getLsbD_setWidth, BitVec.getLsbD_of_ge _ _ hi, Bool.and_false]
    rw [flatMap_append, hrest, ← append_assoc, ← append_assoc, ← hbits,
      lowBits_shiftLeft_or hbyte (by omega), lowBits_setWidth (by omega), flatMap_cons,
      ← append_assoc]
    rfl

end Encode

section Decode

variable {value : BitVec 32} {bits : ℕ}

theorem byteBits_ofNat : byteBits (UInt8.ofNat (value &&& 255).toNat) = lowBits value 8 := by
  have hmod : (value &&& 255).toNat = value.toNat % 2 ^ 8 := by
    rw [BitVec.toNat_and]
    exact Nat.and_two_pow_sub_one_eq_mod _ 8
  have hword : (UInt8.ofNat (value &&& 255).toNat).toBitVec = value.setWidth 8 := by
    refine BitVec.eq_of_toNat_eq ?_
    rw [hmod, BitVec.toNat_setWidth]
    simp
  rw [byteBits, hword, lowBits_setWidth (Nat.le_refl 8)]

/-- **The loop of `fromBase32`** puts out all bits but fewer than eight. -/
theorem fromBase32Loop_spec (ds : List (BitVec 5)) (hlt : bits < 8) :
    ∃ p : List Bool, p.length < 8 ∧
      (fromBase32Loop value bits (ds.map charOf)).flatMap byteBits ++ p =
        lowBits value bits ++ ds.flatMap digitBits := by
  induction ds generalizing value bits with
  | nil => exact ⟨lowBits value bits, by rwa [length_lowBits], by simp [fromBase32Loop]⟩
  | cons d ds ih =>
    have hdigit : ∀ i, 5 ≤ i → (d.setWidth 32).getLsbD i = false := fun i hi => by
      rw [BitVec.getLsbD_setWidth, BitVec.getLsbD_of_ge _ _ hi, Bool.and_false]
    have hbits : lowBits (value <<< 5 ||| d.setWidth 32) (bits + 5) =
        lowBits value bits ++ digitBits d := by
      rw [lowBits_shiftLeft_or hdigit (by omega), lowBits_setWidth (by omega), digitBits]
    have hindex : BitVec.ofNat 32 d.toNat = d.setWidth 32 := BitVec.ofNat_toNat 32 d
    simp only [map_cons, fromBase32Loop, idxOf?_charOf, hindex]
    rw [flatMap_cons, ← append_assoc, ← hbits]
    split_ifs with hfull
    · obtain ⟨p, hp, hout⟩ := @ih (value <<< 5 ||| d.setWidth 32) (bits + 5 - 8) (by omega)
      refine ⟨p, hp, ?_⟩
      have hsplit := @lowBits_add 32 (bits + 5 - 8) 8 (value <<< 5 ||| d.setWidth 32)
      rw [Nat.add_sub_cancel' hfull] at hsplit
      rw [flatMap_cons, byteBits_ofNat, append_assoc, hout, hsplit, append_assoc]
    · exact ih (by omega)

end Decode

/-! ### Round trip -/

/-- What people paste along with a secret: blanks, dashes and padding. -/
def isFiller (c : Char) : Bool :=
  JsString.isSpace c || c = '-' || c = '=' || (0x2010 ≤ c.toNat && c.toNat ≤ 0x2015)

/-- **`toUpperCase`** has the upper case of the letters of ASCII and leaves the rest of it alone,
as it does what is filled in. -/
def UppersPlain (upperCase : List Char → List Char) : Prop :=
  ∀ cs : List Char, (∀ c ∈ cs, c.toNat < 128 ∨ isFiller c = true) →
    upperCase cs = cs.map Char.toUpper

theorem charOf_spec : ∀ d : BitVec 5, isFiller (charOf d) = false ∧
    (('A' ≤ charOf d && charOf d ≤ 'Z') || ('2' ≤ charOf d && charOf d ≤ '7')) = true := by
  decide

theorem toNat_of_isFiller {c : Char} (h : isFiller c = true) :
    c.toNat < 50 ∨ c.toNat = 61 ∨ 128 ≤ c.toNat := by
  simp only [isFiller, JsString.isSpace, Bool.or_eq_true, Bool.and_eq_true, decide_eq_true_eq] at h
  rcases h with (((h | h) | rfl) | rfl) | h
  · have hall : ∀ n ∈ [0x09, 0x0a, 0x0b, 0x0c, 0x0d, 0x20, 0xa0, 0x1680, 0x2028, 0x2029, 0x202f,
        0x205f, 0x3000, 0xfeff], n < 50 ∨ n = 61 ∨ 128 ≤ n := by decide
    exact hall _ h
  · omega
  · exact .inl (by decide)
  · exact .inr (.inl rfl)
  · omega

theorem toUpper_eq_self {c : Char} (h : ¬(97 ≤ c.toNat ∧ c.toNat ≤ 122)) : c.toUpper = c :=
  dif_neg h

theorem filter_upperCase {upperCase : List Char → List Char} (hupper : UppersPlain upperCase)
    {ds : List (BitVec 5)} {text : List Char}
    (h : (text.filter (!isFiller ·)).map Char.toUpper = ds.map charOf) :
    ((upperCase text).filter fun c => ('A' ≤ c && c ≤ 'Z') || ('2' ≤ c && c ≤ '7')) =
      ds.map charOf := by
  have hdigit : ∀ c ∈ text, isFiller c = false → ∃ d, c.toUpper = charOf d := by
    intro c hc hfiller
    have hmem : c.toUpper ∈ ds.map charOf :=
      h ▸ List.mem_map_of_mem (mem_filter.mpr ⟨hc, by simp [hfiller]⟩)
    obtain ⟨d, -, hd⟩ := List.mem_map.mp hmem
    exact ⟨d, hd.symm⟩
  have hfew : ∀ d : BitVec 5, (charOf d).toNat < 128 := by decide
  have htext : upperCase text = text.map Char.toUpper := by
    refine hupper text fun c hc => ?_
    rcases hfiller : isFiller c with _ | _
    · obtain ⟨d, hd⟩ := hdigit c hc hfiller
      refine .inl (not_le.mp fun hle => ?_)
      have hlt := hfew d
      rw [← hd, toUpper_eq_self (by omega)] at hlt
      omega
    · exact .inr rfl
  rw [htext, List.filter_map, ← h]
  congr 1
  refine filter_congr fun c hc => ?_
  rcases hfiller : isFiller c with _ | _
  · obtain ⟨d, hd⟩ := hdigit c hc hfiller
    simpa [hd] using (charOf_spec d).2
  · have hnat := toNat_of_isFiller hfiller
    have hle : ∀ a b : Char, a ≤ b ↔ a.toNat ≤ b.toNat := fun _ _ => Iff.rfl
    simp only [Function.comp_apply, toUpper_eq_self (show ¬(97 ≤ c.toNat ∧ c.toNat ≤ 122) by omega),
      hle, Bool.not_true, Bool.or_eq_false_iff, Bool.and_eq_false_iff, decide_eq_false_iff_not,
      not_le]
    have hchars : 'A'.toNat = 65 ∧ 'Z'.toNat = 90 ∧ '2'.toNat = 50 ∧ '7'.toNat = 55 := by decide
    omega

/-- **A secret survives its text**, however long it is: the text has all its bits in digits of
five, filled up with fewer than five zeros, and is read back with blanks, dashes and padding
anywhere, and in either case. -/
theorem fromBase32_toBase32 {upperCase : List Char → List Char} (hupper : UppersPlain upperCase)
    (bytes : List UInt8) :
    (∃ (ds : List (BitVec 5)) (pad : ℕ), toBase32 bytes = ds.map charOf ∧ pad < 5 ∧
      ds.flatMap digitBits = bytes.flatMap byteBits ++ List.replicate pad false) ∧
    fromBase32 upperCase (toBase32 bytes) = bytes ∧
    ∀ text, (text.filter (!isFiller ·)).map Char.toUpper = toBase32 bytes →
      fromBase32 upperCase text = bytes := by
  obtain ⟨ds, pad, hds, hpad, hbits⟩ := @toBase32Loop_spec 0 0 bytes (by decide)
  have hread : ∀ text, (text.filter (!isFiller ·)).map Char.toUpper = toBase32 bytes →
      fromBase32 upperCase text = bytes := by
    intro text htext
    obtain ⟨p, hp, hout⟩ := @fromBase32Loop_spec 0 0 ds (by decide)
    rw [fromBase32, filter_upperCase hupper (htext.trans hds)]
    have hzeros : (List.replicate pad false).length < 8 := by
      rw [length_replicate]
      omega
    exact eq_of_flatMap_append byteBits_injective (fun _ => length_lowBits) hp hzeros
      (hout.trans hbits)
  refine ⟨⟨ds, pad, hds, hpad, hbits⟩, hread _ ?_, hread⟩
  -- nothing is to be left out of the digits, and they are in upper case
  have hplain : ∀ d : BitVec 5, isFiller (charOf d) = false ∧ (charOf d).toUpper = charOf d := by
    decide
  rw [toBase32, hds, List.filter_eq_self.mpr (by simpa using fun d _ => (hplain d).1), List.map_map]
  exact map_congr_left fun d _ => (hplain d).2

/-- "foo", pasted with a blank, a dash and padding. -/
theorem fromBase32_toBase32_pasted :
    fromBase32 (List.map Char.toUpper) "mz-xw 6===".toList = [102, 111, 111] :=
  (@fromBase32_toBase32 (List.map Char.toUpper) (fun _ _ => rfl) [102, 111, 111]).2.2 _ (by decide)

end Sone.Base32
