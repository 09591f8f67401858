import Mathlib.Data.List.Basic
import Mathlib.Data.List.TakeWhile

/-!
# Texts as bytes, and bytes as texts

A text is bytes by UTF-8, and bytes are a text in the alphabet of base64url, six bits a letter.
Both are read back: `ofUtf8_utf8` and `Base64.decode_encode`. What is no UTF-8 is read as well, by
`toStringUtf8`, and a text that is cut off far from its end is read as a shorter one.
-/

namespace Sone

open List

/-! ### UTF-8 -/

def utf8 (s : String) : List UInt8 := s.toByteArray.data.toList

def ofUtf8 (bytes : List UInt8) : Option String := String.fromUTF8? ⟨bytes.toArray⟩

theorem ofUtf8_utf8 (s : String) : ofUtf8 (utf8 s) = some s := by
  have hbytes : (⟨(utf8 s).toArray⟩ : ByteArray) = s.toByteArray := by
    simp [utf8]
  rw [ofUtf8, hbytes, String.fromUTF8?, dif_pos s.isValidUTF8]
  rfl

theorem length_utf8 (s : String) : (utf8 s).length = s.utf8ByteSize := rfl

/-- How many of the bytes after a first one belong to a character that breaks off. -/
def continuations (b : UInt8) (rest : List UInt8) : ℕ :=
  let (needed, lower, upper) : ℕ × UInt8 × UInt8 :=
    if b < 0xc2 then (0, 0x80, 0xbf)
    else if b < 0xe0 then (1, 0x80, 0xbf)
    else if b < 0xf0 then (2, if b = 0xe0 then 0xa0 else 0x80, if b = 0xed then 0x9f else 0xbf)
    else if b < 0xf5 then (3, if b = 0xf0 then 0x90 else 0x80, if b = 0xf4 then 0x8f else 0xbf)
    else (0, 0x80, 0xbf)
  match rest.take needed with
  | [] => 0
  | c :: more =>
    if lower ≤ c ∧ c ≤ upper then
      1 + (more.takeWhile fun c => 0x80 ≤ c && c ≤ 0xbf).length
    else 0

/-- The characters of bytes, one at a time. What is none is read as U+FFFD. -/
def decodeChars : ℕ → List UInt8 → List Char
  | 0, _ => []
  | _, [] => []
  | fuel + 1, b :: rest =>
    match (b :: rest).toByteArray.utf8DecodeChar? 0 with
    | some c => c :: decodeChars fuel (rest.drop (c.utf8Size - 1))
    | none => '\uFFFD' :: decodeChars fuel (rest.drop (continuations b rest))

/-- `buffer.toString('utf8')` -/
def toStringUtf8 (bytes : List UInt8) : String :=
  String.ofList (decodeChars bytes.length bytes)

theorem utf8_eq (s : String) : utf8 s = s.toList.flatMap String.utf8EncodeChar := by
  rw [utf8, ← String.utf8Encode_toList, List.utf8Encode]
  simp

theorem length_decodeChars_le (fuel : ℕ) (bytes : List UInt8) :
    (decodeChars fuel bytes).length ≤ bytes.length := by
  fun_induction decodeChars fuel bytes with
  | case1 => exact Nat.zero_le _
  | case2 => exact Nat.zero_le _
  | case3 fuel b rest c h ih =>
    simp only [length_cons, length_drop] at ih ⊢
    omega
  | case4 fuel b rest h ih =>
    simp only [length_cons, length_drop] at ih ⊢
    omega

/-- **Whole characters are read** before what comes after them. -/
theorem decodeChars_append (cs : List Char) (after : List UInt8) {fuel : ℕ}
    (hfuel : (cs.flatMap String.utf8EncodeChar ++ after).length ≤ fuel) :
    decodeChars fuel (cs.flatMap String.utf8EncodeChar ++ after) =
      cs ++ decodeChars (fuel - cs.length) after := by
  induction cs generalizing fuel with
  | nil => rfl
  | cons c cs ih =>
    have hsize := String.length_utf8EncodeChar c
    cases hbytes : String.utf8EncodeChar c with
    | nil =>
      rw [hbytes] at hsize
      exact absurd hsize.symm c.utf8Size_pos.ne'
    | cons b more =>
      have hread : ∀ rest, (b :: (more ++ rest)).toByteArray.utf8DecodeChar? 0 = some c :=
        fun rest => by
          rw [← cons_append, ← hbytes, toByteArray_append]
          exact ByteArray.utf8DecodeChar?_utf8EncodeChar_append
      have hmore : c.utf8Size - 1 = more.length := by
        rw [← hsize, hbytes, length_cons, Nat.add_sub_cancel]
      simp only [flatMap_cons, hbytes, cons_append, append_assoc,
        length_cons] at hfuel ⊢
      obtain ⟨fuel, rfl⟩ := Nat.exists_eq_succ_of_ne_zero (by omega : fuel ≠ 0)
      rw [decodeChars, hread]
      dsimp only
      rw [hmore, drop_left, ih (by simp only [length_append] at hfuel ⊢; omega),
        Nat.succ_sub_succ]

theorem toStringUtf8_utf8 (s : String) : toStringUtf8 (utf8 s) = s := by
  have hread := @decodeChars_append s.toList [] (utf8 s).length
    (by rw [append_nil, utf8_eq])
  rw [append_nil, ← utf8_eq] at hread
  rw [toStringUtf8, hread]
  have hnil : ∀ fuel, decodeChars fuel [] = [] := fun fuel => by cases fuel <;> rfl
  rw [hnil, append_nil, String.ofList_toList]

/-! ### Bytes that are cut off -/

theorem exists_take_flatMap (cs : List Char) {n : ℕ}
    (hn : n ≤ (cs.flatMap String.utf8EncodeChar).length) :
    ∃ (whole rest : List Char) (more : List UInt8), cs = whole ++ rest ∧ more.length ≤ 3 ∧
      (cs.flatMap String.utf8EncodeChar).take n =
        whole.flatMap String.utf8EncodeChar ++ more := by
  induction cs generalizing n with
  | nil => exact ⟨[], [], [], rfl, Nat.zero_le _, by simp⟩
  | cons c cs ih =>
    have hsize := String.length_utf8EncodeChar c
    have hfour := c.utf8Size_le_four
    rw [flatMap_cons] at hn ⊢
    rcases Nat.lt_or_ge n (String.utf8EncodeChar c).length with hlt | hge
    · refine ⟨[], c :: cs, (String.utf8EncodeChar c).take n, rfl, ?_, ?_⟩
      · rw [length_take]
        omega
      · rw [take_append_of_le_length hlt.le]
        rfl
    · obtain ⟨whole, rest, more, rfl, hmore, htake⟩ :=
        ih (n := n - (String.utf8EncodeChar c).length) (by rw [length_append] at hn; omega)
      refine ⟨c :: whole, rest, more, rfl, hmore, ?_⟩
      rw [take_append, take_of_length_le hge, htake, flatMap_cons,
        append_assoc]

theorem length_flatMap_le (cs : List Char) :
    (cs.flatMap String.utf8EncodeChar).length ≤ 4 * cs.length := by
  induction cs with
  | nil => exact Nat.zero_le _
  | cons c cs ih =>
    have hfour := c.utf8Size_le_four
    rw [flatMap_cons, length_append, String.length_utf8EncodeChar, length_cons]
    omega

theorem length_toStringUtf8_take_lt {s : String} {n : ℕ} (h : n + 16 ≤ (utf8 s).length) :
    (toStringUtf8 ((utf8 s).take n)).length < s.length := by
  rw [utf8_eq] at h
  obtain ⟨whole, rest, more, hs, hmore, htake⟩ := exists_take_flatMap s.toList (by omega : n ≤ _)
  have hread := decodeChars_append whole more le_rfl
  have hlate := fun fuel => length_decodeChars_le fuel more
  have hrest := length_flatMap_le rest
  have hbytes := congrArg List.length htake
  rw [hs, flatMap_append] at h hbytes
  simp only [length_take, length_append] at h hbytes
  rw [toStringUtf8, utf8_eq, htake, hread, String.length_ofList, ← String.length_toList, hs,
    @length_append _ whole, @length_append _ whole]
  exact Nat.add_lt_add_left ((hlate _).trans_lt (by omega)) _

namespace Base64

/-! ### Base64url -/

/-- The letters of six bits each. -/
def alphabet : List Char :=
  String.toList "ABCDEFGHIJKLMNOPQRSTUVWXYZabcdefghijklmnopqrstuvwxyz0123456789-_"

def letter (n : ℕ) : Char := alphabet.getD n 'A'

/-- The six bits of a letter, of either alphabet. -/
def bits (c : Char) : Option ℕ :=
  if c = '+' then some 62 else if c = '/' then some 63 else alphabet.idxOf? c

/-- Bytes in groups of six bits. A last group that is not full has zeros after it. -/
def sextets : List UInt8 → List ℕ
  | a :: b :: c :: bytes =>
    a.toNat / 4 :: (a.toNat % 4 * 16 + b.toNat / 16) :: (b.toNat % 16 * 4 + c.toNat / 64) ::
      c.toNat % 64 :: sextets bytes
  | [a, b] => [a.toNat / 4, a.toNat % 4 * 16 + b.toNat / 16, b.toNat % 16 * 4]
  | [a] => [a.toNat / 4, a.toNat % 4 * 16]
  | [] => []

/-- The bytes of groups of six bits. -/
def ofSextets : List ℕ → List UInt8
  | a :: b :: c :: d :: rest =>
    UInt8.ofNat (a * 4 + b / 16) :: UInt8.ofNat (b % 16 * 16 + c / 4) ::
      UInt8.ofNat (c % 4 * 64 + d) :: ofSextets rest
  | [a, b, c] => [UInt8.ofNat (a * 4 + b / 16), UInt8.ofNat (b % 16 * 16 + c / 4)]
  | [a, b] => [UInt8.ofNat (a * 4 + b / 16)]
  | _ => []

/-- `buffer.toString('base64url')` -/
def encode (bytes : List UInt8) : List Char := (sextets bytes).map letter

/-- `Buffer.from(text, 'base64url')`: what is no letter is skipped, to the first `=`. -/
def decode (cs : List Char) : List UInt8 :=
  ofSextets ((cs.takeWhile fun c => c ≠ '=').filterMap bits)

theorem bits_letter {n : ℕ} (h : n < 64) : bits (letter n) = some n ∧ letter n ≠ '=' := by
  have hall : ∀ n < 64, bits (letter n) = some n ∧ letter n ≠ '=' := by
    decide +kernel
  exact hall n h

theorem lt_of_mem_sextets (bytes : List UInt8) : ∀ n ∈ sextets bytes, n < 64 := by
  induction bytes using sextets.induct with
  | case1 a b c bytes ih =>
    have ha := a.toNat_lt
    have hb := b.toNat_lt
    have hc := c.toNat_lt
    simp only [sextets, forall_mem_cons]
    exact ⟨by omega, by omega, by omega, by omega, ih⟩
  | case2 a b =>
    have ha := a.toNat_lt
    have hb := b.toNat_lt
    simp only [sextets, forall_mem_cons]
    exact ⟨by omega, by omega, by omega, by simp⟩
  | case3 a =>
    have ha := a.toNat_lt
    simp only [sextets, forall_mem_cons]
    exact ⟨by omega, by omega, by simp⟩
  | case4 => simp [sextets]

theorem ofNat_eq {n : ℕ} {b : UInt8} (h : n = b.toNat) : UInt8.ofNat n = b := by
  rw [h, UInt8.ofNat_toNat]

theorem ofSextets_sextets (bytes : List UInt8) : ofSextets (sextets bytes) = bytes := by
  induction bytes using sextets.induct with
  | case1 a b c bytes ih =>
    have ha := a.toNat_lt
    have hb := b.toNat_lt
    have hc := c.toNat_lt
    rw [sextets, ofSextets, ih, ofNat_eq (by omega : _ = a.toNat),
      ofNat_eq (by omega : _ = b.toNat),
      ofNat_eq (by omega : _ = c.toNat)]
  | case2 a b =>
    have ha := a.toNat_lt
    have hb := b.toNat_lt
    rw [sextets, ofSextets, ofNat_eq (by omega : _ = a.toNat), ofNat_eq (by omega : _ = b.toNat)]
  | case3 a =>
    have ha := a.toNat_lt
    rw [sextets, ofSextets, ofNat_eq (by omega : _ = a.toNat)]
  | case4 => rfl

theorem decode_encode (bytes : List UInt8) : decode (encode bytes) = bytes := by
  have hlt := lt_of_mem_sextets bytes
  have hletters : (encode bytes).takeWhile (fun c => c ≠ '=') = encode bytes := by
    refine takeWhile_eq_self_iff.mpr fun c hc => ?_
    obtain ⟨n, hn, rfl⟩ := List.mem_map.mp hc
    exact decide_eq_true (bits_letter (hlt n hn)).2
  have hbits : (encode bytes).filterMap bits = sextets bytes := by
    have hsome : ∀ n ∈ sextets bytes, (bits ∘ letter) n = some n :=
      fun n hn => (bits_letter (hlt n hn)).1
    rw [encode, filterMap_map, filterMap_congr hsome, filterMap_some]
  rw [decode, hletters, hbits, ofSextets_sextets]

end Base64

end Sone
