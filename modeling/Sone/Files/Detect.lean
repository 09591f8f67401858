import Mathlib.Data.List.Basic

/-!
# The type of a file by its bytes

`detectType` (`files/store.ts`) looks at the first bytes of a file and says what it is, where it is
something that is served. It reads two of them, the length of the first name in a ZIP archive,
without asking whether they are there: what begins as an archive and ends before its first name
throws (`detectType_eq_none_iff`), and nothing else does.
-/

namespace Sone

structure DetectedType where
  mime : String
  extension : String
  deriving DecidableEq, Repr

namespace Detect

/-- `bytes.subarray(start, stop)` -/
def subarray (start stop : ℕ) (bytes : List UInt8) : List UInt8 := (bytes.take stop).drop start

/-- `buffer.toString('ascii')`, which leaves out the highest bit of each byte. -/
def ascii (bytes : List UInt8) : List Char := bytes.map fun b => Char.ofNat (b.toNat % 128)

/-- `buffer.toString('latin1')` -/
def latin1 (bytes : List UInt8) : List Char := bytes.map fun b => Char.ofNat b.toNat

/-- The brands of `ftyp` that are MP4. -/
def mp4Brands : List String :=
  ["isom", "iso2", "iso4", "iso5", "iso6", "mp41", "mp42", "avc1", "mmp4", "dash", "M4V ", "M4VP"]

/-- What an ISO container is, by its brand. -/
def ftypType (bytes : List UInt8) : Option DetectedType :=
  let brand := ascii (subarray 8 12 bytes)
  if ascii (subarray 4 8 bytes) ≠ "ftyp".toList then none
  else if brand = "avif".toList ∨ brand = "avis".toList then some ⟨"image/avif", "avif"⟩
  else if "hei".toList.isPrefixOf brand ∨ "mif".toList.isPrefixOf brand then
    some ⟨"image/heic", "heic"⟩
  else if brand = "qt  ".toList then some ⟨"video/quicktime", "mov"⟩
  else if String.ofList brand ∈ mp4Brands then some ⟨"video/mp4", "mp4"⟩
  else none

/-- What a ZIP archive is, by the name of its first entry. -/
def zipType (bytes : List UInt8) : DetectedType :=
  let nameLength := (bytes.getD 26 0).toNat + 256 * (bytes.getD 27 0).toNat
  let first := ascii (subarray 30 (30 + min nameLength 64) bytes)
  let declared := ascii (subarray 38 (38 + 64) bytes)
  if "word/".toList.isPrefixOf first then
    ⟨"application/vnd.openxmlformats-officedocument.wordprocessingml.document", "docx"⟩
  else if "xl/".toList.isPrefixOf first then
    ⟨"application/vnd.openxmlformats-officedocument.spreadsheetml.sheet", "xlsx"⟩
  else if "ppt/".toList.isPrefixOf first then
    ⟨"application/vnd.openxmlformats-officedocument.presentationml.presentation", "pptx"⟩
  else if first = "mimetype".toList ∧
      "application/vnd.oasis.opendocument.text".toList.isPrefixOf declared then
    ⟨"application/vnd.oasis.opendocument.text", "odt"⟩
  else if first = "mimetype".toList ∧
      "application/vnd.oasis.opendocument.spreadsheet".toList.isPrefixOf declared then
    ⟨"application/vnd.oasis.opendocument.spreadsheet", "ods"⟩
  else ⟨"application/zip", "zip"⟩

/-- `byte < 0x09 || (byte > 0x0d && byte < 0x20)` -/
def isControl (b : UInt8) : Bool := b < 0x09 || (0x0d < b && b < 0x20)

/-- `looksLikeText`: there is no zero byte, and fewer than one in twenty are control characters. -/
def looksLikeText (bytes : List UInt8) : Bool :=
  let sample := bytes.take 4096
  sample ≠ [] && 0 ∉ sample && 20 * sample.countP isControl < sample.length

def zipSignature : List UInt8 := [0x50, 0x4b, 0x03, 0x04]

/-- `detectType`, where it does not throw. -/
def detectType (bytes : List UInt8) : Option (Option DetectedType) :=
  if [0x89, 0x50, 0x4e, 0x47, 0x0d, 0x0a, 0x1a, 0x0a].isPrefixOf bytes then
    some (some ⟨"image/png", "png"⟩)
  else if [0xff, 0xd8, 0xff].isPrefixOf bytes then some (some ⟨"image/jpeg", "jpg"⟩)
  else if [0x47, 0x49, 0x46, 0x38].isPrefixOf bytes then some (some ⟨"image/gif", "gif"⟩)
  else if [0x52, 0x49, 0x46, 0x46].isPrefixOf bytes ∧
      ascii (subarray 8 12 bytes) = "WEBP".toList then
    some (some ⟨"image/webp", "webp"⟩)
  else if (ftypType bytes).isSome then some (ftypType bytes)
  else if [0x1a, 0x45, 0xdf, 0xa3].isPrefixOf bytes then
    some (some (if (latin1 (subarray 0 64 bytes)).tails.any "webm".toList.isPrefixOf then
      ⟨"video/webm", "webm"⟩ else ⟨"video/x-matroska", "mkv"⟩))
  else if [0x25, 0x50, 0x44, 0x46].isPrefixOf bytes then some (some ⟨"application/pdf", "pdf"⟩)
  else if zipSignature.isPrefixOf bytes then
    -- `readUInt16LE(26)` throws where the two bytes are not there
    if bytes.length < 28 then none else some (some (zipType bytes))
  else if [0xd0, 0xcf, 0x11, 0xe0, 0xa1, 0xb1, 0x1a, 0xe1].isPrefixOf bytes then
    some (some ⟨"application/x-ole-storage", "doc"⟩)
  else if looksLikeText bytes then some (some ⟨"text/plain", "txt"⟩)
  else some none

/-- **An archive that is cut off** before the length of its first name, and that is not taken for
an ISO container. -/
def CutOff (bytes : List UInt8) : Prop :=
  zipSignature.isPrefixOf bytes = true ∧ bytes.length < 28 ∧ ftypType bytes = none

theorem not_isPrefixOf_of_zip {a : UInt8} (h : a ≠ 0x50) (signature rest : List UInt8) :
    ¬(a :: signature).isPrefixOf (zipSignature ++ rest) = true := by
  rw [List.isPrefixOf_iff_prefix, zipSignature, List.cons_append, List.cons_prefix_cons]
  exact fun hboth => h hboth.1

theorem ite_some_eq_none_iff {α : Type*} {c : Prop} [Decidable c] {a : α} {x : Option α} :
    (if c then some a else x) = none ↔ ¬c ∧ x = none := by
  by_cases h : c <;> simp [h]

/-- **`detectType` throws** of an archive that is cut off, and of nothing else. -/
theorem detectType_eq_none_iff {bytes : List UInt8} : detectType bytes = none ↔ CutOff bytes := by
  simp only [detectType, ite_some_eq_none_iff]
  constructor
  · rintro ⟨-, -, -, -, hftyp, -, -, h⟩
    by_cases hzip : zipSignature.isPrefixOf bytes = true
    · rw [if_pos hzip] at h
      by_cases hlength : bytes.length < 28
      · exact ⟨hzip, hlength, Option.not_isSome_iff_eq_none.mp hftyp⟩
      · rw [if_neg hlength] at h
        cases h
    · rw [if_neg hzip, ite_some_eq_none_iff, ite_some_eq_none_iff] at h
      cases h.2.2
  · rintro ⟨hzip, hlength, hftyp⟩
    obtain ⟨rest, rfl⟩ := List.isPrefixOf_iff_prefix.mp hzip
    rw [if_pos hzip, if_pos hlength]
    exact ⟨not_isPrefixOf_of_zip (by decide) _ _, not_isPrefixOf_of_zip (by decide) _ _,
      not_isPrefixOf_of_zip (by decide) _ _, fun h => not_isPrefixOf_of_zip (by decide) _ _ h.1,
      Option.not_isSome_iff_eq_none.mpr hftyp, not_isPrefixOf_of_zip (by decide) _ _,
      not_isPrefixOf_of_zip (by decide) _ _, rfl⟩

end Detect

end Sone
