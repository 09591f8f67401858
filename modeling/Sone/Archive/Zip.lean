import Sone.Wire.Bytes
import Sone.Wire.LittleEndian
import Mathlib.Logic.Function.Iterate

/-!
# Writing archives

The two writers of ZIP archives: `zip` of `export/zip.ts`, which deflates a body where that makes it
shorter, and `packStored` of `archive/packStored.ts`, which does not. Both lay an archive out the
same way: `Layout.push` writes an entry, and `Layout.finish` the directory and the record at the
end. They differ in what they do with a number that its field has no room for. `zip` throws, and
`packStored` cuts it off.
-/

namespace Sone

namespace Zip

open LittleEndian

/-! ### Checksums and dates -/

/-- `CRC_TABLE[n]` -/
def crcTable (n : UInt32) : UInt32 :=
  Nat.iterate (fun c => if c &&& 1 ≠ 0 then (c >>> 1) ^^^ 0xedb88320 else c >>> 1) 8 n

def crc32 (data : List UInt8) : UInt32 :=
  data.foldl (fun c byte => crcTable ((c ^^^ byte.toUInt32) &&& 0xff) ^^^ (c >>> 8)) 0xffffffff ^^^
    0xffffffff

/-- What a `Date` is in local time. -/
structure LocalTime where
  fullYear : ℤ
  month : ℕ
  day : ℕ
  hours : ℕ
  minutes : ℕ
  seconds : ℕ
  fullYear_le : fullYear ≤ 275760
  month_lt : month < 12
  day_lt : day < 32
  hours_lt : hours < 24
  minutes_lt : minutes < 60
  seconds_lt : seconds < 60

/-- The time and the date of `dosTime`. A `Date` that is not valid counts as zeros. -/
def dosTime (moment : Option LocalTime) : ℕ × ℕ :=
  match moment with
  | some moment =>
    (moment.hours <<< 11 ||| moment.minutes <<< 5 ||| moment.seconds / 2 &&& 0x1f,
      (moment.fullYear - 1980).toNat <<< 9 ||| (moment.month + 1) <<< 5 ||| moment.day)
  | none => (0, 0)

/-! ### The layout -/

/-- An entry of an archive **as it is written**. -/
structure Member where
  name : List UInt8
  /-- Whether the body is deflated. -/
  deflated : Bool
  time : ℕ
  date : ℕ
  crc : ℕ
  /-- How many bytes the body has where it is not deflated. -/
  size : ℕ
  body : List UInt8

namespace Member

/-- What both headers say of an entry, from its time to the length of its name. -/
def fields (m : Member) : List (ℕ × ℕ) :=
  [(2, m.time), (2, m.date), (4, m.crc), (4, m.body.length), (4, m.size), (2, m.name.length)]

/-- `8` or `0` -/
def method (m : Member) : ℕ := if m.deflated then 8 else 0

/-- The local header: its signature, the version that is needed, the flag for UTF-8, and no extra
field. -/
def localHeader (m : Member) : List UInt8 :=
  layout ([(4, 0x04034b50), (2, 20), (2, 0x0800), (2, m.method)] ++ m.fields ++ [(2, 0)])

def header (m : Member) (offset : ℕ) : List UInt8 :=
  layout ([(4, 0x02014b50), (2, 20), (2, 20), (2, 0x0800), (2, m.method)] ++ m.fields ++
    [(2, 0), (2, 0), (2, 0), (2, 0), (4, 0), (4, offset)])

/-- What stands of an entry before the directory. -/
def localPart (m : Member) : List UInt8 := m.localHeader ++ m.name ++ m.body

end Member

/-- What both writers go by: the parts, and the offset. -/
structure Layout where
  locals : List UInt8
  central : List UInt8
  offset : ℕ

def Layout.empty : Layout := { locals := [], central := [], offset := 0 }

def Layout.push (l : Layout) (m : Member) : Layout where
  locals := l.locals ++ m.localPart
  central := l.central ++ (m.header l.offset ++ m.name)
  offset := l.offset + (30 + m.name.length + m.body.length)

def endRecord (count size offset : ℕ) : List UInt8 :=
  layout [(4, 0x06054b50), (2, 0), (2, 0), (2, count), (2, count), (4, size), (4, offset), (2, 0)]

/-- The archive of so many entries. -/
def Layout.finish (l : Layout) (count : ℕ) : List UInt8 :=
  l.locals ++ l.central ++ endRecord count l.central.length l.offset

/-! ### `zip` -/

structure Entry where
  name : String
  body : List UInt8
  «at» : Option LocalTime

/-- What `zip` throws. -/
inductive ZipError where
  /-- A number its field has no room for (`ERR_OUT_OF_RANGE`). -/
  | outOfRange
  /-- `archive_too_large` -/
  | archiveTooLarge
  deriving DecidableEq

/-- `MAX_ARCHIVE_BYTES` -/
def maxArchiveBytes : ℕ := 0xffffffff

def fit (fields : List (ℕ × ℕ)) : Bool := fields.all fun field => field.2 < 256 ^ field.1

variable (deflate : List UInt8 → List UInt8)

/-- An entry as `zip` writes it. -/
def zipMember (entry : Entry) : Member :=
  let compressed := deflate entry.body
  let deflated := compressed.length < entry.body.length
  { name := utf8 entry.name
    deflated
    time := (dosTime entry.at).1
    date := (dosTime entry.at).2
    crc := (crc32 entry.body).toNat
    size := entry.body.length
    body := if deflated then compressed else entry.body }

/-- The loop of `zip`. -/
def zipLoop : Layout → List Entry → Except ZipError Layout
  | l, [] => .ok l
  | l, entry :: entries =>
    let m := zipMember deflate entry
    if fit m.fields ∧ l.offset < 256 ^ 4 then zipLoop (l.push m) entries
    else .error .outOfRange

def zip (entries : List Entry) : Except ZipError (List UInt8) :=
  (zipLoop deflate .empty entries).bind fun l =>
    if fit [(2, entries.length), (4, l.central.length), (4, l.offset)] then
      let archive := l.finish entries.length
      if archive.length > maxArchiveBytes then .error .archiveTooLarge else .ok archive
    else .error .outOfRange

/-! ### `packStored` -/

structure StoredEntry where
  name : String
  body : List UInt8
  /-- The outer one says whether there is a `Date`. -/
  «at» : Option (Option LocalTime)

/-- The codes of `PackError`. -/
inductive PackErrorCode where
  | tooManyFiles
  | tooLarge
  deriving DecidableEq

structure PackError where
  message : String
  code : PackErrorCode
  deriving DecidableEq

/-- `MAX_STORED_ENTRIES` -/
def maxStoredEntries : ℕ := 200

/-- `MAX_STORED_BYTES` -/
def maxStoredBytes : ℕ := 64 * 1024 * 1024

/-- An entry as `packStored` writes it, with `new Date()` for where it has no date. -/
def storedMember (now : Option LocalTime) (entry : StoredEntry) : Member where
  name := utf8 entry.name
  deflated := false
  time := (dosTime (entry.at.getD now)).1
  date := (dosTime (entry.at.getD now)).2
  crc := (crc32 entry.body).toNat
  size := entry.body.length
  body := entry.body

def packStored (now : Option LocalTime) (entries : List StoredEntry) :
    Except PackError (List UInt8) :=
  let total := (entries.map (·.body.length)).sum
  if entries.length > maxStoredEntries then
    .error { message := s!"{entries.length} files is more than this packs", code := .tooManyFiles }
  else if total > maxStoredBytes then
    .error { message := s!"{total} bytes is more than this packs", code := .tooLarge }
  else
    let l := (entries.map (storedMember now)).foldl Layout.push .empty
    .ok (l.finish entries.length)

end Zip

end Sone
