import Sone.Wire.Bytes
import Sone.Wire.LittleEndian
import Mathlib.Data.List.Infix

/-!
# Reading archives

`unzip` of `import/unzip.ts`: the files of a ZIP archive, in the order of its directory, or what it
throws. The record at the end is searched from the back, the number of entries and the place of the
directory are read from it, and every entry is read by the header it has in the directory and by its
local one. Every number is read where the archive is known to have the bytes of it.
-/

namespace Sone

namespace Zip

open LittleEndian

structure ArchiveEntry where
  name : String
  body : List UInt8
  deriving DecidableEq

/-- The codes of `ArchiveError`. -/
inductive ArchiveErrorCode where
  | notAnArchive
  | unsupported
  | tooManyEntries
  | zip64Unsupported
  | tooLarge
  | unsafeName
  deriving DecidableEq

structure ArchiveError where
  message : String
  code : ArchiveErrorCode
  deriving DecidableEq

/-- What `inflateRawSync` throws. -/
structure InflateError where
  isRangeError : Bool
  message : String

/-- `inflateRawSync(stored, { maxOutputLength })` -/
abbrev Inflate : Type := List UInt8 → ℕ → Except InflateError (List UInt8)

/-- `ZIP64_END` -/
def zip64End : List UInt8 := [0x50, 0x4b, 0x06, 0x06]

/-- `MAX_ENTRIES` -/
def maxEntries : ℕ := 5000

/-- `MAX_TOTAL_BYTES` -/
def maxTotalBytes : ℕ := 512 * 1024 * 1024

-- an instance of its own, whose proof no other definition shares
local instance lawfulBEqSegment : LawfulBEq (List Char) := inferInstance

def safeName (name : String) : Except ArchiveError String :=
  let cleaned := name.toList.map fun c => if c = '\\' then '/' else c
  if cleaned.head? = some '/' ∨ ['.', '.'] ∈ cleaned.splitOn '/' then
    .error { message := s!"unsafe entry name: {name}", code := .unsafeName }
  else .ok (String.ofList cleaned)

/-- The loop of `findEndRecord`, with how many places are left. -/
def findEnd (archive : List UInt8) : ℕ → ℕ → Option ℕ
  | 0, _ => none
  | left + 1, place =>
    if read 4 archive place = 0x06054b50 then some place else findEnd archive left (place - 1)

def findEndRecord (archive : List UInt8) : Except ArchiveError ℕ :=
  if archive.length < 22 then
    .error { message := "too short to be an archive", code := .notAnArchive }
  else
    let earliest := archive.length - 22 - 0xffff
    match findEnd archive (archive.length - 22 - earliest + 1) (archive.length - 22) with
    | some place => .ok place
    | none => .error { message := "no end-of-directory record", code := .notAnArchive }

variable (inflate : Inflate) (archive : List UInt8)

/-- What an entry of the directory says, at a place. -/
structure Described where
  method : ℕ
  compressedSize : ℕ
  size : ℕ
  localOffset : ℕ
  name : String

def describedAt (place : ℕ) : Described where
  method := read 2 archive (place + 10)
  compressedSize := read 4 archive (place + 20)
  size := read 4 archive (place + 24)
  localOffset := read 4 archive (place + 42)
  name := toStringUtf8 ((archive.drop (place + 46)).take (read 2 archive (place + 28)))

def nextPlace (place : ℕ) : ℕ :=
  place + 46 + read 2 archive (place + 28) + read 2 archive (place + 30) +
    read 2 archive (place + 32)

def storedOf (entry : Described) : List UInt8 :=
  let start := entry.localOffset + 30 + read 2 archive (entry.localOffset + 26) +
    read 2 archive (entry.localOffset + 28)
  (archive.drop start).take entry.compressedSize

/-- The body of an entry, after so many bytes of others. -/
def readBody (entry : Described) (total : ℕ) : Except ArchiveError (List UInt8) :=
  if entry.method ≠ 0 ∧ entry.method ≠ 8 then
    .error {
      message := s!"entry {entry.name} uses compression method {entry.method}"
      code := .unsupported }
  else if entry.size > maxTotalBytes ∨ total + entry.size > maxTotalBytes then
    .error { message := "archive is too large uncompressed", code := .tooLarge }
  else if entry.localOffset + 30 > archive.length ∨
      read 4 archive entry.localOffset ≠ 0x04034b50 then
    .error { message := s!"entry {entry.name} has no local header", code := .notAnArchive }
  else
    let stored := storedOf archive entry
    let remaining := maxTotalBytes - total
    match if entry.method = 8 then inflate stored (remaining + 1) else .ok stored with
    | .error err =>
      if err.isRangeError ∧ ("ERR_BUFFER_TOO_LARGE".toList <:+: err.message.toList ∨
          "maxOutputLength".toList <:+: err.message.toList) then
        .error { message := "archive is too large uncompressed", code := .tooLarge }
      else
        .error {
          message := s!"entry {entry.name} could not be decompressed", code := .notAnArchive }
    | .ok body =>
      if body.length > remaining then
        .error { message := "archive is too large uncompressed", code := .tooLarge }
      else if body.length ≠ entry.size then
        .error { message := s!"entry {entry.name} lies about its size", code := .notAnArchive }
      else .ok body

/-- The loop of `unzip`, with how many entries are left, the place, and the bytes so far. -/
def readEntries : ℕ → ℕ → ℕ → Except ArchiveError (List ArchiveEntry)
  | 0, _, _ => .ok []
  | left + 1, place, total =>
    if place + 46 > archive.length ∨ read 4 archive place ≠ 0x02014b50 then
      .error { message := "central directory is malformed", code := .notAnArchive }
    else
      let entry := describedAt archive place
      -- the name of a directory ends in a slash
      if entry.name.toList.getLast? = some '/' then
        readEntries left (nextPlace archive place) total
      else
        (readBody inflate archive entry total).bind fun body =>
          (safeName entry.name).bind fun name =>
            (readEntries left (nextPlace archive place) (total + body.length)).map
              ({ name, body } :: ·)

def unzip : Except ArchiveError (List ArchiveEntry) :=
  (findEndRecord archive).bind fun place =>
    let count := read 2 archive (place + 10)
    if count = 0xffff ∨ zip64End <:+: archive then
      .error { message := "the archive is in the Zip64 format", code := .zip64Unsupported }
    else if count > maxEntries then
      .error {
        message := s!"archive holds {count} entries, and this reads at most {maxEntries}"
        code := .tooManyEntries }
    else readEntries inflate archive count (read 4 archive (place + 16)) 0

end Zip

end Sone
