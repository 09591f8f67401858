import Sone.Archive.Unzip

/-!
# What reading an archive can throw

An archive that is imported is somebody else's file, and every place `unzip` of `import/unzip.ts`
reads at is taken from it. `Checked.unzip` is that function with the reads as a buffer has them:
a read that is not within the buffer throws a `RangeError`, which nothing here catches.

`Checked.unzip_eq`: no read is beyond the end, so that it is `unzip` and throws what that does.
`Checked.unzip_isSafe`: it throws an `ArchiveError` or has entries within the bounds, whatever the
bytes are.
-/

namespace Sone

namespace Zip

open LittleEndian

/-- What leaves `unzip`: an error of its own, or that of a read. -/
inductive Escape where
  | archive (error : ArchiveError)
  | outOfRange (place width : ℕ)
  deriving DecidableEq

namespace Checked

variable (inflate : Inflate) (archive : List UInt8)

/-- `readUInt16LE` and `readUInt32LE`, by how many bytes they read. -/
def readUIntLE (width place : ℕ) : Except Escape ℕ :=
  if place + width ≤ archive.length then .ok (read width archive place)
  else .error (.outOfRange place width)

/-- `throw new ArchiveError(message, code)` -/
def refuse {α : Type} (message : String) (code : ArchiveErrorCode) : Except Escape α :=
  .error (.archive { message, code })

/-- The loop of `findEndRecord`, with how many places are left. -/
def findEnd : ℕ → ℕ → Except Escape (Option ℕ)
  | 0, _ => .ok none
  | left + 1, place => do
    let signature ← readUIntLE archive 4 place
    if signature = 0x06054b50 then return some place
    findEnd left (place - 1)

def findEndRecord : Except Escape ℕ := do
  if archive.length < 22 then
    refuse "too short to be an archive" .notAnArchive
  else
    let earliest := archive.length - 22 - 0xffff
    match ← findEnd archive (archive.length - 22 - earliest + 1) (archive.length - 22) with
    | some place => return place
    | none => refuse "no end-of-directory record" .notAnArchive

/-- Whether a record begins at a place: what stands in the conditions
`place + length > archive.length || archive.readUInt32LE(place) !== signature`, the other way
round. The signature is read only where the whole record is within the buffer. -/
def beginsAt (length signature place : ℕ) : Except Escape Bool :=
  if place + length > archive.length then return false
  else return decide ((← readUIntLE archive 4 place) = signature)

/-- The entry of the directory at a place, and the place of the next one. -/
def describedAt (place : ℕ) : Except Escape (Described × ℕ) := do
  let method ← readUIntLE archive 2 (place + 10)
  let compressedSize ← readUIntLE archive 4 (place + 20)
  let size ← readUIntLE archive 4 (place + 24)
  let nameLength ← readUIntLE archive 2 (place + 28)
  let extraLength ← readUIntLE archive 2 (place + 30)
  let commentLength ← readUIntLE archive 2 (place + 32)
  let localOffset ← readUIntLE archive 4 (place + 42)
  -- `subarray` takes what there is: nothing is thrown beyond the end
  let name := toStringUtf8 ((archive.drop (place + 46)).take nameLength)
  return ({ method, compressedSize, size, localOffset, name },
    place + 46 + nameLength + extraLength + commentLength)

def storedOf (entry : Described) : Except Escape (List UInt8) := do
  let localNameLength ← readUIntLE archive 2 (entry.localOffset + 26)
  let localExtraLength ← readUIntLE archive 2 (entry.localOffset + 28)
  let start := entry.localOffset + 30 + localNameLength + localExtraLength
  return (archive.drop start).take entry.compressedSize

/-- The body of an entry, after so many bytes of others. -/
def readBody (entry : Described) (total : ℕ) : Except Escape (List UInt8) := do
  if entry.method ≠ 0 ∧ entry.method ≠ 8 then
    refuse s!"entry {entry.name} uses compression method {entry.method}" .unsupported
  else if entry.size > maxTotalBytes ∨ total + entry.size > maxTotalBytes then
    refuse "archive is too large uncompressed" .tooLarge
  else if !(← beginsAt archive 30 0x04034b50 entry.localOffset) then
    refuse s!"entry {entry.name} has no local header" .notAnArchive
  else
    let stored ← storedOf archive entry
    let remaining := maxTotalBytes - total
    match if entry.method = 8 then inflate stored (remaining + 1) else .ok stored with
    | .error err =>
      if err.isRangeError ∧ ("ERR_BUFFER_TOO_LARGE".toList <:+: err.message.toList ∨
          "maxOutputLength".toList <:+: err.message.toList) then
        refuse "archive is too large uncompressed" .tooLarge
      else refuse s!"entry {entry.name} could not be decompressed" .notAnArchive
    | .ok body =>
      if body.length > remaining then
        refuse "archive is too large uncompressed" .tooLarge
      else if body.length ≠ entry.size then
        refuse s!"entry {entry.name} lies about its size" .notAnArchive
      else return body

/-- The loop of `unzip`, with how many entries are left, the place, and the bytes so far. -/
def readEntries : ℕ → ℕ → ℕ → Except Escape (List ArchiveEntry)
  | 0, _, _ => .ok []
  | left + 1, place, total => do
    if !(← beginsAt archive 46 0x02014b50 place) then
      refuse "central directory is malformed" .notAnArchive
    else
      let (entry, next) ← describedAt archive place
      if entry.name.toList.getLast? = some '/' then readEntries left next total
      else
        let body ← readBody inflate archive entry total
        let name ← (safeName entry.name).mapError .archive
        let entries ← readEntries left next (total + body.length)
        return { name, body } :: entries

def unzip : Except Escape (List ArchiveEntry) := do
  let place ← findEndRecord archive
  let count ← readUIntLE archive 2 (place + 10)
  if count = 0xffff ∨ zip64End <:+: archive then
    refuse "the archive is in the Zip64 format" .zip64Unsupported
  else if count > maxEntries then
    refuse s!"archive holds {count} entries, and this reads at most {maxEntries}" .tooManyEntries
  else
    let directory ← readUIntLE archive 4 (place + 16)
    readEntries inflate archive count directory 0

/-! ### No read is beyond the end -/

variable {archive}

theorem readUIntLE_of_le {width place : ℕ} (h : place + width ≤ archive.length) :
    readUIntLE archive width place = .ok (read width archive place) := if_pos h

theorem findEnd_eq (left : ℕ) {place : ℕ} (h : place + 4 ≤ archive.length) :
    findEnd archive left place = .ok (Zip.findEnd archive left place) := by
  induction left generalizing place with
  | zero => rfl
  | succ left ih =>
    rw [findEnd, readUIntLE_of_le h, Zip.findEnd]
    have hrest := @ih (place - 1) (by omega)
    simp only [bind, Except.bind, pure, Except.pure]
    split_ifs
    · rfl
    · exact hrest

theorem findEndRecord_eq :
    findEndRecord archive = (Zip.findEndRecord archive).mapError .archive := by
  rw [findEndRecord, Zip.findEndRecord]
  split_ifs with h
  · rfl
  · dsimp only
    generalize archive.length - 22 - (archive.length - 22 - 0xffff) + 1 = left
    rw [findEnd_eq left (by omega : archive.length - 22 + 4 ≤ archive.length)]
    rcases Zip.findEnd archive left (archive.length - 22) with _ | place <;> rfl

theorem le_of_findEndRecord {place : ℕ} (h : Zip.findEndRecord archive = .ok place) :
    place + 22 ≤ archive.length := by
  have hback : ∀ left start found, Zip.findEnd archive left start = some found → found ≤ start := by
    intro left
    induction left with
    | zero => exact fun start found hfound => by rw [Zip.findEnd] at hfound; contradiction
    | succ left ih =>
      intro start found hfound
      rw [Zip.findEnd] at hfound
      split_ifs at hfound
      · exact le_of_eq (Option.some.inj hfound).symm
      · exact (ih _ _ hfound).trans (Nat.sub_le start 1)
  rw [Zip.findEndRecord] at h
  split_ifs at h with hshort
  dsimp only at h
  split at h
  · rename_i found hfound
    obtain rfl := Except.ok.inj h
    have := hback _ _ _ hfound
    omega
  · contradiction

theorem beginsAt_of_malformed {length signature place : ℕ} (hlength : 4 ≤ length)
    (h : place + length > archive.length ∨ read 4 archive place ≠ signature) :
    beginsAt archive length signature place = .ok false := by
  rw [beginsAt]
  split_ifs with hlong
  · rfl
  · rw [readUIntLE_of_le (by omega)]
    exact congrArg Except.ok (decide_eq_false (h.resolve_left hlong))

theorem beginsAt_of_not_malformed {length signature place : ℕ} (hlength : 4 ≤ length)
    (h : ¬(place + length > archive.length ∨ read 4 archive place ≠ signature)) :
    beginsAt archive length signature place = .ok true := by
  obtain ⟨hlong, hsignature⟩ := not_or.mp h
  rw [beginsAt, if_neg hlong, readUIntLE_of_le (by omega)]
  exact congrArg Except.ok (decide_eq_true (not_not.mp hsignature))

theorem describedAt_eq {place : ℕ} (h : place + 46 ≤ archive.length) :
    describedAt archive place = .ok (Zip.describedAt archive place, nextPlace archive place) := by
  have hread : ∀ width offset, offset + width ≤ 46 →
      readUIntLE archive width (place + offset) = .ok (read width archive (place + offset)) :=
    fun width offset hin => readUIntLE_of_le (by omega)
  simp only [describedAt, hread _ _ (by decide : 10 + 2 ≤ 46), hread _ _ (by decide : 20 + 4 ≤ 46),
    hread _ _ (by decide : 24 + 4 ≤ 46), hread _ _ (by decide : 28 + 2 ≤ 46),
    hread _ _ (by decide : 30 + 2 ≤ 46), hread _ _ (by decide : 32 + 2 ≤ 46),
    hread _ _ (by decide : 42 + 4 ≤ 46)]
  rfl

theorem storedOf_eq {entry : Described} (h : entry.localOffset + 30 ≤ archive.length) :
    storedOf archive entry = .ok (Zip.storedOf archive entry) := by
  rw [storedOf, readUIntLE_of_le (by omega), readUIntLE_of_le (by omega)]
  rfl

variable {inflate}

theorem readBody_eq (entry : Described) (total : ℕ) :
    readBody inflate archive entry total =
      (Zip.readBody inflate archive entry total).mapError .archive := by
  rw [readBody, Zip.readBody]
  by_cases hmethod : entry.method ≠ 0 ∧ entry.method ≠ 8
  · rw [if_pos hmethod, if_pos hmethod]
    rfl
  rw [if_neg hmethod, if_neg hmethod]
  by_cases hsize : entry.size > maxTotalBytes ∨ total + entry.size > maxTotalBytes
  · rw [if_pos hsize, if_pos hsize]
    rfl
  rw [if_neg hsize, if_neg hsize]
  by_cases hlocal : entry.localOffset + 30 > archive.length ∨
      read 4 archive entry.localOffset ≠ 0x04034b50
  · rw [if_pos hlocal, beginsAt_of_malformed (by decide) hlocal]
    rfl
  rw [if_neg hlocal, beginsAt_of_not_malformed (by decide) hlocal]
  simp only [bind, Except.bind, storedOf_eq (not_lt.mp (not_or.mp hlocal).1), Bool.not_true,
    Bool.false_eq_true, if_false]
  -- both go on alike from what inflating has
  generalize maxTotalBytes - total = remaining
  rcases (if entry.method = 8 then inflate (Zip.storedOf archive entry) (remaining + 1)
    else .ok (Zip.storedOf archive entry)) with err | body
  · dsimp only
    split_ifs <;> rfl
  · dsimp only
    split_ifs <;> rfl

theorem readEntries_eq (left place total : ℕ) :
    readEntries inflate archive left place total =
      (Zip.readEntries inflate archive left place total).mapError .archive := by
  induction left generalizing place total with
  | zero => rfl
  | succ left ih =>
    rw [readEntries, Zip.readEntries]
    by_cases hbegins : place + 46 > archive.length ∨ read 4 archive place ≠ 0x02014b50
    · rw [if_pos hbegins, beginsAt_of_malformed (by decide) hbegins]
      rfl
    rw [if_neg hbegins, beginsAt_of_not_malformed (by decide) hbegins]
    simp only [bind, Except.bind, describedAt_eq (not_lt.mp (not_or.mp hbegins).1), Bool.not_true,
      Bool.false_eq_true, if_false, ih, readBody_eq]
    generalize Zip.describedAt archive place = entry
    split_ifs
    · rfl
    · rcases Zip.readBody inflate archive entry total with error | body
      · rfl
      rcases safeName entry.name with error | name
      · rfl
      dsimp only [Except.mapError]
      rcases Zip.readEntries inflate archive left _ _ with error | entries <;> rfl

theorem unzip_eq (inflate : Inflate) (archive : List UInt8) :
    unzip inflate archive = (Zip.unzip inflate archive).mapError .archive := by
  rw [unzip, Zip.unzip, findEndRecord_eq]
  rcases hend : Zip.findEndRecord archive with error | place
  · rfl
  have hplace := le_of_findEndRecord hend
  have hcount := readUIntLE_of_le (by omega : place + 10 + 2 ≤ archive.length)
  have hdirectory := readUIntLE_of_le (by omega : place + 16 + 4 ≤ archive.length)
  simp only [Except.mapError, bind, Except.bind, hcount, hdirectory]
  split_ifs
  · rfl
  · rfl
  · exact readEntries_eq _ _ _

/-! ### What the entries are -/

/-- **A name stays below where it is unpacked**: it is not absolute, and no part of it is a parent
directory, also where `\` separates parts. -/
structure StaysBelow (name : String) : Prop where
  no_backslash : '\\' ∉ name.toList
  not_absolute : name.toList.head? ≠ some '/'
  no_parent : ['.', '.'] ∉ name.toList.splitOn '/'

theorem staysBelow_of_safeName {name cleaned : String} (h : safeName name = .ok cleaned) :
    StaysBelow cleaned := by
  rw [safeName] at h
  split_ifs at h with hunsafe
  obtain ⟨habsolute, hparent⟩ := not_or.mp hunsafe
  obtain rfl := Except.ok.inj h
  refine ⟨fun hmem => ?_, ?_, ?_⟩
  · obtain ⟨c, -, hc⟩ := List.mem_map.mp (String.toList_ofList ▸ hmem)
    split_ifs at hc with hback
    · exact absurd hc (by decide)
    · exact hback hc
  · rwa [String.toList_ofList]
  · rwa [String.toList_ofList]

theorem length_le_of_readBody {entry : Described} {total : ℕ} {body : List UInt8}
    (h : Zip.readBody inflate archive entry total = .ok body) :
    body.length ≤ maxTotalBytes - total := by
  rw [Zip.readBody] at h
  generalize maxTotalBytes - total = remaining at h ⊢
  split at h
  · contradiction
  split at h
  · contradiction
  split at h
  · contradiction
  dsimp only at h
  split at h
  · split_ifs at h
  · split_ifs at h with hlarge
    obtain rfl := Except.ok.inj h
    exact not_lt.mp hlarge

/-- **Entries within the bounds**: so many of them, so many bytes in all, under names that stay
below. -/
structure WithinBounds (count bytes : ℕ) (entries : List ArchiveEntry) : Prop where
  staysBelow : ∀ entry ∈ entries, StaysBelow entry.name
  length_le : entries.length ≤ count
  sum_le : (entries.map fun entry => entry.body.length).sum ≤ bytes

theorem WithinBounds.cons {count bytes : ℕ} {entries : List ArchiveEntry} {name : String}
    {body : List UInt8} (hname : StaysBelow name) (hbody : body.length ≤ bytes)
    (h : WithinBounds count (bytes - body.length) entries) :
    WithinBounds (count + 1) bytes ({ name, body } :: entries) := by
  obtain ⟨hnames, hlength, hsum⟩ := h
  refine ⟨List.forall_mem_cons.mpr ⟨hname, hnames⟩, Nat.succ_le_succ hlength, ?_⟩
  rw [List.map_cons, List.sum_cons]
  dsimp only
  omega

theorem withinBounds_of_readEntries {left place total : ℕ} {entries : List ArchiveEntry}
    (h : Zip.readEntries inflate archive left place total = .ok entries) :
    WithinBounds left (maxTotalBytes - total) entries := by
  induction left generalizing place total entries with
  | zero =>
    obtain rfl := Except.ok.inj h
    exact ⟨fun _ hmem => absurd hmem List.not_mem_nil, le_rfl, Nat.zero_le _⟩
  | succ left ih =>
    rw [Zip.readEntries] at h
    split at h
    · contradiction
    generalize Zip.describedAt archive place = entry at h
    dsimp only at h
    split at h
    · obtain ⟨hnames, hlength, hsum⟩ := ih h
      exact ⟨hnames, Nat.le_succ_of_le hlength, hsum⟩
    rcases hbody : Zip.readBody inflate archive entry total with error | body <;> rw [hbody] at h
    · contradiction
    rcases hname : safeName entry.name with error | name <;> simp only [hname, Except.bind] at h
    · contradiction
    rcases hrest : Zip.readEntries inflate archive left (nextPlace archive place)
      (total + body.length) with error | rest <;> rw [hrest] at h
    · contradiction
    obtain rfl := Except.ok.inj h
    have hrest' := ih hrest
    rw [← Nat.sub_sub] at hrest'
    exact hrest'.cons (staysBelow_of_safeName hname) (length_le_of_readBody hbody)

/-- **`unzip` is safe on every buffer**, whatever inflating has or throws: it throws an
`ArchiveError`, never what a read beyond the end would throw, or has entries under names that stay
below, 5000 of them and 512 MiB at most. -/
theorem unzip_isSafe (inflate : Inflate) (archive : List UInt8) :
    (∃ error, unzip inflate archive = .error (.archive error)) ∨
      ∃ entries, unzip inflate archive = .ok entries ∧
        WithinBounds maxEntries maxTotalBytes entries := by
  rw [unzip_eq]
  rcases h : Zip.unzip inflate archive with error | entries
  · exact .inl ⟨error, rfl⟩
  refine .inr ⟨entries, rfl, ?_⟩
  rw [Zip.unzip] at h
  rcases hend : Zip.findEndRecord archive with error | place <;> rw [hend] at h
  · contradiction
  simp only [Except.bind] at h
  split_ifs at h with hzip64 hmany
  obtain ⟨hnames, hlength, hsum⟩ := withinBounds_of_readEntries h
  exact ⟨hnames, hlength.trans (not_lt.mp hmany), hsum⟩

end Checked

end Zip

end Sone
