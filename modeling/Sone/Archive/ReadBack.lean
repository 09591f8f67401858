import Sone.Archive.Zip
import Sone.Archive.Unzip
import Sone.Transition.Outcome
import Mathlib.Data.List.Forall2

/-!
# Archives read back

`archiveOf` is what both writers lay out, and `unzip` reads it. The record at the end is the last of
the bytes, so it is found at once, and from it every header stands where the one before it ends
(`readEntries_central`). There are two things that it asks for (`unzip_archiveOf_iff`): a name has
room, and the signature of the Zip64 format is nowhere in the archive.
-/

namespace Sone

open List Nat

namespace Zip

open LittleEndian

variable {m : Member} {members : List Member} {l : Layout} {offset count size : ℕ}

/-! ### The parts of an archive -/

/-- What stands before the directory. -/
def locals (members : List Member) : List UInt8 := members.flatMap Member.localPart

/-- The directory of entries from an offset on. -/
def central : ℕ → List Member → List UInt8
  | _, [] => []
  | offset, m :: members =>
    m.header offset ++ (m.name ++ central (offset + m.localPart.length) members)

def archiveOf (members : List Member) : List UInt8 :=
  locals members ++ (central 0 members ++
    endRecord members.length (central 0 members).length (locals members).length)

@[simp] theorem length_localHeader (m : Member) : m.localHeader.length = 30 := by
  rw [Member.localHeader, length_layout]
  rfl

@[simp] theorem length_header (m : Member) (offset : ℕ) : (m.header offset).length = 46 := by
  rw [Member.header, length_layout]
  simp [Member.fields]

@[simp] theorem length_endRecord (count size offset : ℕ) :
    (endRecord count size offset).length = 22 := by
  rw [endRecord, length_layout]
  rfl

theorem length_localPart (m : Member) :
    m.localPart.length = 30 + m.name.length + m.body.length := by
  rw [Member.localPart, length_append, length_append, length_localHeader]

theorem locals_cons (m : Member) (members : List Member) :
    locals (m :: members) = m.localPart ++ locals members := flatMap_cons

theorem foldl_push (members : List Member) (l : Layout) :
    members.foldl Layout.push l =
      { locals := l.locals ++ locals members
        central := l.central ++ central l.offset members
        offset := l.offset + (locals members).length } := by
  induction members generalizing l with
  | nil => simp [locals, central]
  | cons m members ih =>
    rw [foldl_cons, ih, locals_cons, central]
    simp only [Layout.push, length_localPart, append_assoc, length_append,
      Nat.add_assoc]

theorem finish_foldl_push (members : List Member) :
    (members.foldl Layout.push .empty).finish members.length = archiveOf members := by
  rw [foldl_push]
  simp only [Layout.finish, Layout.empty, archiveOf, nil_append, Nat.zero_add,
    append_assoc]

/-! ### Reading an entry -/

section Entry

variable (before after : List UInt8)

theorem read_header (m : Member) (offset i place : ℕ) {width n : ℕ}
    (h : ([(4, 0x02014b50), (2, 20), (2, 20), (2, 0x0800), (2, m.method)] ++ m.fields ++
      [(2, 0), (2, 0), (2, 0), (2, 0), (4, 0), (4, offset)])[i]? = some (width, n))
    (hplace : (([4, 2, 2, 2, 2, 2, 2, 4, 4, 4, 2, 2, 2, 2, 2, 4, 4].take i).sum) = place) :
    read width (before ++ (m.header offset ++ after)) (before.length + place) =
      n % 256 ^ width := by
  have hread := read_layout before after i h
  rw [map_take] at hread
  rw [← hplace]
  exact hread

theorem read_localHeader (m : Member) (i place : ℕ) {width n : ℕ}
    (h : ([(4, 0x04034b50), (2, 20), (2, 0x0800), (2, m.method)] ++ m.fields ++
      [(2, 0)])[i]? = some (width, n))
    (hplace : (([4, 2, 2, 2, 2, 2, 4, 4, 4, 2, 2].take i).sum) = place) :
    read width (before ++ (m.localHeader ++ after)) (before.length + place) =
      n % 256 ^ width := by
  have hread := read_layout before after i h
  rw [map_take] at hread
  rw [← hplace]
  exact hread

theorem method_mod (m : Member) : m.method % 256 ^ 2 = m.method := by
  rw [Member.method]
  split_ifs
  · rfl
  · rfl

/-- **What the directory says of an entry** is read back, but for what has no room. -/
theorem describedAt_append (m : Member) (offset : ℕ) :
    describedAt (before ++ (m.header offset ++ (m.name ++ after))) before.length =
      { method := m.method
        compressedSize := m.body.length % 256 ^ 4
        size := m.size % 256 ^ 4
        localOffset := offset % 256 ^ 4
        name := toStringUtf8 (m.name.take (m.name.length % 256 ^ 2)) } := by
  have hdrop : (before ++ (m.header offset ++ (m.name ++ after))).drop (before.length + 46) =
      m.name ++ after := by
    rw [← append_assoc, drop_left' (by simp)]
  rw [describedAt, hdrop, read_header before _ m offset 4 10 rfl rfl,
    read_header before _ m offset 8 20 rfl rfl, read_header before _ m offset 9 24 rfl rfl,
    read_header before _ m offset 10 28 rfl rfl, read_header before _ m offset 16 42 rfl rfl,
    take_append_of_le_length (mod_le _ _), method_mod]

theorem nextPlace_append (m : Member) (offset : ℕ) :
    nextPlace (before ++ (m.header offset ++ after)) before.length =
      before.length + 46 + m.name.length % 256 ^ 2 := by
  rw [nextPlace, read_header before _ m offset 10 28 rfl rfl,
    read_header before _ m offset 11 30 rfl rfl, read_header before _ m offset 12 32 rfl rfl,
    zero_mod, Nat.add_zero, Nat.add_zero]

/-- **What is stored of an entry** is read back, where the name and the length have room. -/
theorem storedOf_append {m : Member} {entry : Described}
    (hplace : entry.localOffset = before.length) (hsize : entry.compressedSize = m.body.length)
    (hname : m.name.length < 256 ^ 2) :
    storedOf (before ++ (m.localPart ++ after)) entry = m.body := by
  have hparts : before ++ (m.localPart ++ after) =
      before ++ (m.localHeader ++ (m.name ++ m.body ++ after)) := by
    simp only [Member.localPart, append_assoc]
  have hskip : before ++ (m.localPart ++ after) =
      (before ++ m.localHeader ++ m.name) ++ (m.body ++ after) := by
    simp only [Member.localPart, append_assoc]
  have hlength : (before ++ m.localHeader ++ m.name).length =
      before.length + 30 + m.name.length := by
    simp only [length_append, length_localHeader]
  rw [storedOf, hplace, hsize, hparts, read_localHeader before _ m 9 26 rfl rfl,
    read_localHeader before _ m 10 28 rfl rfl,
    mod_eq_of_lt hname, ← hparts, hskip, zero_mod, Nat.add_zero, drop_left' hlength,
    take_left]

end Entry

/-! ### Reading a directory -/

/-- **An entry is written** for a file: its bytes, or others that are inflated to them. -/
structure Member.Holds (inflate : Inflate) (m : Member) (file : ArchiveEntry) : Prop where
  name : m.name = utf8 file.name
  size : m.size = file.body.length
  length_le : m.body.length ≤ file.body.length
  stored : m.deflated = false → m.body = file.body
  inflates : m.deflated = true → ∀ limit, file.body.length ≤ limit →
    inflate m.body limit = .ok file.body

/-- A name that `safeName` leaves as it is, and that is not one of a directory. -/
def Safe (name : String) : Prop := safeName name = .ok name ∧ name.toList.getLast? ≠ some '/'

section Read

variable {inflate : Inflate} {archive before after front back : List UInt8} {file : ArchiveEntry}
  {files : List ArchiveEntry} {left place total : ℕ}

/-- **A body is read back** by what the directory says of it. -/
theorem readBody_append (before after : List UInt8) (h : m.Holds inflate file)
    (hname : m.name.length < 256 ^ 2)
    (htotal : total + file.body.length ≤ maxTotalBytes) (name : String) :
    readBody inflate (before ++ (m.localPart ++ after))
      { method := m.method
        compressedSize := m.body.length
        size := m.size
        localOffset := before.length
        name } total = .ok file.body := by
  have hparts : before ++ (m.localPart ++ after) =
      before ++ (m.localHeader ++ (m.name ++ m.body ++ after)) := by
    simp only [Member.localPart, append_assoc]
  have hsign := read_localHeader before (m.name ++ m.body ++ after) m 0 0 rfl rfl
  have hlength : before.length + 30 ≤ (before ++ (m.localPart ++ after)).length := by
    simp only [length_append, length_localPart]
    omega
  have hmethod : m.method = 0 ∨ m.method = 8 := by
    rw [Member.method]
    split_ifs
    · exact .inr rfl
    · exact .inl rfl
  have hread : (if m.method = 8 then inflate m.body (maxTotalBytes - total + 1) else .ok m.body) =
      .ok file.body := by
    cases hdeflated : m.deflated with
    | false => rw [Member.method, hdeflated, if_neg (by simp), h.stored hdeflated]
    | true =>
      rw [Member.method, hdeflated, if_pos rfl]
      exact h.inflates hdeflated _ (by omega)
  have hknown : ¬ (m.method ≠ 0 ∧ m.method ≠ 8) := by omega
  have hsmall : ¬ (m.size > maxTotalBytes ∨ total + m.size > maxTotalBytes) := by
    rw [h.size]
    omega
  have hlocal : ¬ (before.length + 30 > (before ++ (m.localPart ++ after)).length ∨
      read 4 (before ++ (m.localPart ++ after)) before.length ≠ 0x04034b50) := by
    rw [not_or, not_not, not_lt]
    rw [← hparts] at hsign
    exact ⟨hlength, hsign⟩
  have hleft : ¬ file.body.length > maxTotalBytes - total := by omega
  have hsame : ¬ file.body.length ≠ m.size := not_not.mpr h.size.symm
  rw [readBody]
  dsimp only
  rw [if_neg hknown, if_neg hsmall, if_neg hlocal, storedOf_append before after rfl rfl hname,
    hread]
  dsimp only
  rw [if_neg hleft, if_neg hsame]

theorem length_le_of_readEntries (h : readEntries inflate archive left place total = .ok files) :
    files.length ≤ left := by
  induction left generalizing place total files with
  | zero =>
    rw [readEntries] at h
    cases h
    exact le_rfl
  | succ left ih =>
    rw [readEntries] at h
    dsimp only at h
    split_ifs at h
    · exact (ih h).trans (le_succ _)
    · obtain ⟨body, -, h⟩ := bind_eq_ok_iff.mp h
      obtain ⟨name, -, h⟩ := bind_eq_ok_iff.mp h
      obtain ⟨rest, hrest, rfl⟩ := map_eq_ok_iff.mp h
      exact succ_le_succ (ih hrest)

theorem length_of_safeName {name cleaned : String} (h : safeName name = .ok cleaned) :
    cleaned.length = name.length := by
  rw [safeName] at h
  split_ifs at h
  cases h
  rw [String.length_ofList, length_map, String.length_toList]

section Step

variable (harchive : archive = before ++ (m.localPart ++ after))
  (hdirectory : archive = front ++ (m.header before.length ++ (m.name ++ back)))
  (hplace : before.length < 256 ^ 4)
include hdirectory

theorem readEntries_header :
    ¬ (front.length + 46 > archive.length ∨ read 4 archive front.length ≠ 0x02014b50) := by
  rw [not_or, not_not, not_lt]
  refine ⟨?_, ?_⟩
  · rw [hdirectory]
    simp only [length_append, length_header]
    omega
  · rw [hdirectory]
    exact read_header front (m.name ++ back) m before.length 0 0 rfl rfl

/-- **An entry is not read back** where its name has no room. -/
theorem readEntries_ne_of_long (h : m.Holds inflate file) (hname : ¬ m.name.length < 256 ^ 2)
    (hleft : left = files.length) :
    readEntries inflate archive (left + 1) front.length total ≠ .ok (file :: files) := by
  intro hread
  rw [readEntries, if_neg (readEntries_header hdirectory)] at hread
  have hentry : (describedAt archive front.length).name =
      toStringUtf8 ((utf8 file.name).take (m.name.length % 256 ^ 2)) := by
    rw [hdirectory, describedAt_append, h.name]
  have hcut : (toStringUtf8 ((utf8 file.name).take (m.name.length % 256 ^ 2))).length <
      file.name.length := by
    refine length_toStringUtf8_take_lt ?_
    have hmod := mod_add_div m.name.length (256 ^ 2)
    have hdiv : 1 ≤ m.name.length / 256 ^ 2 :=
      (Nat.one_le_div_iff (by decide)).mpr (not_lt.mp hname)
    rw [← h.name]
    omega
  dsimp only at hread
  rw [hentry] at hread
  split_ifs at hread
  · have hle := length_le_of_readEntries hread
    rw [hleft, length_cons] at hle
    omega
  · obtain ⟨body, -, hread⟩ := bind_eq_ok_iff.mp hread
    obtain ⟨name, hcleaned, hread⟩ := bind_eq_ok_iff.mp hread
    obtain ⟨rest, -, hread⟩ := map_eq_ok_iff.mp hread
    cases hread
    exact hcut.ne (length_of_safeName hcleaned).symm

include harchive hplace

/-- **One entry is read back**, where its name has room. -/
theorem readEntries_succ (h : m.Holds inflate file) (hsafe : Safe file.name)
    (hname : m.name.length < 256 ^ 2) (htotal : total + file.body.length ≤ maxTotalBytes) :
    readEntries inflate archive (left + 1) front.length total =
      (readEntries inflate archive left (front.length + 46 + m.name.length)
        (total + file.body.length)).map (file :: ·) := by
  have hbody := readBody_append before after h hname htotal file.name
  have hbodies : m.body.length < 256 ^ 4 := by
    have hle := h.length_le
    have hmax : maxTotalBytes < 256 ^ 4 := by decide
    omega
  have hsizes : m.size < 256 ^ 4 := by
    have hmax : maxTotalBytes < 256 ^ 4 := by decide
    rw [h.size]
    omega
  have hentry : describedAt archive front.length =
      { method := m.method
        compressedSize := m.body.length
        size := m.size
        localOffset := before.length
        name := file.name } := by
    rw [hdirectory, describedAt_append, mod_eq_of_lt hbodies, mod_eq_of_lt hsizes,
      mod_eq_of_lt hplace, mod_eq_of_lt hname, take_length, h.name, toStringUtf8_utf8]
  have hnext : nextPlace archive front.length = front.length + 46 + m.name.length := by
    rw [hdirectory, nextPlace_append, mod_eq_of_lt hname]
  rw [readEntries, if_neg (readEntries_header hdirectory), hentry, hnext]
  dsimp only
  rw [if_neg hsafe.2, harchive, hbody, hsafe.1]
  simp only [Except.bind]

end Step

/-- How many bytes the bodies of files have. -/
def totalLength (files : List ArchiveEntry) : ℕ := (files.map (·.body.length)).sum

/-- **A directory is read back** just where every name has room. -/
theorem readEntries_central {members : List Member} {before middle back : List UInt8}
    (h : List.Forall₂ (Member.Holds inflate) members files) (hsafe : ∀ file ∈ files, Safe file.name)
    (harchive : archive =
      before ++ (locals members ++ (middle ++ (central before.length members ++ back))))
    (hplace : before.length + (locals members).length < 256 ^ 4)
    (htotal : total + totalLength files ≤ maxTotalBytes) :
    readEntries inflate archive members.length (before ++ (locals members ++ middle)).length total =
      .ok files ↔ ∀ m ∈ members, m.name.length < 256 ^ 2 := by
  induction h generalizing before middle total with
  | nil => simp [readEntries]
  | @cons m file members files h hrest ih =>
    rw [locals_cons, length_append] at hplace
    have hlocal : archive = before ++ (m.localPart ++ (locals members ++
        (middle ++ (central before.length (m :: members) ++ back)))) := by
      rw [harchive, locals_cons]
      simp only [append_assoc]
    have hdirectory : archive = (before ++ (locals (m :: members) ++ middle)) ++
        (m.header before.length ++
          (m.name ++ (central (before.length + m.localPart.length) members ++ back))) := by
      rw [harchive, central]
      simp only [append_assoc]
    rw [totalLength, map_cons, sum_cons] at htotal
    rw [length_cons, forall_mem_cons]
    by_cases hname : m.name.length < 256 ^ 2
    · have hnext : archive = (before ++ m.localPart) ++ (locals members ++
          ((middle ++ (m.header before.length ++ m.name)) ++
            (central (before ++ m.localPart).length members ++ back))) := by
        rw [harchive, locals_cons, central, length_append]
        simp only [append_assoc]
      have hmiddle : (before ++ (locals (m :: members) ++ middle)).length + 46 + m.name.length =
          ((before ++ m.localPart) ++
            (locals members ++ (middle ++ (m.header before.length ++ m.name)))).length := by
        rw [locals_cons]
        simp only [length_append, length_header]
        omega
      have hall := @ih (total + file.body.length) _ _
        (fun other hother => hsafe other (mem_cons_of_mem _ hother)) hnext
        (by rw [length_append]; omega) (by rw [totalLength]; omega)
      rw [readEntries_succ hlocal hdirectory (by omega) h (hsafe file mem_cons_self) hname
        (by omega), hmiddle, map_eq_ok_iff, ← hall]
      simp only [hname, true_and, List.cons.injEq, exists_eq_right]
    · simp only [hname, false_and, iff_false]
      exact readEntries_ne_of_long hdirectory h hname hrest.length_eq

/-! ### Reading an archive -/

theorem read_endRecord (before : List UInt8) (count size offset i place : ℕ) {width n : ℕ}
    (h : [(4, 0x06054b50), (2, 0), (2, 0), (2, count), (2, count), (4, size), (4, offset),
      (2, 0)][i]? = some (width, n))
    (hplace : (([4, 2, 2, 2, 2, 4, 4, 2].take i).sum) = place) :
    read width (before ++ endRecord count size offset) (before.length + place) =
      n % 256 ^ width := by
  have hread := read_layout before [] i h
  rw [map_take, append_nil] at hread
  rw [← hplace]
  exact hread

/-- **The record at the end is found** where it is. -/
theorem findEndRecord_append (before : List UInt8) (count size offset : ℕ) :
    findEndRecord (before ++ endRecord count size offset) = .ok before.length := by
  have hlength : (before ++ endRecord count size offset).length = before.length + 22 := by
    rw [length_append, length_endRecord]
  have hplace : (before ++ endRecord count size offset).length - 22 = before.length := by
    rw [hlength, Nat.add_sub_cancel]
  have hsign : read 4 (before ++ endRecord count size offset) before.length = 0x06054b50 :=
    read_endRecord before count size offset 0 0 rfl rfl
  have hfound : ∀ left, findEnd (before ++ endRecord count size offset) (left + 1)
      ((before ++ endRecord count size offset).length - 22) = some before.length := fun left => by
    rw [hplace, findEnd, if_pos hsign]
  rw [findEndRecord, if_neg (by omega)]
  simp only [hfound]

/-- **An archive is read back** just where no signature of the Zip64 format occurs in it and every
name has room. -/
theorem unzip_archiveOf_iff {members : List Member}
    (h : List.Forall₂ (Member.Holds inflate) members files) (hsafe : ∀ file ∈ files, Safe file.name)
    (hcount : members.length ≤ maxEntries) (htotal : totalLength files ≤ maxTotalBytes)
    (hsmall : (archiveOf members).length < 256 ^ 4) :
    unzip inflate (archiveOf members) = .ok files ↔
      ¬ zip64End <:+: archiveOf members ∧ ∀ m ∈ members, m.name.length < 256 ^ 2 := by
  have hparts : archiveOf members = (locals members ++ central 0 members) ++
      endRecord members.length (central 0 members).length (locals members).length := by
    rw [archiveOf, append_assoc]
  have hlocals : (locals members).length < 256 ^ 4 := by
    refine lt_of_le_of_lt ?_ hsmall
    rw [archiveOf, length_append]
    exact Nat.le_add_right _ _
  have hmax : maxEntries < 256 ^ 2 - 1 := by decide
  have hread := @readEntries_central inflate (archiveOf members) files 0 members [] [] _ h hsafe rfl
    (by rw [length_nil, Nat.zero_add]; exact hlocals) (by rw [Nat.zero_add]; exact htotal)
  rw [nil_append, append_nil] at hread
  have hfound := findEndRecord_append (locals members ++ central 0 members) members.length
    (central 0 members).length (locals members).length
  have hnumber := read_endRecord (locals members ++ central 0 members) members.length
    (central 0 members).length (locals members).length 4 10 rfl rfl
  have hoffset := read_endRecord (locals members ++ central 0 members) members.length
    (central 0 members).length (locals members).length 6 16 rfl rfl
  rw [← hparts] at hfound hnumber hoffset
  rw [mod_eq_of_lt (by omega)] at hnumber
  rw [mod_eq_of_lt hlocals] at hoffset
  rw [unzip, hfound, Except.bind]
  dsimp only
  rw [hnumber, hoffset]
  by_cases hsign : zip64End <:+: archiveOf members
  · rw [if_pos (.inr hsign)]
    simp [hsign]
  · rw [if_neg (by simp only [hsign, or_false]; omega), if_neg (by omega), hread]
    simp only [hsign, not_false_eq_true, true_and]

end Read

end Zip

end Sone
