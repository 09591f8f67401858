import Sone.Archive.ReadBack
import Mathlib.Algebra.Order.BigOperators.Group.List
import Mathlib.Algebra.Order.Ring.Nat

/-!
# What is archived comes back

`unzip` refuses an archive in which the signature of the Zip64 format occurs, and it looks for it in
all of the bytes: in bodies, in names and in numbers, not only where a record of that format would
be. `Readable` says of entries that it occurs nowhere among them, and that their names have room.
`zip` and `packStored` have their entries read back just where they are (`unzip_iff_readable`).
-/

namespace Sone

open List Nat

namespace Zip

open LittleEndian

/-! ### Where the signature occurs -/

/-- Whether the signature occurs in what stands **once or twice of an entry**: in the numbers that
both headers have, or in its name and its body behind it. -/
def Member.Signed (m : Member) : Prop :=
  zip64End <:+: layout m.fields ∨ zip64End <:+: m.name ++ m.body

/-- Whether the signature occurs in an offset and the name behind it. -/
def OffsetSigned : ℕ → List Member → Prop
  | _, [] => False
  | offset, m :: members =>
    zip64End <:+: bytesOf 4 offset ++ m.name ∨ OffsetSigned (offset + m.localPart.length) members

/-- Whether the signature occurs in the numbers of the record at the end. -/
def EndSigned (count size offset : ℕ) : Prop :=
  zip64End <:+: layout [(2, count), (2, count), (4, size), (4, offset)]

section Signature

variable {p z : List UInt8}

theorem isInfix_opening_append (hlast : p.getLast? = some 0) (hnot : ¬ zip64End <:+: p) :
    zip64End <:+: p ++ z ↔ zip64End <:+: z := by
  rw [isInfix_append_iff_of_last fun x hx => by
    rw [hlast, Option.mem_some_iff] at hx
    exact hx ▸ by decide]
  exact or_iff_right hnot

/-- Whether bytes begin with what the signature does not go on with. -/
def Begins (z : List UInt8) : Prop := ∀ x ∈ z.head?, x ∉ zip64End.tail

theorem isInfix_localPart_append (m : Member) (hz : Begins z) :
    zip64End <:+: m.localPart ++ z ↔ m.Signed ∨ zip64End <:+: z := by
  have hparts : m.localPart ++ z = layout [(4, 0x04034b50), (2, 20), (2, 0x0800), (2, m.method)] ++
      (layout m.fields ++ (layout [(2, 0)] ++ ((m.name ++ m.body) ++ z))) := by
    simp only [Member.localPart, Member.localHeader, layout_append, append_assoc]
  have hopening :
      (layout [(4, 0x04034b50), (2, 20), (2, 0x0800), (2, m.method)]).getLast? = some 0 ∧
      ¬ zip64End <:+: layout [(4, 0x04034b50), (2, 20), (2, 0x0800), (2, m.method)] := by
    rw [Member.method]
    split_ifs
    · decide
    · decide
  have hzeros : Begins (layout [(2, 0)] ++ ((m.name ++ m.body) ++ z)) := fun x hx => by
    cases hx
    decide
  rw [hparts, isInfix_opening_append hopening.1 hopening.2, isInfix_append_iff_of_head hzeros,
    isInfix_opening_append (by decide) (by decide), isInfix_append_iff_of_head hz, Member.Signed,
    or_assoc]

theorem isInfix_header_append (m : Member) (offset : ℕ) (hz : Begins z) :
    zip64End <:+: m.header offset ++ (m.name ++ z) ↔ zip64End <:+: layout m.fields ∨
      zip64End <:+: bytesOf 4 offset ++ m.name ∨ zip64End <:+: z := by
  have hparts : m.header offset ++ (m.name ++ z) =
      layout [(4, 0x02014b50), (2, 20), (2, 20), (2, 0x0800), (2, m.method)] ++ (layout m.fields ++
        (layout [(2, 0), (2, 0), (2, 0), (2, 0), (4, 0)] ++
          ((bytesOf 4 offset ++ m.name) ++ z))) := by
    have hoffset : layout [(2, 0), (2, 0), (2, 0), (2, 0), (4, 0), (4, offset)] =
        layout [(2, 0), (2, 0), (2, 0), (2, 0), (4, 0)] ++ bytesOf 4 offset := by
      simp [layout]
    simp only [Member.header, layout_append, append_assoc, hoffset]
  have hopening :
      (layout [(4, 0x02014b50), (2, 20), (2, 20), (2, 0x0800), (2, m.method)]).getLast? = some 0 ∧
      ¬ zip64End <:+:
        layout [(4, 0x02014b50), (2, 20), (2, 20), (2, 0x0800), (2, m.method)] := by
    rw [Member.method]
    split_ifs
    · decide
    · decide
  have hzeros : Begins (layout [(2, 0), (2, 0), (2, 0), (2, 0), (4, 0)] ++
      ((bytesOf 4 offset ++ m.name) ++ z)) := fun x hx => by
    cases hx
    decide
  rw [hparts, isInfix_opening_append hopening.1 hopening.2, isInfix_append_iff_of_head hzeros,
    isInfix_opening_append (by decide) (by decide), isInfix_append_iff_of_head hz]

theorem isInfix_endRecord (count size offset : ℕ) :
    zip64End <:+: endRecord count size offset ↔ EndSigned count size offset := by
  have hparts : endRecord count size offset = layout [(4, 0x06054b50), (2, 0), (2, 0)] ++
      (layout [(2, count), (2, count), (4, size), (4, offset)] ++ layout [(2, 0)]) := by
    simp [endRecord, layout]
  have hzeros : Begins (layout [(2, 0)]) := fun x hx => by
    cases hx
    decide
  rw [hparts, isInfix_opening_append (by decide) (by decide), isInfix_append_iff_of_head hzeros,
    EndSigned]
  exact or_iff_left (by decide)

theorem begins_locals_append (members : List Member) (hz : Begins z) :
    Begins (locals members ++ z) := by
  cases members with
  | nil => exact hz
  | cons m members =>
    intro x hx
    rw [locals_cons] at hx
    cases hx
    decide

theorem begins_central_append (offset : ℕ) (members : List Member) (hz : Begins z) :
    Begins (central offset members ++ z) := by
  cases members with
  | nil => exact hz
  | cons m members =>
    intro x hx
    cases hx
    decide

theorem isInfix_locals_append (members : List Member) (hz : Begins z) :
    zip64End <:+: locals members ++ z ↔ (∃ m ∈ members, m.Signed) ∨ zip64End <:+: z := by
  induction members with
  | nil => simp [locals]
  | cons m members ih =>
    rw [locals_cons, append_assoc,
      isInfix_localPart_append m (begins_locals_append members hz), ih, exists_mem_cons_iff,
      or_assoc]

theorem isInfix_central_append (offset : ℕ) (members : List Member) (hz : Begins z) :
    zip64End <:+: central offset members ++ z ↔
      (∃ m ∈ members, zip64End <:+: layout m.fields) ∨ OffsetSigned offset members ∨
        zip64End <:+: z := by
  induction members generalizing offset with
  | nil => simp [central, OffsetSigned]
  | cons m members ih =>
    rw [central, append_assoc, append_assoc,
      isInfix_header_append m offset (begins_central_append _ members hz), ih,
      exists_mem_cons_iff, OffsetSigned, or_assoc, or_assoc]
    exact or_congr_right or_left_comm

/-- **Where the signature occurs in an archive.** -/
theorem isInfix_archiveOf (members : List Member) :
    zip64End <:+: archiveOf members ↔ (∃ m ∈ members, m.Signed) ∨ OffsetSigned 0 members ∨
      EndSigned members.length (central 0 members).length (locals members).length := by
  have hend : Begins (endRecord members.length (central 0 members).length
      (locals members).length) := fun x hx => by
    cases hx
    decide
  rw [archiveOf, isInfix_locals_append members (begins_central_append 0 members hend),
    isInfix_central_append 0 members hend, isInfix_endRecord]
  refine ⟨fun h => ?_, fun h => h.imp_right .inr⟩
  rcases h with hsigned | ⟨m, hm, hfields⟩ | hrest
  · exact .inl hsigned
  · exact .inl ⟨m, hm, .inl hfields⟩
  · exact .inr hrest

end Signature

/-! ### What the writers write -/

section Writers

variable {inflate : Inflate} {deflate : List UInt8 → List UInt8} {entries : List Entry}
  {members : List Member} {files : List ArchiveEntry} {l l' : Layout}

def Entry.file (entry : Entry) : ArchiveEntry := { name := entry.name, body := entry.body }

def StoredEntry.file (entry : StoredEntry) : ArchiveEntry :=
  { name := entry.name, body := entry.body }

theorem holds_zipMember
    (hinflate : ∀ bytes limit, bytes.length ≤ limit → inflate (deflate bytes) limit = .ok bytes)
    (entry : Entry) : (zipMember deflate entry).Holds inflate entry.file where
  name := rfl
  size := rfl
  length_le := by
    simp only [zipMember, Entry.file]
    split_ifs with hshorter
    · exact hshorter.le
    · exact le_rfl
  stored hnot := if_neg (of_decide_eq_false hnot)
  inflates hdeflated limit hlimit := by
    have hbody : (zipMember deflate entry).body = deflate entry.body :=
      if_pos (of_decide_eq_true hdeflated)
    rw [hbody]
    exact hinflate entry.body limit hlimit

theorem holds_storedMember (now : Option LocalTime) (entry : StoredEntry) :
    (storedMember now entry).Holds inflate entry.file where
  name := rfl
  size := rfl
  length_le := le_rfl
  stored _ := rfl
  inflates hdeflated := by cases hdeflated

theorem dosTime_time_lt (moment : Option LocalTime) : (dosTime moment).1 < 256 ^ 2 := by
  cases moment with
  | none => decide
  | some moment =>
    have hhours := moment.hours_lt
    have hminutes := moment.minutes_lt
    have hseconds := moment.seconds_lt
    have hand : moment.seconds / 2 &&& 0x1f ≤ moment.seconds / 2 := Nat.and_le_left
    exact @or_lt_two_pow _ _ 16
      (@or_lt_two_pow _ _ 16 (by rw [shiftLeft_eq]; omega)
        (by rw [shiftLeft_eq]; omega)) (by omega)

/-- **A date has room** to the year 2107. -/
theorem dosTime_date_lt_iff (moment : Option LocalTime) :
    (dosTime moment).2 < 256 ^ 2 ↔ ∀ t ∈ moment, t.fullYear ≤ 2107 := by
  cases moment with
  | none => simp [dosTime]
  | some moment =>
    have hmonth := moment.month_lt
    have hday := moment.day_lt
    have hiff : (dosTime (some moment)).2 < 256 ^ 2 ↔ moment.fullYear ≤ 2107 := by
      refine ⟨fun hlt => ?_, fun hle => ?_⟩
      · have hleft : (moment.fullYear - 1980).toNat <<< 9 ≤ (dosTime (some moment)).2 :=
          Nat.left_le_or.trans Nat.left_le_or
        rw [shiftLeft_eq] at hleft
        omega
      · exact @or_lt_two_pow _ _ 16
          (@or_lt_two_pow _ _ 16 (by rw [shiftLeft_eq]; omega)
            (by rw [shiftLeft_eq]; omega)) (by omega)
    simpa using hiff

/-- **An entry has room** where its name and its date have. -/
theorem fit_zipMember_iff {entry : Entry} (hbody : entry.body.length ≤ maxTotalBytes) :
    fit (zipMember deflate entry).fields = true ↔
      (utf8 entry.name).length < 256 ^ 2 ∧ ∀ t ∈ entry.at, t.fullYear ≤ 2107 := by
  have hmax : maxTotalBytes < 256 ^ 4 := by decide
  have htime := dosTime_time_lt entry.at
  have hcrc : (crc32 entry.body).toNat < 256 ^ 4 := UInt32.toNat_lt _
  have hlength : (zipMember deflate entry).body.length < 256 ^ 4 := by
    simp only [zipMember]
    split_ifs with hshorter
    · have hlt : (deflate entry.body).length < entry.body.length := hshorter
      omega
    · omega
  have hfields : fit (zipMember deflate entry).fields = true ↔
      (dosTime entry.at).1 < 256 ^ 2 ∧ (dosTime entry.at).2 < 256 ^ 2 ∧
        (crc32 entry.body).toNat < 256 ^ 4 ∧ (zipMember deflate entry).body.length < 256 ^ 4 ∧
          entry.body.length < 256 ^ 4 ∧ (utf8 entry.name).length < 256 ^ 2 := by
    simp only [fit, Member.fields, all_cons, all_nil, Bool.and_true, Bool.and_eq_true,
      decide_eq_true_eq]
    rfl
  rw [hfields, dosTime_date_lt_iff]
  refine ⟨fun h => ⟨h.2.2.2.2.2, h.2.1⟩, fun h => ⟨htime, h.2, hcrc, hlength, by omega, h.1⟩⟩

theorem of_zipLoop_eq_ok (h : zipLoop deflate l entries = .ok l') :
    (∀ entry ∈ entries, fit (zipMember deflate entry).fields = true) ∧
      l' = (entries.map (zipMember deflate)).foldl Layout.push l := by
  induction entries generalizing l with
  | nil =>
    rw [zipLoop] at h
    cases h
    exact ⟨forall_mem_nil _, rfl⟩
  | cons entry entries ih =>
    rw [zipLoop] at h
    split_ifs at h with hfit
    obtain ⟨hall, hloop⟩ := ih h
    exact ⟨forall_mem_cons.mpr ⟨hfit.1, hall⟩, hloop⟩

theorem zipLoop_of_fit (hfit : ∀ entry ∈ entries, fit (zipMember deflate entry).fields = true)
    (hroom : l.offset + (locals (entries.map (zipMember deflate))).length < 256 ^ 4) :
    zipLoop deflate l entries = .ok ((entries.map (zipMember deflate)).foldl Layout.push l) := by
  induction entries generalizing l with
  | nil => rfl
  | cons entry entries ih =>
    rw [map_cons, locals_cons, length_append, length_localPart] at hroom
    rw [zipLoop, if_pos ⟨hfit entry mem_cons_self, by omega⟩,
      ih (fun other hother => hfit other (mem_cons_of_mem _ hother))
        (by simp only [Layout.push]; omega)]
    rfl

theorem length_parts_le (h : List.Forall₂ (Member.Holds inflate) members files)
    (hname : ∀ m ∈ members, m.name.length < 256 ^ 2) (offset : ℕ) :
    (locals members).length ≤ members.length * 65565 + totalLength files ∧
      (central offset members).length ≤ members.length * 65581 := by
  induction h generalizing offset with
  | nil => simp [locals, central, totalLength]
  | @cons m file members files h hrest ih =>
    rw [forall_mem_cons] at hname
    obtain ⟨hlocals, hcentral⟩ := ih hname.2 (offset + m.localPart.length)
    have hbody := h.length_le
    have htotal : totalLength (file :: files) = file.body.length + totalLength files := rfl
    rw [locals_cons, central, htotal]
    simp only [length_append, length_cons, length_localPart, length_header] at *
    omega

theorem length_archiveOf_lt (h : List.Forall₂ (Member.Holds inflate) members files)
    (hcount : members.length ≤ maxEntries) (htotal : totalLength files ≤ maxTotalBytes)
    (hname : ∀ m ∈ members, m.name.length < 256 ^ 2) : (archiveOf members).length < 256 ^ 4 := by
  obtain ⟨hlocals, hcentral⟩ := length_parts_le h hname 0
  have hentries : maxEntries = 5000 := rfl
  have hbytes : maxTotalBytes = 536870912 := rfl
  rw [archiveOf, length_append, length_append, length_endRecord]
  omega

theorem body_length_le {file : ArchiveEntry} (hentry : file ∈ files) :
    file.body.length ≤ totalLength files :=
  single_le_sum (fun _ _ => Nat.zero_le _) _ (List.mem_map_of_mem hentry)

theorem holds_map_zipMember
    (hinflate : ∀ bytes limit, bytes.length ≤ limit → inflate (deflate bytes) limit = .ok bytes)
    (entries : List Entry) :
    List.Forall₂ (Member.Holds inflate) (entries.map (zipMember deflate))
      (entries.map Entry.file) := by
  rw [forall₂_map_left_iff, forall₂_map_right_iff, forall₂_same]
  exact fun entry _ => holds_zipMember hinflate entry

/-- **What `zip` writes**, where it does not throw. -/
theorem zip_eq_ok_iff
    (hinflate : ∀ bytes limit, bytes.length ≤ limit → inflate (deflate bytes) limit = .ok bytes)
    (hcount : entries.length ≤ maxEntries)
    (htotal : totalLength (entries.map Entry.file) ≤ maxTotalBytes) {archive : List UInt8} :
    zip deflate entries = .ok archive ↔
      (∀ entry ∈ entries, (utf8 entry.name).length < 256 ^ 2 ∧ ∀ t ∈ entry.at, t.fullYear ≤ 2107) ∧
        archive = archiveOf (entries.map (zipMember deflate)) := by
  have hbody : ∀ entry ∈ entries, entry.body.length ≤ maxTotalBytes := fun entry hentry =>
    (body_length_le (List.mem_map_of_mem hentry)).trans htotal
  have hlayout := finish_foldl_push (entries.map (zipMember deflate))
  rw [length_map] at hlayout
  refine bind_eq_ok_iff.trans ?_
  refine ⟨fun h => ?_, fun ⟨hall, harchive⟩ => ?_⟩
  · obtain ⟨l, hloop, hwrite⟩ := h
    obtain ⟨hfit, rfl⟩ := of_zipLoop_eq_ok hloop
    dsimp only at hwrite
    split_ifs at hwrite
    cases hwrite
    exact ⟨fun entry hentry => (fit_zipMember_iff (hbody entry hentry)).mp (hfit entry hentry),
      hlayout⟩
  · have hfit : ∀ entry ∈ entries, fit (zipMember deflate entry).fields = true :=
      fun entry hentry => (fit_zipMember_iff (hbody entry hentry)).mpr (hall entry hentry)
    have hname : ∀ m ∈ entries.map (zipMember deflate), m.name.length < 256 ^ 2 := by
      rw [List.forall_mem_map]
      exact fun entry hentry => (hall entry hentry).1
    have hholds := holds_map_zipMember hinflate entries
    obtain ⟨hlocals, hcentral⟩ := length_parts_le hholds hname 0
    have hsmall := length_archiveOf_lt hholds (by rwa [length_map]) htotal hname
    have hentries : maxEntries = 5000 := rfl
    have hbytes : maxTotalBytes = 536870912 := rfl
    rw [length_map] at hlocals hcentral
    refine ⟨_, zipLoop_of_fit hfit (by simp only [Layout.empty]; omega), ?_⟩
    dsimp only
    rw [hlayout, if_pos, if_neg, harchive]
    · have hmax : maxArchiveBytes = 256 ^ 4 - 1 := rfl
      omega
    · rw [foldl_push]
      simp only [fit, Layout.empty, nil_append, all_cons, all_nil, Bool.and_true,
        Bool.and_eq_true, decide_eq_true_eq]
      omega

/-- **Entries can be read back** from an archive: their names have room, and the signature of the
Zip64 format occurs nowhere in what is written of them. -/
structure Readable (members : List Member) : Prop where
  names : ∀ m ∈ members, m.name.length < 256 ^ 2
  unsigned : ∀ m ∈ members, ¬ m.Signed
  offsets : ¬ OffsetSigned 0 members
  ends : ¬ EndSigned members.length (central 0 members).length (locals members).length

theorem unzip_archiveOf_iff_readable (h : List.Forall₂ (Member.Holds inflate) members files)
    (hsafe : ∀ file ∈ files, Safe file.name) (hcount : members.length ≤ maxEntries)
    (htotal : totalLength files ≤ maxTotalBytes) :
    ((archiveOf members).length < 256 ^ 4 ∧ unzip inflate (archiveOf members) = .ok files) ↔
      Readable members := by
  refine ⟨fun ⟨hsmall, hread⟩ => ?_, fun hreadable => ?_⟩
  · rw [unzip_archiveOf_iff h hsafe hcount htotal hsmall, isInfix_archiveOf, not_or,
      not_or] at hread
    obtain ⟨⟨hunsigned, hoffsets, hends⟩, hname⟩ := hread
    exact ⟨hname, fun m hm hsigned => hunsigned ⟨m, hm, hsigned⟩, hoffsets, hends⟩
  · have hsmall := length_archiveOf_lt h hcount htotal hreadable.names
    rw [unzip_archiveOf_iff h hsafe hcount htotal hsmall, isInfix_archiveOf, not_or, not_or]
    refine ⟨hsmall, ⟨fun ⟨m, hm, hsigned⟩ => ?_, hreadable.offsets, hreadable.ends⟩,
      hreadable.names⟩
    exact hreadable.unsigned m hm hsigned

/-- **When archives are read back.** Those of `zip` are just where their entries can be, and no date
is beyond its field. Those of `packStored` are just where their entries can be, as long as the field
of an offset reaches over them. -/
theorem unzip_iff_readable (inflate : Inflate) (deflate : List UInt8 → List UInt8)
    (hinflate : ∀ bytes limit, bytes.length ≤ limit →
      inflate (deflate bytes) limit = .ok bytes) :
    (∀ entries : List Entry, entries.length ≤ maxEntries → (∀ entry ∈ entries, Safe entry.name) →
      totalLength (entries.map Entry.file) ≤ maxTotalBytes →
        ((∃ archive, zip deflate entries = .ok archive ∧
            unzip inflate archive = .ok (entries.map Entry.file)) ↔
          Readable (entries.map (zipMember deflate)) ∧
            ∀ entry ∈ entries, ∀ t ∈ entry.at, t.fullYear ≤ 2107)) ∧
    (∀ (now : Option LocalTime) (entries : List StoredEntry), entries.length ≤ maxStoredEntries →
      (∀ entry ∈ entries, Safe entry.name) →
      totalLength (entries.map StoredEntry.file) ≤ maxStoredBytes →
        ((∃ archive, packStored now entries = .ok archive ∧ archive.length < 256 ^ 4 ∧
            unzip inflate archive = .ok (entries.map StoredEntry.file)) ↔
          Readable (entries.map (storedMember now)))) := by
  refine ⟨fun entries hcount hsafe htotal => ?_, fun now entries hcount hsafe htotal => ?_⟩
  · have hread := unzip_archiveOf_iff_readable (holds_map_zipMember hinflate entries)
      (List.forall_mem_map.mpr hsafe) (by rwa [length_map]) htotal
    rw [← hread]
    refine ⟨fun h => ?_, fun h => ?_⟩
    · obtain ⟨archive, hzip, hunzip⟩ := h
      obtain ⟨hall, rfl⟩ := (zip_eq_ok_iff hinflate hcount htotal).mp hzip
      have hname : ∀ m ∈ entries.map (zipMember deflate), m.name.length < 256 ^ 2 :=
        List.forall_mem_map.mpr fun entry hentry => (hall entry hentry).1
      exact ⟨⟨length_archiveOf_lt (holds_map_zipMember hinflate entries)
        (by rwa [length_map]) htotal hname, hunzip⟩, fun entry hentry => (hall entry hentry).2⟩
    · obtain ⟨⟨hsmall, hunzip⟩, hdates⟩ := h
      have hname := (hread.mp ⟨hsmall, hunzip⟩).names
      rw [List.forall_mem_map] at hname
      exact ⟨_, (zip_eq_ok_iff hinflate hcount htotal).mpr
        ⟨fun entry hentry => ⟨hname entry hentry, hdates entry hentry⟩, rfl⟩, hunzip⟩
  · have hholds : List.Forall₂ (Member.Holds inflate) (entries.map (storedMember now))
        (entries.map StoredEntry.file) := by
      rw [forall₂_map_left_iff, forall₂_map_right_iff, forall₂_same]
      exact fun entry _ => holds_storedMember now entry
    have hpack : packStored now entries = .ok (archiveOf (entries.map (storedMember now))) := by
      have hlayout := finish_foldl_push (entries.map (storedMember now))
      have hsum : (entries.map (·.body.length)).sum =
          totalLength (entries.map StoredEntry.file) := by
        rw [totalLength, List.map_map]
        rfl
      rw [length_map] at hlayout
      rw [packStored, if_neg (not_lt.mpr hcount), if_neg (by rw [hsum]; exact not_lt.mpr htotal)]
      dsimp only
      rw [hlayout]
    have hlimits : maxStoredEntries ≤ maxEntries ∧ maxStoredBytes ≤ maxTotalBytes := by decide
    rw [← unzip_archiveOf_iff_readable hholds (List.forall_mem_map.mpr hsafe)
      (by rw [length_map]; exact hcount.trans hlimits.1) (htotal.trans hlimits.2)]
    refine ⟨fun h => ?_, fun hread => ⟨_, hpack, hread⟩⟩
    obtain ⟨archive, hpacked, hread⟩ := h
    cases hpack.symm.trans hpacked
    exact hread

end Writers

/-! ### Archives -/

instance (m : Member) : Decidable m.Signed := inferInstanceAs (Decidable (_ ∨ _))

instance decidableOffsetSigned : ∀ (offset : ℕ) (members : List Member),
    Decidable (OffsetSigned offset members)
  | _, [] => isFalse id
  | offset, m :: members =>
    have := decidableOffsetSigned (offset + m.localPart.length) members
    inferInstanceAs (Decidable (_ ∨ _))

instance (count size offset : ℕ) : Decidable (EndSigned count size offset) :=
  inferInstanceAs (Decidable (zip64End <:+: _))

/-- The second of March 2026, at noon. -/
def sampleTime : LocalTime :=
  ⟨2026, 2, 2, 12, 0, 0, by decide, by decide, by decide, by decide, by decide, by decide⟩

def sampleBody : List UInt8 := utf8 "- Milk\n- Milk\n- Milk\n- Milk\n"

/-- It is deflated; and what else there is, is stored in one block. -/
def sampleDeflate (bytes : List UInt8) : List UInt8 :=
  if bytes = sampleBody then
    [0xd3, 0x55, 0xf0, 0xcd, 0xcc, 0xc9, 0xe6, 0xd2, 0xc5, 0x46, 0x01, 0x00]
  else
    layout [(1, 1), (2, bytes.length), (2, 0xffff - bytes.length)] ++ bytes

def sampleInflate : Inflate := fun bytes _ =>
  if bytes = [0xd3, 0x55, 0xf0, 0xcd, 0xcc, 0xc9, 0xe6, 0xd2, 0xc5, 0x46, 0x01, 0x00] then
    .ok sampleBody
  else .ok (bytes.drop 5)

theorem sampleInflate_sampleDeflate (bytes : List UInt8) (limit : ℕ)
    (_ : bytes.length ≤ limit) : sampleInflate (sampleDeflate bytes) limit = .ok bytes := by
  rw [sampleInflate, sampleDeflate]
  split_ifs with hsample hblock hblock
  · rw [hsample]
  · exact absurd rfl hblock
  · have hfirst := congrArg List.head? hblock
    cases hfirst
  · rw [drop_left' (by rw [length_layout]; rfl)]

/-- **An archive is not read back**: there is a file in it that holds the signature of the Zip64
format. -/
theorem signature_refused :
    ¬ ∀ (inflate : Inflate) (deflate : List UInt8 → List UInt8),
      (∀ bytes limit, bytes.length ≤ limit → inflate (deflate bytes) limit = .ok bytes) →
      ∀ entries : List Entry, entries.length ≤ maxEntries → (∀ entry ∈ entries, Safe entry.name) →
        totalLength (entries.map Entry.file) ≤ maxTotalBytes →
          ∃ archive, zip deflate entries = .ok archive ∧
            unzip inflate archive = .ok (entries.map Entry.file) := by
  intro hall
  obtain ⟨archive, hzip, hunzip⟩ := hall sampleInflate sampleDeflate sampleInflate_sampleDeflate
    [{ name := "a.md", body := zip64End, «at» := some sampleTime }] (by decide)
    (by simp only [forall_mem_singleton, Safe]; decide +kernel) (by decide)
  have hrefused : ((zip sampleDeflate
      [{ name := "a.md", body := zip64End, «at» := some sampleTime }]).toOption.bind
        fun archive => (unzip sampleInflate archive).toOption) = none := by
    decide +kernel
  rw [hzip, Except.toOption, Option.bind_some, hunzip] at hrefused
  cases hrefused

/-- The hypothesis can be met: two files, one of them deflated, are read back from what both
writers write. -/
theorem unzip_iff_readable_sample :
    (∃ archive, zip sampleDeflate
        [{ name := "a.md", body := sampleBody, «at» := some sampleTime },
          { name := "b/c.md", body := [0x50, 0x4b, 0x05, 0x06], «at» := some sampleTime }] =
        .ok archive ∧
      unzip sampleInflate archive = .ok
        [{ name := "a.md", body := sampleBody },
          { name := "b/c.md", body := [0x50, 0x4b, 0x05, 0x06] }]) ∧
    ∃ archive, packStored (some sampleTime) [{ name := "a.md", body := sampleBody, «at» := none }] =
        .ok archive ∧ archive.length < 256 ^ 4 ∧
      unzip sampleInflate archive = .ok [{ name := "a.md", body := sampleBody }] := by
  have hiff := unzip_iff_readable sampleInflate sampleDeflate sampleInflate_sampleDeflate
  refine ⟨(hiff.1
    [{ name := "a.md", body := sampleBody, «at» := some sampleTime },
      { name := "b/c.md", body := [0x50, 0x4b, 0x05, 0x06], «at» := some sampleTime }]
    (by decide) ?_ (by decide)).mpr ⟨⟨?_, ?_, ?_, ?_⟩, ?_⟩,
    (hiff.2 (some sampleTime) [{ name := "a.md", body := sampleBody, «at» := none }]
      (by decide) ?_ (by decide)).mpr ⟨?_, ?_, ?_, ?_⟩⟩
  · simp only [forall_mem_cons, Safe]
    decide +kernel
  · decide +kernel
  · decide +kernel
  · decide +kernel
  · decide +kernel
  · decide +kernel
  · simp only [forall_mem_cons, Safe]
    decide +kernel
  · decide +kernel
  · decide +kernel
  · decide +kernel
  · decide +kernel

end Zip

end Sone
