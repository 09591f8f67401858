import Sone.Files.Disk
import Sone.Access.Tables

/-!
# The file store

`LocalFileStore` (`files/store.ts`): bytes are kept under a key made from their hash. `put`
writes them to a temporary name and renames that name, so that what stands under a key is
never half written; where the key already names a file it writes nothing.

A `put` is five calls to the file system, one after another (`PutStage`), and `PutCall.run`
is the one that comes next. The name of the temporary file is made from the key and the id
of the process, so two calls for the same bytes in one process share it.
`PutsInv` is what holds of the disk while calls run: every key has its bytes, and a call is
alone with the file it writes. It is kept as long as no call renames a temporary file that
another one made (`PutCall.TakesOver`).
-/

namespace Sone

open Function List Option

/-- What a store relies on besides the disk: the digest of SHA-256, in hexadecimal. -/
structure StoreEnv where
  sha256Hex : List UInt8 → String

/-- The paths the store makes: a key under the root, and the temporary file of a key and a
process. -/
inductive StorePath where
  | target (key : String)
  | temporary (key : String) (pid : ℕ)
  deriving DecidableEq

structure StoredFile where
  key : String
  sha256 : String
  sizeBytes : ℕ
  deriving DecidableEq, Repr

/-- `[a-z0-9]`. -/
def isLowerAlphanumeric (c : Char) : Bool := c.isDigit || c.isLower

/-- The extension a key carries: the one that was detected, where it is plain. -/
def safeExtension (extension : String) : String :=
  if 1 ≤ extension.length ∧ extension.length ≤ 8 ∧ extension.toList.all isLowerAlphanumeric then
    "." ++ extension
  else ""

/-- The key of bytes: two characters of the digest, the others, and the extension. -/
def storageKey (env : StoreEnv) (bytes : List UInt8) (extension : String) : String :=
  let hex := (env.sha256Hex bytes).toList
  String.ofList (hex.take 2) ++ "/" ++ String.ofList (hex.drop 2) ++ safeExtension extension

/-- `[0-9a-f]`. -/
def isHexadecimal (c : Char) : Bool := c.isDigit || ('a' ≤ c && c ≤ 'f')

/-- `KEY_PATTERN`: what `list` takes for a key. -/
def isStorageKey (key : String) : Bool :=
  let chars := key.toList
  let digest := (chars.drop 3).takeWhile isHexadecimal
  let rest := (chars.drop 3).drop 62
  (chars.take 2).length == 2 && (chars.take 2).all isHexadecimal && chars[2]? == some '/' &&
    62 ≤ digest.length &&
      (rest == [] || (rest.head? == some '.' && 2 ≤ rest.length && rest.length ≤ 9 &&
        (rest.drop 1).all isLowerAlphanumeric))

/-- The call of a `put` that comes next. -/
inductive PutStage where
  /-- `exists`. -/
  | checks
  /-- `writeFile` opens the temporary file, which must not be there. -/
  | opens
  /-- `writeFile` writes: the file it opened, and what is still to be written. -/
  | writes (file : ℕ) (rest : List UInt8)
  /-- `rename`, of the file it wrote. -/
  | renames (file : ℕ)
  /-- Something failed: the temporary file is removed. -/
  | unlinks
  deriving DecidableEq

/-- A call of `put`, in a process. -/
structure PutCall where
  bytes : List UInt8
  extension : String
  pid : ℕ
  stage : PutStage := .checks
  deriving DecidableEq

inductive PutOutcome where
  | goesOn (call : PutCall)
  | returns (stored : StoredFile)
  | throws
  deriving DecidableEq

namespace PutCall

def key (env : StoreEnv) (call : PutCall) : String := storageKey env call.bytes call.extension

def target (env : StoreEnv) (call : PutCall) : StorePath := .target (call.key env)

def temporary (env : StoreEnv) (call : PutCall) : StorePath := .temporary (call.key env) call.pid

def stored (env : StoreEnv) (call : PutCall) : StoredFile :=
  ⟨call.key env, env.sha256Hex call.bytes, call.bytes.length⟩

/-- The file a call made, and what it has still to write. -/
def made (call : PutCall) : Option (ℕ × List UInt8) :=
  match call.stage with
  | .writes file rest => some (file, rest)
  | .renames file => some (file, [])
  | _ => none

/-- The next call to the file system, at a time; `chunk` is how many bytes a write takes. -/
def run (env : StoreEnv) (disk : Disk StorePath) (call : PutCall) (now : Time) (chunk : ℕ) :
    Disk StorePath × PutOutcome :=
  match call.stage with
  | .checks =>
    if (disk.names (call.target env)).isSome then (disk, .returns (call.stored env))
    else (disk, .goesOn { call with stage := .opens })
  | .opens =>
    if (disk.names (call.temporary env)).isSome then (disk, .goesOn { call with stage := .unlinks })
    else (disk.create (call.temporary env) now,
      .goesOn { call with stage := .writes disk.next call.bytes })
  | .writes file [] => (disk, .goesOn { call with stage := .renames file })
  | .writes file (byte :: rest) =>
    (disk.append file ((byte :: rest).take (chunk + 1)) now,
      .goesOn { call with stage := .writes file ((byte :: rest).drop (chunk + 1)) })
  | .renames _ =>
    if (disk.names (call.temporary env)).isSome then
      (disk.rename (call.temporary env) (call.target env), .returns (call.stored env))
    else (disk, .goesOn { call with stage := .unlinks })
  | .unlinks => (disk.unlink (call.temporary env), .throws)

/-- What a call does next where the next one fails. A `stat` that fails says that there is no
file; once the temporary file may be there it is removed. -/
def failed (call : PutCall) : Option PutCall :=
  match call.stage with
  | .checks => some { call with stage := .opens }
  | .opens | .writes _ _ | .renames _ => some { call with stage := .unlinks }
  | .unlinks => none

theorem made_of_mem_failed {call next : PutCall} (h : next ∈ call.failed) : next.made = none := by
  rw [failed] at h
  split at h
  · obtain rfl := Option.some.inj h
    rfl
  · obtain rfl := Option.some.inj h
    rfl
  · obtain rfl := Option.some.inj h
    rfl
  · obtain rfl := Option.some.inj h
    rfl
  · simp at h

/-- A call **takes a file over**: it renames a temporary file that another call made. -/
def TakesOver (env : StoreEnv) (disk : Disk StorePath) (call : PutCall) : Prop :=
  match call.stage with
  | .renames file => ∃ other ∈ disk.names (call.temporary env), other ≠ file
  | _ => False

instance (env : StoreEnv) (disk : Disk StorePath) (call : PutCall) :
    Decidable (call.TakesOver env disk) := by
  unfold TakesOver
  split <;> infer_instance

end PutCall

def PutOutcome.call : PutOutcome → Option PutCall
  | goesOn call => some call
  | returns _ | throws => none

def storedKeys (disk : Disk StorePath) : List String :=
  disk.inPlace.filterMap fun
    | .target key => some key
    | .temporary _ _ => none

theorem mem_storedKeys {disk : Disk StorePath} {key : String} :
    key ∈ storedKeys disk ↔ (disk.names (.target key)).isSome = true := by
  rw [storedKeys, mem_filterMap, ← Disk.mem_inPlace]
  constructor
  · rintro ⟨path, hpath, hkey⟩
    cases path with
    | target key' => exact Option.some.inj hkey ▸ hpath
    | temporary key' pid => simp at hkey
  · intro h
    exact ⟨.target key, h, rfl⟩

/-- `delete`. -/
def deleteKey (disk : Disk StorePath) (key : String) : Disk StorePath := disk.unlink (.target key)

/-! ### What a call does to the keys -/

section Keys

variable {env : StoreEnv} {disk : Disk StorePath} {call : PutCall} {now : Time} {chunk : ℕ}
  {key : String}

theorem PutCall.lookup_run {file : DiskFile}
    (h : (call.run env disk now chunk).1.lookup (.target key) = some file) :
    disk.lookup (.target key) = some file ∨ file.modifiedAt = now ∨
      (call.run env disk now chunk).2 = .returns (call.stored env) ∧ key = call.key env := by
  unfold PutCall.run at h ⊢
  split at h
  · split at h <;> exact .inl h
  · split at h
    · exact .inl h
    · refine .inl ?_
      obtain ⟨number, hnumber, rfl⟩ := map_eq_some_iff.mp h
      rw [Disk.names_create, update_of_ne (by simp [PutCall.temporary])] at hnumber
      have hne : number ≠ disk.next := (disk.names_lt _ number hnumber).ne
      rw [Disk.lookup, hnumber, Disk.files_create, update_of_ne hne]
      rfl
  · exact .inl h
  · rename_i written byte rest hstage
    obtain ⟨number, hnumber, rfl⟩ := map_eq_some_iff.mp h
    rw [Disk.names_append] at hnumber
    by_cases heq : number = written
    · exact .inr (.inl (by simp [heq]))
    · refine .inl ?_
      rw [Disk.lookup, hnumber, Disk.files_append_of_ne heq]
      rfl
  · split at h
    · rename_i hthere
      by_cases heq : key = call.key env
      · exact .inr (.inr (by simp [hthere, heq]))
      · refine .inl ?_
        rw [Disk.lookup, Disk.names_rename,
          update_of_ne (by simpa [PutCall.target] using heq),
          update_of_ne (by simp [PutCall.temporary])] at h
        exact h
    · exact .inl h
  · rw [Disk.lookup, Disk.names_unlink, update_of_ne (by simp [PutCall.temporary])] at h
    exact .inl h

theorem PutCall.isSome_run (h : (disk.names (.target key)).isSome) :
    ((call.run env disk now chunk).1.names (.target key)).isSome := by
  rw [PutCall.run]
  split
  · split <;> exact h
  · split
    · exact h
    · simpa [PutCall.temporary] using h
  · exact h
  · exact h
  · split
    · rename_i hthere
      by_cases heq : key = call.key env
      · simpa [PutCall.target, heq] using hthere
      · rw [Disk.names_rename, update_of_ne (by simpa [PutCall.target] using heq),
          update_of_ne (by simp [PutCall.temporary])]
        exact h
    · exact h
  · simpa [PutCall.temporary] using h

theorem PutCall.isSome_of_returns {stored : StoredFile}
    (h : (call.run env disk now chunk).2 = .returns stored) :
    ((call.run env disk now chunk).1.names (.target stored.key)).isSome := by
  unfold PutCall.run at h ⊢
  split at h
  · split at h
    · rename_i hthere
      obtain rfl := PutOutcome.returns.inj h
      rw [if_pos hthere]
      exact hthere
    · simp at h
  · split at h <;> simp at h
  · simp at h
  · simp at h
  · split at h
    · rename_i hthere
      obtain rfl := PutOutcome.returns.inj h
      simp [hthere, PutCall.stored, PutCall.target]
    · simp at h
  · simp at h

end Keys

/-- Bytes **are those of a key**, with some extension. -/
def IsContentOf (env : StoreEnv) (key : String) (bytes : List UInt8) : Prop :=
  ∃ extension, storageKey env bytes extension = key

/-- **While calls run**: every key has its bytes, and what a call made is its own. -/
structure PutsInv (env : StoreEnv) (disk : Disk StorePath) (calls : ℕ → Option PutCall) :
    Prop where
  complete : ∀ key file, disk.names (.target key) = some file →
    IsContentOf env key (disk.files file).content
  /-- The file a call made holds the bytes, but for the rest, and is under no key. -/
  made : ∀ id call file rest, calls id = some call → call.made = some (file, rest) →
    (disk.files file).content ++ rest = call.bytes ∧ file < disk.next ∧
      ∀ key, disk.names (.target key) ≠ some file
  distinct : ∀ id id' call call' file rest rest', calls id = some call →
    calls id' = some call' → call.made = some (file, rest) →
      call'.made = some (file, rest') → id = id'

section PutsInv

variable {env : StoreEnv} {disk disk' : Disk StorePath} {calls : ℕ → Option PutCall}
  {call : PutCall} {id : ℕ}

theorem PutsInv.update (h : PutsInv env disk calls) (id : ℕ) {next : Option PutCall}
    (hnext : ∀ call ∈ next, call.made = none ∨
      ∃ before, calls id = some before ∧ call.made = before.made ∧ call.bytes = before.bytes) :
    PutsInv env disk (Function.update calls id next) where
  complete := h.complete
  made := by
    intro other call file rest hcall hmade
    by_cases heq : other = id
    · subst heq
      rw [update_self] at hcall
      rcases hnext call hcall with hnone | ⟨before, hbefore, hsame, hbytes⟩
      · simp [hnone] at hmade
      · rw [hbytes]
        exact h.made other before file rest hbefore (hsame ▸ hmade)
    · rw [update_of_ne heq] at hcall
      exact h.made other call file rest hcall hmade
  distinct := by
    -- a call that goes on has the file it had
    have hback : ∀ other call file rest, Function.update calls id next other = some call →
        call.made = some (file, rest) →
          ∃ before, calls other = some before ∧ before.made = some (file, rest) := by
      intro other call file rest hcall hmade
      by_cases heq : other = id
      · subst heq
        rw [update_self] at hcall
        rcases hnext call hcall with hnone | ⟨before, hbefore, hsame, -⟩
        · simp [hnone] at hmade
        · exact ⟨before, hbefore, hsame ▸ hmade⟩
      · rw [update_of_ne heq] at hcall
        exact ⟨call, hcall, hmade⟩
    intro other other' call call' file rest rest' hcall hcall' hmade hmade'
    obtain ⟨before, hbefore, hfile⟩ := hback other call file rest hcall hmade
    obtain ⟨before', hbefore', hfile'⟩ := hback other' call' file rest' hcall' hmade'
    exact h.distinct other other' before before' file rest rest' hbefore hbefore' hfile hfile'

theorem PutsInv.create (h : PutsInv env disk calls) (call : PutCall) (id : ℕ) (now : Time) :
    PutsInv env (disk.create (call.temporary env) now)
      (Function.update calls id (some { call with stage := .writes disk.next call.bytes })) where
  complete := by
    intro key file hfile
    rw [Disk.names_create, update_of_ne (by simp [PutCall.temporary])] at hfile
    have hne : file ≠ disk.next := (disk.names_lt _ file hfile).ne
    rw [Disk.files_create, update_of_ne hne]
    exact h.complete key file hfile
  made := by
    intro other call' file rest hcall' hmade
    have htarget : ∀ key, (disk.create (call.temporary env) now).names (.target key) =
        disk.names (.target key) := by
      intro key
      rw [Disk.names_create, update_of_ne (by simp [PutCall.temporary])]
    simp only [htarget, Disk.files_create, Disk.next_create]
    by_cases heq : other = id
    · subst heq
      rw [update_self, Option.some.injEq] at hcall'
      subst hcall'
      obtain ⟨rfl, rfl⟩ := Prod.mk.inj (Option.some.inj hmade)
      exact ⟨by simp, by omega, fun key => disk.names_ne_next _⟩
    · rw [update_of_ne heq] at hcall'
      obtain ⟨hcontent, hlt, hnot⟩ := h.made other call' file rest hcall' hmade
      rw [update_of_ne hlt.ne]
      exact ⟨hcontent, by omega, hnot⟩
  distinct := by
    -- the file is new, so no other call made it
    have hnew : ∀ other call' file rest, other ≠ id →
        Function.update calls id (some { call with stage := .writes disk.next call.bytes }) other =
          some call' → call'.made = some (file, rest) → file < disk.next := by
      intro other call' file rest hne hcall' hmade
      rw [update_of_ne hne] at hcall'
      exact (h.made other call' file rest hcall' hmade).2.1
    intro other other' call' call'' file rest rest' hcall' hcall'' hmade hmade'
    by_cases heq : other = id <;> by_cases heq' : other' = id
    · exact heq.trans heq'.symm
    · subst heq
      rw [update_self, Option.some.injEq] at hcall'
      subst hcall'
      obtain ⟨rfl, -⟩ := Prod.mk.inj (Option.some.inj hmade)
      exact absurd (hnew other' call'' _ rest' heq' hcall'' hmade') (lt_irrefl _)
    · subst heq'
      rw [update_self, Option.some.injEq] at hcall''
      subst hcall''
      obtain ⟨rfl, -⟩ := Prod.mk.inj (Option.some.inj hmade')
      exact absurd (hnew other call' _ rest heq hcall' hmade) (lt_irrefl _)
    · rw [update_of_ne heq] at hcall'
      rw [update_of_ne heq'] at hcall''
      exact h.distinct other other' call' call'' file rest rest' hcall' hcall'' hmade hmade'

theorem PutsInv.append (h : PutsInv env disk calls) (hcall : calls id = some call) {file : ℕ}
    {rest : List UInt8} (hstage : call.stage = .writes file rest) (chunk : ℕ) (now : Time) :
    PutsInv env (disk.append file (rest.take chunk) now)
      (Function.update calls id (some { call with stage := .writes file (rest.drop chunk) })) := by
  have hmade : call.made = some (file, rest) := by simp [PutCall.made, hstage]
  obtain ⟨hcontent, hlt, hnot⟩ := h.made id call file rest hcall hmade
  have hback : ∀ other call' file' rest', Function.update calls id
      (some { call with stage := .writes file (rest.drop chunk) }) other = some call' →
        call'.made = some (file', rest') →
          ∃ before rest'', calls other = some before ∧ before.made = some (file', rest'') := by
    intro other call' file' rest' hcall' hmade'
    by_cases heq : other = id
    · subst heq
      rw [update_self, Option.some.injEq] at hcall'
      subst hcall'
      obtain ⟨rfl, -⟩ := Prod.mk.inj (Option.some.inj hmade')
      exact ⟨call, rest, hcall, hmade⟩
    · rw [update_of_ne heq] at hcall'
      exact ⟨call', rest', hcall', hmade'⟩
  refine ⟨?_, ?_, ?_⟩
  · intro key other hother
    have hne : other ≠ file := by
      rintro rfl
      exact hnot key hother
    rw [Disk.files_append_of_ne hne]
    exact h.complete key other hother
  · intro other call' file' rest' hcall' hmade'
    by_cases heq : other = id
    · subst heq
      rw [update_self, Option.some.injEq] at hcall'
      subst hcall'
      obtain ⟨rfl, rfl⟩ := Prod.mk.inj (Option.some.inj hmade')
      refine ⟨?_, hlt, hnot⟩
      rw [Disk.files_append_self, append_assoc, take_append_drop]
      exact hcontent
    · rw [update_of_ne heq] at hcall'
      have hne : file' ≠ file := by
        rintro rfl
        exact heq (h.distinct other id call' call file' rest' rest hcall' hcall hmade' hmade)
      rw [Disk.files_append_of_ne hne]
      exact h.made other call' file' rest' hcall' hmade'
  · intro other other' call' call'' file' rest' rest'' hcall' hcall'' hmade' hmade''
    obtain ⟨before, r, hbefore, hfile⟩ := hback other call' file' rest' hcall' hmade'
    obtain ⟨before', r', hbefore', hfile'⟩ := hback other' call'' file' rest'' hcall'' hmade''
    exact h.distinct other other' before before' file' r r' hbefore hbefore' hfile hfile'

theorem PutsInv.rename (h : PutsInv env disk calls) (hcall : calls id = some call) {file : ℕ}
    (hstage : call.stage = .renames file)
    (hown : disk.names (call.temporary env) = some file) :
    PutsInv env (disk.rename (call.temporary env) (call.target env))
      (Function.update calls id none) := by
  have hmade : call.made = some (file, []) := by simp [PutCall.made, hstage]
  obtain ⟨hcontent, hlt, hnot⟩ := h.made id call file [] hcall hmade
  have htarget : ∀ key, (disk.rename (call.temporary env) (call.target env)).names (.target key) =
      if key = call.key env then some file else disk.names (.target key) := by
    intro key
    rw [Disk.names_rename, hown]
    by_cases heq : key = call.key env
    · simp [PutCall.target, heq]
    · rw [update_of_ne (by simpa [PutCall.target] using heq),
        update_of_ne (by simp [PutCall.temporary]), if_neg heq]
  refine ⟨?_, ?_, ?_⟩
  · intro key other hother
    rw [htarget] at hother
    rw [Disk.files_rename]
    split at hother
    · rename_i hkey
      obtain rfl := Option.some.inj hother
      rw [append_nil] at hcontent
      exact ⟨call.extension, hcontent ▸ hkey.symm⟩
    · exact h.complete key other hother
  · intro other call' file' rest' hcall' hmade'
    have hne : other ≠ id := by
      rintro rfl
      simp at hcall'
    rw [update_of_ne hne] at hcall'
    obtain ⟨hcontent', hlt', hnot'⟩ := h.made other call' file' rest' hcall' hmade'
    refine ⟨hcontent', hlt', fun key hkey => ?_⟩
    rw [htarget] at hkey
    split at hkey
    · obtain rfl := Option.some.inj hkey
      exact hne (h.distinct other id call' call file rest' [] hcall' hcall hmade' hmade)
    · exact hnot' key hkey
  · exact (h.update id (by simp)).distinct

theorem PutsInv.unlink (h : PutsInv env disk calls) (key : String) (pid : ℕ) :
    PutsInv env (disk.unlink (.temporary key pid)) calls := by
  have htarget : ∀ key', (disk.unlink (.temporary key pid)).names (.target key') =
      disk.names (.target key') := by
    intro key'
    rw [Disk.names_unlink, update_of_ne (by simp)]
  refine ⟨fun key' file hfile => ?_, fun other call file rest hcall hmade => ?_, h.distinct⟩
  · exact h.complete key' file (htarget key' ▸ hfile)
  · simp only [htarget]
    exact h.made other call file rest hcall hmade

/-- **The next call to the file system** keeps it, where it takes nothing over. -/
theorem PutsInv.run (h : PutsInv env disk calls) (hcall : calls id = some call) {now : Time}
    {chunk : ℕ} (hown : ¬ call.TakesOver env disk) :
    PutsInv env (call.run env disk now chunk).1
      (Function.update calls id (call.run env disk now chunk).2.call) := by
  rw [PutCall.run]
  split
  · split
    · exact h.update id (by simp [PutOutcome.call])
    · exact h.update id (by simp [PutOutcome.call, PutCall.made])
  · split
    · exact h.update id (by simp [PutOutcome.call, PutCall.made])
    · exact h.create call id now
  · rename_i file hstage
    exact h.update id (by
      simp only [PutOutcome.call, mem_some_iff, forall_eq']
      exact .inr ⟨call, hcall, by simp [PutCall.made, hstage], rfl⟩)
  · rename_i file byte rest hstage
    exact h.append hcall hstage (chunk + 1) now
  · rename_i file hstage
    split
    · rename_i hthere
      obtain ⟨other, hother⟩ := isSome_iff_exists.mp hthere
      obtain rfl : other = file := by
        by_contra hne
        exact hown (by simpa [PutCall.TakesOver, hstage] using ⟨other, hother, hne⟩)
      exact h.rename hcall hstage hother
    · exact h.update id (by simp [PutOutcome.call, PutCall.made])
  · exact (h.update id (by simp [PutOutcome.call])).unlink _ _

end PutsInv

/-- A process with the digest of the one byte that is uploaded. -/
def exampleStore : StoreEnv where
  sha256Hex := fun _ => "4bf5122f344554c53bde2ebb8cd2b7e3d1600ad631c385a5d7cce23c7785459a"

def exampleKey : String := "4b/f5122f344554c53bde2ebb8cd2b7e3d1600ad631c385a5d7cce23c7785459a.bin"

end Sone
