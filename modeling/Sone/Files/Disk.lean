import Mathlib.Data.List.Dedup

/-!
# A disk: names and files

A directory entry names a file, and a file outlives its name while somebody writes to it: a
`Disk` keeps the names apart from the files. Its operations are the calls a program makes, one
at a time: `create` (exclusive), `append` to a file that is open, `rename`, `unlink`.

No two names are of one file, and every file that has a name was created; a `Disk` carries
both, so what a call does to one file shows under one path at most.
-/

namespace Sone

open Function

universe u

/-- What a file holds, and when it was last written. -/
structure DiskFile where
  content : List UInt8
  modifiedAt : ℕ
  deriving DecidableEq

/-- **A disk.** -/
structure Disk (Path : Type u) where
  /-- The file a path names. -/
  names : Path → Option ℕ
  files : ℕ → DiskFile
  /-- The number the next file gets. -/
  next : ℕ
  /-- The paths that name files are among these. -/
  paths : List Path
  names_lt : ∀ path file, names path = some file → file < next
  names_inj : ∀ path path' file, names path = some file → names path' = some file → path = path'
  names_mem : ∀ path file, names path = some file → path ∈ paths

namespace Disk

variable {Path : Type u} {disk : Disk Path} {path path' : Path}
  {file file' now : ℕ} {bytes : List UInt8}

def empty : Disk Path where
  names := fun _ => none
  files := fun _ => ⟨[], 0⟩
  next := 0
  paths := []
  names_lt := by simp
  names_inj := by simp
  names_mem := by simp

/-- `stat`, and the bytes a reader gets: the file a path names. -/
def lookup (disk : Disk Path) (path : Path) : Option DiskFile := (disk.names path).map disk.files

/-- A new file that has no name yet. -/
def allocate (disk : Disk Path) (now : ℕ) : Disk Path where
  names := disk.names
  files := Function.update disk.files disk.next ⟨[], now⟩
  next := disk.next + 1
  paths := disk.paths
  names_lt := fun path file h => Nat.lt_succ_of_lt (disk.names_lt path file h)
  names_inj := disk.names_inj
  names_mem := disk.names_mem

theorem names_ne_next (path : Path) : disk.names path ≠ some disk.next :=
  fun h => absurd (disk.names_lt path _ h) (Nat.lt_irrefl _)

/-- `write` to a file that is open. -/
def append (disk : Disk Path) (file : ℕ) (bytes : List UInt8) (now : ℕ) : Disk Path :=
  { disk with
    files := Function.update disk.files file ⟨(disk.files file).content ++ bytes, now⟩ }

@[simp] theorem names_append : (disk.append file bytes now).names = disk.names := rfl

@[simp] theorem next_append : (disk.append file bytes now).next = disk.next := rfl

@[simp] theorem files_append_self : (disk.append file bytes now).files file =
    ⟨(disk.files file).content ++ bytes, now⟩ := by
  simp [append]

@[simp] theorem files_append_of_ne (h : file' ≠ file) :
    (disk.append file bytes now).files file' = disk.files file' := by
  simp [append, h]

variable [DecidableEq Path]

/-- `readdir`: the paths that name a file, each once. -/
def inPlace (disk : Disk Path) : List Path :=
  (disk.paths.filter fun path => (disk.names path).isSome).dedup

theorem mem_inPlace : path ∈ disk.inPlace ↔ (disk.names path).isSome = true := by
  rw [inPlace, List.mem_dedup, List.mem_filter, and_iff_right_iff_imp]
  intro h
  obtain ⟨file, hfile⟩ := Option.isSome_iff_exists.mp h
  exact disk.names_mem path file hfile

/-- A path names another file, one that has no name yet, or none. -/
def setName (disk : Disk Path) (path : Path) (target : Option ℕ)
    (hfree : ∀ file ∈ target, file < disk.next ∧ ∀ other, disk.names other ≠ some file) :
    Disk Path where
  names := Function.update disk.names path target
  files := disk.files
  next := disk.next
  paths := path :: disk.paths
  names_lt := by
    intro other file h
    by_cases heq : other = path
    · subst heq
      rw [update_self] at h
      exact (hfree file h).1
    · rw [update_of_ne heq] at h
      exact disk.names_lt other file h
  names_inj := by
    intro p q file hp hq
    by_cases hpath : p = path <;> by_cases hpath' : q = path
    · exact hpath.trans hpath'.symm
    · subst hpath
      rw [update_self] at hp
      rw [update_of_ne hpath'] at hq
      exact absurd hq ((hfree file hp).2 q)
    · subst hpath'
      rw [update_self] at hq
      rw [update_of_ne hpath] at hp
      exact absurd hp ((hfree file hq).2 p)
    · rw [update_of_ne hpath] at hp
      rw [update_of_ne hpath'] at hq
      exact disk.names_inj p q file hp hq
  names_mem := by
    intro other file h
    by_cases heq : other = path
    · simp [heq]
    · rw [update_of_ne heq] at h
      exact List.mem_cons_of_mem _ (disk.names_mem other file h)

/-- `open` with `O_CREAT | O_EXCL`, where the path names nothing: an empty file. -/
def create (disk : Disk Path) (path : Path) (now : ℕ) : Disk Path :=
  (disk.allocate now).setName path (some disk.next) (by
    rintro file ⟨⟩
    exact ⟨Nat.lt_succ_self _, fun other => disk.names_ne_next other⟩)

/-- `unlink`: the path names nothing. -/
def unlink (disk : Disk Path) (path : Path) : Disk Path :=
  disk.setName path none (by simp)

/-- `rename`: the second path names the file the first did. -/
def rename (disk : Disk Path) (path path' : Path) : Disk Path :=
  (disk.unlink path).setName path' (disk.names path) (by
    refine fun file hfile => ⟨disk.names_lt path file hfile, fun other hother => ?_⟩
    by_cases heq : other = path
    · simp [unlink, setName, heq] at hother
    · refine heq (disk.names_inj other path file ?_ hfile)
      simpa [unlink, setName, update_of_ne heq] using hother)

/-! ### What the calls leave -/

@[simp] theorem names_create :
    (disk.create path now).names = Function.update disk.names path (some disk.next) := rfl

@[simp] theorem files_create :
    (disk.create path now).files = Function.update disk.files disk.next ⟨[], now⟩ := rfl

@[simp] theorem next_create : (disk.create path now).next = disk.next + 1 := rfl

@[simp] theorem names_unlink : (disk.unlink path).names = Function.update disk.names path none :=
  rfl

@[simp] theorem files_unlink : (disk.unlink path).files = disk.files := rfl

@[simp] theorem next_unlink : (disk.unlink path).next = disk.next := rfl

@[simp] theorem names_rename : (disk.rename path path').names =
    Function.update (Function.update disk.names path none) path' (disk.names path) := rfl

@[simp] theorem files_rename : (disk.rename path path').files = disk.files := rfl

@[simp] theorem next_rename : (disk.rename path path').next = disk.next := rfl

end Disk

end Sone
