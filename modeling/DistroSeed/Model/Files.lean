import Mathlib.Data.Finmap

/-! Directory trees and tar archives. -/

namespace DistroSeed

/-- A path below some directory, by its components. -/
abbrev Path := List String

/-- What is in a directory: every file with its content, and the directories that have
nothing in them. -/
structure Directory (Content : Type*) where
  files : Finmap fun _ : Path => Content
  emptyDirs : Finset Path
deriving DecidableEq

namespace Directory

variable {Content : Type*}

instance : EmptyCollection (Directory Content) := ⟨⟨∅, ∅⟩⟩

instance : Inhabited (Directory Content) := ⟨∅⟩

/-- `_has_entries`, and `find -mindepth 1`. -/
def hasEntries (directory : Directory Content) : Bool :=
  directory.files.keys ≠ ∅ || directory.emptyDirs ≠ ∅

/-- The content of a file. -/
def file (directory : Directory Content) (path : Path) : Option Content :=
  directory.files.lookup path

@[simp] theorem file_empty (path : Path) : (∅ : Directory Content).file path = none :=
  Finmap.lookup_empty path

/-- A directory without entries is the empty one. -/
theorem eq_empty_of_not_hasEntries {directory : Directory Content}
    (h : ¬ directory.hasEntries) : directory = ∅ := by
  obtain ⟨files, emptyDirs⟩ := directory
  obtain ⟨hkeys, hdirs⟩ : files.keys = ∅ ∧ emptyDirs = ∅ := by simpa [hasEntries] using h
  have hfiles : files = ∅ := by
    apply Finmap.ext_lookup
    intro path
    have hmem : path ∉ files := by
      rw [← Finmap.mem_keys, hkeys]
      exact Finset.notMem_empty path
    rw [Finmap.lookup_eq_none.mpr hmem, Finmap.lookup_empty]
  rw [hfiles, hdirs]
  rfl

end Directory

/-- `tar -cpf` and `tar -xpf`, as far as the build relies on them: an archive gives back the
tree that it was made of. -/
structure Tar (Content Archive : Type*) where
  create : Directory Content → Archive
  extract : Archive → Directory Content
  extract_create : ∀ directory, extract (create directory) = directory

/-- Archives that are the trees themselves. -/
def Tar.plain (Content : Type*) : Tar Content (Directory Content) := ⟨id, id, fun _ => rfl⟩

end DistroSeed
